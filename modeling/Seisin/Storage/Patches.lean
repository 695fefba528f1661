import Mathlib
import Seisin.Lib.Transition
import Seisin.Storage.LogRefinement

/-!
# Deltas that do not apply

A delta that makes the log write its datum out in full is applied before anything is written; one
that is appended to the chain is not looked at until the datum is read.  So a delta that does not
apply is refused by the first and acknowledged by the second.
-/

namespace Seisin

namespace DatumLog

/-- The log under any operations, deltas that do not apply among them. -/
def logSystem (path : String) (fresh : Bytes) : Transition.System DatumLog LogOp where
  init := fun log => openFile path fresh [] = .ok log
  step := fun log op => (log.applyOp path fresh op).map Prod.snd

/-- The logs answer every read alike. -/
structure SameReads (first second : DatumLog) : Prop where
  get : ∀ id, first.get id = second.get id
  nOf : ∀ id, first.nOf id = second.nOf id
  listIds : ∀ after limit, first.listIds after limit = second.listIds after limit

theorem SameReads.refl (log : DatumLog) : log.SameReads log :=
  ⟨fun _ => rfl, fun _ => rfl, fun _ _ => rfl⟩

/-- A delta is refused and nothing is different, or it is applied to the bytes the datum had; both
so for the log and for the log opened again. -/
def AllOrNothing (path : String) (fresh : Bytes) (log : DatumLog) (id : DatumId)
    (delta : {delta : Delta // delta.Narrow}) (n : UInt16) : Prop :=
  ∃ reply next reopened, log.applyOp path fresh (.putDelta id delta n) = some (reply, next) ∧
    openFile path fresh next.file = .ok reopened ∧
    (((reply = .patched .needFull ∨ ∃ message, reply = .failed message) ∧ next.SameReads log ∧
        ∃ before, openFile path fresh log.file = .ok before ∧ reopened.SameReads before) ∨
      (reply = .patched .applied ∧ ∃ current new, log.get id = .ok (some current) ∧
        delta.1.apply current = .ok new ∧ next.get id = .ok (some new) ∧
        reopened.get id = .ok (some new)))

/-- A delta that is appended applies to what the datum reads as, and one that is written out in full
gives a value that fits a record. -/
structure DeltaSafe (log : DatumLog) (id : DatumId) (delta : Delta) : Prop where
  rewritten : log.ResultFits id delta
  appended : ∀ ref, log.index.lookup id = some ref → rebases ref delta.encode.length = false →
    ∃ current new, log.get id = .ok (some current) ∧ delta.apply current = .ok new

variable {log : DatumLog} {id : DatumId} {ref : LogRef} {path : String} {fresh : Bytes}

theorem get_eq_ok (found : log.index.lookup id = some ref) {value : Bytes} :
    log.get id = .ok (some value) ↔ materialize log.file log.endOffset ref = .ok value := by
  simp only [DatumLog.get, found]
  cases materialize log.file log.endOffset ref with
  | error message => simp
  | ok other => simp

/-- The value written out in full is read back, unless its length wraps. -/
theorem get_putFull (closed : log.Closed) (id : DatumId) {value : Bytes}
    (narrow : value.length < 2 ^ 32) (n : ℕ) :
    (log.putFull id value n).get id = .ok (some value) ↔ Fits value := by
  constructor
  · intro read
    by_contra outgrown
    rw [Fits, Nat.not_lt] at outgrown
    have found : (log.putFull id value n).index.lookup id =
        some ⟨log.endOffset, [], value.length % 2 ^ 32, 0, n⟩ := AList.lookup_insert _
    have unread := readRecordAt_outgrown log.file [] .full id n outgrown narrow
      (log.putFull id value n).endOffset
    rw [List.append_nil, ← append_file closed, show log.file.length = log.endOffset from closed]
      at unread
    change readRecordAt (log.putFull id value n).file _ _ = none at unread
    rw [get_eq_ok found, materialize, unread] at read
    cases read
  · intro fits
    exact (Holds.putFull closed id fits n).get

theorem Consistent.allOrNothing (consistent : log.Consistent)
    {delta : {delta : Delta // delta.Narrow}} {n : UInt16} {reply : LogReply} {next : DatumLog}
    (applied : log.applyOp path fresh (.putDelta id delta n) = some (reply, next))
    (fits : log.ResultFits id delta.1)
    (verdict : ((reply = .patched .needFull ∨ ∃ message, reply = .failed message) ∧ next = log) ∨
      (reply = .patched .applied ∧ ∃ current new, log.get id = .ok (some current) ∧
        delta.1.apply current = .ok new ∧ next.get id = .ok (some new))) :
    AllOrNothing path fresh log id delta n := by
  have recordFits : log.RecordFits (.putDelta id delta n) := fits
  rcases consistent.applyOp path fresh recordFits with ⟨result, again, consistentNext⟩
  rw [applied] at again
  cases again
  refine ⟨reply, next, next, applied, consistentNext.reopen path fresh, ?_⟩
  rcases verdict with ⟨refused, rfl⟩ | ⟨isApplied, current, new, had, spliced, reads⟩
  · exact Or.inl ⟨refused, .refl _, next, consistent.reopen path fresh, .refl _⟩
  · exact Or.inr ⟨isApplied, current, new, had, spliced, reads, reads⟩

/-- A rewritten chain ends in a value of the declared length. -/
theorem applyOp_rewritten (path : String) (fresh : Bytes)
    (found : log.index.lookup id = some ref) {delta : {delta : Delta // delta.Narrow}}
    (long : rebases ref delta.1.encode.length = true) {current new : Bytes}
    (read : materialize log.file log.endOffset ref = .ok current)
    (spliced : delta.1.apply current = .ok new) (n : UInt16) :
    log.applyOp path fresh (.putDelta id delta n) =
        some (.patched .applied, log.putFull id new n.toNat) ∧ new.length < 2 ^ 32 := by
  constructor
  · simp only [DatumLog.applyOp, DatumLog.putDelta, found, long, if_true, read, spliced]
  · rw [← (Delta.apply_length spliced).1]
    exact delta.2.total

/-- A chain is extended without a look at the delta. -/
theorem applyOp_appended (path : String) (fresh : Bytes)
    (found : log.index.lookup id = some ref) {delta : {delta : Delta // delta.Narrow}}
    (short : rebases ref delta.1.encode.length = false)
    (n : UInt16) :
    ∃ next, log.applyOp path fresh (.putDelta id delta n) = some (.patched .applied, next) ∧
      (log.Consistent → ∀ current, log.get id = .ok (some current) → ∀ new,
        delta.1.apply current = .ok new → next.get id = .ok (some new)) := by
  have applied : log.applyOp path fresh (.putDelta id delta n) = some (.patched .applied,
      { (log.append .delta id n.toNat delta.1.encode).2 with
        index := log.index.insert id ⟨ref.baseOffset, ref.deltas ++ [log.endOffset],
          delta.1.newTotalLen, (ref.deltaBytes + delta.1.encode.length) % 2 ^ 32, n.toNat⟩ }) := by
    simp only [DatumLog.applyOp, DatumLog.putDelta, found, short, Bool.false_eq_true, if_false]
    rfl
  refine ⟨_, applied, ?_⟩
  intro consistent current had new spliced
  rw [get_eq_ok found] at had
  rcases (consistent.bounded id ref found).fits_delta short with ⟨fitsDelta, middle, _⟩
  have decodes := Delta.decode_encode delta.2.front delta.2.back delta.2.total middle
  have read := materialize_appended consistent.closed had decodes fitsDelta id n.toNat
    delta.1.newTotalLen ((ref.deltaBytes + delta.1.encode.length) % 2 ^ 32)
  rw [spliced] at read
  exact (get_eq_ok (AList.lookup_insert _)).mpr read

theorem Consistent.allOrNothing_of_safe (consistent : log.Consistent)
    {delta : {delta : Delta // delta.Narrow}} (safe : log.DeltaSafe id delta.1) (n : UInt16) :
    AllOrNothing path fresh log id delta n := by
  cases found : log.index.lookup id with
  | none =>
      refine consistent.allOrNothing ?_ safe.rewritten (Or.inl ⟨Or.inl rfl, rfl⟩)
      simp only [DatumLog.applyOp, DatumLog.putDelta, found]
  | some ref =>
      cases long : rebases ref delta.1.encode.length with
      | false =>
          rcases safe.appended ref found long with ⟨current, new, had, spliced⟩
          rcases applyOp_appended path fresh found long n with ⟨next, applied, reads⟩
          exact consistent.allOrNothing applied safe.rewritten
            (Or.inr ⟨rfl, current, new, had, spliced, reads consistent current had new spliced⟩)
      | true =>
          cases read : materialize log.file log.endOffset ref with
          | error message =>
              refine consistent.allOrNothing ?_ safe.rewritten
                (Or.inl ⟨Or.inr ⟨message, rfl⟩, rfl⟩)
              simp only [DatumLog.applyOp, DatumLog.putDelta, found, long, if_true, read]
          | ok current =>
              cases spliced : delta.1.apply current with
              | error message =>
                  refine consistent.allOrNothing ?_ safe.rewritten
                    (Or.inl ⟨Or.inr ⟨message, rfl⟩, rfl⟩)
                  simp only [DatumLog.applyOp, DatumLog.putDelta, found, long, if_true, read,
                    spliced]
              | ok new =>
                  rcases applyOp_rewritten path fresh found long read spliced n with
                    ⟨applied, narrow⟩
                  have fits := safe.rewritten ref current new found long read spliced
                  exact consistent.allOrNothing applied safe.rewritten (Or.inr ⟨rfl, current, new,
                    (get_eq_ok found).mpr read, spliced,
                    (get_putFull consistent.closed id narrow n.toNat).mpr fits⟩)

theorem safe_of_allOrNothing (closed : log.Closed) {delta : {delta : Delta // delta.Narrow}}
    {n : UInt16} (holds : AllOrNothing path fresh log id delta n) : log.DeltaSafe id delta.1 := by
  rcases holds with ⟨reply, next, reopened, applied, _, verdict⟩
  -- Where the delta is acknowledged only the second half of the verdict is left.
  have acknowledged : reply = .patched .applied → ∃ current new, log.get id = .ok (some current) ∧
      delta.1.apply current = .ok new ∧ next.get id = .ok (some new) := by
    rintro rfl
    rcases verdict with ⟨refused, _⟩ | ⟨_, current, new, had, spliced, reads, _⟩
    · rcases refused with same | ⟨message, same⟩ <;> cases same
    · exact ⟨current, new, had, spliced, reads⟩
  constructor
  · intro ref current new found long read spliced
    rcases applyOp_rewritten path fresh found long read spliced n with
      ⟨again, narrow⟩
    rw [applied] at again
    cases again
    rcases acknowledged rfl with ⟨same, value, had, splicedSame, reads⟩
    rw [get_eq_ok found, read, Except.ok.injEq] at had
    subst had
    rw [spliced, Except.ok.injEq] at splicedSame
    subst splicedSame
    exact (get_putFull closed id narrow n.toNat).mp reads
  · intro ref found short
    rcases applyOp_appended path fresh found short n with ⟨other, again, _⟩
    rw [applied] at again
    cases again
    rcases acknowledged rfl with ⟨current, new, had, spliced, _⟩
    exact ⟨current, new, had, spliced⟩

/-- In every log reached by operations whose records fit their length fields, deltas that do not
apply among them: a delta is refused without a trace or applied to the bytes the datum has, also
after the log is opened again, exactly if it is not appended where it does not apply, and does not
make the log write a value that fits no record. -/
theorem put_delta_all_or_nothing_iff (idLength : fresh.length = 16)
    (reached : (logSystem path fresh).ReachableVia RecordFits log)
    (delta : {delta : Delta // delta.Narrow}) (n : UInt16) :
    AllOrNothing path fresh log id delta n ↔ log.DeltaSafe id delta.1 := by
  have consistent : log.Consistent := by
    refine reached.induction ?_ ?_
    · intro start opened
      have isNew : openFile path fresh [] = .ok start := opened
      rw [openFile_new path idLength, Except.ok.injEq] at isNew
      rw [← isNew]
      exact consistent_create idLength
    · intro state op next kept fits stepped
      rcases Option.map_eq_some_iff.mp stepped with ⟨result, applied, rfl⟩
      rcases kept.applyOp path fresh fits with ⟨again, sameResult, consistentNext⟩
      rw [applied] at sameResult
      cases sameResult
      exact consistentNext
  exact ⟨safe_of_allOrNothing consistent.closed, fun safe => consistent.allOrNothing_of_safe safe n⟩

/-- A log with forty bytes for datum 1. -/
def fortyBytes : DatumLog := (create zeroId).putFull 1 (List.replicate 40 7) 2

theorem fortyBytes_reached : (logSystem "log" zeroId).ReachableVia RecordFits fortyBytes := by
  refine ⟨create zeroId, openFile_new "log" (by decide), .tail (.putFull 1 (List.replicate 40 7) 2)
    (.refl _) ?_ rfl⟩
  exact (by decide : Fits (List.replicate 40 7))

theorem get_fortyBytes : fortyBytes.get 1 = .ok (some (List.replicate 40 7)) :=
  (Holds.putFull (consistent_create (by decide : zeroId.length = 16)).closed 1 (by decide) 2).get

theorem lookup_fortyBytes : fortyBytes.index.lookup 1 = some ⟨22, [], 40, 0, 2⟩ := rfl

/-- A byte is added at the end. -/
theorem put_delta_all_or_nothing_iff_extended : AllOrNothing "log" zeroId fortyBytes 1
    ⟨⟨40, 0, [8], 41⟩, by decide, by decide, by decide⟩ 2 := by
  refine (put_delta_all_or_nothing_iff (by decide) fortyBytes_reached _ 2).mpr ⟨?_, ?_⟩
  · intro ref current new found long
    rw [lookup_fortyBytes, Option.some.injEq] at found
    subst found
    exact absurd long (by decide)
  · intro ref _ _
    exact ⟨List.replicate 40 7, List.replicate 40 7 ++ [8], get_fortyBytes, by decide⟩

/-- A delta for a hundred bytes is appended to a datum of forty. -/
theorem misfit_acknowledged : (logSystem "log" zeroId).ReachableVia RecordFits fortyBytes ∧
    ¬AllOrNothing "log" zeroId fortyBytes 1
      ⟨⟨100, 0, [], 100⟩, by decide, by decide, by decide⟩ 2 := by
  refine ⟨fortyBytes_reached, ?_⟩
  intro holds
  have closed : fortyBytes.Closed :=
    (consistent_create (by decide : zeroId.length = 16)).closed.append .full 1 2
      (List.replicate 40 7)
  rcases (safe_of_allOrNothing closed holds).appended _ lookup_fortyBytes (by decide) with
    ⟨current, new, had, spliced⟩
  rw [get_fortyBytes, Except.ok.injEq, Option.some.injEq] at had
  subst had
  cases spliced

end DatumLog

end Seisin
