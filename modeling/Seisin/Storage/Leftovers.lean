import Mathlib
import Seisin.Storage.Patches

/-!
# What a failed append leaves behind

An append that fails leaves the part of its record that was written past the end of the log.  The
log does not read it, and later records are written over it, but those may be shorter: when the log
is opened again, the scan goes on into what is left.
-/

namespace Seisin

open ByteString

namespace DatumLog

/-- An append that fails after `size` bytes: neither the end nor the index moves. -/
def failAppend (log : DatumLog) (kind : RecordKind) (id : DatumId) (n : ℕ) (body : Bytes)
    (size : ℕ) : DatumLog :=
  let written := (recordFrame kind id n body).take size
  { log with
    file := log.file.take log.endOffset ++ written ++
      log.file.drop (log.endOffset + written.length) }

/-- The bytes past the end of the log start with a record that a scan takes. -/
def Ghost (log : DatumLog) : Prop :=
  ∃ record, readRecordAt (log.file.drop log.endOffset) 0 (log.file.drop log.endOffset).length =
    some record ∧ (reindex log.index log.endOffset record).isSome

/-- The log with further bytes past its end. -/
def leaving (log : DatumLog) (rest : Bytes) : DatumLog := { log with file := log.file ++ rest }

end DatumLog

/-- An operation that succeeds, or an append that fails. -/
inductive FaultyStep where
  | op (op : LogOp)
  | fail (kind : RecordKind) (id : DatumId) (n : ℕ) (body : Bytes) (size : ℕ)

namespace DatumLog

def faultySystem (path : String) (fresh : Bytes) : Transition.System DatumLog FaultyStep where
  init := fun log => openFile path fresh [] = .ok log
  step := fun log label =>
    match label with
    | .op op => (log.applyOp path fresh op).map Prod.snd
    | .fail kind id n body size => some (log.failAppend kind id n body size)

/-- The operations that were acknowledged. -/
def acknowledged (labels : List FaultyStep) : List LogOp :=
  labels.filterMap fun label =>
    match label with
    | .op op => some op
    | .fail _ _ _ _ _ => none

/-- Records fit, and the log is opened again only where no record is left past its end. -/
def Unhaunted (log : DatumLog) : FaultyStep → Prop
  | .op op => log.RecordFits op ∧ (op = .reopen → ¬log.Ghost)
  | .fail _ _ _ _ _ => True

/-! ## Bytes past the end -/

/-- Records before the end do not depend on what comes after it. -/
theorem readRecordAt_append_eq {file : Bytes} {fileLen : ℕ} (closed : fileLen ≤ file.length)
    (after : Bytes) (offset : ℕ) :
    readRecordAt (file ++ after) offset fileLen = readRecordAt file offset fileLen := by
  unfold readRecordAt
  by_cases short : fileLen < offset + 4
  · rw [if_pos short, if_pos short]
  · have lengthSame : ((file ++ after).drop offset).take 4 = (file.drop offset).take 4 :=
      window_append after (by omega)
    rw [if_neg short, if_neg short, lengthSame]
    dsimp only
    split
    · rfl
    · rename_i complete
      rw [not_or, Nat.not_lt, Nat.not_lt] at complete
      rw [window_append after (by omega), window_append after (by omega)]

/-- A record past the end is read as if it stood at the start. -/
theorem readRecordAt_shift (before rest : Bytes) :
    readRecordAt (before ++ rest) before.length (before ++ rest).length =
      (readRecordAt rest 0 rest.length).map fun record =>
        { record with nextOffset := before.length + record.nextOffset } := by
  have drops : ∀ count, (before ++ rest).drop (before.length + count) = rest.drop count := by
    intro count
    rw [← List.drop_drop, List.drop_left]
  have start : (before ++ rest).drop before.length = rest := List.drop_left
  unfold readRecordAt
  simp only [List.length_append, start, List.drop_zero, Nat.add_assoc, drops, Nat.zero_add,
    Nat.add_lt_add_iff_left]
  split
  · rfl
  · split
    · rfl
    · split
      · rfl
      · rfl

theorem replay_append_eq {file : Bytes} {fileLen : ℕ} (closed : fileLen ≤ file.length)
    (after : Bytes) (offsets : List ℕ) (value : Bytes) :
    replay (file ++ after) fileLen offsets value = replay file fileLen offsets value := by
  induction offsets generalizing value with
  | nil => rfl
  | cons offset offsets ih => simp only [replay, readRecordAt_append_eq closed, ih]

theorem materialize_append_eq {file : Bytes} {fileLen : ℕ} (closed : fileLen ≤ file.length)
    (after : Bytes) (ref : LogRef) :
    materialize (file ++ after) fileLen ref = materialize file fileLen ref := by
  simp only [materialize, readRecordAt_append_eq closed, replay_append_eq closed]

variable {log clean : DatumLog} {path : String} {fresh : Bytes}

theorem leaving_append (closed : clean.Closed) (rest : Bytes) (kind : RecordKind) (id : DatumId)
    (n : ℕ) (body : Bytes) :
    (clean.leaving rest).append kind id n body = (clean.endOffset,
      (clean.append kind id n body).2.leaving
        (rest.drop (recordFrame kind id n body).length)) := by
  have ends : clean.endOffset = clean.file.length := closed.symm
  have front : (clean.file ++ rest).take clean.endOffset = clean.file := by
    rw [ends, List.take_left]
  have back : (clean.file ++ rest).drop
      (clean.endOffset + (recordFrame kind id n body).length) =
        rest.drop (recordFrame kind id n body).length := by
    rw [ends, ← List.drop_drop, List.drop_left]
  simp only [leaving, append_file closed]
  simp only [append, front, back]

theorem leaving_failAppend (closed : clean.Closed) (rest : Bytes) (kind : RecordKind)
    (id : DatumId) (n : ℕ) (body : Bytes) (size : ℕ) :
    ∃ left, (clean.leaving rest).failAppend kind id n body size = clean.leaving left := by
  have ends : clean.endOffset = clean.file.length := closed.symm
  have front : (clean.file ++ rest).take clean.endOffset = clean.file := by
    rw [ends, List.take_left]
  refine ⟨(recordFrame kind id n body).take size ++ (clean.file ++ rest).drop
    (clean.endOffset + ((recordFrame kind id n body).take size).length), ?_⟩
  simp only [failAppend, leaving, front, List.append_assoc]

theorem leaving_putFull (closed : clean.Closed) (rest : Bytes) (id : DatumId) (body : Bytes)
    (n : ℕ) : ∃ left,
      (clean.leaving rest).putFull id body n = (clean.putFull id body n).leaving left := by
  refine ⟨rest.drop (recordFrame .full id n body).length, ?_⟩
  simp only [putFull, leaving_append closed]
  rfl

theorem leaving_delete (closed : clean.Closed) (rest : Bytes) (id : DatumId) :
    ∃ left, (clean.leaving rest).delete id = (clean.delete id).leaving left := by
  refine ⟨rest.drop (recordFrame .tombstone id 0 []).length, ?_⟩
  simp only [delete, leaving_append closed]
  rfl

theorem leaving_putDelta (closed : clean.Closed) (rest : Bytes) (id : DatumId) (delta : Delta)
    (n : ℕ) : ∃ left, (clean.leaving rest).putDelta id delta n =
      (clean.putDelta id delta n).map fun result => (result.1, result.2.leaving left) := by
  have sameIndex : (clean.leaving rest).index = clean.index := rfl
  have sameRead : ∀ ref,
      materialize (clean.leaving rest).file (clean.leaving rest).endOffset ref =
        materialize clean.file clean.endOffset ref :=
    materialize_append_eq closed.ge rest
  simp only [putDelta, sameIndex, sameRead]
  cases clean.index.lookup id with
  | none => exact ⟨rest, rfl⟩
  | some ref =>
      cases long : rebases ref delta.encode.length with
      | false =>
          refine ⟨rest.drop (recordFrame .delta id n delta.encode).length, ?_⟩
          simp only [leaving_append closed, long, Bool.false_eq_true, if_false]
          rfl
      | true =>
          simp only [long, if_true]
          cases materialize clean.file clean.endOffset ref with
          | error message => exact ⟨rest, rfl⟩
          | ok current =>
              cases spliced : delta.apply current with
              | error message => exact ⟨rest, by simp only [spliced]; rfl⟩
              | ok value =>
                  rcases leaving_putFull closed rest id value n with ⟨left, same⟩
                  exact ⟨left, by simp only [spliced, same]; rfl⟩

/-- An operation other than opening does not see the bytes past the end. -/
theorem leaving_applyOp (closed : clean.Closed) (rest : Bytes) {op : LogOp} (stays : op ≠ .reopen)
    {reply : LogReply} {next : DatumLog}
    (applied : clean.applyOp path fresh op = some (reply, next)) :
    ∃ left, (clean.leaving rest).applyOp path fresh op = some (reply, next.leaving left) := by
  cases op with
  | putFull id body n =>
      cases applied
      rcases leaving_putFull closed rest id body n.toNat with ⟨left, same⟩
      exact ⟨left, by rw [applyOp, same]⟩
  | delete id =>
      cases applied
      rcases leaving_delete closed rest id with ⟨left, same⟩
      exact ⟨left, by rw [applyOp, same]⟩
  | reopen => exact absurd rfl stays
  | putDelta id delta n =>
      rcases leaving_putDelta closed rest id delta.1 n.toNat with ⟨left, same⟩
      simp only [applyOp, same] at applied ⊢
      cases patched : clean.putDelta id delta.1 n.toNat with
      | error message =>
          simp only [patched, Option.some.injEq, Prod.mk.injEq] at applied
          rcases applied with ⟨rfl, rfl⟩
          exact ⟨rest, rfl⟩
      | ok result =>
          simp only [patched, Option.some.injEq, Prod.mk.injEq] at applied
          rcases applied with ⟨rfl, rfl⟩
          exact ⟨left, rfl⟩

/-! ## Opening with bytes past the end -/

theorem lt_nextOffset {file : Bytes} {offset fileLen : ℕ} {record : RawRecord}
    (read : readRecordAt file offset fileLen = some record) : offset < record.nextOffset := by
  unfold readRecordAt at read
  split at read
  · cases read
  · dsimp only at read
    split at read
    · cases read
    · split at read
      · cases read
      · cases read
        dsimp only
        omega

theorem lt_length_of_read {file : Bytes} {offset fileLen : ℕ} {record : RawRecord}
    (read : readRecordAt file offset fileLen = some record) : offset < fileLen := by
  unfold readRecordAt at read
  split at read
  · cases read
  · omega

theorem le_recoverFrom (file : Bytes) (fileLen rounds offset : ℕ)
    (index : AList (fun _ : DatumId => LogRef)) :
    offset ≤ (recoverFrom file fileLen rounds offset index).1 := by
  induction rounds generalizing offset index with
  | zero => exact le_rfl
  | succ rounds ih =>
      unfold recoverFrom
      split
      · exact le_rfl
      · cases read : readRecordAt file offset fileLen with
        | none => exact le_rfl
        | some record =>
            dsimp only
            cases reindex index offset record with
            | none => exact le_rfl
            | some newIndex => exact (lt_nextOffset read).le.trans (ih record.nextOffset newIndex)

/-- What a record does to the index does not depend on where the next one starts. -/
theorem reindex_nextOffset (index : AList (fun _ : DatumId => LogRef)) (offset : ℕ)
    (record : RawRecord) (next : ℕ) :
    reindex index offset { record with nextOffset := next } = reindex index offset record := rfl

theorem stops_iff (closed : clean.Closed) (rest : Bytes) :
    Stops (clean.file ++ rest) clean.endOffset clean.index ↔ ¬(clean.leaving rest).Ghost := by
  have ends : clean.endOffset = clean.file.length := closed.symm
  have past : (clean.file ++ rest).drop clean.endOffset = rest := by rw [ends, List.drop_left]
  have shifted := readRecordAt_shift clean.file rest
  rw [closed] at shifted
  simp only [Stops, Ghost, leaving, past, shifted]
  constructor
  · rintro stops ⟨record, read, taken⟩
    have refused := stops _ (by rw [read]; rfl)
    rw [reindex_nextOffset] at refused
    rw [refused] at taken
    cases taken
  · intro unhaunted record read
    rcases Option.map_eq_some_iff.mp read with ⟨inner, readInner, rfl⟩
    rw [reindex_nextOffset]
    by_contra taken
    exact unhaunted ⟨inner, readInner, Option.isSome_iff_ne_none.mpr taken⟩

/-- The log opens as if nothing were past its end exactly if no record is. -/
theorem Consistent.openFile_leaving_iff (consistent : clean.Consistent) (path : String)
    (fresh rest : Bytes) :
    DatumLog.openFile path fresh (clean.file ++ rest) = .ok clean ↔
      ¬(clean.leaving rest).Ghost := by
  rw [← stops_iff consistent.closed]
  constructor
  · intro opened record read
    by_contra taken
    rcases Option.ne_none_iff_exists'.mp taken with ⟨index, reindexed⟩
    have further := lt_nextOffset read
    -- The scan goes past the record, so the log that opens ends after it.
    have scanned := consistent.scanned.append rest
    rcases scanned.recoverFrom with ⟨_, rounds, few, continues⟩
    have inside : clean.endOffset < (clean.file ++ rest).length := lt_length_of_read read
    rcases Nat.exists_eq_add_of_lt (show rounds < (clean.file ++ rest).length by omega) with
      ⟨more, enough⟩
    have loop := continues (more + 1)
    rw [← Nat.add_assoc, ← enough, DatumLog.recoverFrom, if_neg (by omega)] at loop
    simp only [read, reindexed] at loop
    have ends := le_recoverFrom (clean.file ++ rest) (clean.file ++ rest).length more
      record.nextOffset index
    rw [← loop] at ends
    rw [consistent.openFile_eq, Except.ok.injEq] at opened
    have sameEnd : (recoverFrom (clean.file ++ rest) (clean.file ++ rest).length
        (clean.file ++ rest).length headerLen ∅).1 = clean.endOffset :=
      congrArg DatumLog.endOffset opened
    omega
  · exact consistent.openFile_of_stops path fresh rest

/-! ## Runs with failed appends -/

theorem recordFits_of_leaving (closed : clean.Closed) {rest : Bytes} {op : LogOp}
    (fits : (clean.leaving rest).RecordFits op) : clean.RecordFits op := by
  cases op with
  | putFull id body n => exact fits
  | delete id => trivial
  | reopen => trivial
  | putDelta id delta n =>
      intro ref current new found long read spliced
      refine fits ref current new found long ?_ spliced
      exact (materialize_append_eq closed.ge rest ref).trans read

/-- A step takes a log with bytes past its end to one, and the log without them as the step's
operation takes it, if it was acknowledged. -/
theorem Consistent.step_leaving (consistent : clean.Consistent) (rest : Bytes)
    {label : FaultyStep} (unhaunted : (clean.leaving rest).Unhaunted label) :
    ∃ nextClean left, nextClean.Consistent ∧
      (faultySystem path fresh).step (clean.leaving rest) label = some (nextClean.leaving left) ∧
      (logSystem path fresh).exec clean (acknowledged [label]) = some nextClean := by
  cases label with
  | fail kind id n body size =>
      rcases leaving_failAppend consistent.closed rest kind id n body size with ⟨left, same⟩
      exact ⟨clean, left, consistent, congrArg some same, rfl⟩
  | op op =>
      rcases unhaunted with ⟨fits, noGhost⟩
      have cleanFits := recordFits_of_leaving consistent.closed fits
      rcases consistent.applyOp path fresh cleanFits with
        ⟨⟨reply, next⟩, applied, consistentNext⟩
      have acked : (logSystem path fresh).exec clean (acknowledged [.op op]) = some next := by
        change ((clean.applyOp path fresh op).map Prod.snd).bind some = some next
        rw [applied]
        rfl
      by_cases opens : op = .reopen
      · subst opens
        have opened := (consistent.openFile_leaving_iff path fresh rest).mpr (noGhost rfl)
        have reopened := consistent.reopen path fresh
        simp only [DatumLog.applyOp, reopened, Option.some.injEq, Prod.mk.injEq] at applied
        rcases applied with ⟨_, rfl⟩
        refine ⟨clean, [], consistent, ?_, acked⟩
        simp only [faultySystem, DatumLog.applyOp, leaving, opened, List.append_nil,
          Option.map_some]
      · rcases leaving_applyOp consistent.closed rest opens applied with ⟨left, leaves⟩
        refine ⟨next, left, consistentNext, ?_, acked⟩
        change ((clean.leaving rest).applyOp path fresh op).map Prod.snd = _
        rw [leaves]
        rfl

theorem acknowledged_cons (label : FaultyStep) (labels : List FaultyStep) :
    acknowledged (label :: labels) = acknowledged [label] ++ acknowledged labels :=
  List.filterMap_append (l := [label])

/-- Every step of the run is allowed in the state it starts from. -/
def AllUnhaunted (path : String) (fresh : Bytes) (start : DatumLog) (labels : List FaultyStep) :
    Prop :=
  ∀ front label back state, labels = front ++ label :: back →
    (faultySystem path fresh).exec start front = some state → state.Unhaunted label

theorem AllUnhaunted.tail {start next : DatumLog} {label : FaultyStep} {labels : List FaultyStep}
    (unhaunted : AllUnhaunted path fresh start (label :: labels))
    (stepped : (faultySystem path fresh).step start label = some next) :
    AllUnhaunted path fresh next labels := by
  intro front other back state split ran
  refine unhaunted (label :: front) other back state (congrArg (label :: ·) split) ?_
  simp only [Transition.System.exec, stepped, Option.bind_some, ran]

theorem Consistent.exec_leaving (consistent : clean.Consistent) (rest : Bytes)
    {labels : List FaultyStep} (unhaunted : AllUnhaunted path fresh (clean.leaving rest) labels) :
    ∃ final left, final.Consistent ∧
      (faultySystem path fresh).exec (clean.leaving rest) labels = some (final.leaving left) ∧
      (logSystem path fresh).exec clean (acknowledged labels) = some final := by
  induction labels generalizing clean rest with
  | nil => exact ⟨clean, rest, consistent, rfl, rfl⟩
  | cons label labels ih =>
      have first := unhaunted [] label labels _ rfl rfl
      rcases consistent.step_leaving rest first with ⟨next, left, kept, stepped, acked⟩
      rcases ih kept left (unhaunted.tail stepped) with ⟨final, last, keptFinal, ran, ackedRest⟩
      refine ⟨final, last, keptFinal, ?_, ?_⟩
      · simp only [Transition.System.exec, stepped, Option.bind_some, ran]
      · rw [acknowledged_cons, Transition.System.exec_append, acked, Option.bind_some, ackedRest]

/-- After any operations and failed appends on a new log, with records that fit and no record left
past the end where the log was opened before: the log opens as the acknowledged operations left it
exactly if what is past its end does not start with a record that a scan takes. -/
theorem reopened_as_acknowledged_iff (idLength : fresh.length = 16) {start : DatumLog}
    (opened : openFile path fresh [] = .ok start) {labels : List FaultyStep}
    (unhaunted : AllUnhaunted path fresh start labels) :
    ∃ clean final, (logSystem path fresh).exec start (acknowledged labels) = some clean ∧
      (faultySystem path fresh).exec start labels = some final ∧
      (openFile path fresh final.file = .ok clean ↔ ¬final.Ghost) := by
  rw [openFile_new path idLength, Except.ok.injEq] at opened
  have nothing : start.leaving [] = start := by
    simp only [leaving, List.append_nil]
  have consistent : start.Consistent := opened ▸ consistent_create idLength
  rw [← nothing] at unhaunted
  rcases consistent.exec_leaving [] unhaunted with ⟨clean, left, kept, ran, acked⟩
  rw [nothing] at ran
  exact ⟨clean, clean.leaving left, acked, ran, kept.openFile_leaving_iff path fresh left⟩

/-- Twenty bytes of a record are written before the append fails; a delete then takes twenty-seven
bytes from the same offset on. -/
def coveredRun : List FaultyStep := [.fail .full 1 1 [7, 7, 7] 20, .op (.delete 2)]

theorem reopened_as_acknowledged_iff_covered : ∃ clean final,
    (logSystem "log" zeroId).exec (create zeroId) [.delete 2] = some clean ∧
    (faultySystem "log" zeroId).exec (create zeroId) coveredRun = some final ∧
    openFile "log" zeroId final.file = .ok clean := by
  have unhaunted : AllUnhaunted "log" zeroId (create zeroId) coveredRun := by
    intro front label back state split _
    have labelMem : label ∈ coveredRun := split ▸ List.mem_append_right _ List.mem_cons_self
    simp only [coveredRun, List.mem_cons, List.not_mem_nil, or_false] at labelMem
    rcases labelMem with rfl | rfl
    · trivial
    · exact ⟨trivial, fun opens => absurd opens (by simp)⟩
  have idLength : zeroId.length = 16 := by decide
  rcases reopened_as_acknowledged_iff idLength (openFile_new "log" idLength) unhaunted with
    ⟨clean, final, acked, ran, opensIff⟩
  refine ⟨clean, final, acked, ran, opensIff.mpr ?_⟩
  have covered : ((faultySystem "log" zeroId).exec (create zeroId) coveredRun).map
      (fun log => log.file.drop log.endOffset) = some [] := by
    decide +kernel
  rw [ran, Option.map_some, Option.some.injEq] at covered
  rintro ⟨record, read, _⟩
  rw [covered] at read
  cases read

/-- The value of a failed write has the bytes of a record in it, at the offset where a delete's
record will end. -/
def hauntedRun : List FaultyStep :=
  [.fail .full 1 1 ([0, 0, 0, 0] ++ recordFrame .full 5 1 [9]) 55, .op (.delete 2)]

/-- Opened again, the log has a datum that was never acknowledged. -/
theorem leftover_replayed : ∃ start clean final opened,
    openFile "log" zeroId [] = .ok start ∧
    (logSystem "log" zeroId).exec start (acknowledged hauntedRun) = some clean ∧
    (faultySystem "log" zeroId).exec start hauntedRun = some final ∧
    openFile "log" zeroId final.file = .ok opened ∧ clean.get 5 = .ok none ∧
    opened.get 5 = .ok (some [9]) := by
  have observed : ((faultySystem "log" zeroId).exec (create zeroId) hauntedRun).map (fun final =>
      match openFile "log" zeroId final.file with
      | .error _ => none
      | .ok opened => (opened.get 5).toOption) = some (some (some [9])) := by
    decide +kernel
  rcases Option.map_eq_some_iff.mp observed with ⟨final, ran, seen⟩
  cases openedEq : openFile "log" zeroId final.file with
  | error message => simp only [openedEq, reduceCtorEq] at seen
  | ok opened =>
      simp only [openedEq] at seen
      refine ⟨create zeroId, (create zeroId).delete 2, final, opened,
        openFile_new "log" (by decide), rfl, ran, openedEq, rfl, ?_⟩
      exact Service.eq_ok_of_toOption seen

end DatumLog

end Seisin
