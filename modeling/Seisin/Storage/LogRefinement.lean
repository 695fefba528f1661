import Seisin.Lib.Service
import Seisin.Storage.Recovery
import Seisin.Storage.Server

/-!
# The datum log as a map

The log is used through writes in full, deltas and deletes, and may be closed and opened again at
any point.  Whatever the order of these, it stands for the finite map that the same operations give,
and a crash in the middle of an append loses no more than the record being appended.
-/

namespace Seisin

open ByteString

inductive LogOp where
  | putFull (id : DatumId) (bytes : Bytes) (n : UInt16)
  | putDelta (id : DatumId) (delta : {delta : Delta // delta.Narrow}) (n : UInt16)
  | delete (id : DatumId)
  | reopen

inductive LogReply where
  | done
  | patched (outcome : PatchOutcome)
  | failed (message : String)
  deriving DecidableEq

namespace DatumLog

/-- An operation on the log.  A delta that fails leaves the log as it is, a log that does not open
is gone. -/
def applyOp (path : String) (fresh : Bytes) (log : DatumLog) :
    LogOp → Option (LogReply × DatumLog)
  | .putFull id bytes n => some (.done, log.putFull id bytes n.toNat)
  | .putDelta id delta n =>
      match log.putDelta id delta.1 n.toNat with
      | .ok (outcome, next) => some (.patched outcome, next)
      | .error message => some (.failed message, log)
  | .delete id => some (.done, log.delete id)
  | .reopen =>
      match openFile path fresh log.file with
      | .ok opened => some (.done, opened)
      | .error _ => none

end DatumLog

/-- The operation on the map: nothing where a value does not fit a record or a delta does not apply
to the value it is for. -/
def Content.applyOp (content : Content) : LogOp → Option (LogReply × Content)
  | .putFull id bytes n =>
      if DatumLog.Fits bytes then some (.done, content.insert id (bytes, n.toNat)) else none
  | .putDelta id delta n =>
      match content.lookup id with
      | none => some (.patched .needFull, content)
      | some (current, _) =>
          match delta.1.apply current with
          | .error _ => none
          | .ok new =>
              if DatumLog.Fits new then some (.patched .applied, content.insert id (new, n.toNat))
              else none
  | .delete id => some (.done, content.erase id)
  | .reopen => some (.done, content)

/-! ## Listings -/

/-- Indexes that agree on which ids they have and with which factor are listed alike. -/
theorem indexedIds_congr {First Second : Type} {first : AList (fun _ : DatumId => First)}
    {second : AList (fun _ : DatumId => Second)} {factor : First → ℕ} {otherFactor : Second → ℕ}
    (same : ∀ id, (first.lookup id).map factor = (second.lookup id).map otherFactor) :
    first.keys.Perm second.keys ∧ ∀ after limit,
      indexedIds first factor after limit = indexedIds second otherFactor after limit := by
  have perm : first.keys.Perm second.keys := by
    apply (List.perm_ext_iff_of_nodup first.keys_nodup second.keys_nodup).mpr
    intro id
    have present : ((first.lookup id).map factor).isSome =
        ((second.lookup id).map otherFactor).isSome := by rw [same id]
    rw [Option.isSome_map, Option.isSome_map] at present
    rw [← AList.mem_keys, ← AList.mem_keys, ← AList.lookup_isSome, ← AList.lookup_isSome, present]
  refine ⟨perm, ?_⟩
  intro after limit
  simp only [indexedIds, same]
  congr 2
  apply List.Perm.eq_of_pairwise' (List.pairwise_insertionSort _ _)
    (List.pairwise_insertionSort _ _)
  exact (List.perm_insertionSort _ _).trans
    ((perm.filter _).trans (List.perm_insertionSort _ _).symm)

/-! ## The refinement -/

namespace DatumLog

/-- The log is one that recovers as it is and holds what the map says. -/
structure Stores (log : DatumLog) (content : Content) : Prop where
  consistent : log.Consistent
  holds : ∀ id, log.Holds id (content.lookup id)

variable {log : DatumLog} {content : Content} {path : String} {fresh : Bytes}

theorem stores_create (idLength : fresh.length = 16) : (create fresh).Stores ∅ :=
  ⟨consistent_create idLength, fun _ => ⟨fun _ => rfl, nofun⟩⟩

theorem Stores.putFull (stores : log.Stores content) (id : DatumId) {bytes : Bytes}
    (fits : Fits bytes) (n : UInt16) :
    (log.putFull id bytes n.toNat).Stores (content.insert id (bytes, n.toNat)) := by
  refine ⟨stores.consistent.putFull id fits n.toNat_lt, ?_⟩
  intro other
  by_cases same : other = id
  · rw [same, AList.lookup_insert]
    exact .putFull stores.consistent.closed id fits n.toNat
  · rw [AList.lookup_insert_ne same]
    exact (stores.holds other).putFull_other stores.consistent.closed same bytes n.toNat

theorem Stores.delete (stores : log.Stores content) (id : DatumId) :
    (log.delete id).Stores (content.erase id) := by
  refine ⟨stores.consistent.delete id, ?_⟩
  intro other
  by_cases same : other = id
  · rw [same, AList.lookup_erase]
    exact .delete log id
  · rw [AList.lookup_erase_ne same]
    exact (stores.holds other).delete_other stores.consistent.closed same

theorem Stores.putDelta_absent (stores : log.Stores content) {id : DatumId}
    (absent : content.lookup id = none) (delta : Delta) (n : ℕ) :
    log.putDelta id delta n = .ok (.needFull, log) := by
  have missing := (stores.holds id).absent absent
  simp only [DatumLog.putDelta, missing]

theorem Stores.putDelta (stores : log.Stores content) {id : DatumId} {old new : Bytes}
    {before : ℕ} (present : content.lookup id = some (old, before)) {delta : Delta}
    (narrow : delta.Narrow) (spliced : delta.apply old = .ok new) (fits : Fits new) (n : UInt16) :
    ∃ next, log.putDelta id delta n.toNat = .ok (.applied, next) ∧
      next.Stores (content.insert id (new, n.toNat)) := by
  have closed := stores.consistent.closed
  rcases Delta.apply_length spliced with ⟨total, parts⟩
  have middle : delta.middle.length < 2 ^ 32 := by
    unfold Fits at fits
    omega
  have held := stores.holds id
  rw [present] at held
  have fitsDelta : ∀ ref, log.index.lookup id = some ref →
      rebases ref delta.encode.length = false → Fits delta.encode :=
    fun ref found short => ((stores.consistent.bounded id ref found).fits_delta short).1
  rcases held.putDelta closed spliced
    (Delta.decode_encode narrow.front narrow.back narrow.total middle) fitsDelta total fits n.toNat
    with ⟨next, patched, holds⟩
  have consistent : next.Consistent :=
    stores.consistent.putDelta narrow (resultFits_of_total (total ▸ fits)) n.toNat_lt patched
  refine ⟨next, patched, consistent, ?_⟩
  intro other
  by_cases same : other = id
  · rw [same, AList.lookup_insert]
    exact holds
  · rw [AList.lookup_insert_ne same]
    exact (stores.holds other).putDelta_other closed same patched

theorem Consistent.reopen (consistent : log.Consistent) (path : String) (fresh : Bytes) :
    DatumLog.openFile path fresh log.file = .ok log := by
  have opened := consistent.openFile path fresh [] (Or.inl rfl)
  rwa [List.append_nil] at opened

/-- The log answers an operation that the map has an answer for, and answers alike. -/
theorem Stores.applyOp (stores : log.Stores content) (path : String) (fresh : Bytes) {op : LogOp}
    {outcome : LogReply × Content} (defined : content.applyOp op = some outcome) :
    ∃ result, log.applyOp path fresh op = some result ∧ Service.Agree Stores result outcome := by
  cases op with
  | putFull id bytes n =>
      simp only [Content.applyOp, Option.ite_none_right_eq_some, Option.some.injEq] at defined
      rcases defined with ⟨fits, rfl⟩
      exact ⟨_, rfl, rfl, stores.putFull id fits n⟩
  | putDelta id delta n =>
      simp only [Content.applyOp] at defined
      cases found : content.lookup id with
      | none =>
          simp only [found, Option.some.injEq] at defined
          subst defined
          refine ⟨(.patched .needFull, log), ?_, rfl, stores⟩
          simp only [DatumLog.applyOp, stores.putDelta_absent found]
      | some entry =>
          rcases entry with ⟨current, before⟩
          simp only [found] at defined
          cases spliced : delta.1.apply current with
          | error message => simp [spliced] at defined
          | ok new =>
              simp only [spliced, Option.ite_none_right_eq_some, Option.some.injEq] at defined
              rcases defined with ⟨fits, rfl⟩
              rcases stores.putDelta found delta.2 spliced fits n with ⟨next, patched, storesNext⟩
              refine ⟨(.patched .applied, next), ?_, rfl, storesNext⟩
              simp only [DatumLog.applyOp, patched]
  | delete id =>
      simp only [Content.applyOp, Option.some.injEq] at defined
      subst defined
      exact ⟨_, rfl, rfl, stores.delete id⟩
  | reopen =>
      simp only [Content.applyOp, Option.some.injEq] at defined
      subst defined
      refine ⟨(.done, log), ?_, rfl, stores⟩
      simp only [DatumLog.applyOp, stores.consistent.reopen path fresh]

/-- What the log answers to reads is what the map has. -/
structure Reads (log : DatumLog) (content : Content) : Prop where
  get : ∀ id, log.get id = .ok ((content.lookup id).map Prod.fst)
  nOf : ∀ id, log.nOf id = (content.lookup id).map Prod.snd
  listIds : ∀ after limit, log.listIds after limit = content.listIds after limit
  len : log.len = content.keys.length

theorem Stores.reads (stores : log.Stores content) : log.Reads content := by
  have same : ∀ id, (log.index.lookup id).map LogRef.n = (content.lookup id).map Prod.snd :=
    fun id => (stores.holds id).nOf
  rcases indexedIds_congr same with ⟨perm, listed⟩
  exact ⟨fun id => (stores.holds id).get, fun id => (stores.holds id).nOf, listed, perm.length_eq⟩

/-- Every sequence of operations on a new log that the map has answers for is answered alike, and
leaves a log that reads as the map, refuses deltas for absent datums, keeps its chains short and
opens again as it is. -/
theorem refines_map (path : String) {fresh : Bytes} (idLength : fresh.length = 16)
    {ops : List LogOp} {replies : List LogReply} {content : Content}
    (defined : Service.run Content.applyOp ∅ ops = some (replies, content)) :
    ∃ start log, openFile path fresh [] = .ok start ∧
      Service.run (applyOp path fresh) start ops = some (replies, log) ∧ log.Reads content ∧
      (∀ id delta n, content.lookup id = none →
        log.putDelta id delta n = .ok (.needFull, log)) ∧
      (∀ id ref, log.index.lookup id = some ref → ref.deltas.length ≤ maxDeltaChain) ∧
      openFile path fresh log.file = .ok log := by
  have simulates : ∀ op ∈ ops, ∀ (log : DatumLog) (content : Content) outcome,
      log.Stores content → content.applyOp op = some outcome →
      ∃ result, log.applyOp path fresh op = some result ∧ Service.Agree Stores result outcome :=
    fun _ _ _ _ _ stores => stores.applyOp path fresh
  rcases Service.run_refines simulates (stores_create idLength) defined with
    ⟨⟨_, log⟩, ran, rfl, stores⟩
  refine ⟨create fresh, log, openFile_new path idLength, ran, stores.reads, ?_, ?_, ?_⟩
  · exact fun id delta n absent => stores.putDelta_absent absent delta n
  · exact fun id ref found => (stores.consistent.bounded id ref found).chain
  · exact stores.consistent.reopen path fresh

def zeroId : Bytes := List.replicate 16 0

/-- A delta that is appended and one that rebases, a refused one, a delete and two reopens. -/
def sampleOps : List LogOp :=
  [.putFull 1 (List.replicate 40 7) 2, .putFull 2 [5] 1,
    .putDelta 1 ⟨⟨40, 0, [8], 41⟩, by decide, by decide, by decide⟩ 2, .reopen,
    .putDelta 2 ⟨⟨1, 0, [6], 2⟩, by decide, by decide, by decide⟩ 3,
    .putDelta 3 ⟨⟨0, 0, [], 0⟩, by decide, by decide, by decide⟩ 1, .delete 1, .reopen]

theorem refines_map_sample : ∃ start log, openFile "log" zeroId [] = .ok start ∧
    Service.run (applyOp "log" zeroId) start sampleOps =
      some ([.done, .done, .patched .applied, .done, .patched .applied, .patched .needFull,
        .done, .done], log) ∧
    log.get 2 = .ok (some [5, 6]) ∧ log.listIds none 9 = [(2, 3)] ∧
    openFile "log" zeroId log.file = .ok log := by
  have observed : (Service.run Content.applyOp ∅ sampleOps).map (fun result =>
      (result.1, (result.2.lookup 2).map (fun entry : Bytes × ℕ => entry.1),
        result.2.listIds none 9)) =
      some ([.done, .done, .patched .applied, .done, .patched .applied, .patched .needFull,
        .done, .done], some [5, 6], [(2, 3)]) := by
    decide +kernel
  rcases Option.map_eq_some_iff.mp observed with ⟨⟨replies, content⟩, defined, seen⟩
  simp only [Prod.mk.injEq] at seen
  rcases seen with ⟨rfl, found, listed⟩
  rcases refines_map "log" (by decide : zeroId.length = 16) defined with
    ⟨start, log, opened, ran, reads, _, _, reopened⟩
  refine ⟨start, log, opened, ran, ?_, (reads.listIds none 9).trans listed, reopened⟩
  exact (reads.get 2).trans (congrArg Except.ok found)

/-! ## Torn tails -/

/-- An operation that gives its datum a value whose full record fits the 32-bit length field. -/
def FitsRecord : LogOp → Prop
  | .putFull _ bytes _ => Fits bytes
  | .putDelta _ delta _ => 19 + delta.1.newTotalLen < 2 ^ 32
  | .delete _ | .reopen => True

/-- What an operation writes in full fits a record. -/
def RecordFits (log : DatumLog) : LogOp → Prop
  | .putFull _ bytes _ => Fits bytes
  | .putDelta id delta _ => log.ResultFits id delta.1
  | .delete _ | .reopen => True

theorem FitsRecord.recordFits {op : LogOp} (fits : FitsRecord op) (log : DatumLog) :
    log.RecordFits op := by
  cases op with
  | putFull id bytes n => exact fits
  | putDelta id delta n => exact resultFits_of_total fits
  | delete id => trivial
  | reopen => trivial

theorem Consistent.applyOp (consistent : log.Consistent) (path : String) (fresh : Bytes)
    {op : LogOp} (fits : log.RecordFits op) :
    ∃ result, log.applyOp path fresh op = some result ∧ result.2.Consistent := by
  cases op with
  | putFull id bytes n => exact ⟨_, rfl, consistent.putFull id fits n.toNat_lt⟩
  | putDelta id delta n =>
      simp only [DatumLog.applyOp]
      cases patched : log.putDelta id delta.1 n.toNat with
      | error message => exact ⟨_, rfl, consistent⟩
      | ok result => exact ⟨_, rfl, consistent.putDelta delta.2 fits n.toNat_lt patched⟩
  | delete id => exact ⟨_, rfl, consistent.delete id⟩
  | reopen =>
      refine ⟨(.done, log), ?_, consistent⟩
      simp only [DatumLog.applyOp, consistent.reopen path fresh]

theorem Consistent.run (consistent : log.Consistent) (path : String) (fresh : Bytes)
    {ops : List LogOp} (fits : ∀ op ∈ ops, FitsRecord op) :
    ∃ result, Service.run (DatumLog.applyOp path fresh) log ops = some result ∧
      result.2.Consistent :=
  Service.run_total (fun op opMem log => fun kept =>
    kept.applyOp path fresh ((fits op opMem).recordFits log)) consistent

/-- With `torn` after the records of `ops`, the log opens as the one that `ops` left, and after
further operations and another opening it is the one that all the operations leave. -/
def RecoversTorn (path : String) (fresh : Bytes) (ops : List LogOp) (torn : Bytes)
    (later : List LogOp) : Prop :=
  ∃ start replies log, openFile path fresh [] = .ok start ∧
    Service.run (applyOp path fresh) start ops = some (replies, log) ∧
    openFile path fresh (log.file ++ torn) = .ok log ∧
    ∃ laterReplies final, Service.run (applyOp path fresh) log later = some (laterReplies, final) ∧
      Service.run (applyOp path fresh) start (ops ++ later) =
        some (replies ++ laterReplies, final) ∧
      openFile path fresh final.file = .ok final

/-- A log is recovered from any cut in the middle of a record, as long as the values it was given
fit their records. -/
theorem recovers_torn (path : String) {fresh : Bytes} (idLength : fresh.length = 16)
    {ops later : List LogOp} (fits : ∀ op ∈ ops ++ later, FitsRecord op) (kind : RecordKind)
    (id : DatumId) (n : ℕ) {body : Bytes} (fitsBody : Fits body) {size : ℕ}
    (cut : size < (recordFrame kind id n body).length) :
    RecoversTorn path fresh ops ((recordFrame kind id n body).take size) later := by
  rcases (consistent_create idLength).run path fresh
    (fun op opMem => fits op (List.mem_append_left _ opMem)) with ⟨⟨replies, log⟩, ran, consistent⟩
  rcases consistent.run path fresh (fun op opMem => fits op (List.mem_append_right _ opMem)) with
    ⟨⟨laterReplies, final⟩, ranLater, consistentFinal⟩
  refine ⟨create fresh, replies, log, openFile_new path idLength, ran, ?_, laterReplies, final,
    ranLater, Service.run_append ran ranLater, consistentFinal.reopen path fresh⟩
  apply consistent.openFile
  right
  have closed : log.file.length = log.endOffset := consistent.closed
  rw [← closed]
  exact readRecordAt_torn log.file kind id n fitsBody cut

/-- The second record is cut off inside its checksum; a delta comes after the recovery. -/
theorem recovers_torn_sample :
    RecoversTorn "log" zeroId [.putFull 1 [5] 1] ((recordFrame .full 2 1 [6]).take 25)
      [.putDelta 1 ⟨⟨1, 0, [7], 2⟩, by decide, by decide, by decide⟩ 1] := by
  refine recovers_torn "log" (by decide) ?_ .full 2 1 (by decide) ?_
  · intro op opMem
    rcases List.mem_cons.mp opMem with rfl | opMem
    · exact (by decide : Fits [5])
    · rw [List.mem_singleton.mp opMem]
      exact (by decide : 19 + 2 < 2 ^ 32)
  · rw [recordFrame, List.length_append, List.length_append, length_recordPayload]
    simp only [length_leBytes, List.length_singleton]
    omega

/-- The length field of a record that is just too long says that it has next to nothing. -/
theorem readRecordAt_outgrown (before after : Bytes) (kind : RecordKind) (id : DatumId) (n : ℕ)
    {body : Bytes} (outgrown : 2 ^ 32 ≤ 19 + body.length) (narrow : body.length < 2 ^ 32)
    (fileLen : ℕ) :
    readRecordAt (before ++ recordFrame kind id n body ++ after) before.length fileLen = none := by
  have field : leNat (((before ++ recordFrame kind id n body ++ after).drop
      before.length).take 4) < 19 := by
    rw [List.append_assoc, List.drop_left, recordFrame, List.append_assoc, List.append_assoc,
      List.take_left' (length_leBytes _ _), length_recordPayload, leNat_leBytes_mod]
    omega
  unfold readRecordAt
  split
  · rfl
  · exact if_pos (Or.inl field)

theorem openFile_outgrown (path : String) {fresh : Bytes} (idLength : fresh.length = 16)
    (id : DatumId) {bytes : Bytes} (wraps : 19 + bytes.length = 2 ^ 32) (n : ℕ) :
    openFile path fresh ((create fresh).putFull id bytes n).file = .ok (create fresh) := by
  have consistent := consistent_create idLength
  have file : ((create fresh).putFull id bytes n).file =
      (create fresh).file ++ recordFrame .full id n bytes :=
    append_file consistent.closed .full id n bytes
  have closed : (create fresh).file.length = (create fresh).endOffset := consistent.closed
  rw [file]
  apply consistent.openFile
  right
  have unread := readRecordAt_outgrown (create fresh).file [] .full id n wraps.ge
    (by omega : bytes.length < 2 ^ 32)
    ((create fresh).file ++ recordFrame .full id n bytes).length
  rwa [List.append_nil, closed] at unread

theorem unrecovered_outgrown : ¬RecoversTorn "log" zeroId
    [.putFull 1 (List.replicate (2 ^ 32 - 19) 0) 1] ((recordFrame .tombstone 1 0 []).take 0) [] := by
  rintro ⟨start, replies, log, opened, ran, reopened, _⟩
  rw [openFile_new "log" (by decide : zeroId.length = 16), Except.ok.injEq] at opened
  subst opened
  simp only [Service.run, applyOp, Option.bind_some, Option.map_some, Option.some.injEq,
    Prod.mk.injEq] at ran
  rcases ran with ⟨_, rfl⟩
  have wraps : 19 + (List.replicate (2 ^ 32 - 19) (0 : UInt8)).length = 2 ^ 32 := by
    rw [List.length_replicate]
    omega
  rw [List.take_zero, List.append_nil, openFile_outgrown "log" (by decide) 1 wraps,
    Except.ok.injEq] at reopened
  have index := congrArg (fun log : DatumLog => log.index.lookup 1) reopened
  cases index.trans (AList.lookup_insert _)

end DatumLog

end Seisin
