import Seisin.Lib.Service
import Seisin.Lib.Paging
import Seisin.Storage.DatumLog

/-!
# Opening a datum log

Opening scans the file from the header on and builds the index again, record by record, up to the
first one that is torn; what comes from there on is cut off.  A log that is opened again is the log
that was closed, and the same is so after a crash in the middle of an append.
-/

namespace Seisin

open ByteString

namespace DatumLog

def formatVersion : ℕ := 3

/-- What the log's file begins with. -/
def fileHeader (logId : Bytes) : Bytes := ofString "SDLG" ++ leBytes 2 formatVersion ++ logId

/-- What a record does to the index; nothing if it counts as a tear. -/
def reindex (index : AList (fun _ : DatumId => LogRef)) (offset : ℕ) (record : RawRecord) :
    Option (AList (fun _ : DatumId => LogRef)) :=
  if record.kind = RecordKind.full.tag then
    some (index.insert record.id ⟨offset, [], record.body.length % 2 ^ 32, 0, record.n⟩)
  else if record.kind = RecordKind.delta.tag then
    match index.lookup record.id with
    | none => none
    | some ref =>
        match Delta.decode record.body with
        | .error _ => none
        | .ok delta =>
            some (index.insert record.id ⟨ref.baseOffset, ref.deltas ++ [offset],
              delta.newTotalLen, (ref.deltaBytes + record.body.length) % 2 ^ 32, record.n⟩)
  else if record.kind = RecordKind.tombstone.tag then some (index.erase record.id)
  else none

/-- The scan's loop.  Every record takes some bytes, so the file's length bounds the rounds. -/
def recoverFrom (file : Bytes) (fileLen : ℕ) :
    ℕ → ℕ → AList (fun _ : DatumId => LogRef) → ℕ × AList (fun _ : DatumId => LogRef)
  | 0, offset, index => (offset, index)
  | rounds + 1, offset, index =>
      if fileLen ≤ offset then (offset, index)
      else
        match readRecordAt file offset fileLen with
        | none => (offset, index)
        | some record =>
            match reindex index offset record with
            | none => (offset, index)
            | some index => recoverFrom file fileLen rounds record.nextOffset index

/-- Builds the index again and cuts the file off where the scan stopped. -/
def recover (file logId : Bytes) : DatumLog :=
  let (offset, index) := recoverFrom file file.length file.length headerLen ∅
  ⟨file.take offset, index, offset, logId⟩

/-- Opens a log; an empty file gets a header with a new id. -/
def openFile (path : String) (fresh file : Bytes) : Except String DatumLog :=
  if file.length = 0 then .ok (recover (fileHeader fresh) fresh)
  else if file.length < headerLen then .error "failed to fill whole buffer"
  else if file.take 4 ≠ ofString "SDLG" then
    .error (path ++ " is not a datum log (bad magic)")
  else if leNat ((file.drop 4).take 2) ≠ formatVersion then
    .error ("datum log " ++ path ++ " is format version " ++
      toString (leNat ((file.drop 4).take 2)) ++ "; this build reads " ++ toString formatVersion)
  else .ok (recover file ((file.drop 6).take 16))

def len (log : DatumLog) : ℕ := log.index.keys.length

/-! ## The scan -/

/-- The complete records up to an offset lead to an index. -/
inductive Scanned (file : Bytes) : ℕ → AList (fun _ : DatumId => LogRef) → Prop where
  | start : Scanned file headerLen ∅
  | next {offset : ℕ} {index newIndex : AList (fun _ : DatumId => LogRef)} {record : RawRecord} :
      Scanned file offset index → offset < record.nextOffset →
      record.nextOffset ≤ file.length →
      readRecordAt file offset record.nextOffset = some record →
      reindex index offset record = some newIndex → Scanned file record.nextOffset newIndex

variable {file : Bytes} {offset : ℕ} {index : AList (fun _ : DatumId => LogRef)}

theorem Scanned.append (scanned : Scanned file offset index) (after : Bytes) :
    Scanned (file ++ after) offset index := by
  induction scanned with
  | start => exact .start
  | next _ further inside read reindexed ih =>
      refine .next ih further ?_ (readRecordAt_append read inside after le_rfl) reindexed
      rw [List.length_append]
      omega

/-- The loop reads the complete records and goes on after them. -/
theorem Scanned.recoverFrom (scanned : Scanned file offset index) :
    headerLen ≤ offset ∧ ∃ rounds, rounds + headerLen ≤ offset ∧ ∀ more,
      recoverFrom file file.length (rounds + more) headerLen ∅ =
        recoverFrom file file.length more offset index := by
  induction scanned with
  | start => exact ⟨le_rfl, 0, by omega, fun more => by rw [Nat.zero_add]⟩
  | @next offset index newIndex record _ further inside read reindexed ih =>
      rcases ih with ⟨beyond, rounds, few, continues⟩
      refine ⟨by omega, rounds + 1, by omega, ?_⟩
      intro more
      have whole := readRecordAt_append read inside [] inside
      rw [List.append_nil] at whole
      rw [Nat.add_assoc, Nat.add_comm 1, continues]
      simp only [DatumLog.recoverFrom, whole, reindexed]
      rw [if_neg (by omega)]

/-- There is no complete record at the offset, or none that the scan takes. -/
def Stops (file : Bytes) (offset : ℕ) (index : AList (fun _ : DatumId => LogRef)) : Prop :=
  ∀ record, readRecordAt file offset file.length = some record →
    reindex index offset record = none

theorem stops_of_none (none : readRecordAt file offset file.length = none) :
    Stops file offset index := by
  intro record read
  rw [none] at read
  cases read

theorem stops_of_end (ends : file.length ≤ offset) : Stops file offset index := by
  apply stops_of_none
  unfold readRecordAt
  exact if_pos (by omega)

theorem recoverFrom_stop (stops : Stops file offset index) (rounds : ℕ) :
    DatumLog.recoverFrom file file.length rounds offset index = (offset, index) := by
  cases rounds with
  | zero => rfl
  | succ rounds =>
      simp only [DatumLog.recoverFrom]
      split
      · rfl
      · cases read : readRecordAt file offset file.length with
        | none => rfl
        | some record => simp only [stops record read]

theorem Scanned.recover (scanned : Scanned file offset index) (inside : offset ≤ file.length)
    (stops : Stops file offset index) (logId : Bytes) :
    recover file logId = ⟨file.take offset, index, offset, logId⟩ := by
  rcases scanned.recoverFrom with ⟨_, rounds, few, continues⟩
  have enough : file.length = rounds + (file.length - rounds) := by omega
  unfold DatumLog.recover
  have loop := continues (file.length - rounds)
  rw [← enough, recoverFrom_stop stops] at loop
  rw [loop]

/-! ## Logs that recover as they are -/

/-- The chain of deltas is short, and the value's length is that of a 32-bit field. -/
structure BoundedRef (ref : LogRef) : Prop where
  chain : ref.deltas.length ≤ maxDeltaChain
  length : ref.materializedLen < 2 ^ 32

/-- The file has the header and the records that the index stands for. -/
structure Consistent (log : DatumLog) : Prop where
  closed : log.Closed
  idLength : log.logId.length = 16
  header : ∃ rest, log.file = fileHeader log.logId ++ rest
  scanned : Scanned log.file log.endOffset log.index
  bounded : ∀ id ref, log.index.lookup id = some ref → BoundedRef ref

variable {log : DatumLog} {kind : RecordKind} {id : DatumId} {n : ℕ} {body : Bytes}

/-- A cut in the middle of a record leaves no record: its length field is cut off or says that there
should be more. -/
theorem readRecordAt_torn (before : Bytes) (kind : RecordKind) (id : DatumId) (n : ℕ)
    (fits : Fits body) {size : ℕ} (cut : size < (recordFrame kind id n body).length) :
    readRecordAt (before ++ (recordFrame kind id n body).take size) before.length
      (before ++ (recordFrame kind id n body).take size).length = none := by
  have payloadLength := length_recordPayload kind id n body
  have frameLength : (recordFrame kind id n body).length =
      4 + (recordPayload kind id n body).length + 4 := by
    simp only [recordFrame, List.length_append, length_leBytes]
  have tornLength : (before ++ (recordFrame kind id n body).take size).length =
      before.length + size := by
    rw [List.length_append, List.length_take, Nat.min_eq_left cut.le]
  unfold readRecordAt
  rw [tornLength]
  by_cases short : size < 4
  · rw [if_pos (by omega)]
  · have lengthField : leNat (((before ++ (recordFrame kind id n body).take size).drop
        before.length).take 4) = (recordPayload kind id n body).length := by
      have field : (recordFrame kind id n body).take 4 =
          leBytes 4 (recordPayload kind id n body).length := by
        rw [recordFrame, List.append_assoc]
        exact List.take_left' (length_leBytes _ _)
      have fitsPayload : (recordPayload kind id n body).length < 2 ^ 32 := by
        unfold Fits at fits
        omega
      rw [List.drop_left, List.take_take, Nat.min_eq_left (by omega), field]
      exact leNat_leBytes_four fitsPayload
    rw [if_neg (by omega), lengthField, if_pos (Or.inr (by omega))]

theorem fileHeader_fields {logId : Bytes} (rest : Bytes) (idLength : logId.length = 16) :
    (fileHeader logId ++ rest).take 4 = ofString "SDLG" ∧
      leNat (((fileHeader logId ++ rest).drop 4).take 2) = formatVersion ∧
      ((fileHeader logId ++ rest).drop 6).take 16 = logId ∧
      headerLen ≤ (fileHeader logId ++ rest).length := by
  have magic : ofString "SDLG" = [83, 68, 76, 71] := by decide +kernel
  have version : leBytes 2 formatVersion = [3, 0] := by decide
  have header : fileHeader logId = [83, 68, 76, 71, 3, 0] ++ logId := by
    rw [fileHeader, magic, version]
    rfl
  rw [header, magic]
  refine ⟨rfl, rfl, ?_, ?_⟩
  · change (logId ++ rest).take 16 = logId
    rw [← idLength, List.take_left]
  · simp [headerLen, idLength]

/-- A log opens by a scan, whatever stands after its last record. -/
theorem Consistent.openFile_eq (consistent : log.Consistent) (path : String)
    (fresh rest : Bytes) :
    DatumLog.openFile path fresh (log.file ++ rest) =
      .ok (DatumLog.recover (log.file ++ rest) log.logId) := by
  rcases consistent.header with ⟨records, header⟩
  have whole : log.file ++ rest = fileHeader log.logId ++ (records ++ rest) := by
    rw [header, List.append_assoc]
  rcases fileHeader_fields (records ++ rest) consistent.idLength with
    ⟨magic, version, logId, length⟩
  rw [← whole] at magic version logId length
  unfold DatumLog.openFile
  have headerPositive : headerLen = 22 := rfl
  rw [if_neg (by omega), if_neg (by omega), if_neg (not_not.mpr magic),
    if_neg (not_not.mpr version), logId]

/-- Whatever stands after the last complete record, as long as the scan does not take it, is cut
off. -/
theorem Consistent.openFile_of_stops (consistent : log.Consistent) (path : String)
    (fresh rest : Bytes) (stops : Stops (log.file ++ rest) log.endOffset log.index) :
    DatumLog.openFile path fresh (log.file ++ rest) = .ok log := by
  have closed : log.file.length = log.endOffset := consistent.closed
  rw [consistent.openFile_eq, (consistent.scanned.append rest).recover
    (by rw [List.length_append]; omega) stops log.logId, ← closed, List.take_left]
  cases log
  simp only [Except.ok.injEq, DatumLog.mk.injEq, true_and, and_true]
  exact closed

theorem Consistent.openFile (consistent : log.Consistent) (path : String) (fresh torn : Bytes)
    (stops : torn = [] ∨ readRecordAt (log.file ++ torn) log.endOffset
      (log.file ++ torn).length = none) :
    DatumLog.openFile path fresh (log.file ++ torn) = .ok log := by
  apply consistent.openFile_of_stops
  rcases stops with rfl | none
  · apply stops_of_end
    rw [List.append_nil]
    exact consistent.closed.le
  · exact stops_of_none none

theorem consistent_create {logId : Bytes} (idLength : logId.length = 16) :
    (create logId).Consistent := by
  have length : (fileHeader logId).length = headerLen := by
    rw [fileHeader, List.length_append, List.length_append, length_leBytes, idLength]
    decide +kernel
  exact ⟨length, idLength, ⟨[], (List.append_nil _).symm⟩, .start, nofun⟩

theorem openFile_new (path : String) {fresh : Bytes} (idLength : fresh.length = 16) :
    DatumLog.openFile path fresh [] = .ok (create fresh) := by
  have consistent := consistent_create idLength
  have length : (fileHeader fresh).length = headerLen := consistent.closed
  have recovered := consistent.scanned.recover length.ge (stops_of_end length.le) fresh
  have whole : (fileHeader fresh).take headerLen = fileHeader fresh := by
    rw [← length, List.take_length]
  change Except.ok (DatumLog.recover (create fresh).file fresh) = _
  rw [recovered]
  exact congrArg (fun file => Except.ok (DatumLog.mk file ∅ headerLen fresh)) whole

/-- A record that the scan would take into the index may be appended with that index. -/
theorem Consistent.append (consistent : log.Consistent) (fits : Fits body)
    {newIndex : AList (fun _ : DatumId => LogRef)}
    (reindexed : reindex log.index log.endOffset ⟨kind.tag, id, leNat (leBytes 2 n), body,
      log.endOffset + (recordFrame kind id n body).length⟩ = some newIndex)
    (bounded : ∀ other ref, newIndex.lookup other = some ref → BoundedRef ref) :
    Consistent { (log.append kind id n body).2 with index := newIndex } := by
  have closed : log.file.length = log.endOffset := consistent.closed
  have file := append_file consistent.closed kind id n body
  have frameLength : (recordFrame kind id n body).length =
      4 + (recordPayload kind id n body).length + 4 := by
    simp only [recordFrame, List.length_append, length_leBytes]
  refine ⟨consistent.closed.append kind id n body, consistent.idLength, ?_, ?_, bounded⟩
  · rcases consistent.header with ⟨rest, header⟩
    refine ⟨rest ++ recordFrame kind id n body, ?_⟩
    change (log.append kind id n body).2.file = fileHeader log.logId ++ _
    rw [file, header, List.append_assoc]
  · have read := readRecordAt_frame log.file [] kind id n fits
      (le_refl (log.file.length + (recordFrame kind id n body).length))
    rw [List.append_nil, closed] at read
    change Scanned (log.append kind id n body).2.file
      (log.endOffset + (recordFrame kind id n body).length) newIndex
    rw [file]
    refine .next (consistent.scanned.append _) ?_ ?_ read reindexed
    · change log.endOffset < log.endOffset + (recordFrame kind id n body).length
      omega
    · change log.endOffset + (recordFrame kind id n body).length ≤ _
      rw [List.length_append, closed]

theorem Consistent.bounded_insert (consistent : log.Consistent) {ref : LogRef}
    (bounded : BoundedRef ref) (id : DatumId) :
    ∀ other found, (log.index.insert id ref).lookup other = some found → BoundedRef found := by
  intro other found lookup
  by_cases same : other = id
  · rw [same, AList.lookup_insert, Option.some.injEq] at lookup
    exact lookup ▸ bounded
  · rw [AList.lookup_insert_ne same] at lookup
    exact consistent.bounded other found lookup

theorem Consistent.putFull (consistent : log.Consistent) (id : DatumId) (fits : Fits body)
    (small : n < 2 ^ 16) : (log.putFull id body n).Consistent := by
  have bounded : BoundedRef ⟨log.endOffset, [], body.length % 2 ^ 32, 0, n⟩ :=
    ⟨Nat.zero_le _, Nat.mod_lt _ (by decide)⟩
  apply consistent.append fits ?_ (consistent.bounded_insert bounded id)
  rw [leNat_leBytes small]
  rfl

theorem Consistent.delete (consistent : log.Consistent) (id : DatumId) :
    (log.delete id).Consistent := by
  apply consistent.append
  · unfold Fits
    decide
  · rfl
  · intro other ref lookup
    by_cases same : other = id
    · rw [same] at lookup
      cases (AList.lookup_erase id log.index).symm.trans lookup
    · exact consistent.bounded other ref ((AList.lookup_erase_ne same).symm.trans lookup)

/-- A delta is appended only if it is less than half as long as the value. -/
theorem BoundedRef.fits_delta {ref : LogRef} (bounded : BoundedRef ref) {delta : Delta}
    (short : rebases ref delta.encode.length = false) :
    Fits delta.encode ∧ delta.middle.length < 2 ^ 32 ∧
      ref.deltas.length + 1 ≤ maxDeltaChain := by
  have length := bounded.length
  have encoded : delta.encode.length = 16 + delta.middle.length := by
    simp only [Delta.encode, List.length_append, length_leBytes]
  simp only [rebases, Bool.or_eq_false_iff, decide_eq_false_iff_not, not_lt] at short
  unfold Fits
  omega

/-- Where a delta makes the log write a value out in full, the value fits a record. -/
def ResultFits (log : DatumLog) (id : DatumId) (delta : Delta) : Prop :=
  ∀ ref current new, log.index.lookup id = some ref → rebases ref delta.encode.length = true →
    materialize log.file log.endOffset ref = .ok current → delta.apply current = .ok new → Fits new

theorem resultFits_of_total {delta : Delta} (fits : 19 + delta.newTotalLen < 2 ^ 32) :
    log.ResultFits id delta := by
  intro ref current new _ _ _ spliced
  rw [Fits, ← (Delta.apply_length spliced).1]
  exact fits

theorem Consistent.putDelta (consistent : log.Consistent) {id : DatumId} {delta : Delta}
    {outcome : PatchOutcome} {next : DatumLog} (narrow : delta.Narrow)
    (fits : log.ResultFits id delta) (small : n < 2 ^ 16)
    (patched : log.putDelta id delta n = .ok (outcome, next)) : next.Consistent := by
  unfold DatumLog.putDelta at patched
  cases found : log.index.lookup id with
  | none =>
      simp only [found, Except.ok.injEq, Prod.mk.injEq] at patched
      rw [← patched.2]
      exact consistent
  | some ref =>
      simp only [found] at patched
      split at patched
      · rename_i long
        cases read : materialize log.file log.endOffset ref with
        | error message => simp [read] at patched
        | ok current =>
            simp only [read] at patched
            cases spliced : delta.apply current with
            | error message => simp [spliced] at patched
            | ok newValue =>
                simp only [spliced, Except.ok.injEq, Prod.mk.injEq] at patched
                rw [← patched.2]
                exact consistent.putFull id (fits ref current newValue found long read spliced)
                  small
      · rename_i short
        simp only [Except.ok.injEq, Prod.mk.injEq] at patched
        rw [← patched.2]
        have boundedBefore := consistent.bounded id ref found
        rcases boundedBefore.fits_delta (Bool.eq_false_iff.mpr short) with
          ⟨fitsDelta, middle, chain⟩
        have decodes := Delta.decode_encode narrow.front narrow.back narrow.total middle
        have isDelta : RecordKind.delta.tag ≠ RecordKind.full.tag := by decide
        have factor : leNat (leBytes 2 n) = n := leNat_leBytes small
        apply consistent.append fitsDelta
        · simp only [reindex, isDelta, if_false, if_true, found, decodes, factor]
          rfl
        · refine consistent.bounded_insert ⟨?_, narrow.total⟩ id
          rw [List.length_append]
          exact chain

end DatumLog

end Seisin
