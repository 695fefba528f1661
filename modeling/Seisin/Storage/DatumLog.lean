import Mathlib
import Seisin.Storage.Delta

/-!
# The append-only datum log

A storage node keeps its datums in one file of checksummed records and an index of where each datum
was last written in full and which deltas came after.  Every operation appends one record; a chain
of deltas that grows too long or too large is written out in full again.  File operations succeed
here: a storage node whose disk fails drops the connection, which its callers see as a failed call.
-/

namespace Seisin

open ByteString

/-! ## Checksums -/

/-- The checksum table's entry for a byte. -/
def crcTable (byte : UInt32) : UInt32 :=
  (List.range 8).foldl
    (fun (crc : UInt32) _ =>
      if crc &&& 1 ≠ 0 then (0xEDB88320 : UInt32) ^^^ (crc >>> 1) else crc >>> 1) byte

def crc32 (bytes : Bytes) : UInt32 :=
  ~~~bytes.foldl
    (fun crc byte => crcTable ((crc ^^^ byte.toUInt32) &&& 0xFF) ^^^ (crc >>> 8)) 0xFFFFFFFF

example : crc32 (ofString "123456789") = 0xCBF43926 := by decide +kernel

/-! ## Records -/

inductive RecordKind where
  | full
  | delta
  | tombstone
  deriving DecidableEq

namespace RecordKind

def tag : RecordKind → UInt8
  | .full => 1
  | .delta => 2
  | .tombstone => 3

end RecordKind

/-- A record read from the file, with the offset of the next one. -/
structure RawRecord where
  kind : UInt8
  id : DatumId
  n : ℕ
  body : Bytes
  nextOffset : ℕ

def headerLen : ℕ := 22

def maxDeltaChain : ℕ := 8

/-- The bytes a record's length and checksum fields are about. -/
def recordPayload (kind : RecordKind) (id : DatumId) (n : ℕ) (body : Bytes) : Bytes :=
  kind.tag :: (id.asBytes ++ leBytes 2 n ++ body)

def recordFrame (kind : RecordKind) (id : DatumId) (n : ℕ) (body : Bytes) : Bytes :=
  leBytes 4 (recordPayload kind id n body).length ++ recordPayload kind id n body ++
    leBytes 4 (crc32 (recordPayload kind id n body)).toNat

/-- The record at `offset`, unless it is torn or corrupt. -/
def readRecordAt (file : Bytes) (offset fileLen : ℕ) : Option RawRecord :=
  if fileLen < offset + 4 then none
  else
    let payloadLen := leNat ((file.drop offset).take 4)
    if payloadLen < 19 ∨ fileLen < offset + 4 + payloadLen + 4 then none
    else
      let payload := (file.drop (offset + 4)).take payloadLen
      let crc := leNat ((file.drop (offset + 4 + payloadLen)).take 4)
      if (crc32 payload).toNat ≠ crc then none
      else
        some ⟨payload.headD 0, DatumId.fromBytes ((payload.drop 1).take 16),
          leNat ((payload.drop 17).take 2), payload.drop 19, offset + 4 + payloadLen + 4⟩

/-! ## The log -/

/-- Where a datum's last full record and the deltas after it are. -/
structure LogRef where
  baseOffset : ℕ
  deltas : List ℕ
  materializedLen : ℕ
  deltaBytes : ℕ
  n : ℕ
  deriving DecidableEq

structure DatumLog where
  file : Bytes
  index : AList (fun _ : DatumId => LogRef)
  endOffset : ℕ
  logId : Bytes

inductive PatchOutcome where
  | applied
  | needFull
  deriving DecidableEq

/-- The keys of an index after `after` in ascending order, at most `limit` of them, with what the
index has for them. -/
def indexedIds {Entry : Type} (index : AList (fun _ : DatumId => Entry)) (factor : Entry → ℕ)
    (after : Option DatumId) (limit : ℕ) : List (DatumId × ℕ) :=
  let ids := (index.keys.filter fun id => match after with
    | none => true
    | some last => last < id).insertionSort (· ≤ ·)
  (ids.take limit).map fun id => (id, ((index.lookup id).map factor).getD 0)

namespace DatumLog

/-- A log just created: the header and no records. -/
def create (logId : Bytes) : DatumLog where
  file := ofString "SDLG" ++ leBytes 2 3 ++ logId
  index := ∅
  endOffset := headerLen
  logId := logId

def append (log : DatumLog) (kind : RecordKind) (id : DatumId) (n : ℕ) (body : Bytes) :
    ℕ × DatumLog :=
  let frame := recordFrame kind id n body
  (log.endOffset,
    { log with
      file := log.file.take log.endOffset ++ frame ++ log.file.drop (log.endOffset + frame.length)
      endOffset := log.endOffset + frame.length })

/-- Applies the deltas recorded at the given offsets, oldest first. -/
def replay (file : Bytes) (fileLen : ℕ) : List ℕ → Bytes → Except String Bytes
  | [], value => .ok value
  | offset :: offsets, value =>
      match readRecordAt file offset fileLen with
      | none => .error "indexed delta record unreadable"
      | some record =>
          match Delta.decode record.body with
          | .error message => .error message
          | .ok delta =>
              match delta.apply value with
              | .error message => .error message
              | .ok next => replay file fileLen offsets next

def materialize (file : Bytes) (fileLen : ℕ) (ref : LogRef) : Except String Bytes :=
  match readRecordAt file ref.baseOffset fileLen with
  | none => .error "indexed base record unreadable"
  | some record => replay file fileLen ref.deltas record.body

def get (log : DatumLog) (id : DatumId) : Except String (Option Bytes) :=
  match log.index.lookup id with
  | none => .ok none
  | some ref =>
      match materialize log.file log.endOffset ref with
      | .error message => .error message
      | .ok value => .ok (some value)

def putFull (log : DatumLog) (id : DatumId) (bytes : Bytes) (n : ℕ) : DatumLog :=
  let (offset, appended) := log.append .full id n bytes
  { appended with index := appended.index.insert id ⟨offset, [], bytes.length % 2 ^ 32, 0, n⟩ }

/-- Whether one more delta makes the chain too long or too large. -/
def rebases (ref : LogRef) (bodyLen : ℕ) : Bool :=
  ref.deltas.length + 1 > maxDeltaChain || ref.deltaBytes + bodyLen > max ref.materializedLen 1 / 2

def putDelta (log : DatumLog) (id : DatumId) (delta : Delta) (n : ℕ) :
    Except String (PatchOutcome × DatumLog) :=
  match log.index.lookup id with
  | none => .ok (.needFull, log)
  | some ref =>
      let body := delta.encode
      if rebases ref body.length then
        match materialize log.file log.endOffset ref with
        | .error message => .error message
        | .ok current =>
            match delta.apply current with
            | .error message => .error message
            | .ok newValue => .ok (.applied, log.putFull id newValue n)
      else
        let (offset, appended) := log.append .delta id n body
        .ok (.applied,
          { appended with
            index := appended.index.insert id
              ⟨ref.baseOffset, ref.deltas ++ [offset], delta.newTotalLen,
                (ref.deltaBytes + body.length) % 2 ^ 32, n⟩ })

def delete (log : DatumLog) (id : DatumId) : DatumLog :=
  let (_, appended) := log.append .tombstone id 0 []
  { appended with index := appended.index.erase id }

/-- The stored replication factor of a datum. -/
def nOf (log : DatumLog) (id : DatumId) : Option ℕ := (log.index.lookup id).map LogRef.n

/-- The datums present after `after` in ascending order, at most `limit` of them, with their
replication factors. -/
def listIds (log : DatumLog) (after : Option DatumId) (limit : ℕ) : List (DatumId × ℕ) :=
  indexedIds log.index LogRef.n after limit

/-! ## What a log holds -/

/-- The file ends with the last record. -/
def Closed (log : DatumLog) : Prop := log.file.length = log.endOffset

/-- The index has `value` with factor `n` for `id`, or nothing, and the file bears it out. -/
structure Holds (log : DatumLog) (id : DatumId) (state : Option (Bytes × ℕ)) : Prop where
  absent : state = none → log.index.lookup id = none
  present : ∀ value n, state = some (value, n) → ∃ ref, log.index.lookup id = some ref ∧
    materialize log.file log.endOffset ref = .ok value ∧ ref.materializedLen = value.length ∧
    ref.n = n

/-- A value whose record fits the 32-bit length field. -/
def Fits (value : Bytes) : Prop := 19 + value.length < 2 ^ 32

instance (value : Bytes) : Decidable (Fits value) := inferInstanceAs (Decidable (_ < _))

theorem length_recordPayload (kind : RecordKind) (id : DatumId) (n : ℕ) (body : Bytes) :
    (recordPayload kind id n body).length = 19 + body.length := by
  simp [recordPayload]
  omega

/-- A record written after `before` is read back whatever comes after it. -/
theorem readRecordAt_frame (before after : Bytes) (kind : RecordKind) (id : DatumId) (n : ℕ)
    {body : Bytes} (fits : Fits body) {fileLen : ℕ}
    (inside : before.length + (recordFrame kind id n body).length ≤ fileLen) :
    readRecordAt (before ++ recordFrame kind id n body ++ after) before.length fileLen =
      some ⟨kind.tag, id, leNat (leBytes 2 n), body,
        before.length + (recordFrame kind id n body).length⟩ := by
  have payloadLength := length_recordPayload kind id n body
  generalize payloadEq : recordPayload kind id n body = payload at payloadLength
  have frameEq : recordFrame kind id n body =
      leBytes 4 payload.length ++ payload ++ leBytes 4 (crc32 payload).toNat := by
    rw [recordFrame, payloadEq]
  have fitsPayload : payload.length < 2 ^ 32 := by
    unfold Fits at fits
    omega
  have frameLength : (recordFrame kind id n body).length = 4 + payload.length + 4 := by
    simp only [frameEq, List.length_append, length_leBytes]
  have lengthField : leNat (((before ++ recordFrame kind id n body ++ after).drop
      before.length).take 4) = payload.length := by
    have field := window_middle before (leBytes 4 payload.length)
      (payload ++ leBytes 4 (crc32 payload).toNat ++ after)
    rw [length_leBytes] at field
    rw [frameEq]
    simp only [List.append_assoc] at field ⊢
    rw [field]
    exact leNat_leBytes_four fitsPayload
  have payloadField : ((before ++ recordFrame kind id n body ++ after).drop
      (before.length + 4)).take payload.length = payload := by
    have field := window_middle (before ++ leBytes 4 payload.length) payload
      (leBytes 4 (crc32 payload).toNat ++ after)
    rw [List.length_append, length_leBytes] at field
    rw [frameEq]
    simpa only [List.append_assoc] using field
  have crcField : leNat (((before ++ recordFrame kind id n body ++ after).drop
      (before.length + 4 + payload.length)).take 4) = (crc32 payload).toNat := by
    have field := window_middle (before ++ leBytes 4 payload.length ++ payload)
      (leBytes 4 (crc32 payload).toNat) after
    rw [List.length_append, List.length_append, length_leBytes, length_leBytes] at field
    rw [frameEq]
    simp only [List.append_assoc] at field ⊢
    rw [field]
    exact leNat_leBytes_four (UInt32.toNat_lt _)
  unfold readRecordAt
  rw [if_neg (by omega), lengthField, if_neg (by omega), payloadField, crcField, if_neg (by simp)]
  have header : (id.asBytes ++ leBytes 2 n).length = 18 := by
    simp
  have kindField : payload.headD 0 = kind.tag := by
    rw [← payloadEq]
    rfl
  have idField : (payload.drop 1).take 16 = id.asBytes := by
    rw [← payloadEq, recordPayload, List.drop_one, List.tail_cons, List.append_assoc,
      ← DatumId.length_asBytes id, List.take_left]
  have factorField : (payload.drop 17).take 2 = leBytes 2 n := by
    have rest : payload.drop 17 = leBytes 2 n ++ body := by
      rw [← payloadEq, recordPayload, List.drop_succ_cons, List.append_assoc,
        ← DatumId.length_asBytes id, List.drop_left]
    have short : (leBytes 2 n ++ body).take (leBytes 2 n).length = leBytes 2 n := List.take_left
    rw [length_leBytes] at short
    rw [rest, short]
  have bodyField : payload.drop 19 = body := by
    rw [← payloadEq]
    exact List.drop_left' header
  rw [kindField, idField, DatumId.fromBytes_asBytes, factorField, bodyField, frameLength]
  simp only [Nat.add_assoc]

/-- Bytes after the end of a readable record do not matter. -/
theorem readRecordAt_append {file : Bytes} {offset fileLen : ℕ} {record : RawRecord}
    (read : readRecordAt file offset fileLen = some record) (closed : fileLen ≤ file.length)
    (after : Bytes) {later : ℕ} (grown : fileLen ≤ later) :
    readRecordAt (file ++ after) offset later = some record := by
  unfold readRecordAt at read ⊢
  split at read
  · cases read
  · rename_i enough
    dsimp only at read
    split at read
    · cases read
    · rename_i complete
      rw [not_or, Nat.not_lt, Nat.not_lt] at complete
      rcases complete with ⟨whole, ends⟩
      have lengthSame : ((file ++ after).drop offset).take 4 = (file.drop offset).take 4 :=
        window_append after (by omega)
      rw [if_neg (by omega), lengthSame, if_neg (by omega), window_append after (by omega),
        window_append after (by omega)]
      exact read

/-! ## What the operations do to it -/

variable {log : DatumLog} {id other : DatumId} {state : Option (Bytes × ℕ)}

/-- Appended bytes do not change what is replayed. -/
theorem replay_append_file {file : Bytes} {fileLen : ℕ} (closed : fileLen ≤ file.length)
    (after : Bytes) {later : ℕ} (grown : fileLen ≤ later) {offsets : List ℕ}
    {value result : Bytes} (read : replay file fileLen offsets value = .ok result) :
    replay (file ++ after) later offsets value = .ok result := by
  induction offsets generalizing value with
  | nil => exact read
  | cons offset offsets ih =>
      unfold replay at read ⊢
      cases found : readRecordAt file offset fileLen with
      | none => simp [found] at read
      | some record =>
          rw [readRecordAt_append found closed after grown]
          simp only [found] at read ⊢
          cases decoded : Delta.decode record.body with
          | error message => simp [decoded] at read
          | ok delta =>
              simp only [decoded] at read ⊢
              cases spliced : delta.apply value with
              | error message => simp [spliced] at read
              | ok next =>
                  simp only [spliced] at read ⊢
                  exact ih read

theorem materialize_append_file {file : Bytes} {fileLen : ℕ} (closed : fileLen ≤ file.length)
    (after : Bytes) {later : ℕ} (grown : fileLen ≤ later) {ref : LogRef} {value : Bytes}
    (read : materialize file fileLen ref = .ok value) :
    materialize (file ++ after) later ref = .ok value := by
  unfold materialize at read ⊢
  cases found : readRecordAt file ref.baseOffset fileLen with
  | none => simp [found] at read
  | some record =>
      rw [readRecordAt_append found closed after grown]
      simp only [found] at read ⊢
      exact replay_append_file closed after grown read

theorem append_file (closed : log.Closed) (kind : RecordKind) (id : DatumId) (n : ℕ)
    (body : Bytes) :
    (log.append kind id n body).2.file = log.file ++ recordFrame kind id n body := by
  unfold Closed at closed
  have whole : log.file.take log.endOffset = log.file := by
    rw [← closed, List.take_length]
  have nothing : log.file.drop (log.endOffset + (recordFrame kind id n body).length) = [] :=
    List.drop_of_length_le (by omega)
  simp only [append, whole, nothing, List.append_nil]

theorem append_le (log : DatumLog) (kind : RecordKind) (id : DatumId) (n : ℕ) (body : Bytes) :
    log.endOffset ≤ (log.append kind id n body).2.endOffset :=
  Nat.le_add_right _ _

theorem Closed.append (closed : log.Closed) (kind : RecordKind) (id : DatumId) (n : ℕ)
    (body : Bytes) : (log.append kind id n body).2.Closed := by
  unfold Closed
  rw [append_file closed, List.length_append, show log.file.length = log.endOffset from closed]
  rfl

/-- The record just appended is read back. -/
theorem readRecordAt_appended (closed : log.Closed) (kind : RecordKind) (id : DatumId) (n : ℕ)
    {body : Bytes} (fits : Fits body) :
    ∃ record, readRecordAt (log.append kind id n body).2.file log.endOffset
      (log.append kind id n body).2.endOffset = some record ∧ record.body = body := by
  have inside : log.file.length + (recordFrame kind id n body).length ≤
      (log.append kind id n body).2.endOffset := by
    rw [show log.file.length = log.endOffset from closed]
    exact le_refl _
  have read := readRecordAt_frame log.file [] kind id n fits inside
  rw [List.append_nil, ← append_file closed, show log.file.length = log.endOffset from closed]
    at read
  exact ⟨_, read, rfl⟩

/-- An operation on `id` that appends a record and changes the index at `id` alone leaves what is
held for other datums. -/
theorem Holds.frame (held : log.Holds other state) (closed : log.Closed) {next : DatumLog}
    {kind : RecordKind} {n : ℕ} {body : Bytes}
    (file : next.file = (log.append kind id n body).2.file)
    (ends : next.endOffset = (log.append kind id n body).2.endOffset)
    (index : next.index.lookup other = log.index.lookup other) : next.Holds other state := by
  refine ⟨fun none_ => by rw [index, held.absent none_], ?_⟩
  intro value factor some_
  rcases held.present value factor some_ with ⟨ref, found, read, length, factorEq⟩
  refine ⟨ref, index.trans found, ?_, length, factorEq⟩
  rw [file, append_file closed, ends]
  exact materialize_append_file (le_of_eq closed.symm) _ (append_le log kind id n body) read

theorem Holds.putFull (closed : log.Closed) (id : DatumId) {value : Bytes} (fits : Fits value)
    (n : ℕ) : (log.putFull id value n).Holds id (some (value, n)) := by
  refine ⟨nofun, ?_⟩
  rintro _ _ ⟨⟩
  refine ⟨⟨log.endOffset, [], value.length % 2 ^ 32, 0, n⟩, AList.lookup_insert _, ?_, ?_, rfl⟩
  · rcases readRecordAt_appended closed .full id n fits with ⟨record, read, body⟩
    simp only [materialize, DatumLog.putFull, read, replay, body]
  · apply Nat.mod_eq_of_lt
    unfold Fits at fits
    omega

theorem Holds.putFull_other (held : log.Holds other state) (closed : log.Closed)
    (differ : other ≠ id) (value : Bytes) (n : ℕ) : (log.putFull id value n).Holds other state :=
  held.frame closed rfl rfl (AList.lookup_insert_ne differ)

theorem Holds.delete (log : DatumLog) (id : DatumId) : (log.delete id).Holds id none :=
  ⟨fun _ => AList.lookup_erase _ _, nofun⟩

theorem Holds.delete_other (held : log.Holds other state) (closed : log.Closed)
    (differ : other ≠ id) : (log.delete id).Holds other state :=
  held.frame closed rfl rfl (AList.lookup_erase_ne differ)

theorem Holds.get (held : log.Holds id state) : log.get id = .ok (state.map Prod.fst) := by
  unfold DatumLog.get
  cases state with
  | none => rw [held.absent rfl]; rfl
  | some entry =>
      rcases entry with ⟨value, n⟩
      rcases held.present value n rfl with ⟨ref, found, read, _⟩
      simp only [found, read, Option.map_some]

theorem Holds.nOf (held : log.Holds id state) : log.nOf id = state.map Prod.snd := by
  unfold DatumLog.nOf
  cases state with
  | none => rw [held.absent rfl]; rfl
  | some entry =>
      rcases entry with ⟨value, n⟩
      rcases held.present value n rfl with ⟨ref, found, _, _, factor⟩
      simp only [found, Option.map_some, factor]

/-- Replaying one more delta splices it into what was replayed before. -/
theorem replay_snoc {file : Bytes} {fileLen : ℕ} {offsets : List ℕ} {offset : ℕ}
    {value result : Bytes} (read : replay file fileLen offsets value = .ok result)
    {record : RawRecord} (found : readRecordAt file offset fileLen = some record) {delta : Delta}
    (decoded : Delta.decode record.body = .ok delta) :
    replay file fileLen (offsets ++ [offset]) value = delta.apply result := by
  induction offsets generalizing value with
  | nil =>
      simp only [replay, Except.ok.injEq] at read
      subst read
      simp only [List.nil_append, replay, found, decoded]
      cases delta.apply value <;> rfl
  | cons first offsets ih =>
      simp only [List.cons_append]
      unfold replay at read ⊢
      cases firstFound : readRecordAt file first fileLen with
      | none => simp [firstFound] at read
      | some firstRecord =>
          simp only [firstFound] at read ⊢
          cases firstDecoded : Delta.decode firstRecord.body with
          | error message => simp [firstDecoded] at read
          | ok firstDelta =>
              simp only [firstDecoded] at read ⊢
              cases firstSpliced : firstDelta.apply value with
              | error message => simp [firstSpliced] at read
              | ok next =>
                  simp only [firstSpliced] at read ⊢
                  exact ih read

/-- After a delta is appended, reading splices it into the value read before. -/
theorem materialize_appended {old : Bytes} {ref : LogRef} (closed : log.Closed)
    (read : materialize log.file log.endOffset ref = .ok old) {delta : Delta}
    (decodes : Delta.decode delta.encode = .ok delta) (fitsDelta : Fits delta.encode)
    (id : DatumId) (n len bytes : ℕ) :
    materialize (log.append .delta id n delta.encode).2.file
      (log.append .delta id n delta.encode).2.endOffset
      ⟨ref.baseOffset, ref.deltas ++ [log.endOffset], len, bytes, n⟩ = delta.apply old := by
  rcases readRecordAt_appended closed .delta id n fitsDelta with ⟨record, last, body⟩
  have grown := materialize_append_file (le_of_eq closed.symm)
    (recordFrame .delta id n delta.encode) (append_le log .delta id n delta.encode) read
  rw [← append_file closed] at grown
  unfold materialize at grown ⊢
  cases base : readRecordAt (log.append .delta id n delta.encode).2.file ref.baseOffset
      (log.append .delta id n delta.encode).2.endOffset with
  | none => simp [base] at grown
  | some baseRecord =>
      simp only [base] at grown ⊢
      exact replay_snoc grown last (by rw [body, decodes])

/-- A delta that applies to the value held gives the new value, whether it is appended or the chain
is written out in full. -/
theorem Holds.putDelta {old new : Bytes} {before : ℕ} (held : log.Holds id (some (old, before)))
    (closed : log.Closed) {delta : Delta} (spliced : delta.apply old = .ok new)
    (decodes : Delta.decode delta.encode = .ok delta)
    (fitsDelta : ∀ ref, log.index.lookup id = some ref →
      rebases ref delta.encode.length = false → Fits delta.encode)
    (total : delta.newTotalLen = new.length) (fits : Fits new) (n : ℕ) :
    ∃ next, log.putDelta id delta n = .ok (.applied, next) ∧ next.Holds id (some (new, n)) := by
  rcases held.present old before rfl with ⟨ref, found, read, _⟩
  unfold DatumLog.putDelta
  simp only [found]
  split
  · simp only [read, spliced]
    exact ⟨_, rfl, .putFull closed id fits n⟩
  · rename_i short
    have fitsRecord := fitsDelta ref found (Bool.eq_false_iff.mpr short)
    refine ⟨_, rfl, nofun, ?_⟩
    rintro _ _ ⟨⟩
    refine ⟨_, AList.lookup_insert _, ?_, total, rfl⟩
    exact (materialize_appended closed read decodes fitsRecord id n _ _).trans spliced

/-- A delta is appended without a look at the value it is for; where it does not apply, the datum
cannot be read any more. -/
theorem Holds.putDelta_unreadable {old : Bytes} {before : ℕ}
    (held : log.Holds id (some (old, before))) (closed : log.Closed) {ref : LogRef}
    (found : log.index.lookup id = some ref) {delta : Delta}
    (short : rebases ref delta.encode.length = false)
    (decodes : Delta.decode delta.encode = .ok delta) (fitsDelta : Fits delta.encode)
    {message : String} (refused : delta.apply old = .error message) (n : ℕ) :
    ∃ next, log.putDelta id delta n = .ok (.applied, next) ∧ next.get id = .error message := by
  rcases held.present old before rfl with ⟨same, foundSame, read, _⟩
  have sameRef : same = ref := Option.some.inj (foundSame.symm.trans found)
  rw [sameRef] at read
  unfold DatumLog.putDelta
  simp only [found, short, Bool.false_eq_true, if_false]
  refine ⟨_, rfl, ?_⟩
  simp only [DatumLog.get, AList.lookup_insert]
  have spliced := materialize_appended closed read decodes fitsDelta id n delta.newTotalLen
    ((ref.deltaBytes + delta.encode.length) % 2 ^ 32)
  rw [refused, show log.endOffset = (log.append .delta id n delta.encode).1 from rfl] at spliced
  simp only [spliced]

/-- What a delta can do to a log. -/
theorem putDelta_cases {delta : Delta} {n : ℕ} {outcome : PatchOutcome} {next : DatumLog}
    (patched : log.putDelta id delta n = .ok (outcome, next)) :
    (outcome = .needFull ∧ next = log) ∨ (∃ value, next = log.putFull id value n) ∨
      ∃ ref, next = { (log.append .delta id n delta.encode).2 with
        index := log.index.insert id ref } := by
  unfold DatumLog.putDelta at patched
  cases found : log.index.lookup id with
  | none =>
      simp only [found, Except.ok.injEq, Prod.mk.injEq] at patched
      exact Or.inl ⟨patched.1.symm, patched.2.symm⟩
  | some ref =>
      right
      simp only [found] at patched
      split at patched
      · left
        cases read : materialize log.file log.endOffset ref with
        | error message => simp [read] at patched
        | ok current =>
            simp only [read] at patched
            cases spliced : delta.apply current with
            | error message => simp [spliced] at patched
            | ok newValue =>
                simp only [spliced, Except.ok.injEq, Prod.mk.injEq] at patched
                exact ⟨newValue, patched.2.symm⟩
      · right
        simp only [Except.ok.injEq, Prod.mk.injEq] at patched
        exact ⟨_, patched.2.symm⟩

/-- A delta for one datum leaves what is held for others, whatever becomes of it. -/
theorem Holds.putDelta_other (held : log.Holds other state) (closed : log.Closed)
    (differ : other ≠ id) {delta : Delta} {n : ℕ} {outcome : PatchOutcome} {next : DatumLog}
    (patched : log.putDelta id delta n = .ok (outcome, next)) : next.Holds other state := by
  rcases putDelta_cases patched with ⟨_, rfl⟩ | ⟨value, rfl⟩ | ⟨ref, rfl⟩
  · exact held
  · exact held.putFull_other closed differ value n
  · exact held.frame closed rfl rfl (AList.lookup_insert_ne differ)

theorem Closed.putDelta (closed : log.Closed) {delta : Delta} {n : ℕ} {outcome : PatchOutcome}
    {next : DatumLog} (patched : log.putDelta id delta n = .ok (outcome, next)) : next.Closed := by
  rcases putDelta_cases patched with ⟨_, rfl⟩ | ⟨value, rfl⟩ | ⟨ref, rfl⟩
  · exact closed
  · exact closed.append .full id n value
  · exact closed.append .delta id n delta.encode

end DatumLog

end Seisin
