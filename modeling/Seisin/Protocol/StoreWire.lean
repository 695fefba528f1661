import Mathlib
import Seisin.Protocol.Request
import Seisin.Storage.Delta

/-!
# The protocol between compute and storage nodes

It has a version of its own.  Most decoders end with `expectEnd`; those that do not, and the flags
that are read as "not zero", are what `decodeStoreRequest_eq_ok` and `decodeStoreResponse_eq_ok`
leave open.
-/

namespace Seisin.Protocol

open ByteString Cursor

inductive StoreRequest where
  | put (id : DatumId) (bytes : Bytes) (n : UInt16)
  | patch (id : DatumId) (delta : Delta) (n : UInt16)
  | get (id : DatumId)
  | delete (id : DatumId)
  | listIds (after : Option DatumId) (limit : UInt32)
  | transfer (transferId : DatumId) (ids : List DatumId) (destAddress : String)
  | transferStatus (transferId : DatumId)
  | finishTransfer (transferId : DatumId)
  | retire (transferId : DatumId)
  | identify
  | collectionCreate (collectionId : DatumId) (keySize valueSize : UInt32)
  | collectionInsert (collectionId : DatumId) (key value : Bytes)
  | collectionRemove (collectionId : DatumId) (key : Bytes)
  | collectionGet (collectionId : DatumId) (key : Bytes)
  | collectionScanForward (collectionId : DatumId) (limit : UInt32)
  | collectionScanBackward (collectionId : DatumId) (limit : UInt32)
  | collectionSample (collectionId : DatumId) (k : UInt32)
  | collectionRankOfKey (collectionId : DatumId) (key : Bytes)
  | collectionScanFromRank (collectionId : DatumId) (rank : UInt64) (limit : UInt32)
  | collectionCount (collectionId : DatumId)

inductive StoreResponse where
  | ack
  | needFull
  | value (bytes : Option Bytes)
  | idList (ids : List (DatumId × UInt16)) (done : Bool)
  | transferProgress (copied dirty : UInt64) (done : Bool)
  | identity (nodeId : NodeId) (logId : DatumId)
  | error (message : String)
  | collectionEntry (value : Option Bytes)
  | collectionEntries (entries : List (Bytes × Bytes))
  | collectionRank (rank : Option UInt64)
  | collectionCount (total : UInt64)

def storeProtocolVersion : UInt8 := 4

/-! ## Requests -/

namespace StoreRequest

def opcode : StoreRequest → UInt8
  | .put .. => 1
  | .patch .. => 2
  | .get .. => 3
  | .delete .. => 4
  | .listIds .. => 5
  | .transfer .. => 6
  | .transferStatus .. => 7
  | .finishTransfer .. => 8
  | .retire .. => 9
  | .identify => 10
  | .collectionCreate .. => 11
  | .collectionInsert .. => 12
  | .collectionRemove .. => 13
  | .collectionGet .. => 14
  | .collectionScanForward .. => 15
  | .collectionScanBackward .. => 16
  | .collectionSample .. => 17
  | .collectionRankOfKey .. => 18
  | .collectionScanFromRank .. => 19
  | .collectionCount .. => 20

/-- What follows the opcode. -/
def fields : StoreRequest → Bytes
  | .put id bytes n => id.asBytes ++ leBytes 2 n.toNat ++ bytes
  | .patch id delta n => id.asBytes ++ leBytes 2 n.toNat ++ delta.encode
  | .get id => id.asBytes
  | .delete id => id.asBytes
  | .listIds after limit => putOption DatumId.asBytes after ++ leBytes 4 limit.toNat
  | .transfer transferId ids destAddress =>
      transferId.asBytes ++ putIdList ids ++ putText destAddress
  | .transferStatus transferId => transferId.asBytes
  | .finishTransfer transferId => transferId.asBytes
  | .retire transferId => transferId.asBytes
  | .identify => []
  | .collectionCreate collectionId keySize valueSize =>
      collectionId.asBytes ++ leBytes 4 keySize.toNat ++ leBytes 4 valueSize.toNat
  | .collectionInsert collectionId key value =>
      collectionId.asBytes ++ putBytes key ++ putBytes value
  | .collectionRemove collectionId key => collectionId.asBytes ++ putBytes key
  | .collectionGet collectionId key => collectionId.asBytes ++ putBytes key
  | .collectionScanForward collectionId limit => collectionId.asBytes ++ leBytes 4 limit.toNat
  | .collectionScanBackward collectionId limit => collectionId.asBytes ++ leBytes 4 limit.toNat
  | .collectionSample collectionId k => collectionId.asBytes ++ leBytes 4 k.toNat
  | .collectionRankOfKey collectionId key => collectionId.asBytes ++ putBytes key
  | .collectionScanFromRank collectionId rank limit =>
      collectionId.asBytes ++ leBytes 8 rank.toNat ++ leBytes 4 limit.toNat
  | .collectionCount collectionId => collectionId.asBytes

end StoreRequest

/-- The fields of a delta are 32-bit numbers in the source. -/
def DeltaFits (delta : Delta) : Prop :=
  delta.prefixLen < 2 ^ 32 ∧ delta.suffixLen < 2 ^ 32 ∧ delta.newTotalLen < 2 ^ 32 ∧
    BytesFit delta.middle

def StoreRequest.Fits : StoreRequest → Prop
  | .patch _ delta _ => DeltaFits delta
  | .transfer _ ids destAddress => IdsFit ids ∧ TextFits destAddress
  | .collectionInsert _ key value => BytesFit key ∧ BytesFit value
  | .collectionRemove _ key => BytesFit key
  | .collectionGet _ key => BytesFit key
  | .collectionRankOfKey _ key => BytesFit key
  | _ => True

def encodeStoreRequest (request : StoreRequest) : Bytes :=
  storeProtocolVersion :: request.opcode :: request.fields

/-- The reader of this protocol names the length prefix a `u32`. -/
def takeStoreBytes : Take Bytes := do
  let length ← takeCount
  takeByteField length

/-- A read that nothing may follow. -/
def expectEnd {Value : Type} (what : String) (take : Take Value) : Take Value :=
  whole (trailingBytes ("store " ++ what ++ " has")) take

def takePut : Take StoreRequest := do
  let id ← takeId
  let n ← takeU16
  let bytes ← tail
  return .put id bytes n

def decodePatchDelta (buf : Bytes) : Except String Delta :=
  match Delta.decode buf with
  | .error _ => .error "store patch carried a malformed delta"
  | .ok delta => .ok delta

def takePatch : Take StoreRequest := do
  let id ← takeId
  let n ← takeU16
  let delta ← embedded decodePatchDelta
  return .patch id delta n

/-- The requests with one id. -/
def takeIdOnly (what : String) (request : DatumId → StoreRequest) : Take StoreRequest :=
  expectEnd what do
    let id ← takeId
    return request id

def takeListIds : Take StoreRequest := expectEnd "list ids" do
  let after ← takeOption (fun _ => "list ids request truncated at the after flag")
    "unknown list ids after flag: " takeId
  let limit ← takeU32
  return .listIds after limit

def takeTransfer : Take StoreRequest := do
  let transferId ← takeId
  let ids ← takeIdList
  let address ← takeStoreBytes
  let destAddress ← text "transfer dest_address was not valid utf8" address
  return .transfer transferId ids destAddress

def takeCollectionCreate : Take StoreRequest := expectEnd "collection create" do
  let collectionId ← takeId
  let keySize ← takeU32
  let valueSize ← takeU32
  return .collectionCreate collectionId keySize valueSize

def takeCollectionInsert : Take StoreRequest := expectEnd "collection insert" do
  let collectionId ← takeId
  let key ← takeStoreBytes
  let value ← takeStoreBytes
  return .collectionInsert collectionId key value

/-- The requests about one key of a collection. -/
def takeKeyed (what : String) (request : DatumId → Bytes → StoreRequest) : Take StoreRequest :=
  expectEnd what do
    let collectionId ← takeId
    let key ← takeStoreBytes
    return request collectionId key

/-- The requests for a bounded number of entries of a collection. -/
def takeBounded (what : String) (request : DatumId → UInt32 → StoreRequest) : Take StoreRequest :=
  expectEnd what do
    let collectionId ← takeId
    let limit ← takeU32
    return request collectionId limit

def takeCollectionScanFromRank : Take StoreRequest := expectEnd "collection scan from rank" do
  let collectionId ← takeId
  let rank ← takeU64
  let limit ← takeU32
  return .collectionScanFromRank collectionId rank limit

def takeStoreRequest (tag : UInt8) : Take StoreRequest :=
  match tag with
  | 1 => takePut
  | 2 => takePatch
  | 3 => takeIdOnly "get" .get
  | 4 => takeIdOnly "delete" .delete
  | 5 => takeListIds
  | 6 => takeTransfer
  | 7 => takeIdOnly "transfer status" .transferStatus
  | 8 => takeIdOnly "finish transfer" .finishTransfer
  | 9 => takeIdOnly "retire" .retire
  | 10 => expectEnd "identify" (pure .identify)
  | 11 => takeCollectionCreate
  | 12 => takeCollectionInsert
  | 13 => takeKeyed "collection remove" .collectionRemove
  | 14 => takeKeyed "collection get" .collectionGet
  | 15 => takeBounded "collection scan forward" .collectionScanForward
  | 16 => takeBounded "collection scan backward" .collectionScanBackward
  | 17 => takeBounded "collection sample" .collectionSample
  | 18 => takeKeyed "collection rank of key" .collectionRankOfKey
  | 19 => takeCollectionScanFromRank
  | 20 => takeIdOnly "collection count" .collectionCount
  | tag => fail ("unknown store request tag: " ++ toString tag.toNat)

def decodeStoreRequest : Bytes → Except String StoreRequest :=
  decodeVersioned storeProtocolVersion "store request" "4" fun tag buf =>
    run (takeStoreRequest tag) buf 1

/-! ## Responses -/

def putIdAndFactor (entry : DatumId × UInt16) : Bytes := entry.1.asBytes ++ leBytes 2 entry.2.toNat

def putPair (entry : Bytes × Bytes) : Bytes := putBytes entry.1 ++ putBytes entry.2

namespace StoreResponse

def opcode : StoreResponse → UInt8
  | .ack => 1
  | .needFull => 2
  | .value .. => 3
  | .idList .. => 4
  | .transferProgress .. => 5
  | .identity .. => 6
  | .error .. => 7
  | .collectionEntry .. => 8
  | .collectionEntries .. => 9
  | .collectionRank .. => 10
  | .collectionCount .. => 11

/-- What follows the opcode. -/
def fields : StoreResponse → Bytes
  | .ack => []
  | .needFull => []
  | .value bytes => putOption id bytes
  | .idList ids done => boolByte done :: putCounted putIdAndFactor ids
  | .transferProgress copied dirty done =>
      leBytes 8 copied.toNat ++ leBytes 8 dirty.toNat ++ [boolByte done]
  | .identity nodeId logId => leBytes 8 nodeId ++ logId.asBytes
  | .error message => ofString message
  | .collectionEntry entry => putOption putBytes entry
  | .collectionEntries entries => putCounted putPair entries
  | .collectionRank rank => putOption (fun rank => leBytes 8 rank.toNat) rank
  | .collectionCount total => leBytes 8 total.toNat

def Fits : StoreResponse → Prop
  | .idList ids _ => ids.length < 2 ^ 32
  | .identity nodeId _ => nodeId < 2 ^ 64
  | .collectionEntry entry => OptionFits BytesFit entry
  | .collectionEntries entries =>
      CountedFit (fun entry => BytesFit entry.1 ∧ BytesFit entry.2) entries
  | _ => True

end StoreResponse

def encodeStoreResponse (response : StoreResponse) : Bytes :=
  storeProtocolVersion :: response.opcode :: response.fields

def takeStoreValue : UInt8 → Take StoreResponse
  | 0 => return .value none
  | 1 => do
      let bytes ← tail
      return .value (some bytes)
  | flag => fail ("unknown store value flag: " ++ toString flag.toNat)

def takeValue : Take StoreResponse := do
  let flag ← takeByte fun _ => "store value response missing its presence flag"
  takeStoreValue flag

/-- Every byte but zero says that it is done. -/
def takeDone (truncated : ℕ → String) : Take Bool := (fun flag => flag != 0) <$> takeByte truncated

def takeIdAndFactor : Take (DatumId × UInt16) := do
  let id ← takeId
  let n ← takeU16
  return (id, n)

def takeIdListResponse : Take StoreResponse := do
  let done ← takeDone fun _ => "id list response truncated at the done flag"
  let ids ← takeCounted takeIdAndFactor
  return .idList ids done

def takeTransferProgress : Take StoreResponse := do
  let copied ← takeU64
  let dirty ← takeU64
  let done ← takeDone fun _ => "transfer progress truncated at the done flag"
  return .transferProgress copied dirty done

def takeIdentity : Take StoreResponse := do
  let nodeId ← takeNodeId
  let logId ← takeId
  return .identity nodeId logId

def takeError : Take StoreResponse := do
  let bytes ← tail
  let message ← text "store error message not utf8" bytes
  return .error message

def takeCollectionEntry : Take StoreResponse := expectEnd "collection entry" do
  let value ← takeOption (fun _ => "collection entry response missing its presence flag")
    "unknown collection entry flag: " takeStoreBytes
  return .collectionEntry value

def takePair : Take (Bytes × Bytes) := do
  let key ← takeStoreBytes
  let value ← takeStoreBytes
  return (key, value)

def takeCollectionEntries : Take StoreResponse := expectEnd "collection entries" do
  let entries ← takeCounted takePair
  return .collectionEntries entries

def takeCollectionRank : Take StoreResponse := expectEnd "collection rank" do
  let rank ← takeOption (fun _ => "collection rank response missing its presence flag")
    "unknown collection rank flag: " takeU64
  return .collectionRank rank

def takeCollectionCount : Take StoreResponse := expectEnd "collection count" do
  let total ← takeU64
  return .collectionCount total

def takeStoreResponse (tag : UInt8) : Take StoreResponse :=
  match tag with
  | 1 => return .ack
  | 2 => return .needFull
  | 3 => takeValue
  | 4 => takeIdListResponse
  | 5 => takeTransferProgress
  | 6 => takeIdentity
  | 7 => takeError
  | 8 => takeCollectionEntry
  | 9 => takeCollectionEntries
  | 10 => takeCollectionRank
  | 11 => takeCollectionCount
  | tag => fail ("unknown store response tag: " ++ toString tag.toNat)

def decodeStoreResponse : Bytes → Except String StoreResponse :=
  decodeVersioned storeProtocolVersion "store response" "4" fun tag buf =>
    run (takeStoreResponse tag) buf 1

/-! ## What the request decoder accepts -/

/-- The requests whose decoder does not look for bytes after the last field. -/
def StoreRequest.Unchecked : StoreRequest → Prop
  | .transfer .. => True
  | _ => False

def storeRequestFormat : Format StoreRequest where
  tag := StoreRequest.opcode
  fits := StoreRequest.Fits
  spells request word := word = request.fields
  unchecked := StoreRequest.Unchecked

theorem StoreRequest.checked_of_opcode {request : StoreRequest} {tag : UInt8}
    (opcode : request.opcode = tag) (other : tag ≠ 6) : ¬request.Unchecked := by
  cases request with
  | transfer => exact (other opcode.symm).elim
  | _ => exact id

theorem StoreRequest.unchecked_of_opcode {request : StoreRequest} (opcode : request.opcode = 6) :
    request.Unchecked := by
  cases request with
  | transfer => trivial
  | _ => simp [StoreRequest.opcode] at opcode

theorem takeStoreBytes_accepts : Accepts takeStoreBytes (Exactly BytesFit putBytes) :=
  prefixed_accepts takeCount_accepts

theorem takePut_accepts : Accepts takePut (Whole (storeRequestFormat.Variant 1)) := by
  refine (takeId_accepts.then fun id => takeU16_accepts.then fun n => tailThen_accepts).congr
    fun request word rest => ?_
  cases request <;> simp [Whole, Format.Variant, Format.Of, storeRequestFormat,
    StoreRequest.opcode, StoreRequest.fields, StoreRequest.Fits, Always]

/-- A window of four bytes is spelled by the number it denotes. -/
theorem leBytes_window {buf : Bytes} (offset : ℕ) (inside : offset + 4 ≤ buf.length) :
    leBytes 4 (leNat ((buf.drop offset).take 4)) = (buf.drop offset).take 4 := by
  have four : ((buf.drop offset).take 4).length = 4 :=
    List.length_take_of_le (by rw [List.length_drop]; omega)
  have spelled := leBytes_leNat ((buf.drop offset).take 4)
  rwa [four] at spelled

theorem decodePatchDelta_eq_ok {buf : Bytes} {delta : Delta} :
    decodePatchDelta buf = .ok delta ↔ DeltaFits delta ∧ buf = delta.encode := by
  have inner : decodePatchDelta buf = .ok delta ↔ Delta.decode buf = .ok delta := by
    unfold decodePatchDelta
    cases Delta.decode buf <;> simp
  rw [inner]
  constructor
  · intro decoded
    simp only [Delta.decode] at decoded
    split at decoded
    · cases decoded
    · rename_i long
      split at decoded
      · cases decoded
      · rename_i exact
        cases decoded
        have bound : ∀ offset, leNat ((buf.drop offset).take 4) < 2 ^ 32 := by
          intro offset
          have small := leNat_lt ((buf.drop offset).take 4)
          have short : ((buf.drop offset).take 4).length ≤ 4 := List.length_take_le ..
          exact small.trans_le (Nat.pow_le_pow_right (by decide) short)
        have middle : (buf.drop 16).length = leNat ((buf.drop 12).take 4) := by
          rw [List.length_drop]
          omega
        refine ⟨⟨bound 0, bound 4, bound 8, ?_⟩, ?_⟩
        · change (buf.drop 16).length < 2 ^ 32
          rw [middle]
          exact bound 12
        · have fields : ∀ offset, (buf.drop offset).take 4 ++ buf.drop (offset + 4) =
              buf.drop offset := by
            intro offset
            rw [← List.drop_drop, List.take_append_drop]
          have first : leBytes 4 (leNat ((buf.drop 0).take 4)) = _ := leBytes_window 0 (by omega)
          rw [List.drop_zero] at first
          rw [Delta.encode, middle, leBytes_window 4 (by omega), leBytes_window 8 (by omega),
            leBytes_window 12 (by omega)]
          rw [first, List.append_assoc, List.append_assoc, List.append_assoc, fields 12, fields 8,
            fields 4, List.take_append_drop]
  · rintro ⟨⟨front, back, total, middle⟩, rfl⟩
    exact Delta.decode_encode front back total middle

theorem takePatch_accepts : Accepts takePatch (Whole (storeRequestFormat.Variant 2)) := by
  refine (takeId_accepts.then fun id => takeU16_accepts.then fun n =>
    embeddedThen_accepts fun _ _ => decodePatchDelta_eq_ok).congr fun request word rest => ?_
  cases request <;> simp [Whole, Format.Variant, Format.Of, storeRequestFormat,
    StoreRequest.opcode, StoreRequest.fields, StoreRequest.Fits, Always, and_assoc, and_left_comm]

theorem takeListIds_accepts : Accepts takeListIds (Whole (storeRequestFormat.Variant 5)) := by
  refine Accepts.whole (((takeOption_accepts takeId_accepts _ _).then fun after =>
    takeU32_accepts.then fun limit => .pure _).congr fun request word rest => ?_) _
  cases request <;> simp [Format.Variant, Format.Of, storeRequestFormat,
    StoreRequest.opcode, StoreRequest.fields, StoreRequest.Fits, Always]

theorem takeTransfer_accepts : Accepts takeTransfer (storeRequestFormat.Variant 6) := by
  refine (takeId_accepts.then fun transferId => takeIdList_accepts.then fun ids =>
    takeStoreBytes_accepts.then fun address => (text_accepts _ address).bind fun destAddress =>
    .pure _).congr fun request word rest => ?_
  cases request <;> simp [Format.Variant, Format.Of, storeRequestFormat,
    StoreRequest.opcode, StoreRequest.fields, StoreRequest.Fits, Always, TextFits, putText, and_assoc,
    and_left_comm, and_comm]

theorem takeCollectionCreate_accepts :
    Accepts takeCollectionCreate (Whole (storeRequestFormat.Variant 11)) := by
  refine Accepts.whole ((takeId_accepts.then fun collectionId => takeU32_accepts.then
    fun keySize => takeU32_accepts.then fun valueSize => .pure _).congr
    fun request word rest => ?_) _
  cases request <;> simp [Format.Variant, Format.Of, storeRequestFormat,
    StoreRequest.opcode, StoreRequest.fields, StoreRequest.Fits, Always]

theorem takeCollectionInsert_accepts :
    Accepts takeCollectionInsert (Whole (storeRequestFormat.Variant 12)) := by
  refine Accepts.whole ((takeId_accepts.then fun collectionId => takeStoreBytes_accepts.then
    fun key => takeStoreBytes_accepts.then fun value => .pure _).congr
    fun request word rest => ?_) _
  cases request <;> simp [Format.Variant, Format.Of, storeRequestFormat,
    StoreRequest.opcode, StoreRequest.fields, StoreRequest.Fits, Always, and_assoc, and_left_comm,
    and_comm]

theorem takeCollectionScanFromRank_accepts :
    Accepts takeCollectionScanFromRank (Whole (storeRequestFormat.Variant 19)) := by
  refine Accepts.whole ((takeId_accepts.then fun collectionId => takeU64_accepts.then
    fun rank => takeU32_accepts.then fun limit => .pure _).congr fun request word rest => ?_) _
  cases request <;> simp [Format.Variant, Format.Of, storeRequestFormat,
    StoreRequest.opcode, StoreRequest.fields, StoreRequest.Fits, Always]

theorem identify_accepts :
    Accepts (pure .identify : Take StoreRequest) (storeRequestFormat.Variant 10) := by
  refine (Accepts.pure _).congr fun request word rest => ?_
  cases request <;> simp [Format.Variant, Format.Of, storeRequestFormat, StoreRequest.opcode,
    StoreRequest.fields, StoreRequest.Fits]

/-- Requests that differ only in their opcode and in the text of an error. -/
theorem alike_reads {Fields : Type} {take : Take StoreRequest} (make : Fields → StoreRequest)
    {fits : Fields → Prop} {put : Fields → Bytes} {tag : UInt8}
    (accepts : Accepts take (Whole fun request word _ =>
      ∃ fields, fits fields ∧ word = put fields ∧ request = make fields))
    (made : ∀ request, request.opcode = tag ↔ ∃ fields, request = make fields)
    (makeFits : ∀ fields, (make fields).Fits ↔ fits fields)
    (spelled : ∀ fields, (make fields).fields = put fields) (other : tag ≠ 6) :
    storeRequestFormat.Reads tag fun buf => run take buf 1 := by
  refine Format.reads_whole (accepts.congr fun request word rest => ?_)
    fun _ opcode => StoreRequest.checked_of_opcode opcode other
  constructor
  · rintro ⟨⟨fields, fitting, rfl, rfl⟩, nothing⟩
    exact ⟨⟨⟨(made _).mpr ⟨fields, rfl⟩, (makeFits fields).mpr fitting⟩, (spelled fields).symm⟩,
      nothing⟩
  · rintro ⟨⟨⟨opcode, fitting⟩, rfl⟩, nothing⟩
    rcases (made request).mp opcode with ⟨fields, rfl⟩
    exact ⟨⟨fields, (makeFits fields).mp fitting, spelled fields, rfl⟩, nothing⟩

theorem takeIdOnly_reads {what : String} (make : DatumId → StoreRequest) {tag : UInt8}
    (made : ∀ request, request.opcode = tag ↔ ∃ id, request = make id)
    (fits : ∀ id, (make id).Fits) (spelled : ∀ id, (make id).fields = id.asBytes)
    (other : tag ≠ 6) : storeRequestFormat.Reads tag fun buf => run (takeIdOnly what make) buf 1 := by
  refine alike_reads make (Accepts.whole ((takeId_accepts.then fun id => .pure _).congr
    fun request word rest => ?_) _) made (fun id => iff_of_true (fits id) trivial) spelled other
  constructor
  · rintro ⟨id, _, fitting, rfl, rfl, rfl⟩
    exact ⟨id, fitting, List.append_nil _, rfl⟩
  · rintro ⟨id, fitting, rfl, rfl⟩
    exact ⟨id, [], fitting, (List.append_nil _).symm, rfl, rfl⟩

theorem takeKeyed_reads {what : String} (make : DatumId → Bytes → StoreRequest) {tag : UInt8}
    (made : ∀ request, request.opcode = tag ↔ ∃ id key, request = make id key)
    (fits : ∀ id key, (make id key).Fits ↔ BytesFit key)
    (spelled : ∀ id key, (make id key).fields = id.asBytes ++ putBytes key)
    (other : tag ≠ 6) : storeRequestFormat.Reads tag fun buf => run (takeKeyed what make) buf 1 := by
  refine alike_reads (fun fields : DatumId × Bytes => make fields.1 fields.2)
    (Accepts.whole ((takeId_accepts.then fun id => takeStoreBytes_accepts.then
      fun key => .pure _).congr fun request word rest => ?_) _)
    (fun request => by rw [made, Prod.exists]) (fun fields => fits fields.1 fields.2)
    (fun fields => spelled fields.1 fields.2) other
  constructor
  · rintro ⟨id, _, -, rfl, key, _, fitting, rfl, rfl, rfl⟩
    exact ⟨(id, key), fitting, by rw [List.append_nil], rfl⟩
  · rintro ⟨⟨id, key⟩, fitting, rfl, rfl⟩
    exact ⟨id, _, trivial, rfl, key, [], fitting, (List.append_nil _).symm, rfl, rfl⟩

theorem takeBounded_reads {what : String} (make : DatumId → UInt32 → StoreRequest) {tag : UInt8}
    (made : ∀ request, request.opcode = tag ↔ ∃ id limit, request = make id limit)
    (fits : ∀ id limit, (make id limit).Fits)
    (spelled : ∀ id limit, (make id limit).fields = id.asBytes ++ leBytes 4 limit.toNat)
    (other : tag ≠ 6) :
    storeRequestFormat.Reads tag fun buf => run (takeBounded what make) buf 1 := by
  refine alike_reads (fun fields : DatumId × UInt32 => make fields.1 fields.2)
    (Accepts.whole ((takeId_accepts.then fun id => takeU32_accepts.then
      fun limit => .pure _).congr fun request word rest => ?_) _)
    (fun request => by rw [made, Prod.exists])
    (fun fields => iff_of_true (fits fields.1 fields.2) trivial)
    (fun fields => spelled fields.1 fields.2) other
  constructor
  · rintro ⟨id, _, -, rfl, limit, _, fitting, rfl, rfl, rfl⟩
    exact ⟨(id, limit), fitting, by rw [List.append_nil], rfl⟩
  · rintro ⟨⟨id, limit⟩, fitting, rfl, rfl⟩
    exact ⟨id, _, trivial, rfl, limit, [], fitting, (List.append_nil _).symm, rfl, rfl⟩

theorem takeStoreRequest_reads (tag : UInt8) :
    storeRequestFormat.Reads tag fun buf => run (takeStoreRequest tag) buf 1 := by
  intro bytes request
  unfold takeStoreRequest
  split
  · exact Format.reads_whole takePut_accepts
      (fun _ opcode => StoreRequest.checked_of_opcode opcode (by decide)) bytes request
  · exact Format.reads_whole takePatch_accepts
      (fun _ opcode => StoreRequest.checked_of_opcode opcode (by decide)) bytes request
  · exact takeIdOnly_reads .get (fun other => by cases other <;> simp [StoreRequest.opcode])
      (fun _ => trivial) (fun _ => rfl) (by decide) bytes request
  · exact takeIdOnly_reads .delete (fun other => by cases other <;> simp [StoreRequest.opcode])
      (fun _ => trivial) (fun _ => rfl) (by decide) bytes request
  · exact Format.reads_whole takeListIds_accepts
      (fun _ opcode => StoreRequest.checked_of_opcode opcode (by decide)) bytes request
  · exact Format.reads_unchecked takeTransfer_accepts
      (fun _ opcode => StoreRequest.unchecked_of_opcode opcode) bytes request
  · exact takeIdOnly_reads .transferStatus
      (fun other => by cases other <;> simp [StoreRequest.opcode])
      (fun _ => trivial) (fun _ => rfl) (by decide) bytes request
  · exact takeIdOnly_reads .finishTransfer
      (fun other => by cases other <;> simp [StoreRequest.opcode])
      (fun _ => trivial) (fun _ => rfl) (by decide) bytes request
  · exact takeIdOnly_reads .retire (fun other => by cases other <;> simp [StoreRequest.opcode])
      (fun _ => trivial) (fun _ => rfl) (by decide) bytes request
  · exact Format.reads_whole (identify_accepts.whole _)
      (fun _ opcode => StoreRequest.checked_of_opcode opcode (by decide)) bytes request
  · exact Format.reads_whole takeCollectionCreate_accepts
      (fun _ opcode => StoreRequest.checked_of_opcode opcode (by decide)) bytes request
  · exact Format.reads_whole takeCollectionInsert_accepts
      (fun _ opcode => StoreRequest.checked_of_opcode opcode (by decide)) bytes request
  · exact takeKeyed_reads .collectionRemove
      (fun other => by cases other <;> simp [StoreRequest.opcode])
      (fun _ _ => Iff.rfl) (fun _ _ => rfl) (by decide) bytes request
  · exact takeKeyed_reads .collectionGet
      (fun other => by cases other <;> simp [StoreRequest.opcode])
      (fun _ _ => Iff.rfl) (fun _ _ => rfl) (by decide) bytes request
  · exact takeBounded_reads .collectionScanForward
      (fun other => by cases other <;> simp [StoreRequest.opcode])
      (fun _ _ => trivial) (fun _ _ => rfl) (by decide) bytes request
  · exact takeBounded_reads .collectionScanBackward
      (fun other => by cases other <;> simp [StoreRequest.opcode])
      (fun _ _ => trivial) (fun _ _ => rfl) (by decide) bytes request
  · exact takeBounded_reads .collectionSample
      (fun other => by cases other <;> simp [StoreRequest.opcode])
      (fun _ _ => trivial) (fun _ _ => rfl) (by decide) bytes request
  · exact takeKeyed_reads .collectionRankOfKey
      (fun other => by cases other <;> simp [StoreRequest.opcode])
      (fun _ _ => Iff.rfl) (fun _ _ => rfl) (by decide) bytes request
  · exact Format.reads_whole takeCollectionScanFromRank_accepts
      (fun _ opcode => StoreRequest.checked_of_opcode opcode (by decide)) bytes request
  · exact takeIdOnly_reads .collectionCount
      (fun other => by cases other <;> simp [StoreRequest.opcode])
      (fun _ => trivial) (fun _ => rfl) (by decide) bytes request
  · constructor
    · intro read
      cases read
    · rintro ⟨⟨rfl, -⟩, -⟩
      cases request <;> simp_all [storeRequestFormat, StoreRequest.opcode]

/-- What decodes to a store request. -/
theorem decodeStoreRequest_eq_ok {buf : Bytes} {request : StoreRequest} :
    decodeStoreRequest buf = .ok request ↔ request.Fits ∧
      ∃ rest, buf = encodeStoreRequest request ++ rest ∧ (rest = [] ∨ request.Unchecked) := by
  rw [decodeStoreRequest, decodeVersioned_eq_ok takeStoreRequest_reads]
  constructor
  · rintro ⟨fits, _, rest, rfl, rfl, last⟩
    exact ⟨fits, rest, rfl, last⟩
  · rintro ⟨fits, rest, rfl, last⟩
    exact ⟨fits, _, rest, rfl, rfl, last⟩

/-! ## What the response decoder accepts -/

/-- The responses whose decoder does not look for bytes after the last field. -/
def StoreResponse.Unchecked : StoreResponse → Prop
  | .ack => True
  | .needFull => True
  | .value none => True
  | .idList .. => True
  | .transferProgress .. => True
  | .identity .. => True
  | _ => False

/-- The words that are read as a response; `done` may be spelled by any byte but zero. -/
def StoreResponse.Spells : StoreResponse → Bytes → Prop
  | .idList ids done, word =>
      ∃ flag : UInt8, done = (flag != 0) ∧ word = flag :: putCounted putIdAndFactor ids
  | .transferProgress copied dirty done, word =>
      ∃ flag : UInt8, done = (flag != 0) ∧
        word = leBytes 8 copied.toNat ++ leBytes 8 dirty.toNat ++ [flag]
  | response, word => word = response.fields

def storeResponseFormat : Format StoreResponse where
  tag := StoreResponse.opcode
  fits := StoreResponse.Fits
  spells := StoreResponse.Spells
  unchecked := StoreResponse.Unchecked

theorem StoreResponse.spells_fields (response : StoreResponse) :
    response.Spells response.fields := by
  cases response with
  | idList ids done => exact ⟨boolByte done, by cases done <;> rfl, rfl⟩
  | transferProgress copied dirty done => exact ⟨boolByte done, by cases done <;> rfl, rfl⟩
  | _ => exact rfl

theorem takeStoreValue_accepts (flag : UInt8) :
    Accepts (takeStoreValue flag) fun response word rest =>
      ∃ bytes, response = .value bytes ∧ flag :: word = putOption id bytes ∧
        (rest = [] ∨ bytes = none) := by
  unfold takeStoreValue
  split
  · refine (Accepts.pure _).congr fun response word rest => ?_
    constructor
    · rintro ⟨rfl, rfl⟩
      exact ⟨none, rfl, rfl, .inr rfl⟩
    · rintro ⟨bytes, rfl, spelled, -⟩
      cases bytes with
      | none => exact ⟨rfl, (List.cons.inj spelled).2⟩
      | some bytes => exact nomatch (List.cons.inj spelled).1
  · refine tailThen_accepts.congr fun response word rest => ?_
    constructor
    · rintro ⟨rfl, nothing⟩
      exact ⟨some word, rfl, rfl, .inl nothing⟩
    · rintro ⟨bytes, rfl, spelled, last⟩
      cases bytes with
      | none => exact nomatch (List.cons.inj spelled).1
      | some bytes =>
          have same : word = bytes := (List.cons.inj spelled).2
          exact ⟨by rw [same], last.resolve_right nofun⟩
  · rename_i notNone notSome
    refine (Accepts.fail _).congr fun response word rest => ⟨False.elim, ?_⟩
    rintro ⟨bytes, -, spelled, -⟩
    cases bytes with
    | none => exact notNone (List.cons.inj spelled).1
    | some => exact notSome (List.cons.inj spelled).1

theorem takeValue_reads : storeResponseFormat.Reads 3 fun buf => run takeValue buf 1 := by
  intro bytes response
  have read : run takeValue (3 :: bytes) 1 = .ok response ↔ _ :=
    ((takeByte_accepts _).then takeStoreValue_accepts).run_eq_ok [3]
  rw [read]
  constructor
  · rintro ⟨_, rest, rfl, flag, word, -, rfl, value, rfl, spelled, last⟩
    refine ⟨⟨rfl, trivial⟩, flag :: word, rest, rfl, spelled, last.imp_right ?_⟩
    rintro rfl
    trivial
  · cases response with
    | value value =>
        rintro ⟨-, _, rest, rfl, rfl, last⟩
        cases value with
        | none => exact ⟨_, rest, rfl, 0, [], trivial, rfl, none, rfl, rfl, .inr rfl⟩
        | some value =>
            exact ⟨_, rest, rfl, 1, value, trivial, rfl, some value, rfl, rfl,
              .inl (last.resolve_right id)⟩
    | _ => simp [Format.Of, storeResponseFormat, StoreResponse.opcode]

theorem takeDone_accepts (truncated : ℕ → String) :
    Accepts (takeDone truncated) fun done word _ =>
      ∃ flag : UInt8, done = (flag != 0) ∧ word = [flag] := by
  refine ((takeByte_accepts truncated).map fun flag => flag != 0).congr fun done word rest => ?_
  simp [Exactly, Always]

theorem takeIdAndFactor_accepts : Accepts takeIdAndFactor (Exactly Always putIdAndFactor) := by
  refine (takeId_accepts.then fun id => takeU16_accepts.then fun n => .pure _).congr
    fun entry word rest => ?_
  cases entry
  simp [Exactly, Always, putIdAndFactor]

theorem takeIdListResponse_accepts :
    Accepts takeIdListResponse (storeResponseFormat.Variant 4) := by
  refine ((takeDone_accepts _).bind fun done => (takeCounted_accepts takeIdAndFactor_accepts).then
    fun ids => .pure _).congr fun response word rest => ?_
  constructor
  · rintro ⟨done, _, _, rfl, ⟨flag, isDone, rfl⟩, ids, _, fits, rfl, rfl, rfl⟩
    exact ⟨⟨rfl, fits.1⟩, flag, isDone, by simp⟩
  · rintro ⟨⟨opcode, fits⟩, spelled⟩
    cases response with
    | idList ids done =>
        rcases spelled with ⟨flag, isDone, rfl⟩
        exact ⟨done, [flag], _, rfl, ⟨flag, isDone, rfl⟩, ids, [], ⟨fits, fun _ _ => trivial⟩,
          (List.append_nil _).symm, rfl, rfl⟩
    | _ => simp [storeResponseFormat, StoreResponse.opcode] at opcode

theorem takeTransferProgress_accepts :
    Accepts takeTransferProgress (storeResponseFormat.Variant 5) := by
  refine (takeU64_accepts.then fun copied => takeU64_accepts.then fun dirty =>
    (takeDone_accepts _).bind fun done => .pure _).congr fun response word rest => ?_
  constructor
  · rintro ⟨copied, _, -, rfl, dirty, _, -, rfl, done, _, _, rfl, ⟨flag, isDone, rfl⟩, rfl, rfl⟩
    exact ⟨⟨rfl, trivial⟩, flag, isDone, by simp⟩
  · rintro ⟨⟨opcode, -⟩, spelled⟩
    cases response with
    | transferProgress copied dirty done =>
        rcases spelled with ⟨flag, isDone, rfl⟩
        exact ⟨copied, _, trivial, List.append_assoc .., dirty, _, trivial, rfl, done, [flag], [],
          rfl, ⟨flag, isDone, rfl⟩, rfl, rfl⟩
    | _ => simp [storeResponseFormat, StoreResponse.opcode] at opcode

theorem takeIdentity_accepts : Accepts takeIdentity (storeResponseFormat.Variant 6) := by
  refine (takeNodeId_accepts.then fun nodeId => takeId_accepts.then fun logId => .pure _).congr
    fun response word rest => ?_
  cases response <;> simp [Format.Variant, Format.Of, storeResponseFormat, StoreResponse.opcode,
    StoreResponse.Spells, StoreResponse.fields, StoreResponse.Fits, Always]

theorem takeError_accepts : Accepts takeError (Whole (storeResponseFormat.Variant 7)) := by
  refine (tail_accepts.bind fun bytes => (text_accepts _ bytes).bind fun message =>
    .pure _).congr fun response word rest => ?_
  cases response <;> simp [Whole, Format.Variant, Format.Of, storeResponseFormat,
    StoreResponse.opcode, StoreResponse.Spells, StoreResponse.fields, StoreResponse.Fits]

theorem takeCollectionEntry_accepts :
    Accepts takeCollectionEntry (Whole (storeResponseFormat.Variant 8)) := by
  refine Accepts.whole (((takeOption_accepts takeStoreBytes_accepts _ _).then fun value =>
    .pure _).congr fun response word rest => ?_) _
  cases response <;> simp [Format.Variant, Format.Of, storeResponseFormat, StoreResponse.opcode,
    StoreResponse.Spells, StoreResponse.fields, StoreResponse.Fits]

theorem takePair_accepts :
    Accepts takePair (Exactly (fun entry => BytesFit entry.1 ∧ BytesFit entry.2) putPair) := by
  refine (takeStoreBytes_accepts.then fun key => takeStoreBytes_accepts.then fun value =>
    .pure _).congr fun entry word rest => ?_
  cases entry
  simp [Exactly, putPair, and_assoc, and_left_comm, and_comm]

theorem takeCollectionEntries_accepts :
    Accepts takeCollectionEntries (Whole (storeResponseFormat.Variant 9)) := by
  refine Accepts.whole (((takeCounted_accepts takePair_accepts).then fun entries =>
    .pure _).congr fun response word rest => ?_) _
  cases response <;> simp [Format.Variant, Format.Of, storeResponseFormat, StoreResponse.opcode,
    StoreResponse.Spells, StoreResponse.fields, StoreResponse.Fits]

theorem takeCollectionRank_accepts :
    Accepts takeCollectionRank (Whole (storeResponseFormat.Variant 10)) := by
  refine Accepts.whole (((takeOption_accepts takeU64_accepts _ _).then fun rank =>
    .pure _).congr fun response word rest => ?_) _
  cases response <;> simp [Format.Variant, Format.Of, storeResponseFormat, StoreResponse.opcode,
    StoreResponse.Spells, StoreResponse.fields, StoreResponse.Fits]

theorem takeCollectionCount_accepts :
    Accepts takeCollectionCount (Whole (storeResponseFormat.Variant 11)) := by
  refine Accepts.whole ((takeU64_accepts.then fun total => .pure _).congr
    fun response word rest => ?_) _
  cases response <;> simp [Format.Variant, Format.Of, storeResponseFormat, StoreResponse.opcode,
    StoreResponse.Spells, StoreResponse.fields, StoreResponse.Fits, Always]

/-- The responses that are their opcode only. -/
theorem bare_accepts (response : StoreResponse) {tag : UInt8}
    (made : ∀ other : StoreResponse, other.opcode = tag ↔ other = response)
    (fits : response.Fits) (spelled : ∀ word, response.Spells word ↔ word = []) :
    Accepts (pure response) (storeResponseFormat.Variant tag) := by
  refine (Accepts.pure response).congr fun other word rest => ?_
  constructor
  · rintro ⟨rfl, rfl⟩
    exact ⟨⟨(made _).mpr rfl, fits⟩, (spelled []).mpr rfl⟩
  · rintro ⟨⟨opcode, -⟩, spelling⟩
    cases (made other).mp opcode
    exact ⟨rfl, (spelled word).mp spelling⟩

theorem StoreResponse.unchecked_of_opcode {response : StoreResponse} {tag : UInt8}
    (opcode : response.opcode = tag) (among : tag = 1 ∨ tag = 2 ∨ tag = 4 ∨ tag = 5 ∨ tag = 6) :
    response.Unchecked := by
  subst opcode
  cases response <;> simp [StoreResponse.opcode, StoreResponse.Unchecked] at among ⊢

theorem StoreResponse.checked_of_opcode {response : StoreResponse} {tag : UInt8}
    (opcode : response.opcode = tag)
    (among : tag = 7 ∨ tag = 8 ∨ tag = 9 ∨ tag = 10 ∨ tag = 11) : ¬response.Unchecked := by
  subst opcode
  cases response <;> simp [StoreResponse.opcode, StoreResponse.Unchecked] at among ⊢

theorem takeStoreResponse_reads (tag : UInt8) :
    storeResponseFormat.Reads tag fun buf => run (takeStoreResponse tag) buf 1 := by
  intro bytes response
  unfold takeStoreResponse
  split
  · exact Format.reads_unchecked (bare_accepts .ack
      (fun other => by cases other <;> simp [StoreResponse.opcode]) trivial fun _ => Iff.rfl)
      (fun _ opcode => StoreResponse.unchecked_of_opcode opcode (by decide)) bytes response
  · exact Format.reads_unchecked (bare_accepts .needFull
      (fun other => by cases other <;> simp [StoreResponse.opcode]) trivial fun _ => Iff.rfl)
      (fun _ opcode => StoreResponse.unchecked_of_opcode opcode (by decide)) bytes response
  · exact takeValue_reads bytes response
  · exact Format.reads_unchecked takeIdListResponse_accepts
      (fun _ opcode => StoreResponse.unchecked_of_opcode opcode (by decide)) bytes response
  · exact Format.reads_unchecked takeTransferProgress_accepts
      (fun _ opcode => StoreResponse.unchecked_of_opcode opcode (by decide)) bytes response
  · exact Format.reads_unchecked takeIdentity_accepts
      (fun _ opcode => StoreResponse.unchecked_of_opcode opcode (by decide)) bytes response
  · exact Format.reads_whole takeError_accepts
      (fun _ opcode => StoreResponse.checked_of_opcode opcode (by decide)) bytes response
  · exact Format.reads_whole takeCollectionEntry_accepts
      (fun _ opcode => StoreResponse.checked_of_opcode opcode (by decide)) bytes response
  · exact Format.reads_whole takeCollectionEntries_accepts
      (fun _ opcode => StoreResponse.checked_of_opcode opcode (by decide)) bytes response
  · exact Format.reads_whole takeCollectionRank_accepts
      (fun _ opcode => StoreResponse.checked_of_opcode opcode (by decide)) bytes response
  · exact Format.reads_whole takeCollectionCount_accepts
      (fun _ opcode => StoreResponse.checked_of_opcode opcode (by decide)) bytes response
  · constructor
    · intro read
      cases read
    · rintro ⟨⟨rfl, -⟩, -⟩
      cases response <;> simp_all [storeResponseFormat, StoreResponse.opcode]

/-- What decodes to a store response. -/
theorem decodeStoreResponse_eq_ok {buf : Bytes} {response : StoreResponse} :
    decodeStoreResponse buf = .ok response ↔ response.Fits ∧ ∃ word rest,
      buf = storeProtocolVersion :: response.opcode :: (word ++ rest) ∧
      response.Spells word ∧ (rest = [] ∨ response.Unchecked) := by
  rw [decodeStoreResponse, decodeVersioned_eq_ok takeStoreResponse_reads]
  rfl

/-! ## Round trips -/

/-- Every store message whose lengths fit their prefixes is read back as it was. -/
theorem store_messages_round_trip :
    (∀ request : StoreRequest, request.Fits →
      decodeStoreRequest (encodeStoreRequest request) = .ok request) ∧
    ∀ response : StoreResponse, response.Fits →
      decodeStoreResponse (encodeStoreResponse response) = .ok response := by
  refine ⟨fun request fits => ?_, fun response fits => ?_⟩
  · exact decodeStoreRequest_eq_ok.mpr ⟨fits, [], (List.append_nil _).symm, .inl rfl⟩
  · exact decodeStoreResponse_eq_ok.mpr ⟨fits, response.fields, [], by
      rw [List.append_nil, encodeStoreResponse], response.spells_fields, .inl rfl⟩

theorem store_messages_round_trip_patch :
    decodeStoreRequest (encodeStoreRequest (.patch 7 ⟨2, 3, [1, 2], 7⟩ 2)) =
        .ok (.patch 7 ⟨2, 3, [1, 2], 7⟩ 2) ∧
      decodeStoreResponse (encodeStoreResponse (.idList [(5, 1), (6, 2)] true)) =
        .ok (.idList [(5, 1), (6, 2)] true) :=
  ⟨store_messages_round_trip.1 _ (by simp [StoreRequest.Fits, DeltaFits, BytesFit]),
    store_messages_round_trip.2 _ (by simp [StoreResponse.Fits])⟩

end Seisin.Protocol
