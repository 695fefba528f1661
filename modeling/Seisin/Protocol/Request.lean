import Mathlib
import Seisin.Protocol.Operations

/-!
# Requests on the wire

A request is a version byte, an opcode and the fields that the opcode calls for.
`decodeRequest_eq_ok` says which buffers decode to a request: its encoding, with nothing after it
unless the decoder of that opcode does not look.
-/

namespace Seisin.Protocol

open ByteString Cursor

inductive Request where
  | op (opId : DatumId) (opName : String) (datumIds : List DatumId) (payload : Bytes)
  | acquire (opId datumId : DatumId) (requesterNode : NodeId) (requesterThread : ThreadId)
  | recall (datumId : DatumId)
  | release (datumId : DatumId)
  | indexUpdate (target opId : DatumId) (indexKind : String) (payload : Bytes)
  | rkQuery (indexDatumId : DatumId) (query : RkQueryKind)
  | lbExecute (boardId : DatumId) (className : String) (op : LbExecuteOp)
  | lbQuery (boardId : DatumId) (className : String) (query : LbQueryReq)
  | tkExecute (entityDatumId : DatumId) (className : String) (op : TkOp)
  | tkQuery (entityDatumId : DatumId) (className : String) (query : TkQueryReq)
  | existsCheck (datumId : DatumId)
  | fkPending (pendingDatumId : DatumId) (op : FkPendingOp)
  | extentQuery (extentDatumId : DatumId) (offset : UInt64) (limit : UInt32)
  | partitionUpdate (partitionDatumId : DatumId) (op : ExtentOp)
  | getClusterConfig
  | pause (reason : String)
  | resume
  | clearHalt
  | installStorageRing (members : List StorageMember)

def protocolVersion : UInt8 := 2

/-- The rest of a buffer whose first byte is the version the node speaks. -/
def checkVersion (version : UInt8) (what speaks : String) : Bytes → Except String Bytes
  | [] => .error ("empty " ++ what ++ " payload")
  | first :: rest =>
      if first = version then .ok rest
      else .error ("unsupported " ++ what ++ " protocol version " ++ toString first.toNat ++
        "; this node speaks " ++ speaks)

/-- A versioned message: the decoder of its tag gets the buffer from the tag on. -/
def decodeVersioned {Message : Type} (version : UInt8) (what speaks : String)
    (decode : UInt8 → Bytes → Except String Message) (buf : Bytes) : Except String Message :=
  match checkVersion version what speaks buf with
  | .error message => .error message
  | .ok [] => .error ("empty " ++ what ++ " payload")
  | .ok (tag :: rest) => decode tag (tag :: rest)

theorem decodeVersioned_eq_ok {Message : Type} {format : Format Message} {version : UInt8}
    {what speaks : String} {decode : UInt8 → Bytes → Except String Message}
    (reads : ∀ tag, format.Reads tag (decode tag)) {buf : Bytes} {message : Message} :
    decodeVersioned version what speaks decode buf = .ok message ↔
      format.fits message ∧ ∃ word rest, buf = version :: format.tag message :: (word ++ rest) ∧
        format.spells message word ∧ (rest = [] ∨ format.unchecked message) := by
  cases buf with
  | nil => simp [decodeVersioned, checkVersion]
  | cons first body =>
      by_cases speaks : first = version
      · subst speaks
        cases body with
        | nil => simp [decodeVersioned, checkVersion]
        | cons tag bytes =>
            have passed : decodeVersioned first what speaks decode (first :: tag :: bytes) =
                decode tag (tag :: bytes) := by
              simp [decodeVersioned, checkVersion]
            rw [passed, reads tag bytes message]
            constructor
            · rintro ⟨⟨rfl, fits⟩, word, rest, rfl, spelled, last⟩
              exact ⟨fits, word, rest, rfl, spelled, last⟩
            · rintro ⟨fits, word, rest, same, spelled, last⟩
              cases same
              exact ⟨⟨rfl, fits⟩, word, rest, rfl, spelled, last⟩
      · simp [decodeVersioned, checkVersion, speaks]

/-! ## Encoding -/

namespace Request

def opcode : Request → UInt8
  | .op .. => 1
  | .acquire .. => 2
  | .recall .. => 3
  | .release .. => 4
  | .indexUpdate .. => 5
  | .rkQuery .. => 6
  | .lbExecute .. => 7
  | .lbQuery .. => 8
  | .tkExecute .. => 9
  | .tkQuery .. => 10
  | .existsCheck .. => 11
  | .fkPending .. => 12
  | .extentQuery .. => 13
  | .partitionUpdate .. => 14
  | .getClusterConfig => 15
  | .pause .. => 16
  | .resume => 17
  | .clearHalt => 18
  | .installStorageRing .. => 19

/-- What follows the opcode. -/
def fields : Request → Bytes
  | .op opId opName datumIds payload =>
      opId.asBytes ++ putText opName ++ putIdList datumIds ++ payload
  | .acquire opId datumId requesterNode requesterThread =>
      opId.asBytes ++ datumId.asBytes ++ leBytes 8 requesterNode ++ leBytes 4 requesterThread
  | .recall datumId => datumId.asBytes
  | .release datumId => datumId.asBytes
  | .indexUpdate target opId indexKind payload =>
      target.asBytes ++ opId.asBytes ++ putText indexKind ++ payload
  | .rkQuery indexDatumId query => indexDatumId.asBytes ++ encodeRkQueryKind query
  | .lbExecute boardId className operation =>
      boardId.asBytes ++ putText className ++ encodeLbExecuteOp operation
  | .lbQuery boardId className query =>
      boardId.asBytes ++ putText className ++ encodeLbQueryReq query
  | .tkExecute entityDatumId className operation =>
      entityDatumId.asBytes ++ putText className ++ encodeTkOp operation
  | .tkQuery entityDatumId className query =>
      entityDatumId.asBytes ++ putText className ++ encodeTkQueryReq query
  | .existsCheck datumId => datumId.asBytes
  | .fkPending pendingDatumId operation =>
      pendingDatumId.asBytes ++ encodeFkPendingOp operation
  | .extentQuery extentDatumId offset limit =>
      extentDatumId.asBytes ++ encodeExtentPage offset limit
  | .partitionUpdate partitionDatumId operation =>
      partitionDatumId.asBytes ++ encodeExtentOp operation
  | .getClusterConfig => []
  | .pause reason => ofString reason
  | .resume => []
  | .clearHalt => []
  | .installStorageRing members => putStorageMembers members

/-- Lengths fit their prefixes; node and thread ids are 64 and 32 bits wide in the source. -/
def Fits : Request → Prop
  | .op _ opName datumIds _ => TextFits opName ∧ IdsFit datumIds
  | .acquire _ _ requesterNode requesterThread =>
      requesterNode < 2 ^ 64 ∧ requesterThread < 2 ^ 32
  | .indexUpdate _ _ indexKind _ => TextFits indexKind
  | .lbExecute _ className operation => TextFits className ∧ LbOpFits operation
  | .lbQuery _ className query => TextFits className ∧ LbQueryFits query
  | .tkExecute _ className operation => TextFits className ∧ TkOpFits operation
  | .tkQuery _ className query => TextFits className ∧ TkQueryFits query
  | .installStorageRing members => CountedFit MemberFits members
  | _ => True

end Request

def encodeRequest (request : Request) : Bytes :=
  protocolVersion :: request.opcode :: request.fields

/-! ## Decoding -/

def takeOpRequest : Take Request := do
  let opId ← idField outOfRange
  let nameLength ← number 4 fun _ => "op request too short for a name length"
  let nameBytes ← window nameLength fun _ =>
    "op request too short for its name: expected " ++ toString nameLength ++ " bytes"
  let opName ← text "op name was not valid utf8" nameBytes
  let idCount ← number 4 fun _ => "op request too short for a datum_ids count"
  let datumIds ← times (idField fun _ => "op request truncated in datum_ids list") idCount
  let payload ← tail
  return .op opId opName datumIds payload

def decodeOpRequest (buf : Bytes) : Except String Request :=
  run (atLeast (1 + 16) (fun length => "op request too short for an op_id: " ++ toString length ++
    " bytes") takeOpRequest) buf 1

def wrongLength (what : String) (expected length : ℕ) : String :=
  what ++ " request has the wrong length: expected " ++ toString expected ++ " bytes, got " ++
    toString length

def takeAcquireRequest : Take Request := do
  let opId ← idField outOfRange
  let datumId ← idField outOfRange
  let requesterNode ← number 8 outOfRange
  let requesterThread ← number 4 outOfRange
  return .acquire opId datumId requesterNode requesterThread

def decodeAcquireRequest (buf : Bytes) : Except String Request :=
  run (sized (1 + 16 + 16 + 8 + 4) (wrongLength "acquire" (1 + 16 + 16 + 8 + 4))
    takeAcquireRequest) buf 1

/-- A request with one id. -/
def decodeIdRequest (what : String) (request : DatumId → Request) (buf : Bytes) :
    Except String Request :=
  run (sized (1 + 16) (wrongLength what (1 + 16)) (request <$> idField outOfRange)) buf 1

def decodeRecallRequest : Bytes → Except String Request := decodeIdRequest "recall" .recall

def decodeReleaseRequest : Bytes → Except String Request := decodeIdRequest "release" .release

def decodeExistsCheckRequest : Bytes → Except String Request :=
  decodeIdRequest "exists check" .existsCheck

def takeIndexUpdateRequest : Take Request := do
  let target ← idField outOfRange
  let opId ← idField outOfRange
  let kindLength ← number 4 outOfRange
  let kindBytes ← window kindLength fun _ => "index update request too short for its index_kind"
  let indexKind ← text "index_kind was not valid utf8" kindBytes
  let payload ← tail
  return .indexUpdate target opId indexKind payload

def decodeIndexUpdateRequest (buf : Bytes) : Except String Request :=
  run (atLeast (1 + 16 + 16 + 4) (fun _ => "index update request too short for its fixed fields")
    takeIndexUpdateRequest) buf 1

def takeRkQueryRequest : Take Request := do
  let indexDatumId ← idField outOfRange
  let query ← embedded decodeRkQueryKind
  return .rkQuery indexDatumId query

def decodeRkQueryRequest (buf : Bytes) : Except String Request :=
  run (sized (1 + 16 + 5) (wrongLength "rk query" (1 + 16 + 5)) takeRkQueryRequest) buf 1

/-- The id of an index datum, its class, and an operation or query for it. -/
def takeClassRequest {Operation : Type} (invalid : String)
    (decode : Bytes → Except String Operation)
    (request : DatumId → String → Operation → Request) : Take Request := do
  let datumId ← takeId
  let className ← takeText invalid
  let operation ← embedded decode
  return request datumId className operation

def takeLbExecuteRequest : Take Request :=
  takeClassRequest "lb class was not valid utf8" decodeLbExecuteOp .lbExecute

def takeLbQueryRequest : Take Request :=
  takeClassRequest "lb class was not valid utf8" decodeLbQueryReq .lbQuery

def takeTkExecuteRequest : Take Request :=
  takeClassRequest "tk class was not valid utf8" decodeTkOp .tkExecute

def takeTkQueryRequest : Take Request :=
  takeClassRequest "tk class was not valid utf8" decodeTkQueryReq .tkQuery

def takeFkPendingRequest : Take Request := do
  let pendingDatumId ← takeId
  let op ← embedded decodeFkPendingOp
  return .fkPending pendingDatumId op

def takeExtentQueryRequest : Take Request := do
  let extentDatumId ← takeId
  let page ← embedded decodeExtentPage
  return .extentQuery extentDatumId page.1 page.2

def takePartitionUpdateRequest : Take Request := do
  let partitionDatumId ← takeId
  let op ← embedded decodeExtentOp
  return .partitionUpdate partitionDatumId op

def takePauseRequest : Take Request := do
  let bytes ← tail
  let reason ← text "pause reason was not valid utf8" bytes
  return .pause reason

def takeInstallStorageRingRequest : Take Request := .installStorageRing <$> takeStorageMembers

/-- A request that is its opcode only. -/
def takeBare (what : String) (request : Request) : Take Request :=
  whole (trailingBytes (what ++ " has")) (pure request)

def decodeRequestBody (tag : UInt8) (buf : Bytes) : Except String Request :=
  match tag with
  | 1 => decodeOpRequest buf
  | 2 => decodeAcquireRequest buf
  | 3 => decodeRecallRequest buf
  | 4 => decodeReleaseRequest buf
  | 5 => decodeIndexUpdateRequest buf
  | 6 => decodeRkQueryRequest buf
  | 7 => run takeLbExecuteRequest buf 1
  | 8 => run takeLbQueryRequest buf 1
  | 9 => run takeTkExecuteRequest buf 1
  | 10 => run takeTkQueryRequest buf 1
  | 11 => decodeExistsCheckRequest buf
  | 12 => run takeFkPendingRequest buf 1
  | 13 => run takeExtentQueryRequest buf 1
  | 14 => run takePartitionUpdateRequest buf 1
  | 15 => run (takeBare "get cluster config" .getClusterConfig) buf 1
  | 16 => run takePauseRequest buf 1
  | 17 => run (takeBare "resume" .resume) buf 1
  | 18 => run (takeBare "clear halt" .clearHalt) buf 1
  | 19 => run takeInstallStorageRingRequest buf 1
  | tag => .error ("unknown request opcode: " ++ toString tag.toNat)

def decodeRequest : Bytes → Except String Request :=
  decodeVersioned protocolVersion "request" "version 2" decodeRequestBody

/-! ## What the decoder accepts -/

/-- The opcodes whose decoder does not look for bytes after the last field. -/
def Request.Unchecked : Request → Prop
  | .installStorageRing _ => True
  | _ => False

def requestFormat : Format Request where
  tag := Request.opcode
  fits := Request.Fits
  spells request word := word = request.fields
  unchecked := Request.Unchecked

theorem Request.checked_of_opcode {request : Request} {tag : UInt8} (opcode : request.opcode = tag)
    (other : tag ≠ 19) : ¬request.Unchecked := by
  cases request with
  | installStorageRing => exact (other opcode.symm).elim
  | _ => exact id

theorem takeOpRequest_accepts : Accepts takeOpRequest (Whole (requestFormat.Variant 1)) := by
  refine ((idField_accepts _).then fun opId => (number_accepts 4 _).then fun nameLength =>
    (window_accepts nameLength _).then fun nameBytes => (text_accepts _ nameBytes).bind
    fun opName => (number_accepts 4 _).then fun idCount =>
    (times_accepts (idField_accepts _) idCount).then fun datumIds => tailThen_accepts).congr
    fun request word rest => ?_
  constructor
  · rintro ⟨opId, _, -, rfl, _, _, nameFits, rfl, _, _, rfl, rfl, opName, _, _, rfl, ⟨rfl, rfl⟩,
      _, _, idsFit, rfl, datumIds, _, ⟨rfl, -⟩, rfl, rfl, nothing⟩
    refine ⟨⟨⟨rfl, nameFits, idsFit⟩, ?_⟩, nothing⟩
    simp [requestFormat, Request.fields, putText, putBytes, putIdList, putCounted]
  · rintro ⟨⟨⟨opcode, fits⟩, rfl⟩, rfl⟩
    cases request with
    | op opId opName datumIds payload =>
        refine ⟨opId, _, trivial, ?_, _, _, fits.1, rfl, ofString opName, _, rfl, rfl, opName, [], _,
          rfl, ⟨rfl, rfl⟩, _, _, fits.2, rfl, datumIds, payload, ⟨rfl, fun _ _ => trivial⟩, rfl, rfl,
          rfl⟩
        simp [Request.fields, putText, putBytes, putIdList, putCounted]
    | _ => simp [requestFormat, Request.opcode] at opcode

theorem decodeOpRequest_reads : requestFormat.Reads 1 decodeOpRequest := by
  refine Format.reads_atLeast takeOpRequest_accepts ?_
    fun _ opcode => Request.checked_of_opcode opcode (by decide)
  rintro request _ opcode rfl
  cases request with
  | op => simp [Request.fields]; omega
  | _ => simp [requestFormat, Request.opcode] at opcode

theorem takeAcquireRequest_accepts :
    Accepts takeAcquireRequest (Exactly (requestFormat.Of 2) Request.fields) := by
  refine ((idField_accepts _).then fun opId => (idField_accepts _).then fun datumId =>
    (number_accepts 8 _).then fun requesterNode => (number_accepts 4 _).then
    fun requesterThread => .pure _).congr fun request word rest => ?_
  cases request <;> simp [Exactly, Format.Of, requestFormat, Request.opcode, Request.fields,
    Request.Fits, Always, and_assoc, and_left_comm, and_comm]

theorem decodeAcquireRequest_reads : requestFormat.Reads 2 decodeAcquireRequest := by
  refine Format.reads_sized Request.fields takeAcquireRequest_accepts (fun _ _ _ => id)
    (fun _ fitting => ⟨fitting, rfl⟩) (fun _ _ => Iff.rfl) ?_
    fun _ opcode => Request.checked_of_opcode opcode (by decide)
  intro request opcode
  cases request with
  | acquire => simp [Request.fields]
  | _ => simp [requestFormat, Request.opcode] at opcode

/-- The requests that carry one id and nothing else. -/
theorem decodeIdRequest_reads {what : String} {make : DatumId → Request} {tag : UInt8}
    (made : ∀ request, request.opcode = tag ↔ ∃ datumId, request = make datumId)
    (fits : ∀ datumId, (make datumId).Fits)
    (fields : ∀ datumId, (make datumId).fields = datumId.asBytes) (other : tag ≠ 19) :
    requestFormat.Reads tag (decodeIdRequest what make) := by
  have accepts : Accepts (make <$> idField outOfRange)
      (Exactly (requestFormat.Of tag) Request.fields) := by
    refine ((idField_accepts _).map make).congr fun request word rest => ?_
    constructor
    · rintro ⟨datumId, rfl, -, rfl⟩
      exact ⟨⟨(made _).mpr ⟨datumId, rfl⟩, fits datumId⟩, (fields datumId).symm⟩
    · rintro ⟨⟨opcode, -⟩, rfl⟩
      rcases (made request).mp opcode with ⟨datumId, rfl⟩
      exact ⟨datumId, rfl, trivial, fields datumId⟩
  refine Format.reads_sized Request.fields accepts (fun _ _ _ => id)
    (fun _ fitting => ⟨fitting, rfl⟩) (fun _ _ => Iff.rfl) ?_
    fun _ opcode => Request.checked_of_opcode opcode other
  intro request opcode
  rcases (made request).mp opcode with ⟨datumId, rfl⟩
  rw [fields, DatumId.length_asBytes]

theorem decodeRecallRequest_reads : requestFormat.Reads 3 decodeRecallRequest :=
  decodeIdRequest_reads (fun request => by cases request <;> simp [Request.opcode])
    (fun _ => trivial) (fun _ => rfl) (by decide)

theorem decodeReleaseRequest_reads : requestFormat.Reads 4 decodeReleaseRequest :=
  decodeIdRequest_reads (fun request => by cases request <;> simp [Request.opcode])
    (fun _ => trivial) (fun _ => rfl) (by decide)

theorem decodeExistsCheckRequest_reads : requestFormat.Reads 11 decodeExistsCheckRequest :=
  decodeIdRequest_reads (fun request => by cases request <;> simp [Request.opcode])
    (fun _ => trivial) (fun _ => rfl) (by decide)

theorem takeIndexUpdateRequest_accepts :
    Accepts takeIndexUpdateRequest (Whole (requestFormat.Variant 5)) := by
  refine ((idField_accepts _).then fun target => (idField_accepts _).then fun opId =>
    (number_accepts 4 _).then fun kindLength => (window_accepts kindLength _).then fun kindBytes =>
    (text_accepts _ kindBytes).bind fun indexKind => tailThen_accepts).congr
    fun request word rest => ?_
  constructor
  · rintro ⟨target, _, -, rfl, opId, _, -, rfl, _, _, kindFits, rfl, _, _, rfl, rfl, indexKind, _,
      _, rfl, ⟨rfl, rfl⟩, rfl, nothing⟩
    refine ⟨⟨⟨rfl, kindFits⟩, ?_⟩, nothing⟩
    simp [requestFormat, Request.fields, putText, putBytes]
  · rintro ⟨⟨⟨opcode, fits⟩, rfl⟩, rfl⟩
    cases request with
    | indexUpdate target opId indexKind payload =>
        refine ⟨target, _, trivial, ?_, opId, _, trivial, rfl, _, _, fits, rfl, ofString indexKind, _,
          rfl, rfl, indexKind, [], payload, rfl, ⟨rfl, rfl⟩, rfl, rfl⟩
        simp [Request.fields, putText, putBytes]
    | _ => simp [requestFormat, Request.opcode] at opcode

theorem decodeIndexUpdateRequest_reads : requestFormat.Reads 5 decodeIndexUpdateRequest := by
  refine Format.reads_atLeast takeIndexUpdateRequest_accepts ?_
    fun _ opcode => Request.checked_of_opcode opcode (by decide)
  rintro request _ opcode rfl
  cases request with
  | indexUpdate => simp [Request.fields, putText, putBytes]; omega
  | _ => simp [requestFormat, Request.opcode] at opcode

theorem takeRkQueryRequest_accepts :
    Accepts takeRkQueryRequest (Whole (requestFormat.Variant 6)) := by
  refine ((idField_accepts _).then fun indexDatumId =>
    embeddedThen_accepts fun buf query => decodeRkQueryKind_eq_ok).congr fun request word rest => ?_
  cases request <;> simp [Whole, Format.Variant, Format.Of, requestFormat, Request.opcode,
    Request.fields, Request.Fits, Always]

theorem decodeRkQueryRequest_reads : requestFormat.Reads 6 decodeRkQueryRequest := by
  refine Format.reads_sized Request.fields takeRkQueryRequest_accepts (fun _ _ _ holds => holds.1)
    (fun _ fitting => ⟨⟨fitting, rfl⟩, rfl⟩) (fun _ _ => Iff.rfl) ?_
    fun _ opcode => Request.checked_of_opcode opcode (by decide)
  intro request opcode
  cases request with
  | rkQuery _ query => cases query <;> simp [Request.fields, encodeRkQueryKind]
  | _ => simp [requestFormat, Request.opcode] at opcode

theorem takeClassRequest_accepts {Operation : Type} {invalid : String}
    {decode : Bytes → Except String Operation} {fits : Operation → Prop}
    {encode : Operation → Bytes} {make : DatumId → String → Operation → Request}
    (decodes : ∀ buf operation,
      decode buf = .ok operation ↔ fits operation ∧ buf = encode operation) :
    Accepts (takeClassRequest invalid decode make) fun request word rest =>
      (∃ datumId className operation, request = make datumId className operation ∧
        TextFits className ∧ fits operation ∧
        word = datumId.asBytes ++ putText className ++ encode operation) ∧ rest = [] := by
  refine (takeId_accepts.then fun datumId => (takeText_accepts invalid).then fun className =>
    embeddedThen_accepts decodes).congr fun request word rest => ?_
  constructor
  · rintro ⟨datumId, _, -, rfl, className, _, classFits, rfl, ⟨operation, rfl, fits, rfl⟩, nothing⟩
    exact ⟨⟨datumId, className, operation, rfl, classFits, fits, (List.append_assoc ..).symm⟩,
      nothing⟩
  · rintro ⟨⟨datumId, className, operation, rfl, classFits, fits, rfl⟩, nothing⟩
    exact ⟨datumId, _, trivial, List.append_assoc .., className, _, classFits, rfl,
      ⟨operation, rfl, fits, rfl⟩, nothing⟩

theorem takeLbExecuteRequest_reads :
    requestFormat.Reads 7 fun buf => run takeLbExecuteRequest buf 1 := by
  refine Format.reads_whole ((takeClassRequest_accepts fun _ _ => decodeLbExecuteOp_eq_ok).congr
    fun request word rest => ?_) fun _ opcode => Request.checked_of_opcode opcode (by decide)
  cases request <;> simp [Whole, Format.Variant, Format.Of, requestFormat, Request.opcode,
    Request.fields, Request.Fits, and_assoc]

theorem takeLbQueryRequest_reads :
    requestFormat.Reads 8 fun buf => run takeLbQueryRequest buf 1 := by
  refine Format.reads_whole ((takeClassRequest_accepts fun _ _ => decodeLbQueryReq_eq_ok).congr
    fun request word rest => ?_) fun _ opcode => Request.checked_of_opcode opcode (by decide)
  cases request <;> simp [Whole, Format.Variant, Format.Of, requestFormat, Request.opcode,
    Request.fields, Request.Fits, and_assoc]

theorem takeTkExecuteRequest_reads :
    requestFormat.Reads 9 fun buf => run takeTkExecuteRequest buf 1 := by
  refine Format.reads_whole ((takeClassRequest_accepts fun _ _ => decodeTkOp_eq_ok).congr
    fun request word rest => ?_) fun _ opcode => Request.checked_of_opcode opcode (by decide)
  cases request <;> simp [Whole, Format.Variant, Format.Of, requestFormat, Request.opcode,
    Request.fields, Request.Fits, and_assoc]

theorem takeTkQueryRequest_reads :
    requestFormat.Reads 10 fun buf => run takeTkQueryRequest buf 1 := by
  refine Format.reads_whole ((takeClassRequest_accepts fun _ _ => decodeTkQueryReq_eq_ok).congr
    fun request word rest => ?_) fun _ opcode => Request.checked_of_opcode opcode (by decide)
  cases request <;> simp [Whole, Format.Variant, Format.Of, requestFormat, Request.opcode,
    Request.fields, Request.Fits, and_assoc]

theorem takeFkPendingRequest_reads :
    requestFormat.Reads 12 fun buf => run takeFkPendingRequest buf 1 := by
  refine Format.reads_whole ((takeId_accepts.then fun pendingDatumId =>
    embeddedThen_accepts fun _ _ => decodeFkPendingOp_eq_ok).congr fun request word rest => ?_)
    fun _ opcode => Request.checked_of_opcode opcode (by decide)
  cases request <;> simp [Whole, Format.Variant, Format.Of, requestFormat, Request.opcode,
    Request.fields, Request.Fits, Always]

theorem takeExtentQueryRequest_reads :
    requestFormat.Reads 13 fun buf => run takeExtentQueryRequest buf 1 := by
  refine Format.reads_whole ((takeId_accepts.then fun extentDatumId =>
    embeddedThen_accepts fun _ _ => decodeExtentPage_eq_ok).congr fun request word rest => ?_)
    fun _ opcode => Request.checked_of_opcode opcode (by decide)
  cases request <;> simp [Whole, Format.Variant, Format.Of, requestFormat, Request.opcode,
    Request.fields, Request.Fits, Always]

theorem takePartitionUpdateRequest_reads :
    requestFormat.Reads 14 fun buf => run takePartitionUpdateRequest buf 1 := by
  refine Format.reads_whole ((takeId_accepts.then fun partitionDatumId =>
    embeddedThen_accepts fun _ _ => decodeExtentOp_eq_ok).congr fun request word rest => ?_)
    fun _ opcode => Request.checked_of_opcode opcode (by decide)
  cases request <;> simp [Whole, Format.Variant, Format.Of, requestFormat, Request.opcode,
    Request.fields, Request.Fits, Always]

theorem takePauseRequest_reads : requestFormat.Reads 16 fun buf => run takePauseRequest buf 1 := by
  refine Format.reads_whole ((tail_accepts.bind fun bytes => (text_accepts _ bytes).bind
    fun reason => .pure _).congr fun request word rest => ?_)
    fun _ opcode => Request.checked_of_opcode opcode (by decide)
  cases request <;> simp [Whole, Format.Variant, Format.Of, requestFormat, Request.opcode,
    Request.fields, Request.Fits]

/-- The requests that are their opcode only. -/
theorem takeBare_reads {what : String} {request : Request} {tag : UInt8}
    (made : ∀ other : Request, other.opcode = tag ↔ other = request) (fits : request.Fits)
    (fields : request.fields = []) (other : tag ≠ 19) :
    requestFormat.Reads tag fun buf => run (takeBare what request) buf 1 := by
  refine Format.reads_whole (((Accepts.pure request).congr fun result word rest => ?_).whole _)
    fun _ opcode => Request.checked_of_opcode opcode other
  constructor
  · rintro ⟨rfl, rfl⟩
    exact ⟨⟨(made _).mpr rfl, fits⟩, fields.symm⟩
  · rintro ⟨⟨opcode, -⟩, rfl⟩
    cases (made result).mp opcode
    exact ⟨rfl, fields⟩

theorem takeGetClusterConfig_reads : requestFormat.Reads 15 fun buf =>
    run (takeBare "get cluster config" .getClusterConfig) buf 1 :=
  takeBare_reads (fun request => by cases request <;> simp [Request.opcode]) trivial rfl (by decide)

theorem takeResume_reads : requestFormat.Reads 17 fun buf =>
    run (takeBare "resume" .resume) buf 1 :=
  takeBare_reads (fun request => by cases request <;> simp [Request.opcode]) trivial rfl (by decide)

theorem takeClearHalt_reads : requestFormat.Reads 18 fun buf =>
    run (takeBare "clear halt" .clearHalt) buf 1 :=
  takeBare_reads (fun request => by cases request <;> simp [Request.opcode]) trivial rfl (by decide)

theorem takeInstallStorageRingRequest_reads :
    requestFormat.Reads 19 fun buf => run takeInstallStorageRingRequest buf 1 := by
  refine Format.reads_unchecked ((takeStorageMembers_accepts.map Request.installStorageRing).congr
    fun request word rest => ?_) fun request opcode => ?_
  · cases request <;> simp [Exactly, Format.Variant, Format.Of, requestFormat, Request.opcode,
      Request.fields, Request.Fits]
  · cases request with
    | installStorageRing => trivial
    | _ => simp [requestFormat, Request.opcode] at opcode

theorem decodeRequestBody_reads (tag : UInt8) : requestFormat.Reads tag (decodeRequestBody tag) := by
  intro bytes request
  unfold decodeRequestBody
  split
  · exact decodeOpRequest_reads bytes request
  · exact decodeAcquireRequest_reads bytes request
  · exact decodeRecallRequest_reads bytes request
  · exact decodeReleaseRequest_reads bytes request
  · exact decodeIndexUpdateRequest_reads bytes request
  · exact decodeRkQueryRequest_reads bytes request
  · exact takeLbExecuteRequest_reads bytes request
  · exact takeLbQueryRequest_reads bytes request
  · exact takeTkExecuteRequest_reads bytes request
  · exact takeTkQueryRequest_reads bytes request
  · exact decodeExistsCheckRequest_reads bytes request
  · exact takeFkPendingRequest_reads bytes request
  · exact takeExtentQueryRequest_reads bytes request
  · exact takePartitionUpdateRequest_reads bytes request
  · exact takeGetClusterConfig_reads bytes request
  · exact takePauseRequest_reads bytes request
  · exact takeResume_reads bytes request
  · exact takeClearHalt_reads bytes request
  · exact takeInstallStorageRingRequest_reads bytes request
  · constructor
    · intro read
      cases read
    · rintro ⟨⟨rfl, -⟩, -⟩
      cases request <;> simp_all [requestFormat, Request.opcode]

/-- What decodes to a request: its encoding, and more only where the decoder does not look. -/
theorem decodeRequest_eq_ok {buf : Bytes} {request : Request} :
    decodeRequest buf = .ok request ↔ request.Fits ∧
      ∃ rest, buf = encodeRequest request ++ rest ∧ (rest = [] ∨ request.Unchecked) := by
  rw [decodeRequest, decodeVersioned_eq_ok decodeRequestBody_reads]
  constructor
  · rintro ⟨fits, _, rest, rfl, rfl, last⟩
    exact ⟨fits, rest, rfl, last⟩
  · rintro ⟨fits, rest, rfl, last⟩
    exact ⟨fits, _, rest, rfl, rfl, last⟩

end Seisin.Protocol
