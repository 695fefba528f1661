import Mathlib
import Seisin.Protocol.Request

/-!
# Responses and envelopes on the wire

Responses have the same shape as requests.  An envelope carries an encoded request or response over
a link between nodes.
-/

namespace Seisin.Protocol

open ByteString Cursor

inductive Response where
  | redirect (address : String)
  | opResult (payload : Bytes)
  | opError (message : String)
  | granted
  | released
  | indexUpdateResult (violation : Option String)
  | rkQueryResult (entries : List RkEntry)
  | lbResult (result : LbResult)
  | tkResult (result : TkResult)
  | exists_ (answer : Bool)
  | fkPendingResult (entries : FkEntries)
  | extentResult (total : UInt64) (pks : List DatumId)
  | clusterConfig (members : List StorageMember)
  | ack

namespace Response

def opcode : Response → UInt8
  | .redirect .. => 1
  | .opResult .. => 2
  | .opError .. => 3
  | .granted => 4
  | .released => 5
  | .indexUpdateResult .. => 6
  | .rkQueryResult .. => 7
  | .lbResult .. => 8
  | .tkResult .. => 9
  | .exists_ .. => 10
  | .fkPendingResult .. => 11
  | .extentResult .. => 12
  | .clusterConfig .. => 13
  | .ack => 14

/-- What follows the opcode. -/
def fields : Response → Bytes
  | .redirect address => putText address
  | .opResult payload => payload
  | .opError message => ofString message
  | .granted => []
  | .released => []
  | .indexUpdateResult violation => putOption ofString violation
  | .rkQueryResult entries => encodeRkEntries entries
  | .lbResult result => encodeLbResult result
  | .tkResult result => encodeTkResult result
  | .exists_ answer => [boolByte answer]
  | .fkPendingResult entries => encodeFkEntries entries
  | .extentResult total pks => encodeExtentResult total pks
  | .clusterConfig members => putStorageMembers members
  | .ack => []

def Fits : Response → Prop
  | .redirect address => TextFits address
  | .rkQueryResult entries => CountedFit RkEntryFits entries
  | .lbResult result => LbResultFits result
  | .tkResult result => TkResultFits result
  | .fkPendingResult entries => entries.length < 2 ^ 32
  | .extentResult _ pks => IdsFit pks
  | .clusterConfig members => CountedFit MemberFits members
  | _ => True

end Response

def encodeResponse (response : Response) : Bytes :=
  protocolVersion :: response.opcode :: response.fields

/-! ## Decoding -/

def redirectMismatch (expected length : ℕ) : String :=
  "redirect response length mismatch: expected " ++ toString expected ++ " bytes, got " ++
    toString length

def decodeRedirect (buf : Bytes) : Except String Response :=
  if buf.length < 5 then
    .error ("redirect response too short for an address length: " ++ toString buf.length ++ " bytes")
  else
    let addrLen := leNat ((buf.drop 1).take 4)
    if buf.length ≠ 5 + addrLen then .error (redirectMismatch (5 + addrLen) buf.length)
    else
      match toString? (buf.drop 5) with
      | none => .error "redirect address was not valid utf8"
      | some address => .ok (.redirect address)

def takeOpResult : Take Response := do
  let payload ← tail
  return .opResult payload

def takeOpError : Take Response := do
  let bytes ← tail
  let message ← text "op error message was not valid utf8" bytes
  return .opError message

def takeViolation : UInt8 → Take Response
  | 0 => return .indexUpdateResult none
  | 1 => do
      let bytes ← tail
      let message ← text "index update violation message was not valid utf8" bytes
      return .indexUpdateResult (some message)
  | flag => fail ("unknown index update result flag: " ++ toString flag.toNat)

def takeIndexUpdateResult : Take Response := do
  let flag ← takeByte fun _ => "index update result too short for its flag byte"
  takeViolation flag

def existsOf : UInt8 → Take Response
  | 0 => return .exists_ false
  | 1 => return .exists_ true
  | flag => fail ("unknown exists flag: " ++ toString flag.toNat)

def takeExists : Take Response := do
  let flag ← takeByte outOfRange
  existsOf flag

def decodeExists (buf : Bytes) : Except String Response :=
  run (sized 2 (fun length => "exists response has the wrong length: " ++ toString length ++
    " bytes") takeExists) buf 1

/-- A response whose fields have a decoder of their own. -/
def takeEmbedded {Result : Type} (decode : Bytes → Except String Result)
    (response : Result → Response) : Take Response := do
  let result ← embedded decode
  return response result

def takeClusterConfig : Take Response := .clusterConfig <$> takeStorageMembers

def decodeResponseBody (tag : UInt8) (buf : Bytes) : Except String Response :=
  match tag with
  | 1 => decodeRedirect buf
  | 2 => run takeOpResult buf 1
  | 3 => run takeOpError buf 1
  | 4 => .ok .granted
  | 5 => .ok .released
  | 6 => run takeIndexUpdateResult buf 1
  | 7 => run (takeEmbedded decodeRkEntries .rkQueryResult) buf 1
  | 8 => run (takeEmbedded decodeLbResult .lbResult) buf 1
  | 9 => run (takeEmbedded decodeTkResult .tkResult) buf 1
  | 10 => decodeExists buf
  | 11 => run (takeEmbedded decodeFkEntries .fkPendingResult) buf 1
  | 12 => run (takeEmbedded decodeExtentResult fun page => .extentResult page.1 page.2) buf 1
  | 13 => run takeClusterConfig buf 1
  | 14 => .ok .ack
  | tag => .error ("unknown response opcode: " ++ toString tag.toNat)

def decodeResponse : Bytes → Except String Response :=
  decodeVersioned protocolVersion "response" "version 2" decodeResponseBody

/-! ## What the decoder accepts -/

/-- The responses whose decoder does not look for bytes after the last field. -/
def Response.Unchecked : Response → Prop
  | .granted => True
  | .released => True
  | .indexUpdateResult none => True
  | .clusterConfig _ => True
  | .ack => True
  | _ => False

def responseFormat : Format Response where
  tag := Response.opcode
  fits := Response.Fits
  spells response word := word = response.fields
  unchecked := Response.Unchecked

theorem decodeRedirect_reads : responseFormat.Reads 1 decodeRedirect := by
  intro bytes response
  constructor
  · intro decoded
    simp only [decodeRedirect, List.length_cons, List.drop_succ_cons, List.drop_zero] at decoded
    split at decoded
    · cases decoded
    · rename_i long
      have four : (bytes.take 4).length = 4 := List.length_take_of_le (by omega)
      split at decoded
      · cases decoded
      · rename_i exact
        split at decoded
        · cases decoded
        · rename_i address read
          cases decoded
          rw [toString?_eq_some_iff] at read
          have length : (ofString address).length = leNat (bytes.take 4) := by
            rw [← read, List.length_drop]
            omega
          have small := leNat_lt (bytes.take 4)
          have front := leBytes_leNat (bytes.take 4)
          rw [four] at small front
          refine ⟨⟨rfl, ?_⟩, bytes, [], (List.append_nil _).symm, ?_, .inl rfl⟩
          · change (ofString address).length < 2 ^ 32
            rw [length]
            exact small
          · change bytes = putText address
            rw [putText, putBytes, length, front, ← read, List.take_append_drop]
  · rintro ⟨⟨opcode, fits⟩, _, rest, rfl, rfl, last⟩
    cases response with
    | redirect address =>
        have nothing : rest = [] := last.resolve_right id
        have four : (leBytes 4 (ofString address).length).length = 4 := length_leBytes ..
        subst nothing
        have fitting : (ofString address).length < 2 ^ 32 := fits
        have total : 4 + (ofString address).length + 1 = 5 + (ofString address).length := by omega
        simp [decodeRedirect, Response.fields, putText, putBytes, List.take_left' four,
          List.drop_left' four, leNat_leBytes_four fitting, toString?_ofString, total]
    | _ => simp [responseFormat, Response.opcode] at opcode

theorem takeOpResult_reads : responseFormat.Reads 2 fun buf => run takeOpResult buf 1 := by
  refine Format.reads_whole (tailThen_accepts.congr fun response word rest => ?_)
    fun response opcode => ?_
  · cases response <;> simp [Whole, Format.Variant, Format.Of, responseFormat, Response.opcode,
      Response.fields, Response.Fits, eq_comm]
  · cases response <;> simp [responseFormat, Response.opcode, Response.Unchecked] at opcode ⊢

theorem takeOpError_reads : responseFormat.Reads 3 fun buf => run takeOpError buf 1 := by
  refine Format.reads_whole ((tail_accepts.bind fun bytes => (text_accepts _ bytes).bind
    fun message => .pure _).congr fun response word rest => ?_) fun response opcode => ?_
  · cases response <;> simp [Whole, Format.Variant, Format.Of, responseFormat, Response.opcode,
      Response.fields, Response.Fits]
  · cases response <;> simp [responseFormat, Response.opcode, Response.Unchecked] at opcode ⊢

/-- The responses that are their opcode only; nothing after it is looked at. -/
theorem constant_reads (response : Response) {tag : UInt8}
    (made : ∀ other : Response, other.opcode = tag ↔ other = response) (fits : response.Fits)
    (fields : response.fields = []) (unchecked : response.Unchecked) :
    responseFormat.Reads tag fun _ => .ok response := by
  intro bytes other
  rw [Except.ok.injEq]
  constructor
  · rintro rfl
    exact ⟨⟨(made _).mpr rfl, fits⟩, [], bytes, rfl, fields.symm, .inr unchecked⟩
  · rintro ⟨⟨opcode, -⟩, -⟩
    exact ((made other).mp opcode).symm

theorem takeViolation_accepts (flag : UInt8) :
    Accepts (takeViolation flag) fun response word rest =>
      ∃ violation, response = .indexUpdateResult violation ∧
        flag :: word = putOption ofString violation ∧ (rest = [] ∨ violation = none) := by
  unfold takeViolation
  split
  · refine (Accepts.pure _).congr fun response word rest => ?_
    constructor
    · rintro ⟨rfl, rfl⟩
      exact ⟨none, rfl, rfl, .inr rfl⟩
    · rintro ⟨violation, rfl, spelled, -⟩
      cases violation with
      | none => exact ⟨rfl, (List.cons.inj spelled).2⟩
      | some message => exact absurd (List.cons.inj spelled).1 (by decide)
  · refine (tail_accepts.bind fun bytes => (text_accepts _ bytes).bind fun message =>
      .pure _).congr fun response word rest => ?_
    constructor
    · rintro ⟨_, front, _, rfl, ⟨rfl, nothing⟩, message, _, _, rfl, ⟨rfl, rfl⟩, rfl, rfl⟩
      refine ⟨some message, rfl, ?_, .inl nothing⟩
      simp [putOption]
    · rintro ⟨violation, rfl, spelled, last⟩
      cases violation with
      | none => exact absurd (List.cons.inj spelled).1 (by decide)
      | some message =>
          rcases last with rfl | last
          · rcases (List.cons.inj spelled).2 with rfl
            exact ⟨_, _, [], (List.append_nil _).symm, ⟨rfl, rfl⟩, message, [], [], rfl, ⟨rfl, rfl⟩,
              rfl, rfl⟩
          · cases last
  · rename_i notNone notSome
    refine (Accepts.fail _).congr fun response word rest => ⟨False.elim, ?_⟩
    rintro ⟨violation, -, spelled, -⟩
    cases violation with
    | none => exact notNone (List.cons.inj spelled).1
    | some => exact notSome (List.cons.inj spelled).1

theorem takeIndexUpdateResult_reads :
    responseFormat.Reads 6 fun buf => run takeIndexUpdateResult buf 1 := by
  intro bytes response
  have read : run takeIndexUpdateResult (6 :: bytes) 1 = .ok response ↔ _ :=
    ((takeByte_accepts _).then takeViolation_accepts).run_eq_ok [6]
  rw [read]
  constructor
  · rintro ⟨_, rest, rfl, flag, word, -, rfl, violation, rfl, spelled, last⟩
    refine ⟨⟨rfl, trivial⟩, flag :: word, rest, rfl, spelled, last.imp_right ?_⟩
    rintro rfl
    trivial
  · cases response with
    | indexUpdateResult violation =>
        rintro ⟨-, _, rest, rfl, rfl, last⟩
        cases violation with
        | none => exact ⟨_, rest, rfl, 0, [], trivial, rfl, none, rfl, rfl, .inr rfl⟩
        | some message =>
            rcases last with rfl | last
            · exact ⟨_, [], rfl, 1, _, trivial, rfl, some message, rfl, rfl, .inl rfl⟩
            · cases last
    | _ => simp [Format.Of, responseFormat, Response.opcode]

theorem takeExists_accepts : Accepts takeExists (Exactly (responseFormat.Of 10) Response.fields) := by
  have flags : ∀ flag : UInt8, Accepts (existsOf flag) fun response word _ =>
      (∃ answer, response = .exists_ answer ∧ flag = boolByte answer) ∧ word = [] := by
    intro flag
    unfold existsOf
    split
    · exact (Accepts.pure _).congr fun response word rest => by simp [boolByte]
    · exact (Accepts.pure _).congr fun response word rest => by simp [boolByte]
    · rename_i notFalse notTrue
      refine (Accepts.fail _).congr fun response word rest => ⟨False.elim, ?_⟩
      rintro ⟨⟨answer, -, rfl⟩, -⟩
      cases answer with
      | false => exact notFalse rfl
      | true => exact notTrue rfl
  refine ((takeByte_accepts _).then flags).congr fun response word rest => ?_
  cases response <;> simp [Exactly, Format.Of, responseFormat, Response.opcode, Response.fields,
    Response.Fits, Always, and_comm]

theorem decodeExists_reads : responseFormat.Reads 10 decodeExists := by
  refine Format.reads_sized Response.fields takeExists_accepts (fun _ _ _ => id)
    (fun _ fitting => ⟨fitting, rfl⟩) (fun _ _ => Iff.rfl) ?_ ?_
  · intro response opcode
    cases response with
    | exists_ => rfl
    | _ => simp [responseFormat, Response.opcode] at opcode
  · intro response opcode
    cases response <;> simp [responseFormat, Response.opcode, Response.Unchecked] at opcode ⊢

theorem takeEmbedded_reads {Result : Type} {decode : Bytes → Except String Result}
    {fits : Result → Prop} {encode : Result → Bytes} {make : Result → Response} {tag : UInt8}
    (decodes : ∀ buf result, decode buf = .ok result ↔ fits result ∧ buf = encode result)
    (made : ∀ response, response.opcode = tag ↔ ∃ result, response = make result)
    (makeFits : ∀ result, (make result).Fits ↔ fits result)
    (fields : ∀ result, (make result).fields = encode result)
    (checked : ∀ result, ¬(make result).Unchecked) :
    responseFormat.Reads tag fun buf => run (takeEmbedded decode make) buf 1 := by
  refine Format.reads_whole ((embeddedThen_accepts decodes).congr fun response word rest => ?_)
    fun response opcode => ?_
  · constructor
    · rintro ⟨⟨result, rfl, fitting, rfl⟩, nothing⟩
      exact ⟨⟨⟨(made _).mpr ⟨result, rfl⟩, (makeFits result).mpr fitting⟩, (fields result).symm⟩,
        nothing⟩
    · rintro ⟨⟨⟨opcode, fitting⟩, rfl⟩, nothing⟩
      rcases (made response).mp opcode with ⟨result, rfl⟩
      exact ⟨⟨result, rfl, (makeFits result).mp fitting, fields result⟩, nothing⟩
  · rcases (made response).mp opcode with ⟨result, rfl⟩
    exact checked result

theorem takeClusterConfig_reads :
    responseFormat.Reads 13 fun buf => run takeClusterConfig buf 1 := by
  refine Format.reads_unchecked ((takeStorageMembers_accepts.map Response.clusterConfig).congr
    fun response word rest => ?_) fun response opcode => ?_
  · cases response <;> simp [Exactly, Format.Variant, Format.Of, responseFormat, Response.opcode,
      Response.fields, Response.Fits]
  · cases response with
    | clusterConfig => trivial
    | _ => simp [responseFormat, Response.opcode] at opcode

theorem decodeResponseBody_reads (tag : UInt8) :
    responseFormat.Reads tag (decodeResponseBody tag) := by
  intro bytes response
  unfold decodeResponseBody
  split
  · exact decodeRedirect_reads bytes response
  · exact takeOpResult_reads bytes response
  · exact takeOpError_reads bytes response
  · exact constant_reads .granted (fun other => by cases other <;> simp [Response.opcode]) trivial
      rfl trivial bytes response
  · exact constant_reads .released (fun other => by cases other <;> simp [Response.opcode]) trivial
      rfl trivial bytes response
  · exact takeIndexUpdateResult_reads bytes response
  · exact takeEmbedded_reads (fun _ _ => decodeRkEntries_eq_ok)
      (fun other => by cases other <;> simp [Response.opcode]) (fun _ => Iff.rfl) (fun _ => rfl)
      (fun _ => id) bytes response
  · exact takeEmbedded_reads (fun _ _ => decodeLbResult_eq_ok)
      (fun other => by cases other <;> simp [Response.opcode]) (fun _ => Iff.rfl) (fun _ => rfl)
      (fun _ => id) bytes response
  · exact takeEmbedded_reads (fun _ _ => decodeTkResult_eq_ok)
      (fun other => by cases other <;> simp [Response.opcode]) (fun _ => Iff.rfl) (fun _ => rfl)
      (fun _ => id) bytes response
  · exact decodeExists_reads bytes response
  · exact takeEmbedded_reads (fun _ _ => decodeFkEntries_eq_ok)
      (fun other => by cases other <;> simp [Response.opcode]) (fun _ => Iff.rfl) (fun _ => rfl)
      (fun _ => id) bytes response
  · exact takeEmbedded_reads (fun _ _ => decodeExtentResult_eq_ok)
      (fun other => by cases other <;> simp [Response.opcode]) (fun _ => Iff.rfl) (fun _ => rfl)
      (fun _ => id) bytes response
  · exact takeClusterConfig_reads bytes response
  · exact constant_reads .ack (fun other => by cases other <;> simp [Response.opcode]) trivial rfl
      trivial bytes response
  · constructor
    · intro read
      cases read
    · rintro ⟨⟨rfl, -⟩, -⟩
      cases response <;> simp_all [responseFormat, Response.opcode]

/-- What decodes to a response: its encoding, and more only where the decoder does not look. -/
theorem decodeResponse_eq_ok {buf : Bytes} {response : Response} :
    decodeResponse buf = .ok response ↔ response.Fits ∧
      ∃ rest, buf = encodeResponse response ++ rest ∧ (rest = [] ∨ response.Unchecked) := by
  rw [decodeResponse, decodeVersioned_eq_ok decodeResponseBody_reads]
  constructor
  · rintro ⟨fits, _, rest, rfl, rfl, last⟩
    exact ⟨fits, rest, rfl, last⟩
  · rintro ⟨fits, rest, rfl, last⟩
    exact ⟨fits, _, rest, rfl, rfl, last⟩

/-! ## Envelopes -/

inductive EnvelopeKind where
  | request
  | response
  deriving DecidableEq

structure Envelope where
  correlationId : UInt64
  kind : EnvelopeKind
  targetThread : ThreadId
  body : Bytes

def encodeKind : EnvelopeKind → UInt8
  | .request => 0
  | .response => 1

def encodeEnvelope (envelope : Envelope) : Bytes :=
  leBytes 8 envelope.correlationId.toNat ++ [encodeKind envelope.kind] ++
    leBytes 4 envelope.targetThread ++ envelope.body

def kindOf : UInt8 → Take EnvelopeKind
  | 0 => return .request
  | 1 => return .response
  | tag => fail ("invalid envelope kind tag: " ++ toString tag.toNat)

def takeKind : Take EnvelopeKind := do
  let tag ← takeByte outOfRange
  kindOf tag

def takeEnvelope : Take Envelope := do
  let correlationId ← u64Field outOfRange
  let kind ← takeKind
  let targetThread ← number 4 outOfRange
  let body ← tail
  return ⟨correlationId, kind, targetThread, body⟩

def decodeEnvelope (buf : Bytes) : Except String Envelope :=
  run (atLeast 13 (fun length => "envelope too short for its header: " ++ toString length ++
    " bytes") takeEnvelope) buf 0

theorem takeKind_accepts : Accepts takeKind (Exactly Always fun kind => [encodeKind kind]) := by
  have tags : ∀ tag : UInt8, Accepts (kindOf tag) fun kind word _ =>
      tag = encodeKind kind ∧ word = [] := by
    intro tag
    unfold kindOf
    split
    · exact (Accepts.pure _).congr fun kind word rest => by cases kind <;> simp [encodeKind]
    · exact (Accepts.pure _).congr fun kind word rest => by cases kind <;> simp [encodeKind]
    · rename_i notRequest notResponse
      refine (Accepts.fail _).congr fun kind word rest => ⟨False.elim, ?_⟩
      rintro ⟨rfl, -⟩
      cases kind with
      | request => exact notRequest rfl
      | response => exact notResponse rfl
  refine ((takeByte_accepts _).then tags).congr fun kind word rest => ?_
  simp [Exactly, Always]

/-- The thread of an envelope is a 32-bit number in the source. -/
def Envelope.Fits (envelope : Envelope) : Prop := envelope.targetThread < 2 ^ 32

theorem takeEnvelope_accepts :
    Accepts takeEnvelope (Whole (Exactly Envelope.Fits encodeEnvelope)) := by
  refine ((u64Field_accepts _).then fun correlationId => takeKind_accepts.then fun kind =>
    (number_accepts 4 _).then fun targetThread => tailThen_accepts).congr
    fun envelope word rest => ?_
  cases envelope
  simp [Whole, Exactly, Envelope.Fits, encodeEnvelope, Always, and_assoc, and_left_comm, and_comm]

theorem decodeEnvelope_eq_ok {buf : Bytes} {envelope : Envelope} :
    decodeEnvelope buf = .ok envelope ↔ envelope.Fits ∧ buf = encodeEnvelope envelope := by
  have long : ∀ envelope word rest, Whole (Exactly Envelope.Fits encodeEnvelope) envelope word rest →
      13 ≤ ([] : Bytes).length + (word ++ rest).length := by
    rintro envelope _ _ ⟨⟨-, rfl⟩, rfl⟩
    simp [encodeEnvelope]
    omega
  have read : decodeEnvelope buf = .ok envelope ↔ _ := takeEnvelope_accepts.atLeast_eq_ok [] long
  rw [read]
  constructor
  · rintro ⟨_, _, rfl, ⟨fits, rfl⟩, rfl⟩
    exact ⟨fits, List.append_nil _⟩
  · rintro ⟨fits, rfl⟩
    exact ⟨_, [], (List.append_nil _).symm, ⟨fits, rfl⟩, rfl⟩

/-! ## Round trips -/

/-- Every message whose lengths fit their prefixes is read back as it was. -/
theorem messages_round_trip :
    (∀ request : Request, request.Fits → decodeRequest (encodeRequest request) = .ok request) ∧
    (∀ response : Response, response.Fits →
      decodeResponse (encodeResponse response) = .ok response) ∧
    ∀ envelope : Envelope, envelope.Fits →
      decodeEnvelope (encodeEnvelope envelope) = .ok envelope := by
  refine ⟨fun request fits => ?_, fun response fits => ?_, fun envelope fits => ?_⟩
  · exact decodeRequest_eq_ok.mpr ⟨fits, [], (List.append_nil _).symm, .inl rfl⟩
  · exact decodeResponse_eq_ok.mpr ⟨fits, [], (List.append_nil _).symm, .inl rfl⟩
  · exact decodeEnvelope_eq_ok.mpr ⟨fits, rfl⟩

def unequalMembers : List StorageMember := [⟨1, 4, "10.0.0.1:6901", 17⟩, ⟨2, 1, "", 18⟩]

theorem unequalMembers_fit : CountedFit MemberFits unequalMembers := by
  have addresses : (ofString "10.0.0.1:6901").length < 2 ^ 32 ∧ (ofString "").length < 2 ^ 32 := by
    decide +kernel
  simpa [CountedFit, MemberFits, TextFits, BytesFit, unequalMembers] using addresses

theorem messages_round_trip_two :
    decodeRequest (encodeRequest (.installStorageRing unequalMembers)) =
        .ok (.installStorageRing unequalMembers) ∧
      decodeResponse (encodeResponse (.rkQueryResult [([1, 2, 3, 4, 5, 6, 7, 8], 9)])) =
        .ok (.rkQueryResult [([1, 2, 3, 4, 5, 6, 7, 8], 9)]) ∧
      decodeEnvelope (encodeEnvelope ⟨5, .response, 3, [1, 2]⟩) = .ok ⟨5, .response, 3, [1, 2]⟩ :=
  ⟨messages_round_trip.1 _ unequalMembers_fit,
    messages_round_trip.2.1 _ (by simp [Response.Fits, CountedFit, RkEntryFits]),
    messages_round_trip.2.2 _ (by simp [Envelope.Fits])⟩

end Seisin.Protocol
