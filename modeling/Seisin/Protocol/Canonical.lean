import Mathlib
import Seisin.Protocol.Response
import Seisin.Protocol.StoreWire

/-!
# Which buffers are the one spelling of what they decode to

A decoder is canonical at a buffer if the buffer is the encoding of whatever it decodes to.  The four
decoders are, but for bytes after the messages whose decoders do not look for the end, and for the
flags of the store protocol that are read as "not zero".
-/

namespace Seisin.Protocol

open ByteString Cursor

/-- The buffer is the encoding of what it decodes to. -/
def CanonicalAt {Message : Type} (decode : Bytes → Except String Message)
    (encode : Message → Bytes) (buf : Bytes) : Prop :=
  ∀ message, decode buf = .ok message → encode message = buf

/-- The buffer is the encoding of a message after which the decoder does not look, and more. -/
def Overlong {Message : Type} (fits unchecked : Message → Prop) (encode : Message → Bytes)
    (buf : Bytes) : Prop :=
  ∃ message rest, fits message ∧ unchecked message ∧ rest ≠ [] ∧ buf = encode message ++ rest

/-- The buffer has a `done` flag that is neither zero nor one. -/
def LooseFlag (buf : Bytes) : Prop :=
  (∃ ids : List (DatumId × UInt16), ∃ flag : UInt8, ∃ rest : Bytes, ids.length < 2 ^ 32 ∧ 1 < flag ∧
    buf = storeProtocolVersion :: 4 :: (flag :: putCounted putIdAndFactor ids ++ rest)) ∨
  ∃ copied dirty : UInt64, ∃ flag : UInt8, ∃ rest : Bytes, 1 < flag ∧
    buf = storeProtocolVersion :: 5 ::
      (leBytes 8 copied.toNat ++ leBytes 8 dirty.toNat ++ [flag] ++ rest)

/-- A decoder that accepts encodings, and more after some, is canonical where nothing more comes. -/
theorem canonicalAt_iff {Message : Type} {decode : Bytes → Except String Message}
    {encode : Message → Bytes} {fits unchecked : Message → Prop} {buf : Bytes}
    (decodes : ∀ message, decode buf = .ok message ↔ fits message ∧
      ∃ rest, buf = encode message ++ rest ∧ (rest = [] ∨ unchecked message)) :
    CanonicalAt decode encode buf ↔ ¬Overlong fits unchecked encode buf := by
  constructor
  · rintro canonical ⟨message, rest, fitting, loose, more, rfl⟩
    have same := canonical message ((decodes message).mpr ⟨fitting, rest, rfl, .inr loose⟩)
    rw [List.self_eq_append_right] at same
    exact more same
  · intro notOverlong message decoded
    rcases (decodes message).mp decoded with ⟨fitting, rest, rfl, rfl | loose⟩
    · exact (List.append_nil _).symm
    · by_cases nothing : rest = []
      · rw [nothing, List.append_nil]
      · exact (notOverlong ⟨message, rest, fitting, loose, nothing, rfl⟩).elim

theorem boolByte_ne_of_one_lt {flag : UInt8} (loose : 1 < flag) (done : Bool) :
    boolByte done ≠ flag := by
  rintro rfl
  cases done with
  | false => exact absurd loose (by decide)
  | true => exact absurd loose (by decide)

theorem eq_boolByte {flag : UInt8} (strict : ¬1 < flag) : flag = boolByte (flag != 0) := by
  have small : flag.toNat ≤ 1 := Nat.le_of_not_lt strict
  rcases Nat.le_one_iff_eq_zero_or_eq_one.mp small with zero | one
  · have same : flag = 0 := UInt8.toNat_inj.mp zero
    rw [same]
    rfl
  · have same : flag = 1 := UInt8.toNat_inj.mp one
    rw [same]
    rfl

/-- A response that is spelled otherwise than it is encoded has a loose flag. -/
theorem StoreResponse.spelled_fields_or_loose {response : StoreResponse} {word rest : Bytes}
    (fits : response.Fits) (spelled : response.Spells word) :
    word = response.fields ∨
      LooseFlag (storeProtocolVersion :: response.opcode :: (word ++ rest)) := by
  cases response with
  | idList ids done =>
      rcases spelled with ⟨flag, rfl, rfl⟩
      by_cases loose : 1 < flag
      · exact .inr (.inl ⟨ids, flag, rest, fits, loose, rfl⟩)
      · refine .inl ?_
        rw [StoreResponse.fields, ← eq_boolByte loose]
  | transferProgress copied dirty done =>
      rcases spelled with ⟨flag, rfl, rfl⟩
      by_cases loose : 1 < flag
      · exact .inr (.inr ⟨copied, dirty, flag, rest, loose, rfl⟩)
      · refine .inl ?_
        rw [StoreResponse.fields, ← eq_boolByte loose]
  | _ => exact .inl spelled

theorem not_canonicalAt_of_looseFlag {buf : Bytes} (loose : LooseFlag buf) :
    ¬CanonicalAt decodeStoreResponse encodeStoreResponse buf := by
  intro canonical
  rcases loose with ⟨ids, flag, rest, fits, loose, rfl⟩ | ⟨copied, dirty, flag, rest, loose, rfl⟩
  · have same := canonical (.idList ids (flag != 0)) (decodeStoreResponse_eq_ok.mpr
      ⟨fits, flag :: putCounted putIdAndFactor ids, rest, rfl, ⟨flag, rfl, rfl⟩, .inr trivial⟩)
    simp only [encodeStoreResponse, StoreResponse.opcode, StoreResponse.fields, List.cons.injEq,
      List.cons_append] at same
    exact boolByte_ne_of_one_lt loose _ same.2.2.1
  · have same := canonical (.transferProgress copied dirty (flag != 0))
      (decodeStoreResponse_eq_ok.mpr ⟨trivial, _, rest, rfl, ⟨flag, rfl, rfl⟩, .inr trivial⟩)
    simp only [encodeStoreResponse, StoreResponse.opcode, StoreResponse.fields, List.cons.injEq,
      List.append_assoc, List.append_cancel_left_eq, List.cons_append] at same
    exact boolByte_ne_of_one_lt loose _ same.2.2.1

theorem canonicalAt_storeResponse_iff {buf : Bytes} :
    CanonicalAt decodeStoreResponse encodeStoreResponse buf ↔
      ¬Overlong StoreResponse.Fits StoreResponse.Unchecked encodeStoreResponse buf ∧
        ¬LooseFlag buf := by
  by_cases loose : LooseFlag buf
  · exact iff_of_false (not_canonicalAt_of_looseFlag loose) fun holds => holds.2 loose
  · rw [and_iff_left loose]
    refine canonicalAt_iff fun response => ?_
    rw [decodeStoreResponse_eq_ok]
    constructor
    · rintro ⟨fits, word, rest, rfl, spelled, last⟩
      rcases StoreResponse.spelled_fields_or_loose fits spelled with rfl | flagged
      · exact ⟨fits, rest, rfl, last⟩
      · exact (loose flagged).elim
    · rintro ⟨fits, rest, rfl, last⟩
      exact ⟨fits, _, rest, rfl, response.spells_fields, last⟩

/-- Exactly when each decoder accepts only the one spelling of a message. -/
theorem decoders_canonical_iff (buf : Bytes) :
    (CanonicalAt decodeRequest encodeRequest buf ↔
      ¬Overlong Request.Fits Request.Unchecked encodeRequest buf) ∧
    (CanonicalAt decodeResponse encodeResponse buf ↔
      ¬Overlong Response.Fits Response.Unchecked encodeResponse buf) ∧
    (CanonicalAt decodeStoreRequest encodeStoreRequest buf ↔
      ¬Overlong StoreRequest.Fits StoreRequest.Unchecked encodeStoreRequest buf) ∧
    (CanonicalAt decodeStoreResponse encodeStoreResponse buf ↔
      ¬Overlong StoreResponse.Fits StoreResponse.Unchecked encodeStoreResponse buf ∧
        ¬LooseFlag buf) :=
  ⟨canonicalAt_iff fun _ => decodeRequest_eq_ok, canonicalAt_iff fun _ => decodeResponse_eq_ok,
    canonicalAt_iff fun _ => decodeStoreRequest_eq_ok, canonicalAt_storeResponse_iff⟩

/-- A `Granted` frame with a byte more is accepted, and so is a ring to install. -/
theorem decoders_accept_trailing_bytes :
    ¬CanonicalAt decodeResponse encodeResponse [2, 4, 0] ∧
      ¬CanonicalAt decodeRequest encodeRequest [2, 19, 0, 0, 0, 0, 7] := by
  constructor
  · intro canonical
    exact absurd (canonical .granted rfl) (by decide)
  · intro canonical
    exact absurd (canonical (.installStorageRing []) rfl) (by decide)

end Seisin.Protocol
