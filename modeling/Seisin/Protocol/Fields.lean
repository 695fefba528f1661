import Mathlib
import Seisin.Lib.Cursor
import Seisin.Storage.RemoteStore
import Seisin.Types.Leaderboard
import Seisin.Types.Temporal

/-!
# Fields of the wire protocol

The building blocks of the codecs between clients, compute nodes and storage nodes.  A field is
written by `put…` and read by `take…`; for each the grammar of what the reader accepts is stated
once.  Numbers are little-endian.  The source's `as u32` keeps the low four bytes of a length, as
`leBytes 4` does.
-/

namespace Seisin.Protocol

open ByteString Cursor

/-- Where a check of the length comes first, no slice is out of range. -/
def outOfRange (offset : ℕ) : String := "slice out of range at " ++ toString offset

def u32Field (truncated : ℕ → String) : Take UInt32 := UInt32.ofNat <$> number 4 truncated

def u64Field (truncated : ℕ → String) : Take UInt64 := UInt64.ofNat <$> number 8 truncated

def takeU16 : Take UInt16 := UInt16.ofNat <$> number 2 (truncatedAt "u16")

def takeU32 : Take UInt32 := u32Field (truncatedAt "u32")

def takeU64 : Take UInt64 := u64Field (truncatedAt "u64")

/-- A 32-bit number that is used as a count. -/
def takeCount : Take ℕ := number 4 (truncatedAt "u32")

/-- Node ids are 64-bit numbers in the source. -/
def takeNodeId : Take NodeId := number 8 (truncatedAt "u64")

def takeI64 : Take Int64 := UInt64.toInt64 <$> takeU64

def putI64 (value : Int64) : Bytes := leBytes 8 value.toUInt64.toNat

def rankKeyFrom (bytes : Bytes) : RankKey :=
  if exact : bytes.length = 8 then ⟨bytes, exact⟩ else ⟨List.replicate 8 0, rfl⟩

def takeRankKey : Take RankKey := rankKeyFrom <$> window 8 (truncatedAt "rank key")

def putBytes (bytes : Bytes) : Bytes := leBytes 4 bytes.length ++ bytes

def putText (text : String) : Bytes := putBytes (ofString text)

/-- The bytes of a field after its length. -/
def takeByteField (length : ℕ) : Take Bytes :=
  window length fun offset => truncatedAt "byte field" offset ++ ": expected " ++
    toString length ++ " bytes"

def takeBytes : Take Bytes := do
  let length ← number 4 (truncatedAt "length prefix")
  takeByteField length

def takeText (invalid : String) : Take String := do
  let bytes ← takeBytes
  text invalid bytes

def boolByte : Bool → UInt8
  | false => 0
  | true => 1

/-- One byte of a flag or tag. -/
def takeByte (truncated : ℕ → String) : Take UInt8 :=
  (fun bytes => bytes.headD 0) <$> window 1 truncated

def putCounted {Value : Type} (put : Value → Bytes) (values : List Value) : Bytes :=
  leBytes 4 values.length ++ values.flatMap put

def takeCounted {Value : Type} (take : Take Value) : Take (List Value) := do
  let count ← takeCount
  times take count

def putIdList : List DatumId → Bytes := putCounted DatumId.asBytes

def takeIdList : Take (List DatumId) := takeCounted takeId

/-- A flag byte, and the value if there is one. -/
def putOption {Value : Type} (put : Value → Bytes) : Option Value → Bytes
  | none => [0]
  | some value => 1 :: put value

def takeFlagged {Value : Type} (unknown : String) (take : Take Value) : UInt8 → Take (Option Value)
  | 0 => return none
  | 1 => some <$> take
  | flag => fail (unknown ++ toString flag.toNat)

def takeOption {Value : Type} (truncated : ℕ → String) (unknown : String) (take : Take Value) :
    Take (Option Value) := do
  let flag ← takeByte truncated
  takeFlagged unknown take flag

def takeOptI64 : Take (Option Int64) :=
  takeOption (truncatedAt "option flag") "unknown option flag: " takeI64

def putOptI64 : Option Int64 → Bytes := putOption putI64

def putStorageMember (member : StorageMember) : Bytes :=
  leBytes 8 member.nodeId ++ leBytes 4 member.weight ++ putText member.storeAddress ++
    member.logId.asBytes

def takeStorageMember : Take StorageMember := do
  let nodeId ← takeNodeId
  let weight ← takeCount
  let storeAddress ← takeText "store_address was not valid utf8"
  let logId ← takeId
  return ⟨nodeId, weight, storeAddress, logId⟩

def putStorageMembers : List StorageMember → Bytes := putCounted putStorageMember

def takeStorageMembers : Take (List StorageMember) := takeCounted takeStorageMember

/-! ## What fits -/

/-- A byte string whose length its four-byte prefix can hold. -/
def BytesFit (bytes : Bytes) : Prop := bytes.length < 2 ^ 32

def TextFits (text : String) : Prop := BytesFit (ofString text)

def CountedFit {Value : Type} (fits : Value → Prop) (values : List Value) : Prop :=
  values.length < 2 ^ 32 ∧ ∀ value ∈ values, fits value

def IdsFit (ids : List DatumId) : Prop := ids.length < 2 ^ 32

def OptionFits {Value : Type} (fits : Value → Prop) : Option Value → Prop
  | none => True
  | some value => fits value

def MemberFits (member : StorageMember) : Prop :=
  member.nodeId < 2 ^ 64 ∧ member.weight < 2 ^ 32 ∧ TextFits member.storeAddress

def Always {Value : Type} (_ : Value) : Prop := True

@[simp]
theorem optionFits_always {Value : Type} (value : Option Value) : OptionFits Always value := by
  cases value with
  | none => trivial
  | some value => trivial

/-! ## What the readers accept -/

theorem idField_accepts (truncated : ℕ → String) :
    Accepts (idField truncated) (Exactly Always DatumId.asBytes) := by
  refine (window_accepts 16 _).mapExactly DatumId.fromBytes DatumId.asBytes fun bytes id => ?_
  constructor
  · rintro ⟨sixteen, rfl⟩
    exact ⟨trivial, (DatumId.asBytes_fromBytes sixteen).symm⟩
  · rintro ⟨-, rfl⟩
    exact ⟨DatumId.length_asBytes id, (DatumId.fromBytes_asBytes id).symm⟩

theorem takeId_accepts : Accepts takeId (Exactly Always DatumId.asBytes) := idField_accepts _

theorem takeU16_accepts : Accepts takeU16 (Exactly Always fun value => leBytes 2 value.toNat) := by
  refine (number_accepts 2 _).mapExactly UInt16.ofNat UInt16.toNat fun number value => ?_
  constructor
  · rintro ⟨fits, rfl⟩
    exact ⟨trivial, (UInt16.toNat_ofNat_of_lt fits).symm⟩
  · rintro ⟨-, rfl⟩
    exact ⟨value.toNat_lt, UInt16.ofNat_toNat.symm⟩

theorem u32Field_accepts (truncated : ℕ → String) :
    Accepts (u32Field truncated) (Exactly Always fun value => leBytes 4 value.toNat) := by
  refine (number_accepts 4 _).mapExactly UInt32.ofNat UInt32.toNat fun number value => ?_
  constructor
  · rintro ⟨fits, rfl⟩
    exact ⟨trivial, (UInt32.toNat_ofNat_of_lt fits).symm⟩
  · rintro ⟨-, rfl⟩
    exact ⟨value.toNat_lt, UInt32.ofNat_toNat.symm⟩

theorem takeU32_accepts : Accepts takeU32 (Exactly Always fun value => leBytes 4 value.toNat) :=
  u32Field_accepts _

theorem u64Field_accepts (truncated : ℕ → String) :
    Accepts (u64Field truncated) (Exactly Always fun value => leBytes 8 value.toNat) := by
  refine (number_accepts 8 _).mapExactly UInt64.ofNat UInt64.toNat fun number value => ?_
  constructor
  · rintro ⟨fits, rfl⟩
    exact ⟨trivial, (UInt64.toNat_ofNat_of_lt fits).symm⟩
  · rintro ⟨-, rfl⟩
    exact ⟨value.toNat_lt, UInt64.ofNat_toNat.symm⟩

theorem takeU64_accepts : Accepts takeU64 (Exactly Always fun value => leBytes 8 value.toNat) :=
  u64Field_accepts _

theorem takeCount_accepts :
    Accepts takeCount (Exactly (fun value => value < 2 ^ 32) (leBytes 4)) :=
  number_accepts 4 _

theorem takeNodeId_accepts :
    Accepts takeNodeId (Exactly (fun nodeId => nodeId < 2 ^ 64) (leBytes 8)) :=
  number_accepts 8 _

theorem takeI64_accepts : Accepts takeI64 (Exactly Always putI64) := by
  refine takeU64_accepts.mapExactly UInt64.toInt64 Int64.toUInt64 fun number value => ?_
  constructor
  · rintro ⟨-, rfl⟩
    exact ⟨trivial, rfl⟩
  · rintro ⟨-, rfl⟩
    exact ⟨trivial, rfl⟩

theorem takeRankKey_accepts : Accepts takeRankKey (Exactly Always Subtype.val) := by
  refine (window_accepts 8 _).mapExactly rankKeyFrom Subtype.val fun bytes rankKey => ?_
  constructor
  · rintro ⟨eight, rfl⟩
    rw [rankKeyFrom, dif_pos eight]
    exact ⟨trivial, rfl⟩
  · rintro ⟨-, rfl⟩
    rw [rankKeyFrom, dif_pos rankKey.2]
    exact ⟨rankKey.2, rfl⟩

theorem takeByte_accepts (truncated : ℕ → String) :
    Accepts (takeByte truncated) (Exactly Always fun byte => [byte]) := by
  refine (window_accepts 1 truncated).mapExactly (fun bytes => bytes.headD 0) (fun byte => [byte])
    fun bytes byte => ?_
  constructor
  · rintro ⟨one, rfl⟩
    rcases List.length_eq_one_iff.mp one with ⟨byte, rfl⟩
    exact ⟨trivial, rfl⟩
  · rintro ⟨-, rfl⟩
    exact ⟨rfl, rfl⟩

/-- A length before the bytes it counts. -/
theorem prefixed_accepts {takeLength : Take ℕ}
    (length : Accepts takeLength (Exactly (fun value => value < 2 ^ 32) (leBytes 4))) :
    Accepts (takeLength >>= takeByteField) (Exactly BytesFit putBytes) := by
  refine (length.then fun length => window_accepts length _).congr fun bytes word rest => ?_
  constructor
  · rintro ⟨_, _, fits, rfl, rfl, rfl⟩
    exact ⟨fits, rfl⟩
  · rintro ⟨fits, rfl⟩
    exact ⟨_, _, fits, rfl, rfl, rfl⟩

theorem takeBytes_accepts : Accepts takeBytes (Exactly BytesFit putBytes) :=
  prefixed_accepts (number_accepts 4 _)

/-- Text in a field of bytes. -/
theorem asText_accepts {take : Take Bytes} {fits : Bytes → Prop} {put : Bytes → Bytes}
    (accepts : Accepts take (Exactly fits put)) (invalid : String) :
    Accepts (take >>= text invalid)
      (Exactly (fun text => fits (ofString text)) fun text => put (ofString text)) := by
  refine (accepts.then fun bytes => text_accepts invalid bytes).congr fun value word rest => ?_
  constructor
  · rintro ⟨_, _, fitting, rfl, rfl, rfl⟩
    exact ⟨fitting, List.append_nil _⟩
  · rintro ⟨fitting, rfl⟩
    exact ⟨_, [], fitting, (List.append_nil _).symm, rfl, rfl⟩

theorem takeText_accepts (invalid : String) :
    Accepts (takeText invalid) (Exactly TextFits putText) :=
  asText_accepts takeBytes_accepts invalid

theorem takeCounted_accepts {Value : Type} {take : Take Value} {fits : Value → Prop}
    {put : Value → Bytes} (accepts : Accepts take (Exactly fits put)) :
    Accepts (takeCounted take) (Exactly (CountedFit fits) (putCounted put)) := by
  refine (takeCount_accepts.then fun count => times_accepts accepts count).congr
    fun values word rest => ?_
  constructor
  · rintro ⟨_, _, fitting, rfl, ⟨rfl, all⟩, rfl⟩
    exact ⟨⟨fitting, all⟩, rfl⟩
  · rintro ⟨⟨fitting, all⟩, rfl⟩
    exact ⟨_, _, fitting, rfl, ⟨rfl, all⟩, rfl⟩

theorem takeIdList_accepts : Accepts takeIdList (Exactly IdsFit putIdList) := by
  refine (takeCounted_accepts takeId_accepts).congr fun ids word rest => ?_
  simp only [Exactly, CountedFit, IdsFit, putIdList, Always, implies_true, and_true]

theorem takeFlagged_accepts {Value : Type} {take : Take Value} {fits : Value → Prop}
    {put : Value → Bytes} (accepts : Accepts take (Exactly fits put)) (unknown : String)
    (flag : UInt8) :
    Accepts (takeFlagged unknown take flag) fun value word _ =>
      OptionFits fits value ∧ flag :: word = putOption put value := by
  unfold takeFlagged
  split
  · refine (Accepts.pure none).congr fun value word rest => ?_
    cases value with
    | none => simp [OptionFits, putOption]
    | some value => simp [putOption]
  · refine (accepts.map some).congr fun value word rest => ?_
    cases value with
    | none => simp [putOption]
    | some value => simp [OptionFits, putOption, Exactly]
  · rename_i notZero notOne
    refine (Accepts.fail _).congr fun value word rest => ?_
    cases value with
    | none => simpa [putOption] using fun _ same => (notZero same).elim
    | some value => simpa [putOption] using fun _ same => (notOne same).elim

theorem takeOption_accepts {Value : Type} {take : Take Value} {fits : Value → Prop}
    {put : Value → Bytes} (accepts : Accepts take (Exactly fits put)) (truncated : ℕ → String)
    (unknown : String) :
    Accepts (takeOption truncated unknown take) (Exactly (OptionFits fits) (putOption put)) := by
  refine ((takeByte_accepts truncated).then fun flag =>
    takeFlagged_accepts accepts unknown flag).congr fun value word rest => ?_
  constructor
  · rintro ⟨flag, _, -, rfl, fitting, spelled⟩
    exact ⟨fitting, spelled⟩
  · rintro ⟨fitting, rfl⟩
    cases value with
    | none => exact ⟨0, _, trivial, rfl, fitting, rfl⟩
    | some value => exact ⟨1, _, trivial, rfl, fitting, rfl⟩

theorem takeOptI64_accepts : Accepts takeOptI64 (Exactly Always putOptI64) := by
  refine (takeOption_accepts takeI64_accepts _ _).congr fun value word rest => ?_
  cases value with
  | none => simp [Exactly, OptionFits, Always, putOptI64]
  | some value => simp [Exactly, OptionFits, Always, putOptI64]

theorem takeStorageMember_accepts :
    Accepts takeStorageMember (Exactly MemberFits putStorageMember) := by
  refine (takeNodeId_accepts.then fun nodeId => takeCount_accepts.then fun weight =>
    (takeText_accepts _).then fun storeAddress => takeId_accepts.then fun logId => .pure _).congr
    fun member word rest => ?_
  cases member
  simp [Exactly, MemberFits, putStorageMember, Always, and_assoc, and_comm, and_left_comm]

theorem takeStorageMembers_accepts :
    Accepts takeStorageMembers (Exactly (CountedFit MemberFits) putStorageMembers) :=
  takeCounted_accepts takeStorageMember_accepts

end Seisin.Protocol
