import Seisin.Core
import Seisin.Lib.Bytes

/-!
# Field types and values

The shapes a datum's fields can have, the values that match them, and their binary encoding.  The
encoding carries no type tags: the declared type drives the decoder.  A floating-point value is kept
as its bit pattern.
-/

namespace Seisin

open ByteString

inductive PrimitiveFieldType where
  | bool
  | i64
  | f64
  | string
  | bytes
  deriving DecidableEq

inductive FieldType where
  | bool
  | i64
  | f64
  | string
  | bytes
  | array (items : FieldType)
  | dict (keys : PrimitiveFieldType) (values : FieldType)
  deriving DecidableEq

def PrimitiveFieldType.toFieldType : PrimitiveFieldType → FieldType
  | .bool => .bool
  | .i64 => .i64
  | .f64 => .f64
  | .string => .string
  | .bytes => .bytes

/-- The bit pattern of an IEEE double. -/
structure F64 where
  bits : UInt64
  deriving DecidableEq

namespace F64

def isNan (value : F64) : Bool := value.bits.toNat % 2 ^ 63 > 0x7ff * 2 ^ 52

def isZero (value : F64) : Bool := value.bits.toNat % 2 ^ 63 = 0

/-- The sign and magnitude of a pattern as an integer that orders numbers as their values do. -/
def order (value : F64) : ℤ :=
  if value.bits.toNat < 2 ^ 63 then value.bits.toNat else 2 ^ 63 - (value.bits.toNat : ℤ)

/-- Equality of doubles: a NaN is equal to nothing, and the two zeros are equal. -/
def beq (first second : F64) : Bool :=
  !first.isNan && !second.isNan &&
    (first.bits = second.bits || (first.isZero && second.isZero))

def lt (first second : F64) : Bool :=
  !first.isNan && !second.isNan && first.order < second.order

def le (first second : F64) : Bool := first.lt second || first.beq second

end F64

inductive FieldValue where
  | bool (value : Bool)
  | i64 (value : Int64)
  | f64 (value : F64)
  | string (value : String)
  | bytes (value : Bytes)
  | array (items : List FieldValue)
  | dict (entries : List (FieldValue × FieldValue))

namespace FieldValue

/-! The derived comparison of values: structural, with doubles compared as doubles. -/
mutual

def beq : FieldValue → FieldValue → Bool
  | .bool first, .bool second => first = second
  | .i64 first, .i64 second => first = second
  | .f64 first, .f64 second => first.beq second
  | .string first, .string second => first = second
  | .bytes first, .bytes second => first = second
  | .array first, .array second => beqItems first second
  | .dict first, .dict second => beqEntries first second
  | _, _ => false

def beqItems : List FieldValue → List FieldValue → Bool
  | [], [] => true
  | first :: firsts, second :: seconds => first.beq second && beqItems firsts seconds
  | _, _ => false

def beqEntries : List (FieldValue × FieldValue) → List (FieldValue × FieldValue) → Bool
  | [], [] => true
  | (key, value) :: firsts, (otherKey, otherValue) :: seconds =>
      key.beq otherKey && value.beq otherValue && beqEntries firsts seconds
  | _, _ => false

end

instance : BEq FieldValue := ⟨beq⟩

mutual

def matchesType : FieldValue → FieldType → Bool
  | .bool _, .bool => true
  | .i64 _, .i64 => true
  | .f64 _, .f64 => true
  | .string _, .string => true
  | .bytes _, .bytes => true
  | .array items, .array inner => itemsMatch items inner
  | .dict entries, .dict keys values => entriesMatch entries keys.toFieldType values
  | _, _ => false

def itemsMatch : List FieldValue → FieldType → Bool
  | [], _ => true
  | item :: items, inner => item.matchesType inner && itemsMatch items inner

def entriesMatch : List (FieldValue × FieldValue) → FieldType → FieldType → Bool
  | [], _, _ => true
  | (key, value) :: entries, keys, values =>
      key.matchesType keys && value.matchesType values && entriesMatch entries keys values

end

end FieldValue

/-! ## Encoding -/

def encodeLenPrefixed (bytes : Bytes) : Bytes := leBytes 4 bytes.length ++ bytes

mutual

def encodeFieldValue : FieldValue → Bytes
  | .bool value => [if value then 1 else 0]
  | .i64 value => leBytes 8 value.toUInt64.toNat
  | .f64 value => leBytes 8 value.bits.toNat
  | .string value => encodeLenPrefixed (ofString value)
  | .bytes value => encodeLenPrefixed value
  | .array items => leBytes 4 items.length ++ encodeItems items
  | .dict entries => leBytes 4 entries.length ++ encodeEntries entries

def encodeItems : List FieldValue → Bytes
  | [] => []
  | item :: items => encodeFieldValue item ++ encodeItems items

def encodeEntries : List (FieldValue × FieldValue) → Bytes
  | [] => []
  | (key, value) :: entries => encodeFieldValue key ++ encodeFieldValue value ++ encodeEntries entries

end

/-- Reads `length` bytes at `offset`, and moves the offset past them. -/
def readBytes (buf : Bytes) (offset length : ℕ) : Except String (Bytes × ℕ) :=
  if buf.length < offset + length then
    .error ("buffer truncated: need " ++ toString length ++ " bytes at offset " ++
      toString offset ++ ", only " ++ toString (buf.length - offset) ++ " remain")
  else .ok ((buf.drop offset).take length, offset + length)

def readU32 (buf : Bytes) (offset : ℕ) : Except String (ℕ × ℕ) :=
  match readBytes buf offset 4 with
  | .error message => .error message
  | .ok (bytes, next) => .ok (leNat bytes, next)

def decodeLenPrefixed (buf : Bytes) (offset : ℕ) : Except String (Bytes × ℕ) :=
  match readU32 buf offset with
  | .error message => .error message
  | .ok (length, next) => readBytes buf next length

/-- Decodes `count` values one after another. -/
def decodeItems (decode : ℕ → Except String (FieldValue × ℕ)) :
    ℕ → ℕ → Except String (List FieldValue × ℕ)
  | 0, offset => .ok ([], offset)
  | count + 1, offset =>
      match decode offset with
      | .error message => .error message
      | .ok (item, next) =>
          match decodeItems decode count next with
          | .error message => .error message
          | .ok (items, last) => .ok (item :: items, last)

/-- Decodes `count` pairs of a key and a value. -/
def decodeEntries (decodeKey decodeValue : ℕ → Except String (FieldValue × ℕ)) :
    ℕ → ℕ → Except String (List (FieldValue × FieldValue) × ℕ)
  | 0, offset => .ok ([], offset)
  | count + 1, offset =>
      match decodeKey offset with
      | .error message => .error message
      | .ok (key, afterKey) =>
          match decodeValue afterKey with
          | .error message => .error message
          | .ok (value, afterValue) =>
              match decodeEntries decodeKey decodeValue count afterValue with
              | .error message => .error message
              | .ok (entries, last) => .ok ((key, value) :: entries, last)

/-- Decodes a value of a primitive type; keys of a dictionary are decoded by it too. -/
def decodePrimitive (buf : Bytes) (ty : PrimitiveFieldType) (offset : ℕ) :
    Except String (FieldValue × ℕ) :=
  match ty with
  | .bool =>
      match readBytes buf offset 1 with
      | .error message => .error message
      | .ok (bytes, next) => .ok (.bool (bytes.headD 0 ≠ 0), next)
  | .i64 =>
      match readBytes buf offset 8 with
      | .error message => .error message
      | .ok (bytes, next) => .ok (.i64 (UInt64.ofNat (leNat bytes)).toInt64, next)
  | .f64 =>
      match readBytes buf offset 8 with
      | .error message => .error message
      | .ok (bytes, next) => .ok (.f64 ⟨UInt64.ofNat (leNat bytes)⟩, next)
  | .string =>
      match decodeLenPrefixed buf offset with
      | .error message => .error message
      | .ok (bytes, next) =>
          match toString? bytes with
          | none => .error "string field was not valid utf8"
          | some text => .ok (.string text, next)
  | .bytes =>
      match decodeLenPrefixed buf offset with
      | .error message => .error message
      | .ok (bytes, next) => .ok (.bytes bytes, next)

def decodeFieldValue (buf : Bytes) : FieldType → ℕ → Except String (FieldValue × ℕ)
  | .bool, offset => decodePrimitive buf .bool offset
  | .i64, offset => decodePrimitive buf .i64 offset
  | .f64, offset => decodePrimitive buf .f64 offset
  | .string, offset => decodePrimitive buf .string offset
  | .bytes, offset => decodePrimitive buf .bytes offset
  | .array inner, offset =>
      match readU32 buf offset with
      | .error message => .error message
      | .ok (count, next) =>
          match decodeItems (decodeFieldValue buf inner) count next with
          | .error message => .error message
          | .ok (items, last) => .ok (.array items, last)
  | .dict keys values, offset =>
      match readU32 buf offset with
      | .error message => .error message
      | .ok (count, next) =>
          match decodeEntries (decodePrimitive buf keys) (decodeFieldValue buf values) count
            next with
          | .error message => .error message
          | .ok (entries, last) => .ok (.dict entries, last)

end Seisin
