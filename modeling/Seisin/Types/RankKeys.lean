import Mathlib
import Seisin.Types.Histories
import Seisin.Types.Residents

/-!
# Rank keys

Ranked indexes and leaderboards compare the eight bytes of an encoded score, temporal histories those
of an encoded instant.  The encodings are order isomorphisms from the integers, and from the bit
patterns of doubles in their total order, onto the byte strings of length eight.
-/

namespace Seisin

open ByteString

/-! ## The total order of doubles -/

namespace F64

def negative (value : F64) : Bool := 2 ^ 63 ≤ value.bits.toNat

/-- The pattern without its sign bit. -/
def magnitude (value : F64) : ℕ := value.bits.toNat % 2 ^ 63

/-- The IEEE total order: all negative patterns come first, those of greater magnitude before those
of smaller, then the others by magnitude.  It separates the two zeros and has the NaNs at its ends. -/
def totalLt (first second : F64) : Prop :=
  match first.negative, second.negative with
  | true, true => second.magnitude < first.magnitude
  | true, false => True
  | false, true => False
  | false, false => first.magnitude < second.magnitude

end F64

/-! ## Decoding -/

inductive LbScoreType where
  | i64
  | f64
  deriving DecidableEq

def decodeRankKey (scoreType : LbScoreType) (key : Bytes) : FieldValue :=
  let enc := UInt64.ofNat (beNat key)
  match scoreType with
  | .i64 => .i64 (enc ^^^ 0x8000000000000000).toInt64
  | .f64 =>
      .f64 ⟨if enc &&& 0x8000000000000000 ≠ 0 then enc ^^^ 0x8000000000000000 else ~~~enc⟩

/-! ## Words as bytes -/

theorem word_lt_iff {first second : UInt64} :
    (leBytes 8 first.toNat).reverse < (leBytes 8 second.toNat).reverse ↔
      first.toNat < second.toNat := by
  rw [lt_iff_beNat_lt (by simp), beNat_reverse_leBytes first.toNat_lt,
    beNat_reverse_leBytes second.toNat_lt]

theorem ofNat_beNat_word (word : UInt64) :
    UInt64.ofNat (beNat (leBytes 8 word.toNat).reverse) = word := by
  rw [beNat_reverse_leBytes word.toNat_lt, UInt64.ofNat_toNat]

theorem word_ofNat_beNat {key : Bytes} (eight : key.length = 8) :
    (leBytes 8 (UInt64.ofNat (beNat key)).toNat).reverse = key := by
  have bound := beNat_lt key
  rw [eight] at bound
  have spelled := leBytes_leNat key.reverse
  rw [List.length_reverse, eight, ← beNat_eq_leNat_reverse] at spelled
  rw [UInt64.toNat_ofNat_of_lt' bound, spelled, List.reverse_reverse]

/-! ## The transform of doubles -/

/-- The word a double is ranked by: the sign bit of a positive pattern is set, a negative pattern is
complemented. -/
def orderedBits (value : F64) : UInt64 :=
  value.bits ^^^ (if value.bits.toNat < 2 ^ 63 then 0x8000000000000000 else 0xffffffffffffffff)

theorem encodeRankKey_f64 (value : F64) :
    encodeRankKey (.f64 value) = some (leBytes 8 (orderedBits value).toNat).reverse := rfl

theorem xor_xor_cancel (word mask : UInt64) : word ^^^ mask ^^^ mask = word := by
  rw [UInt64.xor_assoc, UInt64.xor_self, UInt64.xor_zero]

theorem xor_ones (word : UInt64) : word ^^^ 0xffffffffffffffff = ~~~word := UInt64.xor_neg_one

theorem toNat_signBit_xor (word : UInt64) :
    (word ^^^ 0x8000000000000000).toNat =
      if word.toNat < 2 ^ 63 then word.toNat + 2 ^ 63 else word.toNat - 2 ^ 63 := by
  have flipped : (word ^^^ 0x8000000000000000).toNat = word.toNat ^^^ 2 ^ 63 :=
    UInt64.toNat_xor _ _
  rw [flipped, xor_signBit word.toNat_lt]

theorem toNat_orderedBits (value : F64) :
    (orderedBits value).toNat =
      if value.bits.toNat < 2 ^ 63 then value.bits.toNat + 2 ^ 63
      else 2 ^ 64 - 1 - value.bits.toNat := by
  unfold orderedBits
  by_cases positive : value.bits.toNat < 2 ^ 63
  · rw [if_pos positive, if_pos positive, toNat_signBit_xor, if_pos positive]
  · rw [if_neg positive, if_neg positive, xor_ones, UInt64.toNat_not]
    rfl

theorem orderedBits_lt_iff {first second : F64} :
    (orderedBits first).toNat < (orderedBits second).toNat ↔ first.totalLt second := by
  have firstBound := first.bits.toNat_lt
  have secondBound := second.bits.toNat_lt
  rw [toNat_orderedBits, toNat_orderedBits]
  simp only [F64.totalLt, F64.negative, F64.magnitude]
  by_cases firstSign : 2 ^ 63 ≤ first.bits.toNat
  · by_cases secondSign : 2 ^ 63 ≤ second.bits.toNat
    · rw [if_neg (by omega), if_neg (by omega)]
      simp only [firstSign, secondSign, decide_true]
      omega
    · rw [if_neg (by omega), if_pos (by omega)]
      simp only [firstSign, secondSign, decide_true, decide_false, iff_true]
      omega
  · by_cases secondSign : 2 ^ 63 ≤ second.bits.toNat
    · rw [if_pos (by omega), if_neg (by omega)]
      simp only [firstSign, secondSign, decide_true, decide_false, iff_false]
      omega
    · rw [if_pos (by omega), if_pos (by omega)]
      simp only [firstSign, secondSign, decide_false]
      omega

/-- What the decoder makes of a word: it looks at the flipped sign bit. -/
def unorderedBits (enc : UInt64) : F64 :=
  ⟨if enc &&& 0x8000000000000000 ≠ 0 then enc ^^^ 0x8000000000000000 else ~~~enc⟩

theorem and_signBit_ne_zero_iff (enc : UInt64) :
    enc &&& 0x8000000000000000 ≠ 0 ↔ 2 ^ 63 ≤ enc.toNat := by
  have bound := enc.toNat_lt
  have masked : (enc &&& 0x8000000000000000).toNat = enc.toNat &&& 2 ^ 63 := UInt64.toNat_and _ _
  rw [ne_eq, ← UInt64.toNat_inj, masked, UInt64.toNat_zero, Nat.and_two_pow,
    Nat.testBit_eq_decide_div_mod_eq]
  by_cases bit : enc.toNat / 2 ^ 63 % 2 = 1
  · simp only [bit, decide_true, Bool.toNat_true]
    omega
  · simp only [bit, decide_false, Bool.toNat_false]
    omega

theorem unorderedBits_orderedBits (value : F64) : unorderedBits (orderedBits value) = value := by
  have bound := value.bits.toNat_lt
  have number := toNat_orderedBits value
  have sign := and_signBit_ne_zero_iff (orderedBits value)
  change unorderedBits (orderedBits value) = ⟨value.bits⟩
  unfold unorderedBits
  congr 1
  by_cases positive : value.bits.toNat < 2 ^ 63
  · rw [if_pos positive] at number
    rw [if_pos (sign.mpr (by omega)), orderedBits, if_pos positive, xor_xor_cancel]
  · rw [if_neg positive] at number
    rw [if_neg (mt sign.mp (by omega)), orderedBits, if_neg positive, xor_ones, UInt64.not_not]

theorem orderedBits_unorderedBits (enc : UInt64) : orderedBits (unorderedBits enc) = enc := by
  have bound := enc.toNat_lt
  have sign := and_signBit_ne_zero_iff enc
  by_cases high : 2 ^ 63 ≤ enc.toNat
  · have flipped := toNat_signBit_xor enc
    rw [if_neg (by omega)] at flipped
    rw [unorderedBits, if_pos (sign.mpr high), orderedBits, if_pos (by rw [flipped]; omega),
      xor_xor_cancel]
  · have complement : (~~~enc).toNat = 2 ^ 64 - 1 - enc.toNat := UInt64.toNat_not enc
    rw [unorderedBits, if_neg (mt sign.mp high), orderedBits,
      if_neg (by rw [complement]; omega), xor_ones, UInt64.not_not]

/-! ## Order and inverses -/

theorem encodeRankKey_i64 (value : Int64) :
    encodeRankKey (.i64 value) =
      some (leBytes 8 (value.toUInt64 ^^^ 0x8000000000000000).toNat).reverse := rfl

theorem decodeRankKey_i64 (value : Int64) :
    decodeRankKey .i64 (leBytes 8 (value.toUInt64 ^^^ 0x8000000000000000).toNat).reverse =
      .i64 value := by
  simp only [decodeRankKey, ofNat_beNat_word, xor_xor_cancel]
  rfl

theorem decodeRankKey_f64 (value : F64) :
    decodeRankKey .f64 (leBytes 8 (orderedBits value).toNat).reverse = .f64 value := by
  have inverse := unorderedBits_orderedBits value
  simp only [decodeRankKey, ofNat_beNat_word]
  exact congrArg FieldValue.f64 inverse

/-- Every byte string of length eight is the rank key of what it decodes to. -/
theorem encodeRankKey_decodeRankKey (scoreType : LbScoreType) {key : Bytes}
    (eight : key.length = 8) : encodeRankKey (decodeRankKey scoreType key) = some key := by
  cases scoreType with
  | i64 =>
      simp only [decodeRankKey, encodeRankKey_i64]
      have word : (UInt64.ofNat (beNat key) ^^^ 0x8000000000000000).toInt64.toUInt64 =
          UInt64.ofNat (beNat key) ^^^ 0x8000000000000000 := rfl
      rw [word, xor_xor_cancel, word_ofNat_beNat eight]
  | f64 =>
      have inverse := orderedBits_unorderedBits (UInt64.ofNat (beNat key))
      have spelled := congrArg (fun word => some (leBytes 8 (UInt64.toNat word)).reverse) inverse
      rw [word_ofNat_beNat eight] at spelled
      exact spelled

theorem encodeTs_decodeTs {key : Bytes} (eight : key.length = 8) :
    encodeTs (decodeTs key) = key := by
  have word : (UInt64.ofNat (beNat key) ^^^ 0x8000000000000000).toInt64.toUInt64 =
      UInt64.ofNat (beNat key) ^^^ 0x8000000000000000 := rfl
  rw [encodeTs, decodeTs, word, xor_xor_cancel, word_ofNat_beNat eight]

/-- Integers are ranked by their values, doubles by the total order of their patterns and instants by
time, and each decoder is the inverse of its encoder on both sides. -/
theorem rank_keys_ordered :
    (∀ first second : Int64, ∃ firstKey secondKey,
      encodeRankKey (.i64 first) = some firstKey ∧ encodeRankKey (.i64 second) = some secondKey ∧
        (firstKey < secondKey ↔ first.toInt < second.toInt) ∧
        decodeRankKey .i64 firstKey = .i64 first) ∧
    (∀ first second : F64, ∃ firstKey secondKey,
      encodeRankKey (.f64 first) = some firstKey ∧ encodeRankKey (.f64 second) = some secondKey ∧
        (firstKey < secondKey ↔ first.totalLt second) ∧
        decodeRankKey .f64 firstKey = .f64 first) ∧
    (∀ first second : Int64,
      (encodeTs first < encodeTs second ↔ first.toInt < second.toInt) ∧
        decodeTs (encodeTs first) = first) ∧
    ∀ key : Bytes, key.length = 8 →
      (∀ scoreType, encodeRankKey (decodeRankKey scoreType key) = some key) ∧
        encodeTs (decodeTs key) = key := by
  refine ⟨?_, ?_, ?_, ?_⟩
  · intro first second
    refine ⟨_, _, encodeRankKey_i64 first, encodeRankKey_i64 second, ?_, decodeRankKey_i64 first⟩
    have firstFlip := toNat_signFlip first
    have secondFlip := toNat_signFlip second
    rw [word_lt_iff]
    omega
  · intro first second
    refine ⟨_, _, encodeRankKey_f64 first, encodeRankKey_f64 second, ?_, decodeRankKey_f64 first⟩
    rw [word_lt_iff, orderedBits_lt_iff]
  · intro first second
    rw [encodeTs_lt_iff, Int64.lt_iff_toInt_lt]
    exact ⟨Iff.rfl, decodeTs_encodeTs first⟩
  · intro key eight
    exact ⟨fun scoreType => encodeRankKey_decodeRankKey scoreType eight, encodeTs_decodeTs eight⟩

/-- The key of all ones is that of the greatest integer and of a NaN. -/
theorem rank_keys_ordered_last :
    (∀ scoreType, encodeRankKey (decodeRankKey scoreType (List.replicate 8 255)) =
      some (List.replicate 8 255)) ∧
      encodeTs (decodeTs (List.replicate 8 255)) = List.replicate 8 255 :=
  rank_keys_ordered.2.2.2 (List.replicate 8 255) rfl

end Seisin
