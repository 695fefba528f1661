import Mathlib

/-!
# Byte strings

Little-endian numbers, UTF-8 text and bounds-checked reading, as binary formats use them.
-/

/-- Bytes are ordered as numbers, and byte strings lexicographically. -/
instance byteLinearOrder : LinearOrder UInt8 where
  le_refl := UInt8.le_refl
  le_trans _ _ _ := UInt8.le_trans
  le_antisymm _ _ := UInt8.le_antisymm
  le_total := UInt8.le_total
  lt_iff_le_not_ge _ _ := by
    rw [UInt8.not_le]
    exact ⟨fun less => ⟨UInt8.le_of_lt less, less⟩, And.right⟩
  toDecidableLE := inferInstance
  toDecidableLT := inferInstance

example : ([1, 2] : List UInt8) < [1, 2, 3] ∧ ¬([2] : List UInt8) < [1, 3] := by decide

namespace ByteString

/-- The `width` low bytes of a number, least significant first. -/
def leBytes : ℕ → ℕ → List UInt8
  | 0, _ => []
  | width + 1, value => UInt8.ofNat value :: leBytes width (value / 256)

/-- The number a byte string denotes, least significant byte first. -/
def leNat : List UInt8 → ℕ
  | [] => 0
  | byte :: rest => byte.toNat + 256 * leNat rest

/-- The number a byte string denotes, most significant byte first. -/
def beNat (bytes : List UInt8) : ℕ :=
  bytes.foldl (fun value byte => 256 * value + byte.toNat) 0

def ofString (text : String) : List UInt8 := text.toUTF8.toList

def toString? (bytes : List UInt8) : Option String := String.fromUTF8? ⟨bytes.toArray⟩

@[simp]
theorem length_leBytes (width value : ℕ) : (leBytes width value).length = width := by
  induction width generalizing value with
  | zero => rfl
  | succ width ih => simp [leBytes, ih]

/-- The `width` bytes from `offset` on do not depend on what is appended after them. -/
theorem window_append {bytes : List UInt8} (after : List UInt8) {offset width : ℕ}
    (inside : offset + width ≤ bytes.length) :
    ((bytes ++ after).drop offset).take width = (bytes.drop offset).take width := by
  rw [List.drop_append_of_le_length (by omega), List.take_append_of_le_length]
  rw [List.length_drop]
  omega

/-- The bytes between two others. -/
theorem window_middle (before middle after : List UInt8) :
    ((before ++ middle ++ after).drop before.length).take middle.length = middle := by
  rw [List.append_assoc, List.drop_left, List.take_left]

/-- Of a number too large for its width the low bytes are read back. -/
theorem leNat_leBytes_mod (width value : ℕ) :
    leNat (leBytes width value) = value % 256 ^ width := by
  induction width generalizing value with
  | zero =>
      rw [pow_zero, Nat.mod_one]
      rfl
  | succ width ih =>
      have split : value % (256 * 256 ^ width) =
          value % 256 + 256 * (value / 256 % 256 ^ width) := Nat.mod_mul
      rw [leBytes, leNat, ih, UInt8.toNat_ofNat', pow_succ' 256 width, split]

/-- Numbers that fit their width are read back. -/
theorem leNat_leBytes {width value : ℕ} (fits : value < 256 ^ width) :
    leNat (leBytes width value) = value := by
  rw [leNat_leBytes_mod, Nat.mod_eq_of_lt fits]

theorem leNat_leBytes_four {value : ℕ} (fits : value < 2 ^ 32) : leNat (leBytes 4 value) = value :=
  leNat_leBytes fits

/-- A number with its bytes the other way round. -/
theorem beNat_eq_leNat_reverse (bytes : List UInt8) : beNat bytes = leNat bytes.reverse := by
  have folded : ∀ bytes : List UInt8,
      leNat bytes = bytes.foldr (fun byte value => 256 * value + byte.toNat) 0 := by
    intro bytes
    induction bytes with
    | nil => rfl
    | cons byte bytes ih =>
        rw [leNat, ih, List.foldr_cons]
        omega
  rw [folded, beNat, List.foldl_eq_foldr_reverse]

/-! ## The order of byte strings -/

theorem append_lt_append_iff {first second : List UInt8} (same : first.length = second.length)
    (firstRest secondRest : List UInt8) :
    first ++ firstRest < second ++ secondRest ↔
      first < second ∨ first = second ∧ firstRest < secondRest := by
  induction first generalizing second with
  | nil =>
      rw [List.length_nil, eq_comm, List.length_eq_zero_iff] at same
      subst same
      simp
  | cons byte first ih =>
      cases second with
      | nil => cases same
      | cons other second =>
          rw [List.length_cons, List.length_cons, Nat.add_right_cancel_iff] at same
          simp only [List.cons_append, List.cons_lt_cons_iff, ih same, List.cons.injEq]
          tauto

theorem leNat_append (low high : List UInt8) :
    leNat (low ++ high) = leNat low + 256 ^ low.length * leNat high := by
  induction low with
  | nil => simp [leNat]
  | cons byte low ih =>
      rw [List.cons_append, leNat, ih, leNat, List.length_cons, pow_succ, Nat.mul_add,
        Nat.mul_comm (256 ^ low.length) 256, Nat.mul_assoc, Nat.add_assoc]

theorem leNat_lt (bytes : List UInt8) : leNat bytes < 256 ^ bytes.length := by
  induction bytes with
  | nil => exact Nat.one_pos
  | cons byte bytes ih =>
      have small := byte.toNat_lt
      rw [leNat, List.length_cons, pow_succ]
      omega

theorem beNat_lt (bytes : List UInt8) : beNat bytes < 256 ^ bytes.length := by
  rw [beNat_eq_leNat_reverse, ← List.length_reverse]
  exact leNat_lt _

theorem beNat_cons (byte : UInt8) (bytes : List UInt8) :
    beNat (byte :: bytes) = byte.toNat * 256 ^ bytes.length + beNat bytes := by
  rw [beNat_eq_leNat_reverse, beNat_eq_leNat_reverse, List.reverse_cons, leNat_append,
    List.length_reverse, leNat, leNat, Nat.mul_zero, Nat.add_zero, Nat.mul_comm, Nat.add_comm]

/-- Strings of one length are ordered as the numbers they denote, most significant byte first. -/
theorem lt_iff_beNat_lt {first second : List UInt8} (same : first.length = second.length) :
    first < second ↔ beNat first < beNat second := by
  induction first generalizing second with
  | nil =>
      rw [List.length_nil, eq_comm, List.length_eq_zero_iff] at same
      subst same
      simp
  | cons byte first ih =>
      cases second with
      | nil => cases same
      | cons other second =>
          rw [List.length_cons, List.length_cons, Nat.add_right_cancel_iff] at same
          have firstSmall := beNat_lt first
          have secondSmall := beNat_lt second
          rw [List.cons_lt_cons_iff, ih same, beNat_cons, beNat_cons]
          rw [same] at firstSmall ⊢
          generalize 256 ^ second.length = unit at firstSmall secondSmall ⊢
          rcases lt_trichotomy byte other with less | rfl | greater
          · have step : (byte.toNat + 1) * unit ≤ other.toNat * unit :=
              Nat.mul_le_mul_right _ less
            have expand : (byte.toNat + 1) * unit = byte.toNat * unit + unit := Nat.succ_mul _ _
            simp only [less, true_or, true_iff]
            omega
          · simp
          · have step : (other.toNat + 1) * unit ≤ byte.toNat * unit :=
              Nat.mul_le_mul_right _ greater
            have expand : (other.toNat + 1) * unit = other.toNat * unit + unit := Nat.succ_mul _ _
            simp only [greater.not_gt, greater.ne', false_and, or_self, false_iff]
            omega

theorem beNat_reverse_leBytes {width value : ℕ} (fits : value < 256 ^ width) :
    beNat (leBytes width value).reverse = value := by
  rw [beNat_eq_leNat_reverse, List.reverse_reverse, leNat_leBytes fits]

/-- The bytes of a packed array, as a list. -/
theorem byteArray_toList_eq (bytes : ByteArray) : bytes.toList = bytes.data.toList := by
  have loop : ∀ (left i : ℕ) (reversed : List UInt8), bytes.size - i = left →
      ByteArray.toList.loop bytes i reversed = reversed.reverse ++ bytes.data.toList.drop i := by
    intro left
    induction left with
    | zero =>
        intro i reversed leftIs
        have finished : bytes.data.toList.length ≤ i := by
          change bytes.size ≤ i
          omega
        rw [ByteArray.toList.loop, if_neg (by omega), List.drop_of_length_le finished,
          List.append_nil]
    | succ left ih =>
        intro i reversed leftIs
        have inside : i < bytes.data.toList.length := by
          change i < bytes.size
          omega
        have byte : bytes.get! i = bytes.data.toList[i] := by
          change bytes.data[i]! = _
          rw [getElem!_pos bytes.data i inside]
          rfl
        rw [ByteArray.toList.loop, if_pos (by omega), ih (i + 1) _ (by omega), List.reverse_cons,
          List.append_assoc, byte, List.singleton_append, List.getElem_cons_drop]
  exact (loop _ 0 [] rfl).trans (List.nil_append _)

theorem toString?_ofString (text : String) : toString? (ofString text) = some text := by
  have whole : (⟨(ofString text).toArray⟩ : ByteArray) = text.toByteArray := by
    rw [ofString, byteArray_toList_eq]
    rfl
  have valid : text.toByteArray.IsValidUTF8 := text.isValidUTF8
  unfold toString? String.fromUTF8?
  rw [whole, dif_pos valid]
  rfl

theorem toString?_eq_some_iff {bytes : List UInt8} {text : String} :
    toString? bytes = some text ↔ bytes = ofString text := by
  constructor
  · intro decoded
    unfold toString? String.fromUTF8? at decoded
    split at decoded
    · rename_i valid
      cases decoded
      rw [ofString, byteArray_toList_eq]
      rfl
    · cases decoded
  · rintro rfl
    exact toString?_ofString text

theorem ofString_append (first second : String) :
    ofString (first ++ second) = ofString first ++ ofString second := by
  simp only [ofString, byteArray_toList_eq]
  rw [← Array.toList_append, ← ByteArray.data_append]
  rfl

theorem ofString_inj {first second : String} : ofString first = ofString second ↔ first = second := by
  constructor
  · intro same
    have read := toString?_ofString first
    rw [same, toString?_ofString] at read
    exact (Option.some.inj read).symm
  · rintro rfl
    rfl

/-- A byte string is spelled by the number it denotes. -/
theorem leBytes_leNat (bytes : List UInt8) : leBytes bytes.length (leNat bytes) = bytes := by
  induction bytes with
  | nil => rfl
  | cons byte bytes ih =>
      have small := byte.toNat_lt
      have high : (byte.toNat + 256 * leNat bytes) / 256 = leNat bytes := by omega
      rw [List.length_cons, leNat, leBytes, high, ih]
      congr 1
      apply UInt8.toNat_inj.mp
      rw [UInt8.toNat_ofNat']
      omega

end ByteString
