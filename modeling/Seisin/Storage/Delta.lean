import Seisin.Core

/-!
# Structure-blind byte deltas

A delta keeps the common prefix and suffix of two byte strings and carries the bytes between them.
The compute side computes it, the storage side splices it.  The source narrows the three lengths to
32 bits; `trim` is the delta before that, `diff` the one after.
-/

namespace Seisin

open ByteString

structure Delta where
  prefixLen : ℕ
  suffixLen : ℕ
  middle : Bytes
  newTotalLen : ℕ
  deriving DecidableEq

/-- How many bytes two strings agree on from the front. -/
def commonPrefix : Bytes → Bytes → ℕ
  | first :: old, second :: new => if first = second then commonPrefix old new + 1 else 0
  | _, _ => 0

namespace Delta

def encodedLen (delta : Delta) : ℕ := 16 + delta.middle.length

/-- The longest common prefix, the longest common suffix of what is left, and the bytes of `new`
between them. -/
def trim (old new : Bytes) : Delta :=
  let front := commonPrefix old new
  let back := commonPrefix (old.drop front).reverse (new.drop front).reverse
  ⟨front, back, (new.take (new.length - back)).drop front, new.length⟩

/-- The delta with its lengths as 32-bit fields. -/
def narrow (delta : Delta) : Delta :=
  ⟨delta.prefixLen % 2 ^ 32, delta.suffixLen % 2 ^ 32, delta.middle, delta.newTotalLen % 2 ^ 32⟩

def diff (old new : Bytes) : Delta := (trim old new).narrow

def apply (old : Bytes) (delta : Delta) : Except String Bytes :=
  if old.length < delta.prefixLen + delta.suffixLen then
    .error ("delta prefix " ++ toString delta.prefixLen ++ " + suffix " ++
      toString delta.suffixLen ++ " exceed the base's " ++ toString old.length ++ " bytes")
  else if delta.prefixLen + delta.middle.length + delta.suffixLen ≠ delta.newTotalLen then
    .error ("delta reassembles to " ++
      toString (delta.prefixLen + delta.middle.length + delta.suffixLen) ++
      " bytes but declares " ++ toString delta.newTotalLen)
  else
    .ok (old.take delta.prefixLen ++ delta.middle ++ old.drop (old.length - delta.suffixLen))

def encode (delta : Delta) : Bytes :=
  leBytes 4 delta.prefixLen ++ leBytes 4 delta.suffixLen ++ leBytes 4 delta.newTotalLen ++
    leBytes 4 delta.middle.length ++ delta.middle

def decode (buf : Bytes) : Except String Delta :=
  if buf.length < 16 then
    .error ("delta too short for its fixed fields: " ++ toString buf.length ++ " bytes")
  else
    let middleLen := leNat ((buf.drop 12).take 4)
    if buf.length ≠ 16 + middleLen then
      .error ("delta declares a " ++ toString middleLen ++ "-byte middle but carries " ++
        toString (buf.length - 16))
    else
      .ok ⟨leNat (buf.take 4), leNat ((buf.drop 4).take 4), buf.drop 16,
        leNat ((buf.drop 8).take 4)⟩

end Delta

/-! ## Common ends -/

theorem commonPrefix_le_left (old new : Bytes) : commonPrefix old new ≤ old.length := by
  fun_induction commonPrefix old new with
  | case1 _ _ _ ih => simp only [List.length_cons]; omega
  | case2 => exact Nat.zero_le _
  | case3 => exact Nat.zero_le _

theorem commonPrefix_le_right (old new : Bytes) : commonPrefix old new ≤ new.length := by
  fun_induction commonPrefix old new with
  | case1 _ _ _ ih => simp only [List.length_cons]; omega
  | case2 => exact Nat.zero_le _
  | case3 => exact Nat.zero_le _

theorem take_commonPrefix (old new : Bytes) :
    old.take (commonPrefix old new) = new.take (commonPrefix old new) := by
  fun_induction commonPrefix old new with
  | case1 _ _ _ ih => simp [ih]
  | case2 => simp
  | case3 => simp

namespace Delta

theorem trim_front_le (old new : Bytes) :
    (trim old new).prefixLen + (trim old new).suffixLen ≤ old.length ∧
      (trim old new).prefixLen + (trim old new).suffixLen ≤ new.length := by
  have oldFront := commonPrefix_le_left old new
  have newFront := commonPrefix_le_right old new
  have oldBack := commonPrefix_le_left (old.drop (commonPrefix old new)).reverse
    (new.drop (commonPrefix old new)).reverse
  have newBack := commonPrefix_le_right (old.drop (commonPrefix old new)).reverse
    (new.drop (commonPrefix old new)).reverse
  simp only [List.length_reverse, List.length_drop] at oldBack newBack
  simp only [trim]
  omega

theorem trim_take (old new : Bytes) :
    old.take (trim old new).prefixLen = new.take (trim old new).prefixLen :=
  take_commonPrefix old new

/-- The last bytes of a string, as the front of the reversed rest. -/
private theorem drop_eq_reverse_take (bytes : Bytes) {front back : ℕ}
    (fits : front + back ≤ bytes.length) :
    bytes.drop (bytes.length - back) = ((bytes.drop front).reverse.take back).reverse := by
  rw [List.take_reverse, List.reverse_reverse, List.drop_drop, List.length_drop]
  congr 1
  omega

theorem trim_drop (old new : Bytes) :
    old.drop (old.length - (trim old new).suffixLen) =
      new.drop (new.length - (trim old new).suffixLen) := by
  rcases trim_front_le old new with ⟨oldFits, newFits⟩
  rw [drop_eq_reverse_take old oldFits, drop_eq_reverse_take new newFits]
  exact congrArg List.reverse (take_commonPrefix _ _)

theorem length_trim_middle (old new : Bytes) :
    (trim old new).prefixLen + (trim old new).middle.length + (trim old new).suffixLen =
      new.length := by
  rcases trim_front_le old new with ⟨_, newFits⟩
  simp only [trim, List.length_drop, List.length_take] at newFits ⊢
  omega

/-- The three parts of the delta make up the new string. -/
theorem trim_parts (old new : Bytes) :
    new.take (trim old new).prefixLen ++ (trim old new).middle ++
      new.drop (new.length - (trim old new).suffixLen) = new := by
  rcases trim_front_le old new with ⟨_, newFits⟩
  have shorter : (trim old new).prefixLen ≤ new.length - (trim old new).suffixLen := by omega
  have front : new.take (trim old new).prefixLen ++ (trim old new).middle =
      new.take (new.length - (trim old new).suffixLen) := by
    have split := List.take_append_drop (trim old new).prefixLen
      (new.take (new.length - (trim old new).suffixLen))
    rw [List.take_take, Nat.min_eq_left shorter] at split
    exact split
  rw [front, List.take_append_drop]

/-- A delta spliced into any string that shares the old one's ends gives the new one. -/
theorem apply_trim_of_ends {base old new : Bytes}
    (fits : (trim old new).prefixLen + (trim old new).suffixLen ≤ base.length)
    (front : base.take (trim old new).prefixLen = new.take (trim old new).prefixLen)
    (back : base.drop (base.length - (trim old new).suffixLen) =
      new.drop (new.length - (trim old new).suffixLen)) :
    apply base (trim old new) = .ok new := by
  have total : (trim old new).newTotalLen = new.length := rfl
  unfold apply
  rw [if_neg (by omega), if_neg (by rw [total, length_trim_middle]; simp), front, back,
    trim_parts]

theorem apply_trim (old new : Bytes) : apply old (trim old new) = .ok new :=
  apply_trim_of_ends (trim_front_le old new).1 (trim_take old new) (trim_drop old new)

/-- A retried delta finds its own result and leaves it alone. -/
theorem apply_trim_again (old new : Bytes) : apply new (trim old new) = .ok new :=
  apply_trim_of_ends (trim_front_le old new).2 rfl rfl

/-- The delta of a value that only grows at its end carries what was added. -/
theorem trim_append (old added : Bytes) :
    trim old (old ++ added) = ⟨old.length, 0, added, (old ++ added).length⟩ := by
  have front : commonPrefix old (old ++ added) = old.length := by
    induction old with
    | nil => simp [commonPrefix]
    | cons byte old ih => simp [commonPrefix, ih]
  have middle : ((old ++ added).take (old.length + added.length)).drop old.length = added := by
    rw [← List.length_append, List.take_length, List.drop_left]
  simp [trim, front, commonPrefix, middle]

/-- Lengths that fit 32 bits are kept. -/
theorem diff_eq_trim (old : Bytes) {new : Bytes} (fits : new.length < 2 ^ 32) :
    diff old new = trim old new := by
  rcases trim_front_le old new with ⟨_, newFits⟩
  have total : (trim old new).newTotalLen = new.length := rfl
  unfold diff narrow
  rw [Nat.mod_eq_of_lt (by omega), Nat.mod_eq_of_lt (by omega), Nat.mod_eq_of_lt (by omega)]

theorem diff_append {old : Bytes} (fits : old.length < 2 ^ 32) (added : Bytes) :
    diff old (old ++ added) = ⟨old.length, 0, added, (old.length + added.length) % 2 ^ 32⟩ := by
  rw [diff, trim_append, narrow]
  simp only [Nat.mod_eq_of_lt fits, Nat.zero_mod, List.length_append]

/-- The delta of a value that outgrows 32 bits declares a length it does not have. -/
theorem apply_diff_outgrown {old added : Bytes} (fits : old.length < 2 ^ 32)
    (outgrown : 2 ^ 32 ≤ old.length + added.length) :
    ∃ message, apply old (diff old (old ++ added)) = .error message := by
  rw [diff_append fits]
  unfold apply
  rw [if_neg (by simp)]
  split
  · exact ⟨_, rfl⟩
  · rename_i same
    exact absurd same (by simp only [Nat.add_zero]; omega)

/-- The result of a delta is as long as the delta declares, and made of its parts. -/
theorem apply_length {old new : Bytes} {delta : Delta} (spliced : delta.apply old = .ok new) :
    delta.newTotalLen = new.length ∧
      delta.prefixLen + delta.middle.length + delta.suffixLen = new.length := by
  unfold apply at spliced
  split at spliced
  · cases spliced
  · rename_i fits
    split at spliced
    · cases spliced
    · rename_i total
      simp only [Except.ok.injEq] at spliced
      rw [← spliced]
      simp only [List.length_append, List.length_take, List.length_drop]
      omega

/-- A delta whose lengths are values of their 32-bit fields. -/
structure Narrow (delta : Delta) : Prop where
  front : delta.prefixLen < 2 ^ 32
  back : delta.suffixLen < 2 ^ 32
  total : delta.newTotalLen < 2 ^ 32

/-- Decoding the encoding of a delta returns it, if its lengths are 32-bit values. -/
theorem decode_encode {delta : Delta} (front : delta.prefixLen < 2 ^ 32)
    (back : delta.suffixLen < 2 ^ 32) (total : delta.newTotalLen < 2 ^ 32)
    (middle : delta.middle.length < 2 ^ 32) : decode (encode delta) = .ok delta := by
  have length : (encode delta).length = 16 + delta.middle.length := by
    simp only [encode, List.length_append, length_leBytes]
  have fields : leNat ((encode delta).take 4) = delta.prefixLen ∧
      leNat (((encode delta).drop 4).take 4) = delta.suffixLen ∧
      leNat (((encode delta).drop 8).take 4) = delta.newTotalLen ∧
      leNat (((encode delta).drop 12).take 4) = delta.middle.length ∧
      (encode delta).drop 16 = delta.middle := by
    simp [encode, List.drop_append, List.drop_of_length_le, leNat_leBytes_four front,
      leNat_leBytes_four back, leNat_leBytes_four total, leNat_leBytes_four middle]
  rcases fields with ⟨frontRead, backRead, totalRead, middleRead, rest⟩
  unfold decode
  rw [if_neg (by omega), middleRead, if_neg (by omega), frontRead, backRead, totalRead, rest]

/-- The delta of two strings rebuilds the new one from the old one, and from itself when it is sent
once more; a delta is read back from its encoding. -/
theorem delta_laws :
    (∀ old new : Bytes, old.length < 2 ^ 32 → new.length < 2 ^ 32 →
      apply old (diff old new) = .ok new ∧ apply new (diff old new) = .ok new) ∧
    ∀ delta : {delta : Delta // delta.Narrow}, delta.1.middle.length < 2 ^ 32 →
      decode (encode delta.1) = .ok delta.1 := by
  constructor
  · intro old new _ fits
    rw [diff_eq_trim old fits]
    exact ⟨apply_trim old new, apply_trim_again old new⟩
  · rintro ⟨delta, narrow⟩ middle
    exact decode_encode narrow.front narrow.back narrow.total middle

/-- Ends that would overlap: of two equal bytes one more is removed than stands between the ends. -/
theorem delta_laws_overlapping :
    (apply [7, 7, 7] (diff [7, 7, 7] [7, 7]) = .ok [7, 7] ∧
      apply [7, 7] (diff [7, 7, 7] [7, 7]) = .ok [7, 7]) ∧
    decode (encode ⟨2, 0, [7], 3⟩) = .ok ⟨2, 0, [7], 3⟩ :=
  ⟨delta_laws.1 [7, 7, 7] [7, 7] (by decide) (by decide),
    delta_laws.2 ⟨⟨2, 0, [7], 3⟩, ⟨by decide, by decide, by decide⟩⟩ (by decide)⟩

end Delta

end Seisin
