import Mathlib
import Seisin.Ring.Rebuilding

/-!
# The hasher of the ring

What a ring's placement asks of its hash holds of `JumpBackHasher`: it returns, a bucket among those
there are, and with one bucket more it returns the same one or the new one.  Only the highest level
ever draws, and its loop ends because the generator runs through every state: the one whose output is
zero is rejected.
-/

namespace Seisin

namespace JumpBackHasher

/-! ## The generator -/

/-- The state after one draw. -/
def nextState (state : UInt64) : UInt64 := state + 0x9E3779B97F4A7C15

theorem nextLong_zero {state : UInt64} (wraps : nextState state = 0) : (nextLong state).2 = 0 := by
  have next : state + 0x9E3779B97F4A7C15 = 0 := wraps
  simp only [nextLong, next]
  decide

theorem nextState_iterate (draws : ℕ) (state : UInt64) :
    nextState^[draws] state = state + UInt64.ofNat draws * 0x9E3779B97F4A7C15 := by
  induction draws generalizing state with
  | zero => simp
  | succ draws ih =>
      rw [Function.iterate_succ_apply, ih, nextState, UInt64.ofNat_add, UInt64.add_mul,
        UInt64.add_assoc, UInt64.ofNat_one, UInt64.one_mul, UInt64.add_comm 0x9E3779B97F4A7C15]

/-- The increment is odd, so every state is reached, the state zero among them. -/
theorem exists_zero_state (state : UInt64) :
    ∃ draws < 2 ^ 64, nextState^[draws + 1] state = 0 := by
  have inverse : (0xF1DE83E19937733D : UInt64) * 0x9E3779B97F4A7C15 = 1 := by decide
  let draws : UInt64 := (0 - nextState state) * 0xF1DE83E19937733D
  refine ⟨draws.toNat, draws.toNat_lt, ?_⟩
  rw [Function.iterate_succ_apply, nextState_iterate, UInt64.ofNat_toNat, UInt64.mul_assoc, inverse,
    UInt64.mul_one, UInt64.add_comm, UInt64.sub_add_cancel]

/-! ## The rejection loop -/

theorem reject_ends {n q mask2 : UInt32} (positive : 0 < q) {draws fuel : ℕ} {state b}
    (wraps : nextState^[draws + 1] state = 0) (enough : draws < fuel) :
    reject n q mask2 fuel state b ≠ .outOfFuel := by
  induction draws generalizing state b fuel with
  | zero =>
      rcases Nat.exists_eq_add_of_lt enough with ⟨rest, rfl⟩
      have drawn : (nextLong state).2 = 0 := nextLong_zero wraps
      have masked : UInt64.toUInt32 0 &&& mask2 < q := by simpa using positive
      unfold reject
      split
      · simp
      · simp only [drawn, if_pos masked]
        simp
  | succ draws ih =>
      rcases Nat.exists_eq_add_of_lt enough with ⟨rest, rfl⟩
      rw [Function.iterate_succ_apply] at wraps
      rw [show draws + 1 + rest + 1 = (draws + rest + 1) + 1 by omega]
      unfold reject
      split
      · simp
      · dsimp only
        split
        · simp
        · split
          · simp
          · split
            · simp
            · split
              · simp
              · exact ih wraps (by omega)

theorem reject_mono {n q mask2 : UInt32} {fuel more : ℕ} {state b}
    (ended : reject n q mask2 fuel state b ≠ .outOfFuel) (le : fuel ≤ more) :
    reject n q mask2 more state b = reject n q mask2 fuel state b := by
  induction fuel generalizing more state b with
  | zero => exact absurd rfl ended
  | succ fuel ih =>
      rcases Nat.exists_eq_add_of_le' (Nat.zero_lt_of_lt le) with ⟨rest, rfl⟩
      unfold reject at ended ⊢
      split
      · rfl
      · rename_i above
        rw [if_neg above] at ended
        dsimp only at ended ⊢
        split
        · rfl
        · rename_i first
          rw [if_neg first] at ended
          split
          · rfl
          · rename_i firstOut
            rw [if_neg firstOut] at ended
            split
            · rfl
            · rename_i second
              rw [if_neg second] at ended
              split
              · rfl
              · rename_i secondOut
                rw [if_neg secondOut] at ended
                exact ih ended (by omega)

/-- A bucket that is found is one of the level. -/
theorem le_of_reject {n q mask2 bucket : UInt32} {fuel : ℕ} {state b} (ofLevel : q ≤ b)
    (found : reject n q mask2 fuel state b = .found bucket) : q ≤ bucket := by
  induction fuel generalizing state b with
  | zero => cases found
  | succ fuel ih =>
      unfold reject at found
      split at found
      · cases found
        exact ofLevel
      · dsimp only at found
        split at found
        · cases found
        · rename_i first
          split at found
          · cases found
            exact UInt32.not_lt.mp first
          · split at found
            · cases found
            · rename_i second
              split at found
              · cases found
                exact UInt32.not_lt.mp second
              · exact ih (UInt32.not_lt.mp second) found

/-- With one bucket more, the loop ends as before or finds the new one. -/
theorem reject_next {n q mask2 : UInt32} (fits : n.toNat + 1 < 2 ^ 32) (fuel : ℕ) (state b) :
    reject (n + 1) q mask2 fuel state b = reject n q mask2 fuel state b ∨
      reject (n + 1) q mask2 fuel state b = .found n := by
  have below : ∀ bucket : UInt32, bucket < n + 1 ↔ bucket < n ∨ bucket = n := by
    intro bucket
    have next : (n + 1).toNat = n.toNat + 1 := by
      rw [UInt32.toNat_add, UInt32.toNat_one, Nat.mod_eq_of_lt fits]
    rw [UInt32.lt_iff_toNat_lt, next, UInt32.lt_iff_toNat_lt, ← UInt32.toNat_inj]
    omega
  have skips : ∀ bucket : UInt32, bucket ≠ n → (bucket < n + 1 ↔ bucket < n) := by
    intro bucket differ
    rw [below, or_iff_left differ]
  induction fuel generalizing state b with
  | zero => exact Or.inl rfl
  | succ fuel ih =>
      by_cases hit : b = n
      · right
        rw [reject, if_pos ((below b).mpr (Or.inr hit)), hit]
      unfold reject
      simp only [skips b hit]
      split
      · exact Or.inl rfl
      · split
        · exact Or.inl rfl
        · by_cases firstHit : (nextLong state).2.toUInt32 &&& mask2 = n
          · right
            rw [if_pos ((below _).mpr (Or.inr firstHit)), firstHit]
          simp only [skips _ firstHit]
          split
          · exact Or.inl rfl
          · split
            · exact Or.inl rfl
            · by_cases secondHit : ((nextLong state).2 >>> 32).toUInt32 &&& mask2 = n
              · right
                rw [if_pos ((below _).mpr (Or.inr secondHit)), secondHit]
              simp only [skips _ secondHit]
              split
              · exact Or.inl rfl
              · exact ih _ _

/-! ## The levels -/

/-- The bucket a level asks for first, from its part of the word. -/
def firstBucket (v : UInt64) (uWork : UInt32) : UInt32 :=
  (1 <<< highBit uWork) +
    ((v >>> ((countOnes uWork <<< 5) &&& 63).toUInt64).toUInt32 &&& (1 <<< highBit uWork - 1))

theorem log2_lt (value : UInt32) : value.toNat.log2 < 32 := by
  rcases Nat.eq_zero_or_pos value.toNat with zero | positive
  · rw [zero]
    decide
  · exact (Nat.log2_lt positive.ne').mpr value.toNat_lt

theorem toNat_level (uWork : UInt32) :
    ((1 : UInt32) <<< highBit uWork).toNat = 2 ^ uWork.toNat.log2 := by
  rw [highBit, one_shiftLeft (log2_lt uWork), toNat_twoPow (log2_lt uWork)]

theorem level_pos (uWork : UInt32) : 0 < (1 : UInt32) <<< highBit uWork := by
  rw [UInt32.lt_iff_toNat_lt, toNat_level]
  exact Nat.two_pow_pos _

/-- Clearing the highest bit leaves what is below it. -/
theorem toNat_clear {uWork : UInt32} (nonzero : uWork ≠ 0) :
    uWork.toNat = 2 ^ uWork.toNat.log2 + (uWork ^^^ 1 <<< highBit uWork).toNat ∧
      (uWork ^^^ 1 <<< highBit uWork).toNat < 2 ^ uWork.toNat.log2 := by
  have positive : uWork.toNat ≠ 0 := fun zero => nonzero (UInt32.toNat_inj.mp zero)
  have atLeast : 2 ^ uWork.toNat.log2 ≤ uWork.toNat := Nat.log2_self_le positive
  have below : uWork.toNat < 2 ^ (uWork.toNat.log2 + 1) := Nat.lt_log2_self
  rw [UInt32.toNat_xor, toNat_level]
  generalize uWork.toNat.log2 = high at atLeast below ⊢
  rcases Nat.exists_eq_add_of_le atLeast with ⟨rest, split⟩
  rw [pow_succ] at below
  have small : rest < 2 ^ high := by omega
  have cleared : uWork.toNat ^^^ 2 ^ high = rest :=
    calc uWork.toNat ^^^ 2 ^ high
        = uWork.toNat ^^^ (uWork.toNat ^^^ rest) := by rw [split, two_pow_add_xor small]
      _ = rest := by rw [← Nat.xor_assoc, Nat.xor_self, Nat.zero_xor]
  rw [cleared]
  exact ⟨split, small⟩

/-- The first bucket of a level is one of the level. -/
theorem firstBucket_mem (v : UInt64) (uWork : UInt32) :
    1 <<< highBit uWork ≤ firstBucket v uWork ∧
      (firstBucket v uWork).toNat < 2 ^ (uWork.toNat.log2 + 1) := by
  have level := toNat_level uWork
  have one : (1 : UInt32) ≤ 1 <<< highBit uWork := by
    rw [UInt32.le_iff_toNat_le, level]
    exact Nat.one_le_two_pow
  have lower : ((1 : UInt32) <<< highBit uWork - 1).toNat = 2 ^ uWork.toNat.log2 - 1 := by
    rw [UInt32.toNat_sub_of_le _ _ one, level]
    rfl
  have bound : 2 ^ (uWork.toNat.log2 + 1) ≤ 2 ^ 32 :=
    Nat.pow_le_pow_right (by omega) (log2_lt uWork)
  have positive := Nat.two_pow_pos uWork.toNat.log2
  have rest : ((v >>> ((countOnes uWork <<< 5) &&& 63).toUInt64).toUInt32 &&&
      (1 <<< highBit uWork - 1)).toNat < 2 ^ uWork.toNat.log2 := by
    rw [UInt32.toNat_and, lower, Nat.and_two_pow_sub_one_eq_mod]
    exact Nat.mod_lt _ positive
  rw [pow_succ] at bound ⊢
  have sum : (firstBucket v uWork).toNat = 2 ^ uWork.toNat.log2 +
      ((v >>> ((countOnes uWork <<< 5) &&& 63).toUInt64).toUInt32 &&&
        (1 <<< highBit uWork - 1)).toNat := by
    rw [firstBucket, UInt32.toNat_add, level, Nat.mod_eq_of_lt (by omega)]
  constructor
  · rw [UInt32.le_iff_toNat_le, level, sum]
    exact Nat.le_add_right _ _
  · omega

/-- The rejection loop of a level. -/
def attempt (fuel : ℕ) (v : UInt64) (n : UInt32) (state : UInt64) (uWork : UInt32) : Rejection :=
  reject n (1 <<< highBit uWork)
    (if 1 <<< highBit uWork = 0x80000000 then 0xFFFFFFFF else (1 <<< highBit uWork) <<< 1 - 1)
    fuel state (firstBucket v uWork)

section Levels

variable {fuel level : ℕ} {v state : UInt64} {n uWork bucket : UInt32}

theorem levels_zero : levels fuel v n (level + 1) state 0 = some 0 := by
  rw [levels, if_pos rfl]

theorem levels_of_found (nonzero : uWork ≠ 0)
    (found : attempt fuel v n state uWork = .found bucket) :
    levels fuel v n (level + 1) state uWork = some bucket := by
  simp only [attempt, firstBucket] at found
  simp only [levels, if_neg nonzero, found]

theorem levels_of_outOfFuel (nonzero : uWork ≠ 0)
    (ended : attempt fuel v n state uWork = .outOfFuel) :
    levels fuel v n (level + 1) state uWork = none := by
  simp only [attempt, firstBucket] at ended
  simp only [levels, if_neg nonzero, ended]

theorem levels_of_exhausted {later : UInt64} (nonzero : uWork ≠ 0)
    (exhausted : attempt fuel v n state uWork = .exhausted later) :
    levels fuel v n (level + 1) state uWork =
      levels fuel v n level later (uWork ^^^ 1 <<< highBit uWork) := by
  simp only [attempt, firstBucket] at exhausted
  rw [levels, if_neg nonzero]
  simp only [exhausted]

/-- With as many draws as the generator has states, a result comes. -/
theorem levels_ends (enough : 2 ^ 64 ≤ fuel) (below : uWork.toNat < 2 ^ level) :
    ∃ bucket, levels fuel v n (level + 1) state uWork = some bucket := by
  induction level generalizing state uWork with
  | zero =>
      have zero : uWork = 0 := UInt32.toNat_inj.mp (Nat.lt_one_iff.mp below)
      rw [zero]
      exact ⟨0, levels_zero⟩
  | succ level ih =>
      by_cases zero : uWork = 0
      · rw [zero]
        exact ⟨0, levels_zero⟩
      rcases exists_zero_state state with ⟨draws, few, wraps⟩
      have ends : attempt fuel v n state uWork ≠ .outOfFuel :=
        reject_ends (level_pos uWork) wraps (few.trans_le enough)
      cases ended : attempt fuel v n state uWork with
      | found bucket => exact ⟨bucket, levels_of_found zero ended⟩
      | outOfFuel => exact absurd ended ends
      | exhausted later =>
          rw [levels_of_exhausted zero ended]
          apply ih
          rcases toNat_clear zero with ⟨split, small⟩
          have inside : 2 ^ uWork.toNat.log2 < 2 ^ (level + 1) := by omega
          have powers : 2 ^ uWork.toNat.log2 ≤ 2 ^ level :=
            Nat.pow_le_pow_right (by omega)
              (Nat.lt_succ_iff.mp ((Nat.pow_lt_pow_iff_right (by omega)).mp inside))
          omega

theorem levels_mono {more : ℕ} (found : levels fuel v n level state uWork = some bucket)
    (le : fuel ≤ more) : levels more v n level state uWork = some bucket := by
  induction level generalizing state uWork with
  | zero => cases found
  | succ level ih =>
      by_cases zero : uWork = 0
      · rw [zero, levels_zero] at found ⊢
        exact found
      have same : attempt fuel v n state uWork ≠ .outOfFuel →
          attempt more v n state uWork = attempt fuel v n state uWork := fun ended =>
        reject_mono ended le
      cases ended : attempt fuel v n state uWork with
      | found first =>
          rw [ended] at same
          rw [levels_of_found zero ended] at found
          rw [levels_of_found zero (same (by simp)), found]
      | outOfFuel =>
          rw [levels_of_outOfFuel zero ended] at found
          cases found
      | exhausted later =>
          rw [ended] at same
          rw [levels_of_exhausted zero ended] at found
          rw [levels_of_exhausted zero (same (by simp))]
          exact ih found

/-- A level all buckets of which are there finds its first bucket. -/
theorem levels_low {bits : ℕ} (below : uWork.toNat < 2 ^ bits) (inside : 2 ^ bits ≤ n.toNat) :
    levels (fuel + 1) v n (level + 1) state uWork =
      some (if uWork = 0 then 0 else firstBucket v uWork) := by
  by_cases zero : uWork = 0
  · rw [if_pos zero, zero, levels_zero]
  have top : 2 ^ bits < 2 ^ 32 := inside.trans_lt n.toNat_lt
  have bitsBound : bits < 32 := (Nat.pow_lt_pow_iff_right (by omega)).mp top
  have high : 2 ^ uWork.toNat.log2 < 2 ^ bits :=
    (Nat.log2_self_le fun none => zero (UInt32.toNat_inj.mp none)).trans_lt below
  have highBound : uWork.toNat.log2 < bits := (Nat.pow_lt_pow_iff_right (by omega)).mp high
  have powers : 2 ^ (uWork.toNat.log2 + 1) ≤ 2 ^ bits := Nat.pow_le_pow_right (by omega) highBound
  have hit : firstBucket v uWork < n := by
    rw [UInt32.lt_iff_toNat_lt]
    exact ((firstBucket_mem v uWork).2.trans_le powers).trans_le inside
  rw [if_neg zero]
  refine levels_of_found zero ?_
  rw [attempt, reject, if_pos hit]

/-- With one bucket more, the levels end as before or find the new one. -/
theorem levels_next (fits : n.toNat + 1 < 2 ^ 32) :
    levels fuel v (n + 1) level state uWork = levels fuel v n level state uWork ∨
      levels fuel v (n + 1) level state uWork = some n := by
  induction level generalizing state uWork with
  | zero => exact Or.inl rfl
  | succ level ih =>
      by_cases zero : uWork = 0
      · rw [zero, levels_zero, levels_zero]
        exact Or.inl rfl
      have next : attempt fuel v (n + 1) state uWork = attempt fuel v n state uWork ∨
          attempt fuel v (n + 1) state uWork = .found n := reject_next fits fuel _ _
      rcases next with same | moved
      · cases ended : attempt fuel v n state uWork with
        | found first =>
            rw [levels_of_found zero ended, levels_of_found zero (same.trans ended)]
            exact Or.inl rfl
        | outOfFuel =>
            rw [levels_of_outOfFuel zero ended, levels_of_outOfFuel zero (same.trans ended)]
            exact Or.inl rfl
        | exhausted later =>
            rw [levels_of_exhausted zero ended, levels_of_exhausted zero (same.trans ended)]
            exact ih
      · exact Or.inr (levels_of_found zero moved)

end Levels

/-! ## The hash -/

theorem toNat_mask {n : UInt32} (several : 1 < n.toNat) :
    ((0xFFFFFFFF : UInt32) >>> (31 - highBit (n - 1))).toNat = 2 ^ ((n.toNat - 1).log2 + 1) - 1 := by
  have bound := n.toNat_lt
  have oneLe : (1 : UInt32) ≤ n := by
    rw [UInt32.le_iff_toNat_le]
    exact several.le
  have lower : (n - 1).toNat = n.toNat - 1 := UInt32.toNat_sub_of_le _ _ oneLe
  have top : (n.toNat - 1).log2 < 32 := lower ▸ log2_lt (n - 1)
  have number : (highBit (n - 1)).toNat = (n.toNat - 1).log2 := by
    rw [highBit, lower]
    exact UInt32.toNat_ofNat_of_lt' (top.trans (by decide))
  have topLe : highBit (n - 1) ≤ 31 := by
    rw [UInt32.le_iff_toNat_le, number]
    exact Nat.le_of_lt_succ top
  have shift : (31 - highBit (n - 1)).toNat = 31 - (n.toNat - 1).log2 := by
    rw [UInt32.toNat_sub_of_le _ _ topLe, number]
    rfl
  have ones : (0xFFFFFFFF : UInt32).toNat = 2 ^ 32 - 1 := rfl
  rw [UInt32.toNat_shiftRight, shift, Nat.mod_eq_of_lt (by omega), ones,
    Nat.shiftRight_eq_div_pow]
  generalize (n.toNat - 1).log2 = high at top
  interval_cases high <;> rfl

/-- The part of the word the levels go through. -/
def word (k : UInt64) (n : UInt32) : UInt32 :=
  ((nextLong k).2 ^^^ ((nextLong k).2 >>> 32)).toUInt32 &&&
    0xFFFFFFFF >>> (31 - highBit (n - 1))

theorem toNat_word (k : UInt64) {n : UInt32} (several : 1 < n.toNat) :
    (word k n).toNat = ((nextLong k).2 ^^^ ((nextLong k).2 >>> 32)).toUInt32.toNat %
      2 ^ ((n.toNat - 1).log2 + 1) := by
  rw [word, UInt32.toNat_and, toNat_mask several, Nat.and_two_pow_sub_one_eq_mod]

theorem hash?_several (fuel : ℕ) (k : UInt64) {n : UInt32} (several : 1 < n.toNat) :
    hash? fuel k n = levels fuel (nextLong k).2 n 33 (nextState k) (word k n) := by
  have more : ¬n ≤ 1 := by
    rw [UInt32.le_iff_toNat_le, UInt32.toNat_one]
    omega
  rw [hash?, if_neg more]
  rfl

theorem hash?_single (fuel : ℕ) (k : UInt64) {n : UInt32} (single : n.toNat ≤ 1) :
    hash? fuel k n = some 0 := by
  rw [hash?, if_pos (UInt32.le_iff_toNat_le.mpr single)]

theorem hash?_mono {fuel more : ℕ} {k : UInt64} {n bucket : UInt32}
    (found : hash? fuel k n = some bucket) (le : fuel ≤ more) : hash? more k n = some bucket := by
  rcases Nat.lt_or_ge 1 n.toNat with several | single
  · rw [hash?_several fuel k several] at found
    rw [hash?_several more k several]
    exact levels_mono found le
  · rw [hash?_single fuel k single] at found
    rw [hash?_single more k single, found]

theorem hash?_ends (k : UInt64) (n : UInt32) : ∃ bucket, hash? (2 ^ 64) k n = some bucket := by
  rcases Nat.lt_or_ge 1 n.toNat with several | single
  · rw [hash?_several _ k several]
    exact levels_ends (le_refl _) (word k n).toNat_lt
  · exact ⟨0, hash?_single _ k single⟩

theorem hash?_lt {fuel : ℕ} {k : UInt64} {n bucket : UInt32} (nonempty : 0 < n.toNat)
    (found : hash? fuel k n = some bucket) : bucket < n := by
  have positive : (0 : UInt32) < n := UInt32.lt_iff_toNat_lt.mpr nonempty
  rcases Nat.lt_or_ge 1 n.toNat with several | single
  · rw [hash?_several fuel k several] at found
    rcases levels_lt found with below | rfl
    · exact below
    · exact positive
  · rw [hash?_single fuel k single] at found
    cases found
    exact positive

theorem mod_two_pow_succ (number high : ℕ) :
    number % 2 ^ (high + 1) = number % 2 ^ high ∨
      number % 2 ^ (high + 1) = 2 ^ high + number % 2 ^ high := by
  have below : number % (2 ^ high * 2) < 2 ^ high * 2 := Nat.mod_lt _ (by positivity)
  rw [pow_succ, ← Nat.mod_mul_right_mod number (2 ^ high) 2]
  generalize number % (2 ^ high * 2) = rest at below
  rcases Nat.lt_or_ge rest (2 ^ high) with small | large
  · exact Or.inl (Nat.mod_eq_of_lt small).symm
  · right
    rw [Nat.mod_eq_sub_mod large, Nat.mod_eq_of_lt (by omega)]
    omega

/-- With one bucket more, a key stays where it is or moves to the new one. -/
theorem hash?_next {fuel : ℕ} {k : UInt64} {n bucket later : UInt32} (nonempty : 0 < n.toNat)
    (fits : n.toNat + 1 < 2 ^ 32) (before : hash? (fuel + 1) k n = some bucket)
    (after : hash? (fuel + 1) k (n + 1) = some later) : later = bucket ∨ later = n := by
  have next : (n + 1).toNat = n.toNat + 1 := by
    rw [UInt32.toNat_add, UInt32.toNat_one, Nat.mod_eq_of_lt fits]
  have laterBelow : later.toNat < n.toNat + 1 := by
    have below := hash?_lt (by omega) after
    rwa [UInt32.lt_iff_toNat_lt, next] at below
  rcases Nat.lt_or_ge 1 n.toNat with several | single
  swap
  · -- a single bucket: the other one is the new one
    rw [hash?_single (fuel + 1) k single] at before
    cases before
    rcases Nat.lt_or_ge later.toNat 1 with first | second
    · exact Or.inl (UInt32.toNat_inj.mp (Nat.lt_one_iff.mp first))
    · exact Or.inr (UInt32.toNat_inj.mp (by omega))
  rw [hash?_several _ k several] at before
  rw [hash?_several _ k (by omega)] at after
  have wordBefore := toNat_word k several
  have wordAfter := toNat_word k (show 1 < (n + 1).toNat by omega)
  rw [next, Nat.add_sub_cancel] at wordAfter
  by_cases sameMask : n.toNat.log2 = (n.toNat - 1).log2
  · have sameWord : word k (n + 1) = word k n := by
      apply UInt32.toNat_inj.mp
      rw [wordAfter, wordBefore, sameMask]
    rw [sameWord] at after
    rcases levels_next fits with same | moved
    · rw [same, before] at after
      cases after
      exact Or.inl rfl
    · rw [moved] at after
      cases after
      exact Or.inr rfl
  · -- the new bucket is the first one of a new level
    have atLeast : 2 ^ n.toNat.log2 ≤ n.toNat := Nat.log2_self_le (by omega)
    have atLeastLower : 2 ^ (n.toNat - 1).log2 ≤ n.toNat - 1 := Nat.log2_self_le (by omega)
    have belowUpper : n.toNat - 1 < 2 ^ ((n.toNat - 1).log2 + 1) := Nat.lt_log2_self
    have belowTop : n.toNat < 2 ^ (n.toNat.log2 + 1) := Nat.lt_log2_self
    have grows : (n.toNat - 1).log2 < n.toNat.log2 := by
      have lt : 2 ^ (n.toNat - 1).log2 < 2 ^ (n.toNat.log2 + 1) := by omega
      have le := (Nat.pow_lt_pow_iff_right (by omega)).mp lt
      omega
    have powers : 2 ^ ((n.toNat - 1).log2 + 1) ≤ 2 ^ n.toNat.log2 :=
      Nat.pow_le_pow_right (by omega) grows
    have power : n.toNat = 2 ^ n.toNat.log2 := by omega
    have lower : (n.toNat - 1).log2 + 1 = n.toNat.log2 :=
      Nat.pow_right_injective (le_refl 2)
        (show 2 ^ ((n.toNat - 1).log2 + 1) = 2 ^ n.toNat.log2 by omega)
    rw [lower] at wordBefore
    have wordBelow : (word k n).toNat < 2 ^ n.toNat.log2 := by
      rw [wordBefore]
      exact Nat.mod_lt _ (Nat.two_pow_pos _)
    rw [levels_low wordBelow atLeast] at before
    rcases mod_two_pow_succ ((nextLong k).2 ^^^ ((nextLong k).2 >>> 32)).toUInt32.toNat
      n.toNat.log2 with unset | set
    · -- the word has no part in the new level
      rw [unset, ← wordBefore] at wordAfter
      rw [UInt32.toNat_inj.mp wordAfter, levels_low wordBelow (by omega)] at after
      left
      rw [← Option.some_inj, ← after, before]
    · -- the new level finds the new bucket, or leaves the word as it was
      rw [set, ← wordBefore] at wordAfter
      have nonzero : word k (n + 1) ≠ 0 := by
        intro zero
        rw [zero] at wordAfter
        simp only [UInt32.toNat_zero] at wordAfter
        omega
      have high : (word k (n + 1)).toNat.log2 = n.toNat.log2 := by
        rw [Nat.log2_eq_iff (by omega), pow_succ]
        omega
      rcases toNat_clear nonzero with ⟨split, _⟩
      rw [high] at split
      have cleared : word k (n + 1) ^^^ 1 <<< highBit (word k (n + 1)) = word k n :=
        UInt32.toNat_inj.mp (by omega)
      cases ended : attempt (fuel + 1) (nextLong k).2 (n + 1) (nextState k) (word k (n + 1)) with
      | found first =>
          rw [levels_of_found nonzero ended] at after
          cases after
          right
          have ofLevel : 1 <<< highBit (word k (n + 1)) ≤ later :=
            le_of_reject (firstBucket_mem (nextLong k).2 _).1 ended
          rw [UInt32.le_iff_toNat_le, toNat_level, high, ← power] at ofLevel
          exact UInt32.toNat_inj.mp (by omega)
      | outOfFuel =>
          rw [levels_of_outOfFuel nonzero ended] at after
          cases after
      | exhausted state =>
          rw [levels_of_exhausted nonzero ended, cleared, levels_low wordBelow (by omega)] at after
          left
          rw [← Option.some_inj, ← after, before]

/-- What the hash returns once it has drawn as often as it needs to. -/
def Returns (k : UInt64) (n bucket : UInt32) : Prop := ∃ fuel, hash? fuel k n = some bucket

/-- The hash returns for every key, one bucket of those there are, and one bucket more leaves a key
where it is or moves it to the new one. -/
theorem returns_consistently (k : UInt64) (n : UInt32) (nonempty : 0 < n.toNat) :
    (∃ bucket < n, Returns k n bucket ∧ ∀ other, Returns k n other → other = bucket) ∧
      (n.toNat + 1 < 2 ^ 32 → ∀ bucket later, Returns k n bucket → Returns k (n + 1) later →
        later = bucket ∨ later = n) := by
  constructor
  · rcases hash?_ends k n with ⟨bucket, found⟩
    refine ⟨bucket, hash?_lt nonempty found, ⟨_, found⟩, ?_⟩
    rintro other ⟨fuel, returned⟩
    rcases Nat.le_total fuel (2 ^ 64) with le | le
    · rw [hash?_mono returned le] at found
      exact Option.some_inj.mp found
    · rw [hash?_mono found le] at returned
      exact Option.some_inj.mp returned.symm
  · rintro fits bucket later ⟨fuel, before⟩ ⟨laterFuel, after⟩
    exact hash?_next nonempty fits (hash?_mono before (show fuel ≤ fuel + laterFuel + 1 by omega))
      (hash?_mono after (by omega))

/-- Key 1 is in bucket 1 of two, and in that one or the new one of three. -/
theorem returns_consistently_second : Returns 1 2 1 ∧ (∀ other, Returns 1 2 other → other = 1) ∧
    ∀ later, Returns 1 3 later → later = 1 ∨ later = 2 := by
  have returned : Returns 1 2 1 := ⟨1, by decide +kernel⟩
  rcases returns_consistently 1 2 (by decide) with ⟨⟨bucket, _, _, unique⟩, next⟩
  refine ⟨returned, ?_, fun later => next (by decide) 1 later returned⟩
  intro other otherReturned
  rw [unique other otherReturned, unique 1 returned]

/-! ## The ring's hash -/

/-- The hash as a function of numbers, with as many draws as the generator has states; the source
counts buckets with 32 bits. -/
def bucketOf (k n : ℕ) : ℕ :=
  ((hash? (2 ^ 64) (UInt64.ofNat k) (UInt32.ofNat (min n (2 ^ 32 - 1)))).map UInt32.toNat).getD 0

theorem toNat_clamped (n : ℕ) : (UInt32.ofNat (min n (2 ^ 32 - 1))).toNat = min n (2 ^ 32 - 1) :=
  UInt32.toNat_ofNat_of_lt' (show min n (2 ^ 32 - 1) < 2 ^ 32 by omega)

theorem bucketOf_spec (k n : ℕ) : ∃ bucket, bucketOf k n = bucket.toNat ∧
    hash? (2 ^ 64) (UInt64.ofNat k) (UInt32.ofNat (min n (2 ^ 32 - 1))) = some bucket := by
  rcases hash?_ends (UInt64.ofNat k) (UInt32.ofNat (min n (2 ^ 32 - 1))) with ⟨bucket, found⟩
  exact ⟨bucket, by rw [bucketOf, found]; rfl, found⟩

/-- Where 64 draws are enough at every level, no more of them are made. -/
theorem bucketOf_eq_hash {k n : ℕ} {bucket : UInt32} (fits : n < 2 ^ 32)
    (enough : hash? 64 (UInt64.ofNat k) (UInt32.ofNat n) = some bucket) :
    bucketOf k n = hash k n := by
  have clamped : min n (2 ^ 32 - 1) = n := by omega
  have drawn := hash?_mono enough (show 64 ≤ 2 ^ 64 by decide)
  rw [bucketOf, hash, clamped, enough, drawn]

theorem bucketOf_lt (k n : ℕ) (nonempty : 1 ≤ n) : bucketOf k n < n := by
  rcases bucketOf_spec k n with ⟨bucket, same, found⟩
  have below := hash?_lt (by rw [toNat_clamped]; omega) found
  rw [UInt32.lt_iff_toNat_lt, toNat_clamped] at below
  omega

theorem bucketOf_consistent : Ring.Consistent bucketOf := by
  intro k n nonempty
  rcases bucketOf_spec k n with ⟨bucket, same, found⟩
  rcases bucketOf_spec k (n + 1) with ⟨later, laterSame, laterFound⟩
  rcases Nat.lt_or_ge (n + 1) (2 ^ 32) with fits | beyond
  · have clamped : min n (2 ^ 32 - 1) = n := by omega
    have clampedNext : UInt32.ofNat (min (n + 1) (2 ^ 32 - 1)) = UInt32.ofNat n + 1 := by
      rw [show min (n + 1) (2 ^ 32 - 1) = n + 1 by omega, UInt32.ofNat_add]
      rfl
    have number : (UInt32.ofNat n).toNat = n :=
      UInt32.toNat_ofNat_of_lt' (show n < 2 ^ 32 by omega)
    rw [clamped] at found
    rw [clampedNext] at laterFound
    rcases hash?_next (by omega) (by omega) found laterFound with stays | moves
    · left
      rw [laterSame, same, stays]
    · right
      rw [laterSame, moves, number]
  · left
    have clamped : min (n + 1) (2 ^ 32 - 1) = min n (2 ^ 32 - 1) := by omega
    rw [clamped, found] at laterFound
    cases laterFound
    rw [laterSame, same]

end JumpBackHasher

/-- With the ring's own hash: a node that joins takes over data, and no datum moves between the
others. -/
theorem Ring.native_applyJoin_bucketOf (ring : Ring) (nodeId : NodeId) (threadCount : ℕ)
    (datumId : DatumId) :
    (ring.applyJoin nodeId threadCount).native JumpBackHasher.bucketOf datumId =
        ring.native JumpBackHasher.bucketOf datumId ∨
      ∃ thread < threadCount,
        (ring.applyJoin nodeId threadCount).native JumpBackHasher.bucketOf datumId =
          (nodeId, thread) := by
  rcases native_applyJoin JumpBackHasher.bucketOf_lt JumpBackHasher.bucketOf_consistent nodeId
    threadCount datumId with same | ⟨thread, below, _, moved⟩
  · exact Or.inl same
  · exact Or.inr ⟨thread, below, moved⟩

end Seisin
