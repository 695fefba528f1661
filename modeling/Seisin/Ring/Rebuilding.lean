import Mathlib
import Seisin.Ring.Placement

/-!
# Rebuilding a ring from its weights

The weights of a ring keep how many slots each node has, in the order in which the nodes first appear.
A ring rebuilt from them places every datum as the ring does exactly if the slots of each node stand
next to each other: the hash reaches every slot.
-/

namespace Seisin

open ByteString

/-! ## The hash reaches every slot -/

namespace JumpBackHasher

theorem xorShift_undo (word : BitVec 64) {shift : ℕ} (wide : 64 ≤ 3 * shift) :
    (word ^^^ word >>> shift ^^^ word >>> (2 * shift)) ^^^
      (word ^^^ word >>> shift ^^^ word >>> (2 * shift)) >>> shift = word := by
  have twice : word >>> shift >>> shift = word >>> (2 * shift) := by
    rw [← BitVec.shiftRight_add]
    congr 1
    omega
  have gone : word >>> (2 * shift) >>> shift = 0#64 := by
    rw [← BitVec.shiftRight_add]
    exact BitVec.ushiftRight_eq_zero (by omega)
  rw [BitVec.ushiftRight_xor_distrib, BitVec.ushiftRight_xor_distrib, twice, gone,
    BitVec.xor_zero, BitVec.xor_assoc word, BitVec.xor_assoc, BitVec.xor_self, BitVec.xor_zero]

/-- A word xored with its own shift, where three shifts clear the word. -/
theorem exists_xorShift (word : UInt64) {shift : UInt64}
    (wide : 64 ≤ 3 * (shift.toNat % 64)) : ∃ before, before ^^^ before >>> shift = word := by
  refine ⟨⟨word.toBitVec ^^^ word.toBitVec >>> (shift.toNat % 64) ^^^
    word.toBitVec >>> (2 * (shift.toNat % 64))⟩, ?_⟩
  apply UInt64.toBitVec_inj.mp
  exact xorShift_undo word.toBitVec wide

/-- The generator's output function is onto. -/
theorem exists_nextLong (output : UInt64) : ∃ state, (nextLong state).2 = output := by
  rcases exists_xorShift output (show 64 ≤ 3 * ((31 : UInt64).toNat % 64) by decide) with
    ⟨third, rfl⟩
  have secondInverse : (0x319642B2D24D8EC3 : UInt64) * 0x94D049BB133111EB = 1 := by decide
  rcases exists_xorShift (third * 0x319642B2D24D8EC3)
    (show 64 ≤ 3 * ((27 : UInt64).toNat % 64) by decide) with ⟨second, secondEq⟩
  have firstInverse : (0x96DE1B173F119089 : UInt64) * 0xBF58476D1CE4E5B9 = 1 := by decide
  rcases exists_xorShift (second * 0x96DE1B173F119089)
    (show 64 ≤ 3 * ((30 : UInt64).toNat % 64) by decide) with ⟨first, firstEq⟩
  refine ⟨first - 0x9E3779B97F4A7C15, ?_⟩
  simp only [nextLong, UInt64.sub_add_cancel, firstEq, UInt64.mul_assoc, firstInverse,
    UInt64.mul_one, secondEq, secondInverse]

theorem two_pow_add_xor {level rest : ℕ} (below : rest < 2 ^ level) :
    (2 ^ level + rest) ^^^ rest = 2 ^ level := by
  have high : ((2 ^ level + rest) ^^^ rest) / 2 ^ level = 1 := by
    rw [Nat.xor_div_two_pow, Nat.div_eq_of_lt below, Nat.add_div_of_dvd_right (dvd_refl _),
      Nat.div_self (Nat.two_pow_pos level), Nat.div_eq_of_lt below]
    rfl
  have low : ((2 ^ level + rest) ^^^ rest) % 2 ^ level = 0 := by
    rw [Nat.xor_mod_two_pow, Nat.add_mod_left, Nat.xor_self]
  have split := Nat.div_add_mod ((2 ^ level + rest) ^^^ rest) (2 ^ level)
  rw [high, low, Nat.mul_one, Nat.add_zero] at split
  exact split.symm

theorem toNat_twoPow {level : ℕ} (bits : level < 32) :
    (UInt32.ofNat (2 ^ level)).toNat = 2 ^ level :=
  UInt32.toNat_ofNat_of_lt' (Nat.pow_lt_pow_right (by omega) bits)

theorem highBit_twoPow {level : ℕ} (bits : level < 32) :
    highBit (UInt32.ofNat (2 ^ level)) = UInt32.ofNat level := by
  rw [highBit, toNat_twoPow bits, Nat.log2_two_pow]

theorem one_shiftLeft {level : ℕ} (bits : level < 32) :
    (1 : UInt32) <<< UInt32.ofNat level = UInt32.ofNat (2 ^ level) := by
  have small : level < 2 ^ 32 := by omega
  apply UInt32.toNat_inj.mp
  rw [UInt32.toNat_shiftLeft, toNat_twoPow bits, UInt32.toNat_ofNat_of_lt' small,
    Nat.mod_eq_of_lt bits, UInt32.toNat_one, Nat.one_shiftLeft,
    Nat.mod_eq_of_lt (Nat.pow_lt_pow_right (by omega) bits)]

theorem countOnes_twoPow {level : ℕ} (bits : level < 32) :
    countOnes (UInt32.ofNat (2 ^ level)) = 1 := by
  have ones : (List.range 32).countP (fun bit => (2 ^ level).testBit bit) =
      (List.range 32).count level := by
    rw [List.count]
    apply List.countP_congr
    intro bit _
    rw [Nat.testBit_two_pow, decide_eq_true_eq, beq_iff_eq, eq_comm]
  rw [countOnes, toNat_twoPow bits, ones,
    List.count_eq_one_of_mem List.nodup_range (List.mem_range.mpr bits)]
  rfl

/-- The first level finds the bucket that the upper half of the word asks for. -/
theorem levels_twoPow (fuel levelsLeft : ℕ) (state : UInt64) {level rest : ℕ} {v : UInt64}
    {n : UInt32} (bits : level < 32) (below : rest < 2 ^ level)
    (upper : (v >>> 32).toUInt32 = UInt32.ofNat rest) (inside : 2 ^ level + rest < n.toNat) :
    levels (fuel + 1) v n (levelsLeft + 1) state (UInt32.ofNat (2 ^ level)) =
      some (UInt32.ofNat (2 ^ level + rest)) := by
  have bound : 2 ^ level < 2 ^ 32 := Nat.pow_lt_pow_right (by omega) bits
  have nonzero : UInt32.ofNat (2 ^ level) ≠ 0 := by
    intro zero
    have number := toNat_twoPow bits
    rw [zero] at number
    exact absurd number (Nat.two_pow_pos level).ne
  have restBound : rest < 2 ^ 32 := below.trans bound
  have oneLe : (1 : UInt32) ≤ UInt32.ofNat (2 ^ level) := by
    rw [UInt32.le_iff_toNat_le, toNat_twoPow bits]
    exact Nat.one_le_two_pow
  have masked : UInt32.ofNat rest &&& (UInt32.ofNat (2 ^ level) - 1) = UInt32.ofNat rest := by
    apply UInt32.toNat_inj.mp
    rw [UInt32.toNat_and, UInt32.toNat_sub_of_le _ _ oneLe, toNat_twoPow bits,
      UInt32.toNat_ofNat_of_lt' restBound]
    exact (Nat.and_two_pow_sub_one_eq_mod rest level).trans (Nat.mod_eq_of_lt below)
  have first : UInt32.ofNat (2 ^ level) + UInt32.ofNat rest = UInt32.ofNat (2 ^ level + rest) :=
    (UInt32.ofNat_add _ _).symm
  have hit : UInt32.ofNat (2 ^ level + rest) < n := by
    rw [UInt32.lt_iff_toNat_lt, UInt32.toNat_ofNat_of_lt' (inside.trans n.toNat_lt)]
    exact inside
  have shift : ((1 : UInt32) <<< 5 &&& 63).toUInt64 = 32 := by decide
  rw [levels, if_neg nonzero]
  simp only [highBit_twoPow bits, one_shiftLeft bits, countOnes_twoPow bits, shift, upper, masked,
    first, reject, if_pos hit]

/-- The mask keeps the highest bit of every bucket. -/
theorem twoPow_and_mask {level : ℕ} {n : UInt32} (inside : 2 ^ level < n.toNat) :
    UInt32.ofNat (2 ^ level) &&& 0xFFFFFFFF >>> (31 - highBit (n - 1)) =
      UInt32.ofNat (2 ^ level) := by
  have bound := n.toNat_lt
  have oneLe : (1 : UInt32) ≤ n := by
    rw [UInt32.le_iff_toNat_le]
    exact Nat.one_le_of_lt inside
  have lower : (n - 1).toNat = n.toNat - 1 := UInt32.toNat_sub_of_le _ _ oneLe
  have top : (n.toNat - 1).log2 < 32 :=
    (Nat.log2_lt (by have := Nat.two_pow_pos level; omega)).mpr (by omega)
  have levelLe : level ≤ (n.toNat - 1).log2 :=
    (Nat.le_log2 (by have := Nat.two_pow_pos level; omega)).mpr (by omega)
  have topNumber : (highBit (n - 1)).toNat = (n.toNat - 1).log2 := by
    have small : (n.toNat - 1).log2 < 2 ^ 32 := by omega
    rw [highBit, lower, UInt32.toNat_ofNat_of_lt' small]
  have topLe : highBit (n - 1) ≤ 31 := by
    rw [UInt32.le_iff_toNat_le, topNumber]
    exact Nat.le_of_lt_succ top
  have shift : (31 - highBit (n - 1)).toNat = 31 - (n.toNat - 1).log2 := by
    rw [UInt32.toNat_sub_of_le _ _ topLe, topNumber]
    rfl
  have mask : ((0xFFFFFFFF : UInt32) >>> (31 - highBit (n - 1))).toNat =
      2 ^ ((n.toNat - 1).log2 + 1) - 1 := by
    have ones : (0xFFFFFFFF : UInt32).toNat = 2 ^ 32 - 1 := rfl
    rw [UInt32.toNat_shiftRight, shift, Nat.mod_eq_of_lt (by omega), ones,
      Nat.shiftRight_eq_div_pow]
    generalize (n.toNat - 1).log2 = high at top
    interval_cases high <;> rfl
  apply UInt32.toNat_inj.mp
  rw [UInt32.toNat_and, mask, toNat_twoPow (levelLe.trans_lt top),
    Nat.and_two_pow_sub_one_eq_mod]
  exact Nat.mod_eq_of_lt (Nat.pow_lt_pow_right (by omega) (by omega))

/-- Every bucket is that of some key, and found at the first draw. -/
theorem exists_hash? (fuel : ℕ) {n : UInt32} {bucket : ℕ} (inside : bucket < n.toNat) :
    ∃ key, hash? (fuel + 1) key n = some (UInt32.ofNat bucket) := by
  by_cases single : n ≤ 1
  · have zero : bucket = 0 := by
      rw [UInt32.le_iff_toNat_le, UInt32.toNat_one] at single
      omega
    refine ⟨0, ?_⟩
    rw [hash?, if_pos single, zero]
    rfl
  rcases Nat.eq_zero_or_pos bucket with rfl | positive
  · -- the word zero has no level
    rcases exists_nextLong 0 with ⟨key, output⟩
    refine ⟨key, ?_⟩
    rw [hash?, if_neg single]
    rcases drawn : nextLong key with ⟨state, v⟩
    rw [drawn] at output
    subst output
    have empty : ((0 : UInt64) ^^^ (0 : UInt64) >>> 32).toUInt32 = 0 := by decide
    simp only [empty, UInt32.zero_and]
    rw [levels, if_pos rfl]
    rfl
  · -- the upper half of the word is what the bucket has below its highest bit
    have bound := inside.trans n.toNat_lt
    have lowest : 2 ^ bucket.log2 ≤ bucket := Nat.log2_self_le positive.ne'
    have highest : bucket < 2 ^ (bucket.log2 + 1) := Nat.lt_log2_self
    rcases Nat.exists_eq_add_of_le lowest with ⟨rest, split⟩
    have below : rest < 2 ^ bucket.log2 := by
      rw [pow_succ] at highest
      omega
    have bits : bucket.log2 < 32 := (Nat.log2_lt positive.ne').mpr bound
    have wordBound : rest * 2 ^ 32 + bucket < 2 ^ 64 := by omega
    rcases exists_nextLong (UInt64.ofNat (rest * 2 ^ 32 + bucket)) with ⟨key, output⟩
    refine ⟨key, ?_⟩
    rw [hash?, if_neg single]
    rcases drawn : nextLong key with ⟨state, v⟩
    rw [drawn] at output
    have word : v.toNat = rest * 2 ^ 32 + bucket := by
      rw [← UInt64.toNat_ofNat_of_lt' wordBound]
      exact congrArg UInt64.toNat output
    have upper : (v >>> 32).toUInt32 = UInt32.ofNat rest := by
      have shifted : (v >>> 32).toNat = v.toNat / 2 ^ 32 := by
        rw [UInt64.toNat_shiftRight, Nat.shiftRight_eq_div_pow]
        rfl
      apply UInt32.toNat_inj.mp
      rw [UInt64.toNat_toUInt32, shifted, word, UInt32.toNat_ofNat']
      omega
    have lower : v.toUInt32 = UInt32.ofNat bucket := by
      apply UInt32.toNat_inj.mp
      rw [UInt64.toNat_toUInt32, word, UInt32.toNat_ofNat']
      omega
    have mixed : (v ^^^ v >>> 32).toUInt32 = UInt32.ofNat (2 ^ bucket.log2) := by
      rw [UInt64.toUInt32_xor, upper, lower, ← UInt32.ofNat_xor]
      congr 1
      calc bucket ^^^ rest
        _ = (2 ^ bucket.log2 + rest) ^^^ rest := by rw [← split]
        _ = 2 ^ bucket.log2 := two_pow_add_xor below
    have found := levels_twoPow fuel 32 state bits below upper (split ▸ inside)
    rw [← split] at found
    simp only [mixed, twoPow_and_mask (lowest.trans_lt inside)]
    exact found

/-- The hash reaches every slot of a ring whose slots it can number. -/
theorem exists_hash {slots bucket : ℕ} (small : slots < 2 ^ 32) (inside : bucket < slots) :
    ∃ key < 2 ^ 64, hash key slots = bucket := by
  have number : (UInt32.ofNat slots).toNat = slots := UInt32.toNat_ofNat_of_lt' small
  have bucketNumber : (UInt32.ofNat bucket).toNat = bucket :=
    UInt32.toNat_ofNat_of_lt' (inside.trans small)
  rcases exists_hash? 63 (number.symm ▸ inside) with ⟨key, found⟩
  refine ⟨key.toNat, key.toNat_lt, ?_⟩
  rw [hash, UInt64.ofNat_toNat, found, Option.map_some, Option.getD_some, bucketNumber]

end JumpBackHasher

/-- Every 64-bit number is the key of a datum. -/
theorem exists_hashKey {key : ℕ} (small : key < 2 ^ 64) : ∃ datumId, hashKey datumId = key := by
  refine ⟨DatumId.fromBytes (List.replicate 8 0 ++ leBytes 8 key), ?_⟩
  rw [hashKey, DatumId.asBytes_fromBytes (by simp), List.drop_left' (by simp)]
  exact leNat_leBytes small

/-! ## Slots grouped by node -/

/-- The nodes of the slots of a ring rebuilt from the weights of one with these. -/
def regroup (nodes : List NodeId) : List NodeId :=
  nodes.eraseDups.flatMap fun node => List.replicate (nodes.count node) node

/-- A node that comes again comes next: the slots of each node stand next to each other. -/
def Contiguous : List NodeId → Prop
  | [] => True
  | node :: nodes => (node ∈ nodes → nodes.head? = some node) ∧ Contiguous nodes

instance decidableContiguous : (nodes : List NodeId) → Decidable (Contiguous nodes)
  | [] => inferInstanceAs (Decidable True)
  | _ :: nodes =>
      have := decidableContiguous nodes
      inferInstanceAs (Decidable (_ ∧ _))

example : Contiguous [5, 5, 5, 2, 9, 9] ∧ ¬Contiguous [3, 2, 2, 3] := by decide

theorem regroup_cons (node : NodeId) (nodes : List NodeId) :
    regroup (node :: nodes) = List.replicate (nodes.count node + 1) node ++
      regroup (nodes.filter fun other => !other == node) := by
  rw [regroup, List.eraseDups_cons, List.flatMap_cons, List.count_cons_self]
  congr 1
  apply List.flatMap_congr
  intro other otherMem
  rw [List.mem_eraseDups, List.mem_filter] at otherMem
  have differ : other ≠ node := by simpa using otherMem.2
  rw [List.count_cons_of_ne differ.symm, List.count_filter (by simpa using differ)]

theorem length_regroup (nodes : List NodeId) : (regroup nodes).length = nodes.length := by
  induction hlength : nodes.length using Nat.strongRecOn generalizing nodes with
  | ind length ih =>
      cases nodes with
      | nil => exact hlength
      | cons node nodes =>
          have others := List.length_filter_le (fun other => !other == node) nodes
          have split := List.length_eq_countP_add_countP (fun other => other == node) (l := nodes)
          rw [← List.count, List.countP_eq_length_filter] at split
          simp only [Bool.not_eq_true, Bool.decide_eq_false] at split
          rw [List.length_cons] at hlength
          rw [regroup_cons, List.length_append, List.length_replicate, ih _ (by omega) _ rfl]
          omega

theorem contiguous_replicate_append {node : NodeId} {nodes : List NodeId} (absent : node ∉ nodes)
    (rest : Contiguous nodes) (count : ℕ) : Contiguous (List.replicate count node ++ nodes) := by
  induction count with
  | zero => exact rest
  | succ count ih =>
      rw [List.replicate_succ, List.cons_append]
      refine ⟨?_, ih⟩
      intro again
      cases count with
      | zero => exact absurd again absent
      | succ count => rfl

theorem mem_of_mem_regroup {node : NodeId} {nodes : List NodeId} (inside : node ∈ regroup nodes) :
    node ∈ nodes := by
  rcases List.mem_flatMap.mp inside with ⟨other, otherMem, repeated⟩
  rw [List.eq_of_mem_replicate repeated]
  exact List.mem_eraseDups.mp otherMem

theorem contiguous_regroup (nodes : List NodeId) : Contiguous (regroup nodes) := by
  induction hlength : nodes.length using Nat.strongRecOn generalizing nodes with
  | ind length ih =>
      cases nodes with
      | nil => exact trivial
      | cons node nodes =>
          have others := List.length_filter_le (fun other => !other == node) nodes
          rw [List.length_cons] at hlength
          rw [regroup_cons]
          apply contiguous_replicate_append
          · intro again
            have kept := (List.mem_filter.mp (mem_of_mem_regroup again)).2
            simp at kept
          · exact ih _ (by omega) _ rfl

theorem regroup_eq_self_iff {nodes : List NodeId} : regroup nodes = nodes ↔ Contiguous nodes := by
  constructor
  · intro same
    rw [← same]
    exact contiguous_regroup nodes
  · intro contiguous
    induction nodes with
    | nil => rfl
    | cons node nodes ih =>
        have rest := ih contiguous.2
        rw [regroup_cons]
        by_cases again : node ∈ nodes
        · rcases List.head?_eq_some_iff.mp (contiguous.1 again) with ⟨later, rfl⟩
          rw [regroup_cons] at rest
          rw [List.count_cons_self, List.filter_cons_of_neg (by simp), List.replicate_succ,
            List.cons_append, rest]
        · have others : (nodes.filter fun other => !other == node) = nodes := by
            rw [List.filter_eq_self]
            intro other otherMem
            simpa using fun same : other = node => again (same ▸ otherMem)
          rw [others, rest, List.count_eq_zero_of_not_mem again]
          rfl

/-! ## The ring of a ring's weights -/

namespace Ring

variable (hash : ℕ → ℕ → ℕ)

/-- What is rebuilt from the weights places every datum on the nodes the ring places it on. -/
def Rebuilt (ring : Ring) : Prop :=
  ∀ datumId,
    ((fromMembers ring.weights).native hash datumId).1 = (ring.native hash datumId).1 ∧
      ∀ n, (fromMembers ring.weights).replicas hash datumId n = ring.replicas hash datumId n

theorem map_fst_rebuilt (ring : Ring) :
    (fromMembers ring.weights).slots.map Prod.fst = regroup (ring.slots.map Prod.fst) := by
  rw [map_fst_slots_fromMembers, weights, List.flatMap_map]
  rfl

variable {hash} {ring other : Ring}

/-- A key is placed by the nodes of the slots alone. -/
theorem nodeAt_eq (ring : Ring) (key : ℕ) :
    ring.nodeAt hash key =
      (ring.slots.map Prod.fst).getD (hash key (ring.slots.map Prod.fst).length) 0 := by
  rw [nodeAt, List.length_map, List.getD_eq_getElem?_getD, List.getD_eq_getElem?_getD,
    List.getElem?_map]
  cases ring.slots[hash key ring.slots.length]? with
  | none => rfl
  | some slot => rfl

theorem replicas_congr (same : ring.slots.map Prod.fst = other.slots.map Prod.fst)
    (datumId : DatumId) (n : ℕ) :
    ring.replicas hash datumId n = other.replicas hash datumId n := by
  have nodes : ring.nodeIds = other.nodeIds := congrArg List.eraseDups same
  have length : ring.slots.length = other.slots.length := by
    simpa using congrArg List.length same
  have empty : ring.slots = [] ↔ other.slots = [] := by
    rw [← List.length_eq_zero_iff, length, List.length_eq_zero_iff]
  have picks : ∀ key, ring.nodeAt hash key = other.nodeAt hash key := by
    intro key
    rw [nodeAt_eq, nodeAt_eq, same]
  simp only [replicas, nodes, length, empty, picks]

theorem rebuilt_of_contiguous (hash : ℕ → ℕ → ℕ)
    (contiguous : Contiguous (ring.slots.map Prod.fst)) : ring.Rebuilt hash := by
  have same : (fromMembers ring.weights).slots.map Prod.fst = ring.slots.map Prod.fst := by
    rw [map_fst_rebuilt, regroup_eq_self_iff.mpr contiguous]
  intro datumId
  constructor
  · rw [← nodeAt_hashKey, ← nodeAt_hashKey, nodeAt_eq, nodeAt_eq, same]
  · exact replicas_congr same datumId

/-- Where the hash reaches every slot, each slot of the rebuilt ring has the ring's node. -/
theorem contiguous_of_rebuilt
    (onto : ∀ slot < ring.slots.length, ∃ key < 2 ^ 64, hash key ring.slots.length = slot)
    (rebuilt : ring.Rebuilt hash) : Contiguous (ring.slots.map Prod.fst) := by
  have length : (fromMembers ring.weights).slots.length = ring.slots.length := by
    have regrouped := congrArg List.length ring.map_fst_rebuilt
    simpa [length_regroup] using regrouped
  rw [← regroup_eq_self_iff, ← map_fst_rebuilt]
  apply List.ext_getElem?
  intro slot
  by_cases inside : slot < ring.slots.length
  · rcases onto slot inside with ⟨key, small, reached⟩
    rcases exists_hashKey small with ⟨datumId, rfl⟩
    have placed := (rebuilt datumId).1
    rw [← nodeAt_hashKey, ← nodeAt_hashKey, nodeAt_eq, nodeAt_eq, List.length_map,
      List.length_map, length, reached, List.getD_eq_getElem?_getD,
      List.getD_eq_getElem?_getD] at placed
    rw [List.getElem?_eq_getElem (by simpa [length] using inside),
      List.getElem?_eq_getElem (by simpa using inside)] at placed ⊢
    exact congrArg some placed
  · rw [List.getElem?_eq_none (by simpa [length] using inside),
      List.getElem?_eq_none (by simpa using inside)]

/-! ## Histories -/

/-- What makes or changes a ring. -/
inductive Change where
  | fromMembers (members : List (NodeId × ℕ))
  | join (nodeId : NodeId) (threadCount : ℕ)
  | leave (nodeId : NodeId)

def change (ring : Ring) : Change → Ring
  | .fromMembers members => fromMembers members
  | .join nodeId threadCount => ring.applyJoin nodeId threadCount
  | .leave nodeId => ring.applyLeave nodeId

/-- The ring that a sequence of changes makes of the empty one. -/
def reached (changes : List Change) : Ring := changes.foldl change empty

theorem reached_snoc (changes : List Change) (last : Change) :
    reached (changes ++ [last]) = (reached changes).change last := by
  rw [reached, List.foldl_append]
  rfl

/-- Changes that leave the slots of each node together: distinct members, a node that had no slots
joins, a node whose slots are the last leaves. -/
def KeepsTogether (ring : Ring) : Change → Prop
  | .fromMembers members => (members.map Prod.fst).Nodup
  | .join nodeId _ => nodeId ∉ ring.slots.map Prod.fst
  | .leave nodeId => ∃ front count, nodeId ∉ front ∧
      ring.slots.map Prod.fst = front ++ List.replicate count nodeId

theorem contiguous_fromMembers {members : List (NodeId × ℕ)}
    (distinct : (members.map Prod.fst).Nodup) :
    Contiguous ((fromMembers members).slots.map Prod.fst) := by
  rw [map_fst_slots_fromMembers]
  induction members with
  | nil => exact trivial
  | cons member members ih =>
      rw [List.map_cons, List.nodup_cons] at distinct
      rw [List.flatMap_cons]
      apply contiguous_replicate_append _ (ih distinct.2)
      intro again
      rcases List.mem_flatMap.mp again with ⟨other, otherMem, repeated⟩
      rw [List.eq_of_mem_replicate repeated] at distinct
      exact distinct.1 (List.mem_map_of_mem otherMem)

theorem map_fst_applyLeave_last {nodeId : NodeId} {front : List NodeId} {count : ℕ}
    (absent : nodeId ∉ front)
    (last : ring.slots.map Prod.fst = front ++ List.replicate count nodeId) :
    (ring.applyLeave nodeId).slots.map Prod.fst = front := by
  have survivors : (ring.slots.filter fun slot => slot.1 ≠ nodeId).map Prod.fst = front := by
    have filtered : ((ring.slots.map Prod.fst).filter fun node => node ≠ nodeId) = front := by
      rw [last, List.filter_append, List.filter_replicate]
      simp only [ne_eq, not_true_eq_false, decide_false, Bool.false_eq_true, if_false,
        List.append_nil, List.filter_eq_self, decide_eq_true_eq]
      rintro other otherMem rfl
      exact absent otherMem
    rw [List.filter_map] at filtered
    exact filtered
  have length : (ring.applyLeave nodeId).slots.length = front.length := by
    rw [(ring.perm_applyLeave nodeId).length_eq, ← survivors, List.length_map]
  apply List.ext_getElem (by rw [List.length_map, length])
  intro index inside insideFront
  have insideRing : index < ring.slots.length := by
    have total := congrArg List.length last
    simp only [List.length_map, List.length_append, List.length_replicate] at total
    omega
  have node : (ring.slots[index]).1 = front[index] := by
    have found := congrArg (fun nodes => nodes[index]?) last
    simp only [List.getElem?_append_left insideFront] at found
    simpa [insideRing, insideFront] using found
  have stays : (ring.slots[index]).1 ≠ nodeId := by
    rw [node]
    rintro rfl
    exact absent (List.getElem_mem insideFront)
  have kept := getElem?_applyLeave (length ▸ insideFront) (List.getElem?_eq_getElem insideRing)
    stays
  rw [List.getElem_map, ← node]
  rw [List.getElem?_eq_getElem (length ▸ insideFront), Option.some.injEq] at kept
  rw [kept]

theorem contiguous_of_append {front back : List NodeId} (contiguous : Contiguous (front ++ back)) :
    Contiguous front := by
  induction front with
  | nil => exact trivial
  | cons node front ih =>
      refine ⟨?_, ih contiguous.2⟩
      intro again
      have next : (front ++ back).head? = some node :=
        contiguous.1 (List.mem_append_left back again)
      rwa [List.head?_append_of_ne_nil _ (List.ne_nil_of_mem again)] at next

theorem contiguous_append_replicate {nodes : List NodeId} (contiguous : Contiguous nodes)
    {node : NodeId} (absent : node ∉ nodes) (count : ℕ) :
    Contiguous (nodes ++ List.replicate count node) := by
  induction nodes with
  | nil => simpa using contiguous_replicate_append List.not_mem_nil contiguous count
  | cons first nodes ih =>
      rw [List.mem_cons, not_or] at absent
      refine ⟨?_, ih contiguous.2 absent.2⟩
      intro again
      rcases List.mem_append.mp again with before | joined
      · have first_again : nodes.head? = some first := contiguous.1 before
        rw [← List.head?_append_of_ne_nil _ (List.ne_nil_of_mem before)] at first_again
        exact first_again
      · exact absurd (List.eq_of_mem_replicate joined).symm absent.1

theorem contiguous_change (contiguous : Contiguous (ring.slots.map Prod.fst)) {change_ : Change}
    (keeps : ring.KeepsTogether change_) :
    Contiguous ((ring.change change_).slots.map Prod.fst) := by
  cases change_ with
  | fromMembers members => exact contiguous_fromMembers keeps
  | join nodeId threadCount =>
      have joined : (ring.applyJoin nodeId threadCount).slots.map Prod.fst =
          ring.slots.map Prod.fst ++ List.replicate threadCount nodeId := by
        simp [applyJoin, Function.comp_def]
      rw [change, joined]
      exact contiguous_append_replicate contiguous keeps threadCount
  | leave nodeId =>
      rcases keeps with ⟨front, count, absent, last⟩
      rw [change, map_fst_applyLeave_last absent last]
      rw [last] at contiguous
      exact contiguous_of_append contiguous

/-- Slots that no change has parted stand together. -/
theorem contiguous_reached {changes : List Change}
    (keeps : ∀ before change_ after, changes = before ++ change_ :: after →
      (reached before).KeepsTogether change_) :
    Contiguous ((reached changes).slots.map Prod.fst) := by
  induction changes using List.reverseRecOn with
  | nil => exact trivial
  | append_singleton changes last ih =>
      rw [reached_snoc]
      apply contiguous_change _ (keeps changes last [] rfl)
      apply ih
      intro before change_ after split
      apply keeps before change_ (after ++ [last])
      rw [split, List.append_assoc, List.cons_append]

/-- A ring that is reached is rebuilt from its weights, whatever the hash, if the slots of each node
stand together, which they do as long as no change parts them.  It is rebuilt only then, as long as
its slots can be numbered. -/
theorem rebuilt_iff_contiguous (changes : List Change) :
    (Contiguous ((reached changes).slots.map Prod.fst) →
      ∀ hash, (reached changes).Rebuilt hash) ∧
    ((∀ before change_ after, changes = before ++ change_ :: after →
      (reached before).KeepsTogether change_) → ∀ hash, (reached changes).Rebuilt hash) ∧
    ((reached changes).slots.length < 2 ^ 32 →
      ((reached changes).Rebuilt JumpBackHasher.hash ↔
        Contiguous ((reached changes).slots.map Prod.fst))) := by
  refine ⟨?_, ?_, ?_⟩
  · exact fun contiguous hash => rebuilt_of_contiguous hash contiguous
  · exact fun keeps hash => rebuilt_of_contiguous hash (contiguous_reached keeps)
  · intro small
    constructor
    · exact contiguous_of_rebuilt fun slot inside => JumpBackHasher.exists_hash small inside
    · exact rebuilt_of_contiguous JumpBackHasher.hash

/-- Nodes that join one after another are told from their weights. -/
theorem rebuilt_iff_contiguous_joined :
    let ring := reached [.fromMembers [(5, 3)], .join 2 1, .join 9 2]
    (∀ hash, ring.Rebuilt hash) ∧
      (ring.Rebuilt JumpBackHasher.hash ↔ Contiguous (ring.slots.map Prod.fst)) :=
  ⟨(rebuilt_iff_contiguous [.fromMembers [(5, 3)], .join 2 1, .join 9 2]).1 (by decide),
    (rebuilt_iff_contiguous [.fromMembers [(5, 3)], .join 2 1, .join 9 2]).2.2 (by decide)⟩

/-- The leaving node's slot is filled with one of node 3 from the end, which parts node 3's slots: the
first datum is native to node 3, and to node 2 once the ring is rebuilt. -/
theorem swapped_not_rebuilt :
    let ring := reached [.fromMembers [(1, 1), (2, 2), (3, 2)], .leave 1]
    (ring.native JumpBackHasher.hash 0).1 = 3 ∧
      ((fromMembers ring.weights).native JumpBackHasher.hash 0).1 = 2 ∧
      ¬ring.Rebuilt JumpBackHasher.hash := by
  intro ring
  have placed : (ring.native JumpBackHasher.hash 0).1 = 3 := by decide +kernel
  have moved : ((fromMembers ring.weights).native JumpBackHasher.hash 0).1 = 2 := by
    decide +kernel
  refine ⟨placed, moved, ?_⟩
  intro rebuilt
  have same := (rebuilt 0).1
  rw [placed, moved] at same
  exact absurd same (by decide)

end Ring

end Seisin
