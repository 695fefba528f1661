import Seisin.Core

/-!
# Rings

A ring is a list of slots; a datum's hash picks the slot of its native home, and salted hashes pick
further distinct nodes as its replicas.  The hash is a parameter, a function of a 64-bit key and the
number of slots; `JumpBackHasher` is the one the source passes, with a bound on its rejection loop.
-/

namespace Seisin

/-! ## The hash -/

namespace JumpBackHasher

/-- The next state and output of the generator. -/
def nextLong (state : UInt64) : UInt64 × UInt64 :=
  let state := state + 0x9E3779B97F4A7C15
  let z := (state ^^^ (state >>> 30)) * 0xBF58476D1CE4E5B9
  let z := (z ^^^ (z >>> 27)) * 0x94D049BB133111EB
  (state, z ^^^ (z >>> 31))

/-- The index of the highest set bit. -/
def highBit (value : UInt32) : UInt32 := UInt32.ofNat value.toNat.log2

def countOnes (value : UInt32) : UInt32 :=
  UInt32.ofNat ((List.range 32).countP fun bit => value.toNat.testBit bit)

inductive Rejection where
  | found (bucket : UInt32)
  | exhausted (state : UInt64)
  | outOfFuel

/-- The rejection loop at level `q`: draws until a bucket below `n` comes up, or one below `q`. -/
def reject (n q mask2 : UInt32) : ℕ → UInt64 → UInt32 → Rejection
  | 0, _, _ => .outOfFuel
  | fuel + 1, state, b =>
      if b < n then .found b
      else
        let (state, w) := nextLong state
        let first := w.toUInt32 &&& mask2
        if first < q then .exhausted state
        else if first < n then .found first
        else
          let second := (w >>> 32).toUInt32 &&& mask2
          if second < q then .exhausted state
          else if second < n then .found second
          else reject n q mask2 fuel state second

/-- The levels, from the highest set bit of `uWork` down. -/
def levels (fuel : ℕ) (v : UInt64) (n : UInt32) : ℕ → UInt64 → UInt32 → Option UInt32
  | 0, _, _ => none
  | level + 1, state, uWork =>
      if uWork = 0 then some 0
      else
        let q : UInt32 := 1 <<< highBit uWork
        let shift := (countOnes uWork <<< 5) &&& 63
        let b0 := (v >>> shift.toUInt64).toUInt32 &&& (q - 1)
        let mask2 : UInt32 := if q = 0x80000000 then 0xFFFFFFFF else (q <<< 1) - 1
        match reject n q mask2 fuel state (q + b0) with
        | .found bucket => some bucket
        | .outOfFuel => none
        | .exhausted state => levels fuel v n level state (uWork ^^^ q)

/-- The bucket of key `k` among `n`, unless some level rejects `fuel` draws in a row. -/
def hash? (fuel : ℕ) (k : UInt64) (n : UInt32) : Option UInt32 :=
  if n ≤ 1 then some 0
  else
    let (state, v) := nextLong k
    let mask : UInt32 := 0xFFFFFFFF >>> (31 - highBit (n - 1))
    levels fuel v n 33 state ((v ^^^ (v >>> 32)).toUInt32 &&& mask)

/-- The hash as a function of numbers, for what is evaluated.  A key of which some level rejects 64
draws in a row gets bucket 0, where the source draws on: `bucketOf` makes every draw that the source
makes, and is the same as this for every other key. -/
def hash (k n : ℕ) : ℕ :=
  ((hash? 64 (UInt64.ofNat k) (UInt32.ofNat n)).map UInt32.toNat).getD 0

example : [hash 0 0, hash 0 1, hash 1 1, hash 0 2, hash 1 2] = [0, 0, 0, 0, 1] := by
  decide +kernel

theorem reject_lt {n q mask2 b bucket : UInt32} {fuel : ℕ} {state : UInt64}
    (found : reject n q mask2 fuel state b = .found bucket) : bucket < n := by
  induction fuel generalizing state b with
  | zero => cases found
  | succ fuel ih =>
      unfold reject at found
      split at found
      · cases found
        assumption
      · dsimp only at found
        split at found
        · cases found
        · split at found
          · cases found
            assumption
          · split at found
            · cases found
            · split at found
              · cases found
                assumption
              · exact ih found

theorem levels_lt {fuel level : ℕ} {v state : UInt64} {n uWork bucket : UInt32}
    (found : levels fuel v n level state uWork = some bucket) : bucket < n ∨ bucket = 0 := by
  induction level generalizing state uWork with
  | zero => cases found
  | succ level ih =>
      unfold levels at found
      split at found
      · cases found
        exact Or.inr rfl
      · dsimp only at found
        split at found
        · rename_i rejected
          cases found
          exact Or.inl (reject_lt rejected)
        · cases found
        · exact ih found

/-- The hash picks one of the slots. -/
theorem hash_lt (k : ℕ) {n : ℕ} (nonempty : 0 < n) : hash k n < n := by
  unfold hash
  cases found : hash? 64 (UInt64.ofNat k) (UInt32.ofNat n) with
  | none => exact nonempty
  | some bucket =>
      have range : bucket < UInt32.ofNat n ∨ bucket = 0 := by
        unfold hash? at found
        split at found
        · cases found
          exact Or.inr rfl
        · exact levels_lt found
      rcases range with below | rfl
      · have wrapped : (UInt32.ofNat n).toNat ≤ n := by
          rw [UInt32.toNat_ofNat']
          exact Nat.mod_le _ _
        exact lt_of_lt_of_le (UInt32.lt_iff_toNat_lt.mp below) wrapped
      · exact nonempty

end JumpBackHasher

/-! ## Rings and replica sets -/

structure Ring where
  slots : List (NodeId × ThreadId)
  deriving DecidableEq

/-- Takes a node that is not chosen yet. -/
def choose (chosen : List NodeId) (node : NodeId) : List NodeId :=
  if node ∈ chosen then chosen else chosen ++ [node]

/-- Chooses the node of one salt after another, until `target` nodes are chosen or the attempts run
out. -/
def chooseSalted (pick : ℕ → NodeId) (target : ℕ) : ℕ → ℕ → List NodeId → List NodeId
  | 0, _, chosen => chosen
  | attempts + 1, salt, chosen =>
      if chosen.length < target then
        chooseSalted pick target attempts (salt + 1) (choose chosen (pick salt))
      else chosen

/-- Chooses from the given nodes in order, until `target` nodes are chosen. -/
def chooseSweep (target : ℕ) : List NodeId → List NodeId → List NodeId
  | [], chosen => chosen
  | node :: nodes, chosen =>
      if chosen.length = target then chosen else chooseSweep target nodes (choose chosen node)

/-- The 64-bit key of a datum, from its trailing eight bytes. -/
def hashKey (datumId : DatumId) : ℕ := ByteString.leNat (datumId.asBytes.drop 8)

namespace Ring

def empty : Ring := ⟨[]⟩

def applyJoin (ring : Ring) (nodeId : NodeId) (threadCount : ℕ) : Ring :=
  ⟨ring.slots ++ (List.range threadCount).map fun thread => (nodeId, thread)⟩

def fromMembers (members : List (NodeId × ℕ)) : Ring :=
  members.foldl (fun ring member => ring.applyJoin member.1 member.2) empty

/-- The distinct nodes in the order they first appear. -/
def nodeIds (ring : Ring) : List NodeId := (ring.slots.map Prod.fst).eraseDups

def weights (ring : Ring) : List (NodeId × ℕ) :=
  ring.nodeIds.map fun node => (node, (ring.slots.map Prod.fst).count node)

variable (hash : ℕ → ℕ → ℕ)

/-- The node of the slot a key hashes to. -/
def nodeAt (ring : Ring) (key : ℕ) : NodeId :=
  (ring.slots.getD (hash key ring.slots.length) (0, 0)).1

/-- The ordered replica set of a datum, rank 0 being its native node. -/
def replicas (ring : Ring) (datumId : DatumId) (n : ℕ) : List NodeId :=
  if ring.slots = [] ∨ n = 0 then []
  else
    let target := min n ring.nodeIds.length
    let base := hashKey datumId
    let salted := chooseSalted
      (fun salt => ring.nodeAt hash ((base + salt * 0x9E3779B97F4A7C15) % 2 ^ 64)) target
      (ring.slots.length * 3 + 32) 1 [ring.nodeAt hash base]
    if salted.length < target then chooseSweep target ring.nodeIds salted else salted

end Ring

/-! ## Replica sets have no duplicates -/

theorem choose_nodup {chosen : List NodeId} (nodup : chosen.Nodup) (node : NodeId) :
    (choose chosen node).Nodup := by
  unfold choose
  split
  · exact nodup
  · rename_i fresh
    exact List.nodup_append.mpr ⟨nodup, List.nodup_singleton node,
      fun first firstMem second secondMem same => by
        rw [List.mem_singleton.mp secondMem] at same
        exact fresh (same ▸ firstMem)⟩

theorem chooseSalted_nodup (pick : ℕ → NodeId) (target attempts salt : ℕ)
    {chosen : List NodeId} (nodup : chosen.Nodup) :
    (chooseSalted pick target attempts salt chosen).Nodup := by
  induction attempts generalizing salt chosen with
  | zero => exact nodup
  | succ attempts ih =>
      unfold chooseSalted
      split
      · exact ih _ (choose_nodup nodup _)
      · exact nodup

theorem chooseSweep_nodup (target : ℕ) (nodes : List NodeId) {chosen : List NodeId}
    (nodup : chosen.Nodup) : (chooseSweep target nodes chosen).Nodup := by
  induction nodes generalizing chosen with
  | nil => exact nodup
  | cons node nodes ih =>
      unfold chooseSweep
      split
      · exact nodup
      · exact ih (choose_nodup nodup node)

theorem Ring.replicas_nodup (hash : ℕ → ℕ → ℕ) (ring : Ring) (datumId : DatumId) (n : ℕ) :
    (ring.replicas hash datumId n).Nodup := by
  unfold Ring.replicas
  split
  · exact List.nodup_nil
  · have salted := chooseSalted_nodup
      (fun salt => ring.nodeAt hash ((hashKey datumId + salt * 0x9E3779B97F4A7C15) % 2 ^ 64))
      (min n ring.nodeIds.length) (ring.slots.length * 3 + 32) 1
      (List.nodup_singleton (ring.nodeAt hash (hashKey datumId)))
    dsimp only
    split
    · exact chooseSweep_nodup _ _ salted
    · exact salted

/-! ## Replicas are members of the ring -/

theorem mem_choose {chosen : List NodeId} {node other : NodeId}
    (mem : other ∈ choose chosen node) : other ∈ chosen ∨ other = node := by
  unfold choose at mem
  split at mem
  · exact Or.inl mem
  · rcases List.mem_append.mp mem with before | last
    · exact Or.inl before
    · exact Or.inr (List.mem_singleton.mp last)

theorem mem_chooseSalted {pick : ℕ → NodeId} {target attempts salt : ℕ} {chosen : List NodeId}
    {node : NodeId} (mem : node ∈ chooseSalted pick target attempts salt chosen) :
    node ∈ chosen ∨ ∃ salt, node = pick salt := by
  induction attempts generalizing salt chosen with
  | zero => exact Or.inl mem
  | succ attempts ih =>
      unfold chooseSalted at mem
      split at mem
      · rcases ih mem with now | later
        · rcases mem_choose now with before | picked
          · exact Or.inl before
          · exact Or.inr ⟨salt, picked⟩
        · exact Or.inr later
      · exact Or.inl mem

theorem mem_chooseSweep {target : ℕ} {nodes chosen : List NodeId} {node : NodeId}
    (mem : node ∈ chooseSweep target nodes chosen) : node ∈ chosen ∨ node ∈ nodes := by
  induction nodes generalizing chosen with
  | nil => exact Or.inl mem
  | cons first nodes ih =>
      unfold chooseSweep at mem
      split at mem
      · exact Or.inl mem
      · rcases ih mem with now | later
        · rcases mem_choose now with before | same
          · exact Or.inl before
          · exact Or.inr (List.mem_cons.mpr (Or.inl same))
        · exact Or.inr (List.mem_cons_of_mem first later)

/-- A hash that picks one of the slots makes members of the ring replicas. -/
theorem Ring.mem_nodeIds_of_mem_replicas {hash : ℕ → ℕ → ℕ}
    (inRange : ∀ key slots, 0 < slots → hash key slots < slots) {ring : Ring} {datumId : DatumId}
    {n : ℕ} {node : NodeId} (replica : node ∈ ring.replicas hash datumId n) :
    node ∈ ring.nodeIds := by
  unfold Ring.replicas at replica
  split at replica
  · cases replica
  · rename_i present
    rw [not_or] at present
    have nodeAt : ∀ key, ring.nodeAt hash key ∈ ring.nodeIds := by
      intro key
      have inside := inRange key ring.slots.length (List.length_pos_iff.mpr present.1)
      unfold Ring.nodeAt Ring.nodeIds
      rw [List.mem_eraseDups, List.getD_eq_getElem?_getD, List.getElem?_eq_getElem inside]
      exact List.mem_map_of_mem (List.getElem_mem inside)
    have salted : ∀ other ∈ chooseSalted
        (fun salt => ring.nodeAt hash ((hashKey datumId + salt * 0x9E3779B97F4A7C15) % 2 ^ 64))
        (min n ring.nodeIds.length) (ring.slots.length * 3 + 32) 1
        [ring.nodeAt hash (hashKey datumId)], other ∈ ring.nodeIds := by
      intro other otherMem
      rcases mem_chooseSalted otherMem with first | ⟨salt, rfl⟩
      · rw [List.mem_singleton.mp first]
        exact nodeAt _
      · exact nodeAt _
    dsimp only at replica
    split at replica
    · rcases mem_chooseSweep replica with before | swept
      · exact salted node before
      · exact swept
    · exact salted node replica

/-! ## A larger replication factor extends the replica set -/

theorem prefix_choose (chosen : List NodeId) (node : NodeId) : chosen <+: choose chosen node := by
  unfold choose
  split
  · exact List.prefix_rfl
  · exact List.prefix_append chosen [node]

theorem length_choose_le (chosen : List NodeId) (node : NodeId) :
    (choose chosen node).length ≤ chosen.length + 1 := by
  unfold choose
  split
  · exact Nat.le_succ _
  · rw [List.length_append, List.length_singleton]

theorem prefix_chooseSalted (pick : ℕ → NodeId) (target attempts salt : ℕ)
    (chosen : List NodeId) : chosen <+: chooseSalted pick target attempts salt chosen := by
  induction attempts generalizing salt chosen with
  | zero => exact List.prefix_rfl
  | succ attempts ih =>
      unfold chooseSalted
      split
      · exact (prefix_choose chosen _).trans (ih _ _)
      · exact List.prefix_rfl

theorem prefix_chooseSweep (target : ℕ) (nodes chosen : List NodeId) :
    chosen <+: chooseSweep target nodes chosen := by
  induction nodes generalizing chosen with
  | nil => exact List.prefix_rfl
  | cons node nodes ih =>
      unfold chooseSweep
      split
      · exact List.prefix_rfl
      · exact (prefix_choose chosen node).trans (ih _)

/-- A smaller target cuts the choice short. -/
theorem chooseSalted_take (pick : ℕ → NodeId) {smaller target : ℕ} (le : smaller ≤ target)
    (attempts salt : ℕ) {chosen : List NodeId} (fits : chosen.length ≤ smaller) :
    chooseSalted pick smaller attempts salt chosen =
      (chooseSalted pick target attempts salt chosen).take smaller := by
  induction attempts generalizing salt chosen with
  | zero => exact (List.take_of_length_le fits).symm
  | succ attempts ih =>
      by_cases short : chosen.length < smaller
      · have longer : chosen.length < target := lt_of_lt_of_le short le
        rw [chooseSalted, chooseSalted, if_pos short, if_pos longer]
        exact ih _ (le_trans (length_choose_le chosen _) short)
      · have full : chosen.length = smaller := le_antisymm fits (not_lt.mp short)
        rw [chooseSalted, if_neg short, ← full]
        exact List.prefix_iff_eq_take.mp (prefix_chooseSalted pick target _ salt chosen)

theorem chooseSweep_take {smaller target : ℕ} (le : smaller ≤ target) (nodes : List NodeId)
    {chosen : List NodeId} (fits : chosen.length ≤ smaller) :
    chooseSweep smaller nodes chosen = (chooseSweep target nodes chosen).take smaller := by
  induction nodes generalizing chosen with
  | nil => exact (List.take_of_length_le fits).symm
  | cons node nodes ih =>
      by_cases full : chosen.length = smaller
      · rw [chooseSweep, if_pos full, ← full]
        exact List.prefix_iff_eq_take.mp (prefix_chooseSweep target _ chosen)
      · have short : chosen.length < smaller := lt_of_le_of_ne fits full
        rw [chooseSweep, chooseSweep, if_neg full, if_neg (lt_of_lt_of_le short le).ne]
        exact ih (le_trans (length_choose_le chosen node) short)

theorem Ring.nodeIds_ne_nil {ring : Ring} (nonempty : ring.slots ≠ []) : ring.nodeIds ≠ [] := by
  rcases List.exists_mem_of_ne_nil _ nonempty with ⟨slot, slotMem⟩
  exact List.ne_nil_of_mem (List.mem_eraseDups.mpr (List.mem_map_of_mem slotMem))

/-- The replicas at a factor are the first replicas at every larger one. -/
theorem Ring.replicas_prefix (hash : ℕ → ℕ → ℕ) (ring : Ring) (datumId : DatumId) {m n : ℕ}
    (le : m ≤ n) : ring.replicas hash datumId m <+: ring.replicas hash datumId n := by
  by_cases absent : ring.slots = [] ∨ m = 0
  · rw [Ring.replicas, if_pos absent]
    exact List.nil_prefix
  rw [not_or] at absent
  have present : ¬(ring.slots = [] ∨ n = 0) := by
    rw [not_or]
    exact ⟨absent.1, by omega⟩
  have members := List.length_pos_iff.mpr (Ring.nodeIds_ne_nil absent.1)
  have targets : min m ring.nodeIds.length ≤ min n ring.nodeIds.length :=
    min_le_min_right _ le
  have cut := chooseSalted_take
    (fun salt => ring.nodeAt hash ((hashKey datumId + salt * 0x9E3779B97F4A7C15) % 2 ^ 64))
    targets (ring.slots.length * 3 + 32) 1
    (show [ring.nodeAt hash (hashKey datumId)].length ≤ min m ring.nodeIds.length by
      rw [List.length_singleton]
      omega)
  rw [Ring.replicas, Ring.replicas, if_neg (not_or.mpr absent), if_neg present]
  dsimp only
  rw [cut]
  split
  · -- The salts ran out below the smaller target, so both choices sweep from the same nodes.
    rename_i short
    rw [List.length_take] at short
    rw [List.take_of_length_le (by omega), if_pos (by omega), chooseSweep_take targets _ (by omega)]
    exact List.take_prefix _ _
  · refine (List.take_prefix _ _).trans ?_
    split
    · exact prefix_chooseSweep _ _ _
    · exact List.prefix_rfl

/-! ## The primary does not depend on the replication factor -/

/-- The first replica is the native node. -/
theorem Ring.head?_replicas {hash : ℕ → ℕ → ℕ} {ring : Ring} {datumId : DatumId} {n : ℕ}
    (present : ring.replicas hash datumId n ≠ []) :
    (ring.replicas hash datumId n).head? = some (ring.nodeAt hash (hashKey datumId)) := by
  unfold Ring.replicas at present ⊢
  split at present
  · exact absurd rfl present
  · rename_i absent
    rw [if_neg absent]
    have first := prefix_chooseSalted
      (fun salt => ring.nodeAt hash ((hashKey datumId + salt * 0x9E3779B97F4A7C15) % 2 ^ 64))
      (min n ring.nodeIds.length) (ring.slots.length * 3 + 32) 1
      [ring.nodeAt hash (hashKey datumId)]
    rw [← List.singleton_prefix_iff_head?_eq_some]
    dsimp only
    split
    · exact first.trans (prefix_chooseSweep _ _ _)
    · exact first

theorem Ring.nodeAt_mem_replicas {hash : ℕ → ℕ → ℕ} {ring : Ring} {datumId : DatumId} {n : ℕ}
    (present : ring.replicas hash datumId n ≠ []) :
    ring.nodeAt hash (hashKey datumId) ∈ ring.replicas hash datumId n :=
  List.mem_of_head? (Ring.head?_replicas present)

theorem Ring.mem_slots_foldl_applyJoin {members : List (NodeId × ℕ)} {ring : Ring}
    {node : NodeId} :
    node ∈ (members.foldl (fun ring member => ring.applyJoin member.1 member.2) ring).slots.map
        Prod.fst ↔
      node ∈ ring.slots.map Prod.fst ∨ ∃ weight, 0 < weight ∧ (node, weight) ∈ members := by
  induction members generalizing ring with
  | nil => simp
  | cons member members ih =>
      rcases member with ⟨first, weight⟩
      have joined : node ∈ (ring.applyJoin first weight).slots.map Prod.fst ↔
          node ∈ ring.slots.map Prod.fst ∨ (0 < weight ∧ node = first) := by
        simp only [Ring.applyJoin, List.map_append, List.mem_append, List.map_map, List.mem_map,
          List.mem_range, Function.comp]
        constructor
        · rintro (before | ⟨thread, inside, same⟩)
          · exact Or.inl before
          · exact Or.inr ⟨Nat.zero_lt_of_lt inside, same.symm⟩
        · rintro (before | ⟨positive, same⟩)
          · exact Or.inl before
          · exact Or.inr ⟨0, positive, same.symm⟩
      rw [List.foldl_cons, ih, joined]
      constructor
      · rintro ((before | ⟨positive, rfl⟩) | ⟨weight', positive, later⟩)
        · exact Or.inl before
        · exact Or.inr ⟨weight, positive, List.mem_cons_self⟩
        · exact Or.inr ⟨weight', positive, List.mem_cons_of_mem _ later⟩
      · rintro (before | ⟨weight', positive, inside⟩)
        · exact Or.inl (Or.inl before)
        · rcases List.mem_cons.mp inside with same | later
          · cases same
            exact Or.inl (Or.inr ⟨positive, rfl⟩)
          · exact Or.inr ⟨weight', positive, later⟩

/-- The nodes of a ring of members are those with a positive weight. -/
theorem Ring.mem_nodeIds_fromMembers {members : List (NodeId × ℕ)} {node : NodeId} :
    node ∈ (Ring.fromMembers members).nodeIds ↔
      ∃ weight, 0 < weight ∧ (node, weight) ∈ members := by
  rw [Ring.nodeIds, List.mem_eraseDups, Ring.fromMembers, Ring.mem_slots_foldl_applyJoin]
  simp [Ring.empty]

theorem Ring.mem_of_mem_nodeIds_fromMembers {members : List (NodeId × ℕ)} {node : NodeId}
    (present : node ∈ (Ring.fromMembers members).nodeIds) : node ∈ members.map Prod.fst := by
  rcases Ring.mem_nodeIds_fromMembers.mp present with ⟨weight, _, inside⟩
  exact List.mem_map_of_mem inside

theorem chooseSalted_of_le (pick : ℕ → NodeId) {target : ℕ} (attempts salt : ℕ)
    {chosen : List NodeId} (enough : target ≤ chosen.length) :
    chooseSalted pick target attempts salt chosen = chosen := by
  cases attempts with
  | zero => rfl
  | succ attempts => rw [chooseSalted, if_neg (not_lt.mpr enough)]

/-- A single replica is the node of the slot that the datum hashes to. -/
theorem Ring.replicas_one (hash : ℕ → ℕ → ℕ) {ring : Ring} (slots : ring.slots ≠ [])
    (datumId : DatumId) :
    ring.replicas hash datumId 1 = [ring.nodeAt hash (hashKey datumId)] := by
  have enough : min 1 ring.nodeIds.length ≤ [ring.nodeAt hash (hashKey datumId)].length :=
    min_le_left _ _
  simp only [Ring.replicas, slots, Nat.one_ne_zero, or_self, if_false,
    chooseSalted_of_le _ _ _ enough, if_neg (not_lt.mpr enough)]

/-! ## Enough replicas are all nodes -/

theorem mem_choose_self (chosen : List NodeId) (node : NodeId) : node ∈ choose chosen node := by
  unfold choose
  split
  · assumption
  · exact List.mem_append_right _ (List.mem_singleton_self node)

/-- A sweep stops at the target or has taken all nodes. -/
theorem chooseSweep_complete {target : ℕ} {nodes chosen : List NodeId} :
    target ≤ (chooseSweep target nodes chosen).length ∨
      ∀ node ∈ nodes, node ∈ chooseSweep target nodes chosen := by
  induction nodes generalizing chosen with
  | nil => exact Or.inr fun node impossible => absurd impossible List.not_mem_nil
  | cons first nodes ih =>
      unfold chooseSweep
      split
      · rename_i reached
        exact Or.inl reached.ge
      · rcases @ih (choose chosen first) with reached | all
        · exact Or.inl reached
        · right
          intro node nodeMem
          rcases List.mem_cons.mp nodeMem with rfl | later
          · exact (prefix_chooseSweep target nodes _).subset (mem_choose_self chosen node)
          · exact all node later

/-- As many replicas as there are nodes are all of them. -/
theorem Ring.mem_replicas_of_mem_nodeIds {hash : ℕ → ℕ → ℕ}
    (inRange : ∀ key slots, 0 < slots → hash key slots < slots) {ring : Ring} {datumId : DatumId}
    {node : NodeId} (member : node ∈ ring.nodeIds) :
    node ∈ ring.replicas hash datumId ring.nodeIds.length := by
  have subset : ring.replicas hash datumId ring.nodeIds.length ⊆ ring.nodeIds :=
    fun _ replica => Ring.mem_nodeIds_of_mem_replicas inRange replica
  have nodup := Ring.replicas_nodup hash ring datumId ring.nodeIds.length
  have complete : ring.nodeIds.length ≤
        (ring.replicas hash datumId ring.nodeIds.length).length ∨
      ∀ other ∈ ring.nodeIds, other ∈ ring.replicas hash datumId ring.nodeIds.length := by
    have slots : ring.slots ≠ [] := by
      intro empty
      rw [Ring.nodeIds, empty] at member
      cases member
    have nodes : ring.nodeIds.length ≠ 0 := (List.length_pos_of_mem member).ne'
    unfold Ring.replicas
    rw [if_neg (not_or.mpr ⟨slots, nodes⟩)]
    dsimp only
    rw [min_self]
    split
    · exact chooseSweep_complete
    · rename_i reached
      exact Or.inl (not_lt.mp reached)
  rcases complete with long | all
  · have perm := (List.subperm_of_subset nodup subset).perm_of_length_le long
    exact perm.mem_iff.mpr member
  · exact all node member

/-! ## Leaving a ring -/

/-- Swaps every slot of the node from `i` on with the last and shrinks by one.  The number of slots
bounds the iterations. -/
def leaveFrom (nodeId : NodeId) :
    ℕ → ℕ → List (NodeId × ThreadId) → List (NodeId × ThreadId)
  | 0, _, slots => slots
  | fuel + 1, i, slots =>
      match slots[i]?, slots.getLast? with
      | some slot, some last =>
          if slot.1 = nodeId then leaveFrom nodeId fuel i (slots.set i last).dropLast
          else leaveFrom nodeId fuel (i + 1) slots
      | _, _ => slots

def Ring.applyLeave (ring : Ring) (nodeId : NodeId) : Ring :=
  ⟨leaveFrom nodeId ring.slots.length 0 ring.slots⟩

section SwapOut

variable {α : Type*} {items : List α} {item last : α} {i : ℕ}

/-- The item is taken out, and the last one moved to its place. -/
theorem perm_swapOut (found : items[i]? = some item) (lastIs : items.getLast? = some last) :
    items.Perm (item :: (items.set i last).dropLast) := by
  rcases List.getLast?_eq_some_iff.mp lastIs with ⟨front, rfl⟩
  rcases List.getElem?_eq_some_iff.mp found with ⟨inside, rfl⟩
  rw [List.length_append, List.length_singleton] at inside
  by_cases atEnd : i = front.length
  · subst atEnd
    simp
  · have before : i < front.length := by omega
    rw [List.set_append_left _ _ before, List.dropLast_concat, List.getElem_append_left before]
    have moved : (front ++ [last]).Perm (last :: front) := List.perm_append_singleton last front
    have split : front.Perm (front[i] :: front.eraseIdx i) :=
      (List.getElem_cons_eraseIdx_perm before).symm
    have placed : (last :: front.eraseIdx i).Perm (front.set i last) :=
      (List.set_perm_cons_eraseIdx before last).symm
    exact moved.trans ((split.cons last).trans ((List.Perm.swap _ _ _).trans (placed.cons _)))

theorem length_swapOut : ((items.set i last).dropLast).length = items.length - 1 := by
  rw [List.length_dropLast, List.length_set]

/-- All other items but the last stay in place. -/
theorem getElem?_swapOut {j : ℕ} (inside : j < items.length - 1) (differ : i ≠ j) :
    ((items.set i last).dropLast)[j]? = items[j]? := by
  rw [List.getElem?_dropLast, List.length_set, if_pos inside, List.getElem?_set_ne differ]

end SwapOut

theorem perm_filter_of_passed {nodeId : NodeId} {i : ℕ} {slots : List (NodeId × ThreadId)}
    (passed : ∀ slot ∈ slots.take i, slot.1 ≠ nodeId) (beyond : slots.length ≤ i) :
    slots.Perm (slots.filter fun slot => slot.1 ≠ nodeId) := by
  rw [List.take_of_length_le beyond] at passed
  rw [List.filter_eq_self.mpr (by simpa using passed)]

/-- What is left are the slots of the other nodes, and those of them that fit stay in place. -/
theorem leaveFrom_spec {nodeId : NodeId} {fuel i : ℕ} {slots : List (NodeId × ThreadId)}
    (passed : ∀ slot ∈ slots.take i, slot.1 ≠ nodeId) (enough : slots.length ≤ i + fuel) :
    (leaveFrom nodeId fuel i slots).Perm (slots.filter fun slot => slot.1 ≠ nodeId) ∧
      ∀ j < (leaveFrom nodeId fuel i slots).length, ∀ slot, slots[j]? = some slot →
        slot.1 ≠ nodeId → (leaveFrom nodeId fuel i slots)[j]? = some slot := by
  induction fuel generalizing i slots with
  | zero => exact ⟨perm_filter_of_passed passed enough, fun _ _ _ found _ => found⟩
  | succ fuel ih =>
      unfold leaveFrom
      split
      · rename_i current last currentAt lastIs
        have inside : i < slots.length := (List.getElem?_eq_some_iff.mp currentAt).1
        split
        · rename_i leaves
          have swapped := perm_swapOut currentAt lastIs
          have shorter : (slots.set i last).dropLast.length = slots.length - 1 := length_swapOut
          have untouched : ∀ slot ∈ (slots.set i last).dropLast.take i, slot.1 ≠ nodeId := by
            intro slot slotMem
            apply passed slot
            rw [List.dropLast_eq_take, List.take_take, List.take_set_of_le (min_le_left _ _)]
              at slotMem
            exact List.take_subset_take_left slots (min_le_left _ _) slotMem
          rcases ih untouched (by omega) with ⟨perm, kept⟩
          have survivors : ((slots.set i last).dropLast.filter fun slot => slot.1 ≠ nodeId).Perm
              (slots.filter fun slot => slot.1 ≠ nodeId) := by
            have filtered := swapped.filter fun slot => slot.1 ≠ nodeId
            rw [List.filter_cons_of_neg (by simpa using leaves)] at filtered
            exact filtered.symm
          refine ⟨perm.trans survivors, ?_⟩
          intro j within slot found stays
          have bound := perm.length_eq.le.trans (List.length_filter_le _ _)
          apply kept j within slot _ stays
          rw [getElem?_swapOut (by omega), found]
          rintro rfl
          rw [currentAt, Option.some.injEq] at found
          exact stays (found ▸ leaves)
        · rename_i stays
          apply ih
          · intro other otherMem
            rw [List.take_add_one, currentAt, List.mem_append] at otherMem
            rcases otherMem with earlier | now
            · exact passed other earlier
            · rw [Option.toList_some, List.mem_singleton] at now
              rw [now]
              exact stays
          · omega
      · rename_i atEnd
        have beyond : slots.length ≤ i := by
          by_contra inside
          rw [not_le] at inside
          have nonempty : slots ≠ [] := List.ne_nil_of_length_pos (Nat.zero_lt_of_lt inside)
          exact atEnd _ _ (List.getElem?_eq_getElem inside)
            (List.getLast?_eq_some_getLast nonempty)
        exact ⟨perm_filter_of_passed passed beyond, fun _ _ _ found _ => found⟩

theorem mem_leaveFrom {nodeId : NodeId} {fuel i : ℕ} {slots : List (NodeId × ThreadId)}
    (passed : ∀ slot ∈ slots.take i, slot.1 ≠ nodeId) (enough : slots.length ≤ i + fuel)
    (slot : NodeId × ThreadId) :
    slot ∈ leaveFrom nodeId fuel i slots ↔ slot ∈ slots ∧ slot.1 ≠ nodeId := by
  rw [(leaveFrom_spec passed enough).1.mem_iff, List.mem_filter, decide_eq_true_eq]

/-- A node that leaves has no slot left, and all others keep theirs. -/
theorem Ring.mem_slots_applyLeave {ring : Ring} {nodeId : NodeId} {slot : NodeId × ThreadId} :
    slot ∈ (ring.applyLeave nodeId).slots ↔ slot ∈ ring.slots ∧ slot.1 ≠ nodeId :=
  mem_leaveFrom (by simp) (by simp) slot

/-! ## Rings and their weights -/

namespace Ring

theorem slots_fromMembers (members : List (NodeId × ℕ)) :
    (fromMembers members).slots =
      members.flatMap fun member => (List.range member.2).map fun thread => (member.1, thread) := by
  have joined : ∀ ring : Ring,
      (members.foldl (fun ring member => ring.applyJoin member.1 member.2) ring).slots =
        ring.slots ++ members.flatMap fun member =>
          (List.range member.2).map fun thread => (member.1, thread) := by
    induction members with
    | nil => simp
    | cons member members ih =>
        intro ring
        rw [List.foldl_cons, ih, List.flatMap_cons, applyJoin, List.append_assoc]
  exact (joined empty).trans (List.nil_append _)

theorem map_fst_slots_fromMembers (members : List (NodeId × ℕ)) :
    (fromMembers members).slots.map Prod.fst =
      members.flatMap fun member => List.replicate member.2 member.1 := by
  rw [slots_fromMembers, List.map_flatMap]
  congr 1
  funext member
  rw [List.map_map]
  simp [Function.comp_def]

/-- The weights of a ring of distinct members are those of the members that have slots. -/
theorem weights_fromMembers {members : List (NodeId × ℕ)}
    (distinct : (members.map Prod.fst).Nodup) :
    (fromMembers members).weights = members.filter fun member => 0 < member.2 := by
  unfold weights nodeIds
  rw [map_fst_slots_fromMembers]
  induction members with
  | nil => rfl
  | cons member members ih =>
      rcases member with ⟨node, weight⟩
      rw [List.map_cons, List.nodup_cons] at distinct
      have rest := ih distinct.2
      have absent : node ∉ members.flatMap fun member => List.replicate member.2 member.1 := by
        intro present
        rcases List.mem_flatMap.mp present with ⟨other, otherMem, inside⟩
        have same : node = other.1 := List.eq_of_mem_replicate inside
        exact distinct.1 (List.mem_map.mpr ⟨other, otherMem, same.symm⟩)
      cases weight with
      | zero => simpa using rest
      | succ weight =>
          have others : ((List.replicate weight node ++
              members.flatMap fun member => List.replicate member.2 member.1).filter
                fun other => !other == node) =
              members.flatMap fun member => List.replicate member.2 member.1 := by
            rw [List.filter_append, List.filter_replicate]
            simp only [beq_self_eq_true, Bool.not_true, Bool.false_eq_true, if_false,
              List.nil_append, List.filter_eq_self, Bool.not_eq_true', beq_eq_false_iff_ne]
            rintro other otherMem rfl
            exact absent otherMem
          rw [List.flatMap_cons, List.replicate_succ, List.cons_append, List.eraseDups_cons, others,
            List.map_cons, List.filter_cons_of_pos (by simp), ← rest]
          congr 1
          · rw [← List.cons_append, ← List.replicate_succ, List.count_append,
              List.count_replicate_self, List.count_eq_zero_of_not_mem absent]
          · apply List.map_congr_left
            intro other otherMem
            rw [List.mem_eraseDups] at otherMem
            have differ : node ≠ other := fun same => absent (same ▸ otherMem)
            rw [← List.cons_append, ← List.replicate_succ, List.count_append,
              List.count_replicate]
            simp [differ]

/-- A ring of distinct members is the ring of its weights. -/
theorem fromMembers_weights {members : List (NodeId × ℕ)}
    (distinct : (members.map Prod.fst).Nodup) :
    fromMembers (fromMembers members).weights = fromMembers members := by
  have slots : (fromMembers (fromMembers members).weights).slots = (fromMembers members).slots := by
    rw [weights_fromMembers distinct, slots_fromMembers, slots_fromMembers]
    clear distinct
    induction members with
    | nil => rfl
    | cons member members ih =>
        rcases Nat.eq_zero_or_pos member.2 with zero | positive
        · rw [List.filter_cons_of_neg (by simp [zero]), ih, List.flatMap_cons, zero]
          rfl
        · rw [List.filter_cons_of_pos (by simpa using positive), List.flatMap_cons,
            List.flatMap_cons, ih]
  exact congrArg Ring.mk slots

end Ring

end Seisin
