import Mathlib
import Seisin.Ring

/-!
# Where a ring places a datum

Whatever the hash returns, the replicas of a datum are distinct members of the ring, as many as were
asked for or as there are, and start at the datum's native node.  A hash that only ever moves a key to
the slot that was added keeps everything else in place when nodes join and leave.
-/

namespace Seisin

namespace Ring

variable {hash : ℕ → ℕ → ℕ} {ring : Ring}

/-- The native node and thread of a datum. -/
def native (hash : ℕ → ℕ → ℕ) (ring : Ring) (datumId : DatumId) : NodeId × ThreadId :=
  ring.slots.getD (hash (hashKey datumId) ring.slots.length) (0, 0)

theorem nodeAt_hashKey (hash : ℕ → ℕ → ℕ) (ring : Ring) (datumId : DatumId) :
    ring.nodeAt hash (hashKey datumId) = (ring.native hash datumId).1 := rfl

theorem nodup_eraseDups (nodes : List NodeId) : nodes.eraseDups.Nodup := by
  induction hlength : nodes.length using Nat.strongRecOn generalizing nodes with
  | ind length ih =>
      cases nodes with
      | nil => exact List.nodup_nil
      | cons node nodes =>
          rw [List.eraseDups_cons, List.nodup_cons, List.mem_eraseDups]
          have shorter : (nodes.filter fun other => !other == node).length < length := by
            rw [← hlength]
            exact Nat.lt_succ_of_le (List.length_filter_le _ _)
          exact ⟨by simp, ih _ shorter _ rfl⟩

theorem nodup_nodeIds (ring : Ring) : ring.nodeIds.Nodup := nodup_eraseDups _

theorem length_nodeIds (ring : Ring) :
    ring.nodeIds.length = (ring.slots.map Prod.fst).toFinset.card := by
  rw [← List.toFinset_card_of_nodup ring.nodup_nodeIds]
  congr 1
  ext node
  rw [List.mem_toFinset, List.mem_toFinset, nodeIds, List.mem_eraseDups]

end Ring

/-! ## The number of replicas -/

theorem length_chooseSalted_le (pick : ℕ → NodeId) {target : ℕ} (attempts salt : ℕ)
    {chosen : List NodeId} (fits : chosen.length ≤ target) :
    (chooseSalted pick target attempts salt chosen).length ≤ target := by
  rw [chooseSalted_take pick (le_refl target) attempts salt fits]
  exact List.length_take_le _ _

theorem length_chooseSweep_le {target : ℕ} (nodes : List NodeId) {chosen : List NodeId}
    (fits : chosen.length ≤ target) : (chooseSweep target nodes chosen).length ≤ target := by
  rw [chooseSweep_take (le_refl target) nodes fits]
  exact List.length_take_le _ _

namespace Ring

variable {hash : ℕ → ℕ → ℕ} {ring : Ring}

theorem length_replicas_le (nonempty : ring.slots ≠ []) (datumId : DatumId) (n : ℕ) :
    (ring.replicas hash datumId n).length ≤ min n ring.nodeIds.length := by
  have members := List.length_pos_iff.mpr (nodeIds_ne_nil nonempty)
  unfold replicas
  split
  · exact Nat.zero_le _
  · rename_i present
    rw [not_or] at present
    have one : [ring.nodeAt hash (hashKey datumId)].length ≤ min n ring.nodeIds.length := by
      rw [List.length_singleton]
      omega
    have salted := length_chooseSalted_le
      (fun salt => ring.nodeAt hash ((hashKey datumId + salt * 0x9E3779B97F4A7C15) % 2 ^ 64))
      (ring.slots.length * 3 + 32) 1 one
    dsimp only
    split
    · exact length_chooseSweep_le _ salted
    · exact salted

/-- The choice reaches its target, if not by the salts then by the sweep. -/
theorem le_length_replicas (nonempty : ring.slots ≠ []) (datumId : DatumId) (n : ℕ) :
    min n ring.nodeIds.length ≤ (ring.replicas hash datumId n).length := by
  rcases Nat.eq_zero_or_pos n with rfl | positive
  · rw [Nat.zero_min]
    exact Nat.zero_le _
  have complete : min n ring.nodeIds.length ≤ (ring.replicas hash datumId n).length ∨
      ∀ node ∈ ring.nodeIds, node ∈ ring.replicas hash datumId n := by
    unfold replicas
    rw [if_neg (not_or.mpr ⟨nonempty, positive.ne'⟩)]
    dsimp only
    split
    · exact chooseSweep_complete
    · rename_i reached
      exact Or.inl (not_lt.mp reached)
  rcases complete with long | all
  · exact long
  · exact (min_le_right _ _).trans (List.subperm_of_subset ring.nodup_nodeIds all).length_le

/-- A hash that picks one of the slots makes every replica set distinct members of the ring, as many as
asked for or as there are, that start at the native node and grow with the factor. -/
theorem replicas_wellFormed (inRange : ∀ key slots, 1 ≤ slots → hash key slots < slots)
    (nonempty : ring.slots ≠ []) (datumId : DatumId) (n : ℕ) :
    (ring.replicas hash datumId n).Nodup ∧
      (∀ node ∈ ring.replicas hash datumId n, ∃ thread, (node, thread) ∈ ring.slots) ∧
      (ring.replicas hash datumId n).length =
        min n (ring.slots.map Prod.fst).toFinset.card ∧
      (1 ≤ n → (ring.replicas hash datumId n).head? = some (ring.native hash datumId).1) ∧
      ∀ m ≤ n, ring.replicas hash datumId m <+: ring.replicas hash datumId n := by
  have length : (ring.replicas hash datumId n).length = min n ring.nodeIds.length :=
    le_antisymm (length_replicas_le nonempty datumId n) (le_length_replicas nonempty datumId n)
  refine ⟨replicas_nodup hash ring datumId n, ?_, ?_, ?_, ?_⟩
  · intro node replica
    have member := mem_nodeIds_of_mem_replicas inRange replica
    rw [nodeIds, List.mem_eraseDups] at member
    rcases List.mem_map.mp member with ⟨⟨other, thread⟩, slotMem, rfl⟩
    exact ⟨thread, slotMem⟩
  · rw [length, length_nodeIds]
  · intro positive
    have members := List.length_pos_iff.mpr (nodeIds_ne_nil nonempty)
    apply head?_replicas
    rw [← List.length_pos_iff, length]
    exact lt_min positive members
  · exact fun m le => replicas_prefix hash ring datumId le

/-- A hash that always returns the first slot: every salt picks the same node, and the sweep finds the
other two. -/
theorem replicas_wellFormed_swept :
    let ring : Ring := ⟨[(5, 0), (5, 1), (2, 0), (9, 0)]⟩
    (ring.replicas (fun _ _ => 0) 7 4).Nodup ∧
      (∀ node ∈ ring.replicas (fun _ _ => 0) 7 4, ∃ thread, (node, thread) ∈ ring.slots) ∧
      (ring.replicas (fun _ _ => 0) 7 4).length =
        min 4 (ring.slots.map Prod.fst).toFinset.card ∧
      (1 ≤ 4 → (ring.replicas (fun _ _ => 0) 7 4).head? =
        some (ring.native (fun _ _ => 0) 7).1) ∧
      ∀ m ≤ 4, ring.replicas (fun _ _ => 0) 7 m <+: ring.replicas (fun _ _ => 0) 7 4 :=
  replicas_wellFormed (fun _ _ positive => positive) (List.cons_ne_nil _ _) 7 4

/-! ## Nodes that join and leave -/

/-- With one more slot, a key stays where it is or moves to the new slot. -/
def Consistent (hash : ℕ → ℕ → ℕ) : Prop :=
  ∀ key slots, 1 ≤ slots → hash key (slots + 1) = hash key slots ∨ hash key (slots + 1) = slots

/-- With more slots, a key stays where it is or moves to one of the new slots. -/
theorem Consistent.grow (consistent : Consistent hash) (key : ℕ) {fewer more : ℕ}
    (positive : 1 ≤ fewer) (le : fewer ≤ more) :
    hash key more = hash key fewer ∨ fewer ≤ hash key more := by
  induction more, le using Nat.le_induction with
  | base => exact Or.inl rfl
  | succ more le ih =>
      rcases consistent key more (positive.trans le) with same | moved
      · rw [same]
        exact ih
      · rw [moved]
        exact Or.inr le

theorem length_applyJoin (ring : Ring) (nodeId : NodeId) (threadCount : ℕ) :
    (ring.applyJoin nodeId threadCount).slots.length = ring.slots.length + threadCount := by
  simp [applyJoin]

/-- A datum whose key moves when a node joins is native to a thread of that node. -/
theorem native_applyJoin (inRange : ∀ key slots, 1 ≤ slots → hash key slots < slots)
    (consistent : Consistent hash) (nodeId : NodeId) (threadCount : ℕ) (datumId : DatumId) :
    (ring.applyJoin nodeId threadCount).native hash datumId = ring.native hash datumId ∨
      ∃ thread < threadCount,
        hash (hashKey datumId) (ring.slots.length + threadCount) = ring.slots.length + thread ∧
        (ring.applyJoin nodeId threadCount).native hash datumId = (nodeId, thread) := by
  unfold native
  rw [length_applyJoin]
  rcases Nat.eq_zero_or_pos (ring.slots.length + threadCount) with none | some
  · have noThreads : threadCount = 0 := by omega
    subst noThreads
    left
    simp [applyJoin]
  have within := inRange (hashKey datumId) _ some
  have moved : ring.slots.length ≤ hash (hashKey datumId) (ring.slots.length + threadCount) →
      ∃ thread < threadCount,
        hash (hashKey datumId) (ring.slots.length + threadCount) = ring.slots.length + thread ∧
        (ring.applyJoin nodeId threadCount).slots.getD
          (hash (hashKey datumId) (ring.slots.length + threadCount)) (0, 0) = (nodeId, thread) := by
    intro beyond
    rcases Nat.exists_eq_add_of_le beyond with ⟨thread, placed⟩
    have below : thread < threadCount := by omega
    refine ⟨thread, below, placed, ?_⟩
    rw [placed, applyJoin, List.getD_eq_getElem?_getD, List.getElem?_append_right (by omega),
      Nat.add_sub_cancel_left]
    simp [below]
  rcases Nat.eq_zero_or_pos ring.slots.length with empty | nonempty
  · exact Or.inr (moved (by omega))
  rcases consistent.grow (hashKey datumId) nonempty (Nat.le_add_right _ threadCount) with
    same | beyond
  · left
    have old := inRange (hashKey datumId) _ nonempty
    rw [same, applyJoin, List.getD_eq_getElem?_getD, List.getD_eq_getElem?_getD,
      List.getElem?_append_left old]
  · exact Or.inr (moved beyond)

theorem perm_applyLeave (ring : Ring) (nodeId : NodeId) :
    (ring.applyLeave nodeId).slots.Perm (ring.slots.filter fun slot => slot.1 ≠ nodeId) :=
  (leaveFrom_spec (by simp) (by simp)).1

/-- A slot that stays and whose index is still one stays in place. -/
theorem getElem?_applyLeave {nodeId : NodeId} {index : ℕ} {slot : NodeId × ThreadId}
    (within : index < (ring.applyLeave nodeId).slots.length)
    (found : ring.slots[index]? = some slot) (stays : slot.1 ≠ nodeId) :
    (ring.applyLeave nodeId).slots[index]? = some slot :=
  (leaveFrom_spec (by simp) (by simp)).2 index within slot found stays

theorem native_applyLeave (inRange : ∀ key slots, 1 ≤ slots → hash key slots < slots)
    (consistent : Consistent hash) {nodeId : NodeId} {datumId : DatumId}
    (below : hash (hashKey datumId) ring.slots.length < (ring.applyLeave nodeId).slots.length)
    (stays : (ring.native hash datumId).1 ≠ nodeId) :
    (ring.applyLeave nodeId).native hash datumId = ring.native hash datumId := by
  have left : 1 ≤ (ring.applyLeave nodeId).slots.length := Nat.one_le_of_lt below
  have fewer : (ring.applyLeave nodeId).slots.length ≤ ring.slots.length :=
    (ring.perm_applyLeave nodeId).length_eq.le.trans (List.length_filter_le _ _)
  have old := inRange (hashKey datumId) _ (left.trans fewer)
  have same : hash (hashKey datumId) ring.slots.length =
      hash (hashKey datumId) (ring.applyLeave nodeId).slots.length :=
    (consistent.grow (hashKey datumId) left fewer).resolve_right (not_le.mpr below)
  have found := List.getElem?_eq_getElem old
  unfold native at stays ⊢
  rw [List.getD_eq_getElem?_getD, found, Option.getD_some] at stays
  rw [← same, List.getD_eq_getElem?_getD, List.getD_eq_getElem?_getD, found,
    getElem?_applyLeave below found stays]

/-- A join moves data to the new slots only.  A leave removes the slots of the leaving node and no
others, and moves no datum whose slot was another node's and is still among the indices. -/
theorem remaps_minimally (inRange : ∀ key slots, 1 ≤ slots → hash key slots < slots)
    (consistent : ∀ key slots, 1 ≤ slots →
      hash key (slots + 1) = hash key slots ∨ hash key (slots + 1) = slots) :
    (∀ (ring : Ring) (nodeId : NodeId) (threadCount : ℕ) (datumId : DatumId),
      (ring.applyJoin nodeId threadCount).native hash datumId = ring.native hash datumId ∨
        ∃ thread < threadCount,
          hash (hashKey datumId) (ring.slots.length + threadCount) =
            ring.slots.length + thread ∧
          (ring.applyJoin nodeId threadCount).native hash datumId = (nodeId, thread)) ∧
    ∀ (ring : Ring) (nodeId : NodeId), 1 ≤ (ring.applyLeave nodeId).slots.length →
      (ring.applyLeave nodeId).slots.Perm (ring.slots.filter fun slot => slot.1 ≠ nodeId) ∧
        (∀ slot ∈ (ring.applyLeave nodeId).slots, slot.1 ≠ nodeId) ∧
        ∀ datumId,
          hash (hashKey datumId) ring.slots.length < (ring.applyLeave nodeId).slots.length →
          (ring.native hash datumId).1 ≠ nodeId →
          (ring.applyLeave nodeId).native hash datumId = ring.native hash datumId := by
  constructor
  · intro ring nodeId threadCount datumId
    exact native_applyJoin inRange consistent nodeId threadCount datumId
  · intro ring nodeId _
    refine ⟨ring.perm_applyLeave nodeId, ?_, ?_⟩
    · intro slot slotMem
      exact (mem_slots_applyLeave.mp slotMem).2
    · intro datumId below stays
      exact native_applyLeave inRange consistent below stays

/-- The slots of node 1 lie scattered, and swapped-in slots are among them.  The datum whose key is 1
stays where it is, and the one whose key is 7 moves when node 4 joins. -/
theorem remaps_minimally_scattered :
    let ring : Ring := ⟨[(1, 0), (2, 0), (1, 1), (3, 0), (1, 2)]⟩
    let hash := fun key slots => min key (slots - 1)
    let moving : DatumId := 7 * 2 ^ 56
    let staying : DatumId := 2 ^ 56
    ((ring.applyJoin 4 2).native hash moving = ring.native hash moving ∨
      ∃ thread < 2, hash (hashKey moving) (ring.slots.length + 2) = ring.slots.length + thread ∧
        (ring.applyJoin 4 2).native hash moving = (4, thread)) ∧
      (ring.applyLeave 1).native hash staying = ring.native hash staying := by
  intro ring hash moving staying
  have inRange : ∀ key slots, 1 ≤ slots → hash key slots < slots := by
    intro key slots positive
    change min key (slots - 1) < slots
    omega
  have consistent : ∀ key slots, 1 ≤ slots →
      hash key (slots + 1) = hash key slots ∨ hash key (slots + 1) = slots := by
    intro key slots positive
    change min key (slots + 1 - 1) = min key (slots - 1) ∨ min key (slots + 1 - 1) = slots
    omega
  have minimal := remaps_minimally inRange consistent
  refine ⟨minimal.1 ring 4 2 moving, ?_⟩
  exact (minimal.2 ring 1 (by decide)).2.2 staying (by decide +kernel) (by decide +kernel)

end Ring

end Seisin
