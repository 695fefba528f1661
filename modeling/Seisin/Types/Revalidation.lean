import Seisin.Storage.BTree.Scans
import Seisin.Types.Residents

/-!
# Revalidation

The invalid datums of a type are the members of a partition, which a driver revisits: it reads a
page of members by rank, validates each of them and takes those that pass out of the partition.
The ranks of what comes after move down by as many, so it goes on at the rank it read from plus the
number of members it kept.  At any time the kept members are those before that rank.
-/

namespace Seisin

/-! ## The partition -/

namespace PartitionResident

/-- A number of updates, one after another. -/
def changeAll : BPlusTree → List ExtentOp → Except TreeFailure BPlusTree
  | tree, [] => .ok tree
  | tree, op :: ops =>
      match change tree op with
      | .error failure => .error failure
      | .ok tree => changeAll tree ops

/-- The number of members, and up to `limit` of them from a rank on. -/
def page (tree : BPlusTree) (offset : ℕ) (limit : UInt32) :
    Except TreeFailure (ℕ × List DatumId) :=
  match tree.scanFromRank offset limit.toNat with
  | .error failure => .error failure
  | .ok entries => .ok (tree.len, entries.map fun entry => DatumId.fromBytes entry.1)

/-- All members, on however many pages. -/
def allMembers (tree : BPlusTree) : Except TreeFailure (List DatumId) :=
  tree.allEntries.map fun entries => entries.map fun entry => DatumId.fromBytes entry.1

end PartitionResident

/-! ## The driver -/

structure ValidationFinding where
  pk : DatumId
  field : String
  problem : String
  deriving DecidableEq

/-- The partition as the driver changes it, what it has found, and what it has validated. -/
structure Revalidation where
  partition : BPlusTree
  stillFailing : List ValidationFinding
  validated : List DatumId

namespace Revalidation

variable (validateOne : DatumId → List ValidationFinding)

/-- Takes a datum that passes out of the partition. -/
def clearInvalid (state : Revalidation) (pk : DatumId) : Except TreeFailure Revalidation :=
  match PartitionResident.change state.partition (.remove pk) with
  | .error failure => .error failure
  | .ok partition => .ok { state with partition := partition }

/-- Validates the datums of a page; a datum passes if it adds no finding.  Counts those cleared. -/
def validatePage : List DatumId → ℕ → Revalidation → Except TreeFailure (ℕ × Revalidation)
  | [], cleared, state => .ok (cleared, state)
  | pk :: pks, cleared, state =>
      let before := state.stillFailing.length
      let state := { state with
        stillFailing := state.stillFailing ++ validateOne pk
        validated := state.validated ++ [pk] }
      if state.stillFailing.length = before then
        match state.clearInvalid pk with
        | .error failure => .error failure
        | .ok state => validatePage pks (cleared + 1) state
      else validatePage pks cleared state

/-- Reads pages until one is empty. -/
def revalidateInvalid (pageSize : UInt32) : ℕ → ℕ → Revalidation → Except TreeFailure Revalidation
  | 0, _, _ => .error (.error "loop does not end")
  | fuel + 1, offset, state =>
      match PartitionResident.page state.partition offset pageSize with
      | .error failure => .error failure
      | .ok (_, []) => .ok state
      | .ok (_, pks) =>
          match validatePage validateOne pks 0 state with
          | .error failure => .error failure
          | .ok (clearedThisPage, state) =>
              -- what was cleared shifts the ranks of what comes after
              revalidateInvalid pageSize fuel (offset + (pks.length - clearedThisPage)) state

end Revalidation

/-! ## Members by rank -/

/-- What an update does to the set of members. -/
def ExtentOp.update (marked : Finset DatumId) : ExtentOp → Finset DatumId
  | .insert pk => Insert.insert pk marked
  | .remove pk => marked.erase pk

namespace PartitionResident

open BPlusTree SortedList

/-- The members of a partition, in the order of their ids. -/
structure Members (tree : BPlusTree) (pks : List DatumId) : Prop where
  represented : ∃ (depth : ℕ) (shape : Shape depth), Represents tree shape ∧
    shape.entries.map Prod.fst = pks.map DatumId.asBytes
  keySize : tree.keySize = 16
  valueSize : tree.valueSize = 1

variable {tree : BPlusTree} {pks : List DatumId}

/-- The keys of a tree over ids are those of the ids read from them. -/
theorem map_asBytes_keys {depth : ℕ} {shape : Shape depth} (represents : Represents tree shape)
    (keySize : tree.keySize = 16) : shape.entries.map Prod.fst =
      (shape.entries.map fun entry => DatumId.fromBytes entry.1).map DatumId.asBytes := by
  rw [List.map_map]
  refine List.map_congr_left fun entry entryMem => ?_
  have sixteen := (represents.records entry entryMem).1
  exact (DatumId.asBytes_fromBytes (sixteen.trans keySize)).symm

theorem members_create : ∃ opened, create 16 1 partitionPageSize = .ok opened ∧
    Members opened [] := by
  rcases created : create 16 1 partitionPageSize with failure | opened
  · cases created
  · rcases create_ok created with ⟨represents, keySize, valueSize⟩
    exact ⟨opened, rfl, ⟨⟨0, _, represents, rfl⟩, keySize, valueSize⟩⟩

namespace Members

/-- No member is listed twice. -/
theorem nodup (members : Members tree pks) : pks.Nodup := by
  rcases members.represented with ⟨depth, shape, represents, keys⟩
  have distinct := represents.ordered.ascending.nodup_keys
  rw [keys] at distinct
  exact distinct.of_map

/-- The members are the ids that are read from the keys. -/
theorem ids_eq {depth : ℕ} {shape : Shape depth}
    (keys : shape.entries.map Prod.fst = pks.map DatumId.asBytes) :
    (shape.entries.map fun entry => DatumId.fromBytes entry.1) = pks := by
  have decoded := congrArg (List.map DatumId.fromBytes) keys
  rw [List.map_map, List.map_map] at decoded
  have inverse : DatumId.fromBytes ∘ DatumId.asBytes = id := funext DatumId.fromBytes_asBytes
  rw [inverse, List.map_id] at decoded
  exact decoded

/-- A page is a part of the list of members. -/
theorem page_eq (members : Members tree pks) (offset : ℕ) (limit : UInt32) :
    page tree offset limit = .ok (tree.len, (pks.drop offset).take limit.toNat) := by
  rcases members.represented with ⟨depth, shape, represents, keys⟩
  simp only [page, scanFromRank_ok represents.arranged offset (toNat_le_maxCapacity limit)]
  rw [List.map_take, List.map_drop, ids_eq keys]

theorem allMembers_eq (members : Members tree pks) : allMembers tree = .ok pks := by
  rcases members.represented with ⟨depth, shape, represents, keys⟩
  rw [allMembers, represents.arranged.allEntries, Except.map, ids_eq keys]

/-- Removing an id closes the gap that it leaves. -/
theorem remove (members : Members tree pks) (pk : DatumId) :
    ∃ newTree, change tree (.remove pk) = .ok newTree ∧ Members newTree (pks.erase pk) := by
  rcases members.represented with ⟨depth, shape, represents, keys⟩
  have sixteen : pk.asBytes.length = tree.keySize :=
    (DatumId.length_asBytes pk).trans members.keySize.symm
  rcases remove_ok represents sixteen with
    ⟨newTree, newShape, removed, newRepresents, sameKey, sameValue, entries⟩
  refine ⟨newTree, ?_, ⟨depth, newShape, newRepresents, ?_⟩, ?_, ?_⟩
  · rw [change, removed]
    rfl
  · rw [entries, map_fst_removeKey, keys]
    exact (List.map_erase DatumId.asBytes_injective pks).symm
  · exact sameKey.trans members.keySize
  · exact sameValue.trans members.valueSize

/-- Every update succeeds and does to the members what it does to a set. -/
theorem update (members : Members tree pks) (op : ExtentOp) :
    ∃ newTree newPks, change tree op = .ok newTree ∧ Members newTree newPks ∧
      newPks.toFinset = op.update pks.toFinset := by
  cases op with
  | insert pk =>
      rcases members.represented with ⟨depth, shape, represents, keys⟩
      have sixteen : pk.asBytes.length = tree.keySize :=
        (DatumId.length_asBytes pk).trans members.keySize.symm
      have one : ([0] : Bytes).length = tree.valueSize := members.valueSize.symm
      rcases insert_ok represents sixteen one with
        ⟨newTree, newDepth, newShape, inserted, newRepresents, sameKey, sameValue, entries⟩
      have newKeys := map_asBytes_keys newRepresents (sameKey.trans members.keySize)
      refine ⟨newTree, _, inserted, ⟨⟨newDepth, newShape, newRepresents, newKeys⟩,
        sameKey.trans members.keySize, sameValue.trans members.valueSize⟩, ?_⟩
      ext other
      have listed : other.asBytes ∈ newShape.entries.map Prod.fst ↔
          other.asBytes ∈ pks.map DatumId.asBytes ∨ other.asBytes = pk.asBytes := by
        rw [entries, ← keys]
        exact mem_keys_upsert represents.ordered.ascending
      rw [newKeys, List.mem_map_of_injective DatumId.asBytes_injective,
        List.mem_map_of_injective DatumId.asBytes_injective,
        DatumId.asBytes_injective.eq_iff] at listed
      rw [List.mem_toFinset, listed, or_comm, ExtentOp.update, Finset.mem_insert,
        List.mem_toFinset]
  | remove pk =>
      rcases members.remove pk with ⟨newTree, removed, newMembers⟩
      refine ⟨newTree, _, removed, newMembers, ?_⟩
      ext other
      rw [List.mem_toFinset, members.nodup.mem_erase_iff, ExtentOp.update, Finset.mem_erase,
        List.mem_toFinset]

/-- A number of updates leaves the members that it leaves of a set. -/
theorem updates (members : Members tree pks) (ops : List ExtentOp) :
    ∃ newTree newPks, changeAll tree ops = .ok newTree ∧ Members newTree newPks ∧
      newPks.toFinset = ops.foldl ExtentOp.update pks.toFinset := by
  induction ops generalizing tree pks with
  | nil => exact ⟨tree, pks, rfl, members, rfl⟩
  | cons op ops ih =>
      rcases members.update op with ⟨newTree, newPks, changed, newMembers, marked⟩
      rcases ih newMembers with ⟨lastTree, lastPks, rest, lastMembers, lastMarked⟩
      refine ⟨lastTree, lastPks, ?_, lastMembers, ?_⟩
      · simp only [changeAll, changed, rest]
      · rw [lastMarked, marked, List.foldl_cons]

end Members

end PartitionResident

/-! ## One page -/

namespace Revalidation

open PartitionResident

variable (validateOne : DatumId → List ValidationFinding)

/-- A datum that has a finding. -/
def Fails (pk : DatumId) : Prop :=
  validateOne pk ≠ []

instance (pk : DatumId) : Decidable (Fails validateOne pk) :=
  inferInstanceAs (Decidable (validateOne pk ≠ []))

/-- What passes has no findings. -/
theorem flatMap_filter_fails (pks : List DatumId) :
    (pks.filter (Fails validateOne)).flatMap validateOne = pks.flatMap validateOne := by
  induction pks with
  | nil => rfl
  | cons pk pks ih =>
      by_cases fails : Fails validateOne pk
      · simp [fails, ih]
      · have passes : validateOne pk = [] := not_not.mp fails
        simp [fails, passes, ih]

/-- A page between the members that were kept and those still to come: it keeps what fails. -/
theorem validatePage_eq (page : List DatumId) {kept rest : List DatumId} (state : Revalidation)
    (members : Members state.partition (kept ++ (page ++ rest))) (cleared : ℕ) :
    ∃ partition, validatePage validateOne page cleared state =
        .ok (cleared + page.countP (fun pk => ¬Fails validateOne pk),
          ⟨partition, state.stillFailing ++ page.flatMap validateOne, state.validated ++ page⟩) ∧
      Members partition (kept ++ page.filter (Fails validateOne) ++ rest) := by
  induction page generalizing kept state cleared with
  | nil =>
      refine ⟨state.partition, ?_, ?_⟩
      · simp [validatePage]
      · simpa using members
  | cons pk page ih =>
      by_cases fails : Fails validateOne pk
      · have grown : ¬(state.stillFailing ++ validateOne pk).length =
            state.stillFailing.length := by
          intro same
          rw [List.length_append] at same
          have none : (validateOne pk).length = 0 := by omega
          exact fails (List.length_eq_zero_iff.mp none)
        have onward : Members state.partition ((kept ++ [pk]) ++ (page ++ rest)) := by
          simpa using members
        rcases ih { state with
            stillFailing := state.stillFailing ++ validateOne pk
            validated := state.validated ++ [pk] } onward cleared with
          ⟨partition, validated, remaining⟩
        refine ⟨partition, ?_, ?_⟩
        · simp only [validatePage, if_neg grown, validated]
          simp [fails]
        · simpa [fails] using remaining
      · have passes : validateOne pk = [] := not_not.mp fails
        have level : (state.stillFailing ++ validateOne pk).length =
            state.stillFailing.length := by
          rw [passes, List.append_nil]
        rcases members.remove pk with ⟨newPartition, removed, newMembers⟩
        have absent : pk ∉ kept := by
          have distinct := List.disjoint_of_nodup_append members.nodup
          exact fun early => distinct early (List.mem_append_left _ List.mem_cons_self)
        have onward : Members newPartition (kept ++ (page ++ rest)) := by
          rw [List.erase_append_right _ absent, List.cons_append, List.erase_cons_head]
            at newMembers
          exact newMembers
        rcases ih { state with
            partition := newPartition
            stillFailing := state.stillFailing ++ validateOne pk
            validated := state.validated ++ [pk] } onward (cleared + 1) with
          ⟨partition, validated, remaining⟩
        refine ⟨partition, ?_, ?_⟩
        · simp only [validatePage, if_pos level, clearInvalid, removed, validated]
          simp [fails, Nat.add_assoc, Nat.add_comm]
        · simpa [fails] using remaining

/-- From the first member that is not yet validated on, the loop validates all. -/
theorem revalidateInvalid_eq {pageSize : UInt32} (positive : 0 < pageSize) {fuel : ℕ}
    (kept : List DatumId) {rest : List DatumId} (state : Revalidation) (enough : rest.length < fuel)
    (members : Members state.partition (kept ++ rest)) :
    ∃ partition, revalidateInvalid validateOne pageSize fuel kept.length state =
        .ok ⟨partition, state.stillFailing ++ rest.flatMap validateOne,
          state.validated ++ rest⟩ ∧
      Members partition (kept ++ rest.filter (Fails validateOne)) := by
  have turning : 0 < pageSize.toNat := UInt32.lt_iff_toNat_lt.mp positive
  induction fuel generalizing kept rest state with
  | zero => exact absurd enough (Nat.not_lt_zero _)
  | succ fuel ih =>
      have read := members.page_eq kept.length pageSize
      rw [List.drop_left] at read
      rcases Nat.eq_zero_or_pos rest.length with none | some
      · have done : rest = [] := List.length_eq_zero_iff.mp none
        subst done
        rw [List.take_nil] at read
        refine ⟨state.partition, ?_, ?_⟩
        · simp [revalidateInvalid, read]
        · simpa using members
      · have size : (rest.take pageSize.toNat).length = min pageSize.toNat rest.length :=
          List.length_take
        have split : rest.take pageSize.toNat ++ rest.drop pageSize.toNat = rest :=
          List.take_append_drop pageSize.toNat rest
        have fewer : (rest.drop pageSize.toNat).length < fuel := by
          rw [List.length_drop]
          omega
        generalize rest.take pageSize.toNat = page at read size split
        generalize rest.drop pageSize.toNat = later at split fewer
        subst split
        rcases validatePage_eq validateOne page state members 0 with
          ⟨partition, validated, remaining⟩
        rw [Nat.zero_add] at validated
        -- what the page keeps is as long as the offset grows
        have moved : kept.length + (page.length - page.countP fun pk => ¬Fails validateOne pk) =
            (kept ++ page.filter (Fails validateOne)).length := by
          have parts := List.length_eq_countP_add_countP (l := page)
            (fun pk => decide (Fails validateOne pk))
          rw [List.length_append, ← List.countP_eq_length_filter]
          simp only [decide_eq_true_eq] at parts
          omega
        rcases ih _ ⟨partition, state.stillFailing ++ page.flatMap validateOne,
            state.validated ++ page⟩ fewer remaining with ⟨final, finished, left⟩
        refine ⟨final, ?_, ?_⟩
        · cases page with
          | nil => exact absurd size (by simp at some ⊢; omega)
          | cons pk page =>
              simp only [revalidateInvalid, read, validated, moved, finished]
              simp
        · simpa using left

/-! ## The whole revalidation -/

/-- Whatever has been marked invalid: the driver ends, has validated every invalid datum once, has
taken out those that pass, and has the findings of those that do not. -/
theorem revalidateInvalid_visits (ops : List ExtentOp) {pageSize : UInt32} (positive : 0 < pageSize) :
    ∃ opened tree pks, BPlusTree.create 16 1 partitionPageSize = .ok opened ∧
      changeAll opened ops = .ok tree ∧ allMembers tree = .ok pks ∧ pks.Nodup ∧
      pks.toFinset = ops.foldl ExtentOp.update ∅ ∧
      ∀ fuel, pks.length < fuel → ∃ partition,
        revalidateInvalid validateOne pageSize fuel 0 ⟨tree, [], []⟩ =
          .ok ⟨partition, (pks.filter (Fails validateOne)).flatMap validateOne, pks⟩ ∧
        allMembers partition = .ok (pks.filter (Fails validateOne)) := by
  rcases members_create with ⟨opened, created, empty⟩
  rcases empty.updates ops with ⟨tree, pks, changed, members, marked⟩
  refine ⟨opened, tree, pks, created, changed, members.allMembers_eq, members.nodup, marked, ?_⟩
  intro fuel enough
  rcases revalidateInvalid_eq validateOne positive [] ⟨tree, [], []⟩ enough members with
    ⟨partition, finished, left⟩
  refine ⟨partition, ?_, left.allMembers_eq⟩
  rw [flatMap_filter_fails]
  exact finished

/-- A verdict by which one datum fails. -/
def oneFailing (pk : DatumId) : List ValidationFinding :=
  if pk = 2 then [⟨2, "name", "empty"⟩] else []

theorem revalidateInvalid_visits_sample : (0 : UInt32) < 2 ∧ ∃ opened tree pks,
    BPlusTree.create 16 1 partitionPageSize = .ok opened ∧
      changeAll opened [.insert 3, .insert 1, .insert 2, .insert 1] = .ok tree ∧
      allMembers tree = .ok pks ∧ pks.Nodup ∧ pks.toFinset = {1, 2, 3} ∧
      ∀ fuel, pks.length < fuel → ∃ partition,
        revalidateInvalid oneFailing 2 fuel 0 ⟨tree, [], []⟩ =
          .ok ⟨partition, (pks.filter (Fails oneFailing)).flatMap oneFailing, pks⟩ ∧
        allMembers partition = .ok (pks.filter (Fails oneFailing)) := by
  refine ⟨by decide, ?_⟩
  rcases revalidateInvalid_visits oneFailing
    [.insert 3, .insert 1, .insert 2, .insert 1] (show (0 : UInt32) < 2 by decide) with
    ⟨opened, tree, pks, created, changed, listed, nodup, marked, visits⟩
  refine ⟨opened, tree, pks, created, changed, listed, nodup, ?_, visits⟩
  rw [marked]
  decide

end Revalidation

end Seisin
