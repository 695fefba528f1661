import Mathlib
import Seisin.Lib.Service
import Seisin.Storage.BTree.Representation

/-!
# The tree refines a sorted map

What a tree is for: a finite map from keys to values of fixed sizes.  Whatever operations are done,
the tree answers as the map does and has the map's entries, in the order of the keys.
-/

namespace Seisin

open SortedList Separated LinkedList

/-- An operation on the tree of a file, with `create` starting the file over. -/
inductive TreeOp where
  | create (keySize valueSize pageSize : ℕ)
  | insert (key value : Bytes)
  | remove (key : Bytes)
  | reopen
  | rebuildFrom (entries : List (Bytes × Bytes))

/-- What an operation returns. -/
inductive TreeReply where
  | done
  | removed (found : Bool)
  | failed (message : String)

namespace TreeOp

/-- A rebuild has every key once. -/
def Distinct : TreeOp → Prop
  | .rebuildFrom entries => (entries.map Prod.fst).Nodup
  | _ => True

end TreeOp

namespace BPlusTree

/-- The operations return errors before they change anything. -/
def settleResult (tree : BPlusTree) :
    Except TreeFailure (TreeReply × BPlusTree) → Option (TreeReply × BPlusTree)
  | .ok result => some result
  | .error (.error message) => some (.failed message, tree)
  | .error .panic => none

/-- What an operation does, whichever of equal keys the search in a leaf finds. -/
def apply (search : Search Bytes) (tree : BPlusTree) :
    TreeOp → Option (TreeReply × BPlusTree)
  | .create keySize valueSize pageSize =>
      tree.settleResult ((create keySize valueSize pageSize).map fun tree => (.done, tree))
  | .insert key value =>
      tree.settleResult ((insertWith search tree key value).map fun tree => (.done, tree))
  | .remove key =>
      tree.settleResult
        ((removeWith search tree key).map fun result => (.removed result.1, result.2))
  | .reopen => tree.settleResult ((openFile tree.store).map fun tree => (.done, tree))
  | .rebuildFrom entries =>
      tree.settleResult ((tree.rebuildFrom entries).map fun tree => (.done, tree))

end BPlusTree

/-- A finite map from keys of one size to values of one size. -/
structure SizedMap where
  keySize : ℕ
  valueSize : ℕ
  map : AList fun _ : Bytes => Bytes

namespace SizedMap

def insertAll (entries : List (Bytes × Bytes)) : AList fun _ : Bytes => Bytes :=
  entries.foldr (fun entry map => map.insert entry.1 entry.2) ∅

def apply (state : SizedMap) : TreeOp → Option (TreeReply × SizedMap)
  | .create keySize valueSize pageSize =>
      match BPlusTree.create keySize valueSize pageSize with
      | .ok _ => some (.done, ⟨keySize, valueSize, ∅⟩)
      | .error (.error message) => some (.failed message, state)
      | .error .panic => none
  | .insert key value =>
      if key.length ≠ state.keySize then
        some (.failed ("key must be exactly " ++ toString state.keySize ++ " bytes, got " ++
          toString key.length), state)
      else if value.length ≠ state.valueSize then
        some (.failed ("value must be exactly " ++ toString state.valueSize ++ " bytes, got " ++
          toString value.length), state)
      else some (.done, { state with map := state.map.insert key value })
  | .remove key =>
      if key.length ≠ state.keySize then
        some (.failed ("key must be exactly " ++ toString state.keySize ++ " bytes, got " ++
          toString key.length), state)
      else some (.removed (state.map.lookup key).isSome, { state with map := state.map.erase key })
  | .reopen => some (.done, state)
  | .rebuildFrom entries =>
      if entries.all fun entry =>
          entry.1.length = state.keySize ∧ entry.2.length = state.valueSize then
        some (.done, { state with map := insertAll entries })
      else none

end SizedMap

namespace BPlusTree

variable {search : Search Bytes} {tree : BPlusTree} {depth : ℕ} {shape : Shape depth}
  {key value : Bytes}

theorem mapM_eq_ok {Source Target Failure : Type} {f : Source → Except Failure Target}
    {g : Source → Target} {sources : List Source}
    (each : ∀ source ∈ sources, f source = .ok (g source)) :
    sources.mapM f = .ok (sources.map g) := by
  induction sources with
  | nil => rfl
  | cons source sources ih =>
      rw [List.mapM_cons, each source List.mem_cons_self,
        ih fun other otherMem => each other (List.mem_cons_of_mem _ otherMem)]
      rfl

/-- The descent collects the entries in order. -/
theorem collectAll_eq : ∀ {depth : ℕ} {shape : Shape depth} {bound : ℕ}, depth < bound →
    Stored tree.store.pages shape.layout →
      collectAll bound tree shape.rootId = .ok shape.entries := by
  intro depth
  induction depth with
  | zero =>
      intro shape bound deep stored
      rcases Nat.exists_eq_succ_of_ne_zero (by omega : bound ≠ 0) with ⟨bound, rfl⟩
      rcases shape.exists_leaf with ⟨id, entries, rfl⟩
      rcases Page.eq_leaf_of_content (stored _ List.mem_cons_self) with ⟨prev, next, page⟩
      have here : tree.store.pages id = .leaf ⟨prev, next, entries⟩ := page
      simp only [collectAll, Shape.rootId_leaf, here, Shape.entries_leaf]
  | succ depth ih =>
      intro shape bound deep stored
      rcases Nat.exists_eq_succ_of_ne_zero (by omega : bound ≠ 0) with ⟨bound, rfl⟩
      have shallower := Nat.lt_of_succ_lt_succ deep
      rcases shape.exists_node with ⟨id, children, last, rfl⟩
      rw [Shape.layout_node, stored_cons, Row.layout, stored_append] at stored
      have page := Page.eq_internal_of_content stored.1
      have parts : (Shape.rowNode (children, last)).entries.mapM
          (fun entry => collectAll bound tree entry.2.1) =
          .ok (children.map fun child => child.2.entries) := by
        rw [Shape.rowNode, List.mapM_map]
        apply mapM_eq_ok
        intro child childMem
        apply ih shallower
        intro entry entryMem
        exact stored.2.1 entry (List.mem_flatMap.mpr ⟨child, childMem, entryMem⟩)
      have rightmost : collectAll bound tree (Shape.rowNode (children, last)).rightmostChild =
          .ok last.entries := ih shallower stored.2.2
      simp only [collectAll, Shape.rootId_node, page, parts, rightmost]
      rw [Shape.entries_node, Row.entries_mk, List.flatMap_def]

/-- The tree has the sizes and the entries of the map. -/
structure Refines (tree : BPlusTree) (state : SizedMap) : Prop where
  keySize : tree.keySize = state.keySize
  valueSize : tree.valueSize = state.valueSize
  represents : ∃ (depth : ℕ) (shape : Shape depth), Represents tree shape ∧
    ∀ key value, (key, value) ∈ shape.entries ↔ state.map.lookup key = some value

theorem hasKey_eq_isSome {state : SizedMap}
    (same : ∀ key value, (key, value) ∈ shape.entries ↔ state.map.lookup key = some value) :
    hasKey key shape.entries = (state.map.lookup key).isSome := by
  rw [Bool.eq_iff_iff, hasKey_iff, Option.isSome_iff_exists]
  constructor
  · rintro ⟨value, present⟩
    exact ⟨value, (same key value).mp present⟩
  · rintro ⟨value, found⟩
    exact ⟨value, (same key value).mpr found⟩

theorem lookup_insertAll {entries : List (Bytes × Bytes)}
    (distinct : (entries.map Prod.fst).Nodup) (key value : Bytes) :
    (key, value) ∈ entries ↔ (SizedMap.insertAll entries).lookup key = some value := by
  induction entries with
  | nil => simp [SizedMap.insertAll]
  | cons entry entries ih =>
      rw [List.map_cons, List.nodup_cons] at distinct
      have rest := ih distinct.2
      change _ ↔ ((SizedMap.insertAll entries).insert entry.1 entry.2).lookup key = some value
      rw [List.mem_cons]
      rcases eq_or_ne key entry.1 with rfl | differ
      · rw [AList.lookup_insert, Option.some.injEq]
        constructor
        · rintro (here | later)
          · rw [← here]
          · exact absurd (List.mem_map_of_mem later) distinct.1
        · rintro rfl
          exact Or.inl rfl
      · rw [AList.lookup_insert_ne differ, ← rest]
        constructor
        · rintro (here | later)
          · exact absurd (congrArg Prod.fst here) differ
          · exact later
        · exact Or.inr

variable {state : SizedMap}

theorem create_refines (refines : Refines tree state) (keySize valueSize pageSize : ℕ) :
    Option.Rel (Service.Agree Refines) (apply search tree (.create keySize valueSize pageSize))
      (state.apply (.create keySize valueSize pageSize)) := by
  simp only [apply, SizedMap.apply]
  cases created : create keySize valueSize pageSize with
  | error failure =>
      cases failure with
      | error message => exact Option.Rel.some ⟨rfl, refines⟩
      | panic => exact Option.Rel.none
  | ok newTree =>
      rcases create_ok created with ⟨represents, sameKey, sameValue⟩
      exact Option.Rel.some ⟨rfl, sameKey, sameValue, 0, _, represents, by simp⟩

theorem insert_refines (refines : Refines tree state) (key value : Bytes) :
    Option.Rel (Service.Agree Refines) (apply search tree (.insert key value))
      (state.apply (.insert key value)) := by
  rcases refines.represents with ⟨depth, shape, represents, same⟩
  simp only [apply, SizedMap.apply]
  by_cases keySize : key.length = tree.keySize
  · by_cases valueSize : value.length = tree.valueSize
    · rcases insertWith_ok search represents keySize valueSize with
        ⟨newTree, newDepth, newShape, inserted, final, sameKey, sameValue, entries⟩
      rw [inserted, if_neg (by rw [← refines.keySize]; exact not_not.mpr keySize),
        if_neg (by rw [← refines.valueSize]; exact not_not.mpr valueSize)]
      refine Option.Rel.some ⟨rfl, sameKey.trans refines.keySize,
        sameValue.trans refines.valueSize, newDepth, newShape, final, ?_⟩
      intro other otherValue
      rw [entries, mem_upsert represents.ordered.ascending]
      rcases eq_or_ne other key with rfl | differ
      · simp [AList.lookup_insert, eq_comm]
      · simp [AList.lookup_insert_ne differ, differ, same]
    · simp only [insertWith, keySize, valueSize, ← refines.keySize, ← refines.valueSize, ne_eq,
        not_true_eq_false, not_false_eq_true, if_true, if_false]
      exact Option.Rel.some ⟨rfl, refines⟩
  · simp only [insertWith, keySize, ← refines.keySize, ne_eq, not_false_eq_true, if_true]
    exact Option.Rel.some ⟨rfl, refines⟩

theorem remove_refines (refines : Refines tree state) (key : Bytes) :
    Option.Rel (Service.Agree Refines) (apply search tree (.remove key))
      (state.apply (.remove key)) := by
  rcases refines.represents with ⟨depth, shape, represents, same⟩
  simp only [apply, SizedMap.apply]
  by_cases keySize : key.length = tree.keySize
  · rcases removeWith_ok search represents keySize with
      ⟨newTree, newShape, removed, final, sameKey, sameValue, entries⟩
    rw [removed, if_neg (by rw [← refines.keySize]; exact not_not.mpr keySize)]
    refine Option.Rel.some ⟨congrArg TreeReply.removed (hasKey_eq_isSome same),
      sameKey.trans refines.keySize, sameValue.trans refines.valueSize, depth, newShape, final, ?_⟩
    intro other otherValue
    rw [entries, mem_removeKey represents.ordered.ascending]
    rcases eq_or_ne other key with rfl | differ
    · simp [AList.lookup_erase]
    · simp [AList.lookup_erase_ne differ, differ, same]
  · simp only [removeWith, keySize, ← refines.keySize, ne_eq, not_false_eq_true, if_true]
    exact Option.Rel.some ⟨rfl, refines⟩

theorem rebuildFrom_refines (refines : Refines tree state) {entries : List (Bytes × Bytes)}
    (distinct : (entries.map Prod.fst).Nodup) :
    Option.Rel (Service.Agree Refines) (apply search tree (.rebuildFrom entries))
      (state.apply (.rebuildFrom entries)) := by
  rcases refines.represents with ⟨depth, shape, represents, same⟩
  simp only [apply, SizedMap.apply, ← refines.keySize, ← refines.valueSize]
  cases checked : entries.all fun entry =>
      entry.1.length = tree.keySize ∧ entry.2.length = tree.valueSize with
  | false =>
      simp only [rebuildFrom, checked, Bool.false_eq_true, not_false_eq_true, if_true, if_false]
      exact Option.Rel.none
  | true =>
      have records : ∀ entry ∈ entries,
          entry.1.length = tree.keySize ∧ entry.2.length = tree.valueSize := by
        simpa [List.all_eq_true] using checked
      rcases rebuildFrom_ok represents distinct records with
        ⟨newTree, newDepth, newShape, rebuilt, final, sameKey, sameValue, contents⟩
      rw [rebuilt, if_pos rfl]
      refine Option.Rel.some ⟨rfl, sameKey, sameValue, newDepth, newShape, final, ?_⟩
      intro key value
      rw [contents, List.mem_mergeSort]
      exact lookup_insertAll distinct key value

theorem reopen_refines (refines : Refines tree state) :
    Option.Rel (Service.Agree Refines) (apply search tree .reopen) (state.apply .reopen) := by
  rcases refines.represents with ⟨depth, shape, represents, same⟩
  simp only [apply, SizedMap.apply, openFile_eq represents.arranged]
  exact Option.Rel.some ⟨rfl, refines⟩

/-- Every operation does to the tree what it does to the map. -/
theorem apply_refines (refines : Refines tree state) {op : TreeOp} (distinct : op.Distinct) :
    Option.Rel (Service.Agree Refines) (apply search tree op) (state.apply op) := by
  cases op with
  | create keySize valueSize pageSize => exact create_refines refines keySize valueSize pageSize
  | insert key value => exact insert_refines refines key value
  | remove key => exact remove_refines refines key
  | reopen => exact reopen_refines refines
  | rebuildFrom entries => exact rebuildFrom_refines refines distinct

/-- The tree keeps its invariant, its entries in order are those of the map, its count is their
number, and keys and values of the wrong size get an error and change nothing. -/
structure MatchesMap (tree : BPlusTree) (state : SizedMap) : Prop where
  represented : ∃ (depth : ℕ) (shape : Shape depth), Represents tree shape ∧
    tree.allEntries = .ok shape.entries ∧ Ascending shape.entries ∧
    ∀ key value, (key, value) ∈ shape.entries ↔ state.map.lookup key = some value
  len : tree.len = state.map.keys.length
  insertRefuses : ∀ search key value,
    key.length ≠ state.keySize ∨ value.length ≠ state.valueSize →
    ∃ message, apply search tree (.insert key value) = some (.failed message, tree)
  removeRefuses : ∀ search key, key.length ≠ state.keySize →
    ∃ message, apply search tree (.remove key) = some (.failed message, tree)

theorem Refines.matchesMap (refines : Refines tree state) : MatchesMap tree state := by
  rcases refines.represents with ⟨depth, shape, represents, same⟩
  have ascending := represents.ordered.ascending
  constructor
  · refine ⟨depth, shape, represents, ?_, ascending, same⟩
    rw [allEntries, represents.root]
    exact collectAll_eq represents.deep represents.stored
  · have keys : (shape.entries.map Prod.fst).Perm state.map.keys := by
      rw [List.perm_ext_iff_of_nodup ascending.nodup_keys state.map.keys_nodup]
      intro key
      rw [← AList.mem_keys, ← AList.lookup_isSome, Option.isSome_iff_exists, List.mem_map]
      constructor
      · rintro ⟨⟨other, value⟩, present, rfl⟩
        exact ⟨value, (same other value).mp present⟩
      · rintro ⟨value, found⟩
        exact ⟨(key, value), (same key value).mpr found, rfl⟩
    have length := keys.length_eq
    rw [List.length_map] at length
    rw [len, represents.count]
    exact length
  · intro search key value wrong
    rw [← refines.keySize, ← refines.valueSize] at wrong
    rcases insert_wrong_size search wrong with ⟨message, failed⟩
    exact ⟨message, by simp only [apply, failed]; rfl⟩
  · intro search key wrong
    rw [← refines.keySize] at wrong
    rcases remove_wrong_size search wrong with ⟨message, failed⟩
    exact ⟨message, by simp only [apply, failed]; rfl⟩

/-- A tree can be created with every size that leaves room for a record in every page. -/
theorem exists_create {keySize valueSize pageSize : ℕ}
    (valid : validatePageSize pageSize = .ok ()) (record : 0 < keySize + valueSize)
    (leafRoom : 1 ≤ (pageSize - nodeHeaderLen) / (keySize + valueSize))
    (internalRoom : 1 ≤ Seisin.maxInternalEntries pageSize keySize) :
    ∃ tree, create keySize valueSize pageSize = .ok tree := by
  have leaf : Seisin.maxLeafEntries pageSize keySize valueSize =
      .ok ((pageSize - nodeHeaderLen) / (keySize + valueSize)) := by
    rw [Seisin.maxLeafEntries, if_neg record.ne']
  unfold create
  simp only [valid, leaf]
  rw [if_neg (by omega), if_neg (by omega)]
  exact ⟨_, rfl⟩

/-- Whatever operations are done, and whatever the search in a leaf is, a tree does what the map
does: it gives the same replies and has the entries of the map. -/
theorem refines_sorted_map (search : Search Bytes) {keySize valueSize pageSize : ℕ}
    (valid : validatePageSize pageSize = .ok ()) (record : 0 < keySize + valueSize)
    (leafRoom : 1 ≤ (pageSize - nodeHeaderLen) / (keySize + valueSize))
    (internalRoom : 1 ≤ Seisin.maxInternalEntries pageSize keySize)
    (ops : List TreeOp) (distinct : ∀ op ∈ ops, op.Distinct) :
    ∃ tree, create keySize valueSize pageSize = .ok tree ∧
      Option.Rel (Service.Agree MatchesMap) (Service.run (apply search) tree ops)
        (Service.run SizedMap.apply ⟨keySize, valueSize, ∅⟩ ops) := by
  rcases exists_create valid record leafRoom internalRoom with ⟨tree, created⟩
  rcases create_ok created with ⟨represents, sameKey, sameValue⟩
  have start : Refines tree ⟨keySize, valueSize, ∅⟩ :=
    ⟨sameKey, sameValue, 0, _, represents, by simp⟩
  have simulates : ∀ op ∈ ops, ∀ tree state, Refines tree state →
      Option.Rel (Service.Agree Refines) (apply search tree op) (state.apply op) :=
    fun op opMem tree state refines => apply_refines refines (distinct op opMem)
  refine ⟨tree, created, ?_⟩
  have runs := Service.run_rel simulates start
  generalize Service.run (apply search) tree ops = result at runs ⊢
  generalize Service.run SizedMap.apply ⟨keySize, valueSize, ∅⟩ ops = expected at runs ⊢
  cases runs with
  | none => exact Option.Rel.none
  | some agree => exact Option.Rel.some ⟨agree.1, agree.2.matchesMap⟩

/-- Operations of every kind, on keys and values of one byte. -/
def sampleOps : List TreeOp :=
  [.insert [1] [10], .insert [2, 3] [20], .remove [1], .reopen,
    .rebuildFrom [([7], [70]), ([5], [50])], .create 1 1 4096]

theorem refines_sorted_map_sample :
    ∃ tree, create 1 1 4096 = .ok tree ∧
      Option.Rel (Service.Agree MatchesMap) (Service.run (apply .first) tree sampleOps)
        (Service.run SizedMap.apply ⟨1, 1, ∅⟩ sampleOps) := by
  refine refines_sorted_map .first rfl (by decide) (by decide) (by decide) sampleOps ?_
  intro op opMem
  simp only [sampleOps, List.mem_cons, List.not_mem_nil, or_false] at opMem
  rcases opMem with rfl | rfl | rfl | rfl | rfl | rfl
  · trivial
  · trivial
  · trivial
  · trivial
  · simp [TreeOp.Distinct]
  · trivial

end BPlusTree

end Seisin
