import Mathlib
import Seisin.Storage.BTree.Rebuild

/-!
# The representation invariant

A tree represents a shape when its pages store it, its keys and capacities are as they should be, its
leaves are linked in order, its pages are among those allocated and its superblock says what the tree
says.  Every operation keeps that, and does to the entries what it is for.  A rebuild from entries
with a repeated key keeps less: the keys are in order, but not each there once.
-/

namespace Seisin

open SortedList Separated LinkedList

namespace Shape

/-- The leaves are among the pages. -/
theorem leafIds_sublist : ∀ {depth : ℕ} (shape : Shape depth),
    shape.leafIds.Sublist shape.pageIds := by
  intro depth
  induction depth with
  | zero => exact fun _ => List.Sublist.refl _
  | succ depth ih =>
      intro shape
      rcases shape.exists_node with ⟨id, children, last, rfl⟩
      rw [leafIds_node, pageIds_node, Row.pageIds_mk, Row.leafIds]
      have row := (List.Sublist.flatMap_right children fun child _ => ih child.2).append (ih last)
      exact row.trans (List.sublist_cons_self _ _)

theorem leafIds_ne_nil : ∀ {depth : ℕ} (shape : Shape depth), shape.leafIds ≠ []
  | 0, _ => List.cons_ne_nil _ _
  | _ + 1, shape => List.append_ne_nil_of_right_ne_nil _ (leafIds_ne_nil shape.2.2)

theorem depth_lt_pageIds : ∀ {depth : ℕ} (shape : Shape depth), depth < shape.pageIds.length := by
  intro depth
  induction depth with
  | zero => exact fun _ => Nat.one_pos
  | succ depth ih =>
      intro shape
      rcases shape.exists_node with ⟨id, children, last, rfl⟩
      have below := ih last
      rw [pageIds_node, List.length_cons, Row.pageIds_mk, List.length_append]
      omega

end Shape

theorem Row.leafIds_sublist {depth : ℕ} (row : Row depth) :
    row.leafIds.Sublist row.pageIds := by
  rcases row with ⟨children, last⟩
  rw [Row.pageIds_mk, Row.leafIds]
  exact (List.Sublist.flatMap_right children fun child _ => child.2.leafIds_sublist).append
    last.leafIds_sublist

theorem Relinked.linked {pages newPages : PageId → Page} {next newNext : PageId}
    {leafIds newLeafIds : List PageId}
    (relinked : Relinked pages newPages next newNext leafIds newLeafIds)
    (linked : Linked nullPage (linksOf pages) nullPage leafIds) (nodup : leafIds.Nodup)
    (old : ∀ id ∈ leafIds, 0 < id ∧ id < next) :
    Linked nullPage (linksOf newPages) nullPage newLeafIds := by
  rcases relinked with ⟨rfl, unchanged⟩ | ⟨before, id, newId, after, rfl, rfl, _, spliced⟩
  · exact linked_congr (fun id idMem => unchanged id (old id idMem).2) linked
  · exact linked.splice spliced nodup (fun other otherMem => (old other otherMem).1.ne')
      (fun other otherMem => (old other otherMem).2)

namespace BPlusTree

/-- The sizes are valid and the capacities are the ones they give. -/
structure Sized (tree : BPlusTree) : Prop where
  valid : validatePageSize tree.pageSize = .ok ()
  leaf : Seisin.maxLeafEntries tree.pageSize tree.keySize tree.valueSize =
    .ok tree.maxLeafEntries
  internal : Seisin.maxInternalEntries tree.pageSize tree.keySize = tree.maxInternalEntries
  leafRoom : 0 < tree.maxLeafEntries
  internalRoom : 0 < tree.maxInternalEntries

structure Represents (tree : BPlusTree) {depth : ℕ} (shape : Shape depth) : Prop where
  sized : tree.Sized
  root : tree.rootPageId = shape.rootId
  stored : Stored tree.store.pages shape.layout
  ordered : Shape.Ordered depth none none shape
  fits : shape.Fits tree.maxLeafEntries tree.maxInternalEntries
  linked : Linked nullPage (linksOf tree.store.pages) nullPage shape.leafIds
  nodup : shape.pageIds.Nodup
  fresh : ∀ id ∈ shape.pageIds, 0 < id ∧ id < tree.nextPageId
  count : tree.totalCount = shape.size
  records : ∀ entry ∈ shape.entries,
    entry.1.length = tree.keySize ∧ entry.2.length = tree.valueSize
  saved : tree.store.superblock = some ⟨tree.pageSize, tree.keySize, tree.valueSize,
    tree.rootPageId, tree.totalCount, tree.nextPageId⟩

/-- The same for a tree in which keys may be repeated. -/
structure Arranged (tree : BPlusTree) {depth : ℕ} (shape : Shape depth) : Prop where
  sized : tree.Sized
  root : tree.rootPageId = shape.rootId
  stored : Stored tree.store.pages shape.layout
  sorted : Shape.OrderedBy (· ≤ ·) depth none none shape
  fits : shape.Fits tree.maxLeafEntries tree.maxInternalEntries
  linked : Linked nullPage (linksOf tree.store.pages) nullPage shape.leafIds
  nodup : shape.pageIds.Nodup
  fresh : ∀ id ∈ shape.pageIds, 0 < id ∧ id < tree.nextPageId
  count : tree.totalCount = shape.size
  records : ∀ entry ∈ shape.entries,
    entry.1.length = tree.keySize ∧ entry.2.length = tree.valueSize
  saved : tree.store.superblock = some ⟨tree.pageSize, tree.keySize, tree.valueSize,
    tree.rootPageId, tree.totalCount, tree.nextPageId⟩

variable {search : Search Bytes} {tree : BPlusTree} {depth : ℕ} {shape : Shape depth}
  {key value : Bytes}

theorem Represents.arranged (represents : Represents tree shape) : Arranged tree shape where
  __ := represents
  sorted := represents.ordered.le

theorem Arranged.represents (arranged : Arranged tree shape)
    (ordered : Shape.Ordered depth none none shape) : Represents tree shape where
  __ := arranged
  ordered := ordered

namespace Arranged

theorem leaf_fresh (arranged : Arranged tree shape) :
    ∀ id ∈ shape.leafIds, 0 < id ∧ id < tree.nextPageId :=
  fun id idMem => arranged.fresh id (shape.leafIds_sublist.subset idMem)

theorem leaf_nodup (arranged : Arranged tree shape) : shape.leafIds.Nodup :=
  arranged.nodup.sublist shape.leafIds_sublist

theorem readable (arranged : Arranged tree shape) :
    Readable tree.store.pages tree.nextPageId shape.leafIds := by
  intro id idMem
  have positive := (arranged.leaf_fresh id idMem).1
  refine ⟨(arranged.leaf_fresh id idMem).2, ?_⟩
  intro prior following link
  rcases List.append_of_mem idMem with ⟨before, after, split⟩
  have linked := arranged.linked
  rw [split] at linked
  rcases linked.next with ⟨named, next⟩
  rw [next, Option.some.injEq, Prod.mk.injEq] at link
  cases after with
  | nil =>
      have none : nullPage = following := link.2
      rw [← none]
      exact ⟨positive.trans (arranged.leaf_fresh id idMem).2, fun real => absurd rfl real⟩
  | cons second after =>
      have here : second = following := link.2
      subst here
      have secondMem : second ∈ shape.leafIds := by
        rw [split]
        simp
      refine ⟨(arranged.leaf_fresh second secondMem).2, fun _ => ⟨?_, ?_⟩⟩
      · have nodup := arranged.leaf_nodup
        rw [split, List.nodup_append', List.nodup_cons] at nodup
        rintro rfl
        exact nodup.2.1.1 List.mem_cons_self
      · have further : Linked nullPage (linksOf tree.store.pages) nullPage
            ((before ++ [id]) ++ second :: after) := by
          rw [List.append_assoc]
          exact linked
        rcases further.next with ⟨_, secondLink⟩
        cases page : tree.store.pages second with
        | leaf node => exact ⟨node, rfl⟩
        | internal node =>
            rw [linksOf, page] at secondLink
            cases secondLink

theorem held (arranged : Arranged tree shape) : Held tree none none shape where
  stored := arranged.stored
  nodup := arranged.nodup
  fresh := fun id idMem => (arranged.fresh id idMem).2
  readable := arranged.readable
  sorted := arranged.sorted
  fits := arranged.fits

/-- The bound of a descent is enough: there are more pages than levels. -/
theorem deep (arranged : Arranged tree shape) : depth < tree.nextPageId := by
  have within : shape.pageIds ⊆ List.range tree.nextPageId :=
    fun id idMem => List.mem_range.mpr (arranged.fresh id idMem).2
  have length := (List.subperm_of_subset arranged.nodup within).length_le
  rw [List.length_range] at length
  exact shape.depth_lt_pageIds.trans_le length

end Arranged

theorem Represents.deep (represents : Represents tree shape) : depth < tree.nextPageId :=
  represents.arranged.deep

/-! ## Creation and reopening -/

/-- A row in the pages of a tree that is about to be saved. -/
structure RowHeld (tree : BPlusTree) (newPages : PageId → Page) (newNext : PageId)
    (row : Row depth) : Prop where
  stored : Stored newPages row.layout
  sorted : row.OrderedBy (· ≤ ·) none none
  fits : row.Fits tree.maxLeafEntries tree.maxInternalEntries
  linked : Linked nullPage (linksOf newPages) nullPage row.leafIds
  nodup : row.pageIds.Nodup
  fresh : ∀ id ∈ row.pageIds, 0 < id ∧ id < newNext

/-- The tree with other pages, root and count, saved. -/
def updated (tree : BPlusTree) (pages : PageId → Page) (next root : PageId) (count : ℕ) :
    BPlusTree :=
  writeSuperblock { tree.withPages pages next with rootPageId := root, totalCount := count }

/-- A tree that was saved with one tree in its pages has it arranged. -/
theorem RowHeld.arranged {newPages : PageId → Page} {newNext : PageId} {newShape : Shape depth}
    (held : RowHeld tree newPages newNext (Row.single newShape)) (sized : tree.Sized)
    (records : ∀ entry ∈ newShape.entries,
      entry.1.length = tree.keySize ∧ entry.2.length = tree.valueSize) :
    Arranged (tree.updated newPages newNext newShape.rootId newShape.size) newShape where
  sized := ⟨sized.valid, sized.leaf, sized.internal, sized.leafRoom, sized.internalRoom⟩
  root := rfl
  stored := held.stored
  sorted := held.sorted
  fits := held.fits.2
  linked := held.linked
  nodup := held.nodup
  fresh := held.fresh
  count := rfl
  records := records
  saved := rfl

theorem represents_empty (sized : tree.Sized) :
    Represents (tree.updated (Function.update PageStore.create.pages 1
      (.leaf ⟨nullPage, nullPage, []⟩)) 2 1 0) (Shape.leaf 1 []) := by
  have ordered : Shape.Ordered 0 none none (Shape.leaf 1 []) := by
    have anything : Within none none ([] : Bytes) := Within.none
    exact ⟨anything.below, Ascending.nil, by simp [Shape.leaf]⟩
  have held : RowHeld tree (Function.update PageStore.create.pages 1
      (.leaf ⟨nullPage, nullPage, []⟩)) 2 (Row.single (Shape.leaf 1 [])) := by
    constructor
    · rw [Row.layout_single, Shape.layout_leaf]
      refine stored_cons.mpr ⟨?_, by simp [Stored]⟩
      rfl
    · exact ordered.le
    · exact ⟨by simp [Row.single], Nat.zero_le _⟩
    · exact ⟨rfl, trivial⟩
    · exact List.nodup_singleton _
    · intro id idMem
      rw [Row.pageIds_single, Shape.pageIds_leaf, List.mem_singleton] at idMem
      subst idMem
      exact ⟨Nat.one_pos, Nat.one_lt_two⟩
  exact (held.arranged sized (by simp)).represents ordered

theorem create_ok {keySize valueSize pageSize : ℕ}
    (created : create keySize valueSize pageSize = .ok tree) :
    Represents tree (Shape.leaf 1 []) ∧ tree.keySize = keySize ∧ tree.valueSize = valueSize := by
  unfold create at created
  split at created
  · cases created
  · cases created
  · rename_i maxLeaf valid leaf
    split at created
    · cases created
    · rename_i leafRoom
      split at created
      · cases created
      · rename_i internalRoom
        rw [Except.ok.injEq] at created
        subst created
        refine ⟨?_, rfl, rfl⟩
        have sized : Sized
            { store := PageStore.create
              pageSize := pageSize
              keySize := keySize
              valueSize := valueSize
              rootPageId := 1
              totalCount := 0
              nextPageId := 2
              maxLeafEntries := maxLeaf
              maxInternalEntries := Seisin.maxInternalEntries pageSize keySize } :=
          ⟨valid, leaf, rfl, Nat.pos_of_ne_zero leafRoom, Nat.pos_of_ne_zero internalRoom⟩
        exact represents_empty sized

theorem openFile_eq (arranged : Arranged tree shape) : openFile tree.store = .ok tree := by
  have sized := arranged.sized
  simp only [openFile, arranged.saved, sized.valid, sized.leaf, sized.internal]

/-! ## Insertion -/

theorem Arranged.rowHeld (arranged : Arranged tree shape) {newPages : PageId → Page}
    (follows : Follows tree.store.pages newPages tree.nextPageId
      (shape.insert search tree.maxLeafEntries tree.maxInternalEntries key value tree.nextPageId).2
      shape.layout
      (shape.insert search tree.maxLeafEntries tree.maxInternalEntries key value
        tree.nextPageId).1.layout
      shape.leafIds
      (shape.insert search tree.maxLeafEntries tree.maxInternalEntries key value
        tree.nextPageId).1.leafIds) :
    RowHeld tree newPages
      (shape.insert search tree.maxLeafEntries tree.maxInternalEntries key value tree.nextPageId).2
      (shape.insert search tree.maxLeafEntries tree.maxInternalEntries key value
        tree.nextPageId).1 := by
  have leafRoom := arranged.sized.leafRoom
  rcases Shape.insert_pages search tree.maxInternalEntries key value leafRoom shape
    tree.nextPageId with ⟨count, advanced, pageIds⟩
  constructor
  · exact follows.stored
  · exact Shape.insert_orderedBy comparison_le leafRoom arranged.sorted Within.none
  · exact Shape.insert_fits leafRoom arranged.sized.internalRoom arranged.sorted arranged.fits
  · exact follows.relinked.linked arranged.linked arranged.leaf_nodup arranged.leaf_fresh
  · rw [pageIds.nodup_iff, List.nodup_append']
    refine ⟨arranged.nodup, List.nodup_range', ?_⟩
    intro id old new
    exact absurd (List.mem_range'_1.mp new).1 (not_le.mpr (arranged.fresh id old).2)
  · intro id idMem
    rw [pageIds.mem_iff, List.mem_append, List.mem_range'_1] at idMem
    rw [advanced]
    rcases idMem with old | new
    · have bounds := arranged.fresh id old
      exact ⟨bounds.1, bounds.2.trans_le (Nat.le_add_right _ _)⟩
    · have first := (arranged.fresh shape.rootId shape.rootId_mem_pageIds)
      exact ⟨(first.1.trans first.2).trans_le new.1, new.2⟩

/-- A new root over the row. -/
theorem RowHeld.raise {newPages : PageId → Page} {newNext : PageId} {row : Row depth}
    (held : RowHeld tree newPages newNext row) (positive : 0 < newNext)
    (room : row.1.length ≤ tree.maxInternalEntries) :
    RowHeld tree (Function.update newPages newNext (.internal (Shape.rowNode row))) (newNext + 1)
      (Row.single (Shape.node newNext row)) := by
  have outside : newNext ∉ row.pageIds := fun inside => lt_irrefl _ (held.fresh _ inside).2
  have fresh : ∀ id ∈ row.leafIds, id ≠ newNext :=
    fun id idMem => (held.fresh id (row.leafIds_sublist.subset idMem)).2.ne
  constructor
  · rw [Row.layout_single, Shape.layout_node]
    refine stored_cons.mpr ⟨?_, held.stored.update_of_notMem _ outside⟩
    rw [Function.update_self]
    rfl
  · exact held.sorted
  · exact ⟨by simp [Row.single], room, held.fits⟩
  · refine linked_congr ?_ held.linked
    intro id idMem
    rw [linksOf, linksOf, Function.update_of_ne (fresh id idMem)]
  · exact List.nodup_cons.mpr ⟨outside, held.nodup⟩
  · intro id idMem
    rw [Row.pageIds_single, Shape.pageIds_node, List.mem_cons] at idMem
    rcases idMem with rfl | inside
    · exact ⟨positive, Nat.lt_succ_self _⟩
    · have bounds := held.fresh id inside
      exact ⟨bounds.1, bounds.2.trans (Nat.lt_succ_self _)⟩

/-- An insertion keeps the keys in order, and each there once where that was so. -/
theorem insert_arranged (search : Search Bytes) (arranged : Arranged tree shape)
    (keySize : key.length = tree.keySize) (valueSize : value.length = tree.valueSize) :
    ∃ (newTree : BPlusTree) (newDepth : ℕ) (newShape : Shape newDepth),
      insertWith search tree key value = .ok newTree ∧ Arranged newTree newShape ∧
      newTree.keySize = tree.keySize ∧ newTree.valueSize = tree.valueSize ∧
      (Shape.Ordered depth none none shape → Shape.Ordered newDepth none none newShape ∧
        newShape.entries = upsert key value shape.entries) := by
  have leafRoom := arranged.sized.leafRoom
  have done : Inserted search tree key value tree.nextPageId shape :=
    inserted leafRoom arranged.deep arranged.held
  rcases done with ⟨newPages, result, follows⟩
  have held := arranged.rowHeld follows
  have growth : Grown shape (!shape.found key) (shape.insert search tree.maxLeafEntries
    tree.maxInternalEntries key value tree.nextPageId).1 := arranged.held.grown leafRoom
  have strictly : Shape.Ordered depth none none shape →
      (shape.insert search tree.maxLeafEntries tree.maxInternalEntries key value
        tree.nextPageId).1.Ordered none none ∧
      (shape.insert search tree.maxLeafEntries tree.maxInternalEntries key value
        tree.nextPageId).1.entries = upsert key value shape.entries :=
    fun ordered => ⟨Shape.insert_ordered leafRoom ordered Within.none,
      Shape.insert_entries leafRoom ordered⟩
  have records : ∀ entry ∈ (shape.insert search tree.maxLeafEntries tree.maxInternalEntries key
      value tree.nextPageId).1.entries,
      entry.1.length = tree.keySize ∧ entry.2.length = tree.valueSize := by
    intro entry entryMem
    rcases Shape.mem_insert leafRoom entryMem with rfl | present
    · exact ⟨keySize, valueSize⟩
    · exact arranged.records entry present
  have positive : 0 < (shape.insert search tree.maxLeafEntries tree.maxInternalEntries key value
      tree.nextPageId).2 := by
    have first := arranged.fresh shape.rootId shape.rootId_mem_pageIds
    exact (first.1.trans first.2).trans_le follows.grows
  rw [← arranged.root] at result
  clear follows
  -- only the row that the root has grown into matters from here on
  generalize shape.insert search tree.maxLeafEntries tree.maxInternalEntries key value
    tree.nextPageId = grown at *
  rcases grown with ⟨grown, newNext⟩
  rcases growth.cases with
    ⟨newShape, rfl, root, size⟩ | ⟨separator, first, last, rfl, root, size⟩
  · have final := held.arranged arranged.sized records
    refine ⟨_, depth, newShape, ?_, final, rfl, rfl, strictly⟩
    simp only [insertWith, keySize, valueSize, ne_eq, not_true_eq_false, if_false, result, outcomeOf,
      Row.single]
    rw [updated, root, ← arranged.root, size, ← arranged.count]
    rfl
  · have raised := held.raise positive arranged.sized.internalRoom
    have final := raised.arranged arranged.sized records
    refine ⟨_, depth + 1, Shape.node newNext ([(separator, first)], last), ?_, final, rfl, rfl,
      strictly⟩
    have counted : (Shape.node newNext ([(separator, first)], last)).size =
        tree.totalCount + (!shape.found key).toNat := by
      rw [arranged.count]
      exact growth.size
    have page : Shape.rowNode ([(separator, first)], last) =
        ⟨[(separator, tree.rootPageId,
          tree.totalCount + (!shape.found key).toNat - last.size)],
          last.rootId, last.size⟩ := by
      simp [Shape.rowNode, root, size, arranged.root, arranged.count]
    simp only [insertWith, keySize, valueSize, ne_eq, not_true_eq_false, if_false, result, outcomeOf]
    rw [updated, counted, page]
    rfl

theorem insertWith_ok (search : Search Bytes) (represents : Represents tree shape)
    (keySize : key.length = tree.keySize) (valueSize : value.length = tree.valueSize) :
    ∃ (newTree : BPlusTree) (newDepth : ℕ) (newShape : Shape newDepth),
      insertWith search tree key value = .ok newTree ∧ Represents newTree newShape ∧
      newTree.keySize = tree.keySize ∧ newTree.valueSize = tree.valueSize ∧
      newShape.entries = upsert key value shape.entries := by
  rcases insert_arranged search represents.arranged keySize valueSize with
    ⟨newTree, newDepth, newShape, inserted, arranged, sameKey, sameValue, strictly⟩
  rcases strictly represents.ordered with ⟨ordered, entries⟩
  exact ⟨newTree, newDepth, newShape, inserted, arranged.represents ordered, sameKey, sameValue,
    entries⟩

theorem insert_ok (represents : Represents tree shape) (keySize : key.length = tree.keySize)
    (valueSize : value.length = tree.valueSize) :
    ∃ (newTree : BPlusTree) (newDepth : ℕ) (newShape : Shape newDepth),
      tree.insert key value = .ok newTree ∧ Represents newTree newShape ∧
      newTree.keySize = tree.keySize ∧ newTree.valueSize = tree.valueSize ∧
      newShape.entries = upsert key value shape.entries :=
  insertWith_ok .first represents keySize valueSize

theorem insert_wrong_size (search : Search Bytes)
    (wrong : key.length ≠ tree.keySize ∨ value.length ≠ tree.valueSize) :
    ∃ message, insertWith search tree key value = .error (.error message) := by
  unfold insertWith
  by_cases keySize : key.length = tree.keySize
  · have valueSize : value.length ≠ tree.valueSize :=
      wrong.resolve_left fun differ => differ keySize
    rw [if_neg (not_not.mpr keySize), if_pos valueSize]
    exact ⟨_, rfl⟩
  · rw [if_pos keySize]
    exact ⟨_, rfl⟩

/-! ## Removal -/

theorem remove_arranged (search : Search Bytes) (arranged : Arranged tree shape)
    (keySize : key.length = tree.keySize) :
    ∃ (newTree : BPlusTree) (newShape : Shape depth),
      removeWith search tree key = .ok (shape.found key, newTree) ∧ Arranged newTree newShape ∧
      newTree.keySize = tree.keySize ∧ newTree.valueSize = tree.valueSize ∧
      (Shape.Ordered depth none none shape → Shape.Ordered depth none none newShape ∧
        newShape.entries = removeKey key shape.entries) := by
  have found : contains key tree.nextPageId tree tree.rootPageId = .ok (shape.found key) := by
    rw [arranged.root]
    exact contains_eq arranged.deep arranged.stored
  cases present : shape.found key with
  | false =>
      refine ⟨tree, shape, ?_, arranged, rfl, rfl, ?_⟩
      · simp only [removeWith, keySize, ne_eq, not_true_eq_false, if_false, found, present]
      · intro ordered
        rw [Shape.found_eq ordered] at present
        refine ⟨ordered, (removeKey_of_differ ?_).symm⟩
        intro entry entryMem same
        have there : hasKey key shape.entries = true :=
          hasKey_iff.mpr ⟨entry.2, by rw [← same]; exact entryMem⟩
        rw [present] at there
        cases there
  | true =>
      rcases removeFrom_follows arranged.deep arranged.stored arranged.nodup present with
        ⟨newPages, result, shrunk⟩
      rw [← arranged.root] at result
      have held : RowHeld tree newPages tree.nextPageId
          (Row.single (Shape.remove search key shape)) := by
        constructor
        · exact shrunk.stored
        · exact Shape.remove_orderedBy arranged.sorted Within.none
        · exact ⟨by simp [Row.single], Shape.remove_fits arranged.fits⟩
        · rw [Row.leafIds_single, Shape.leafIds_remove]
          exact linked_congr (fun id _ => shrunk.links id) arranged.linked
        · rw [Row.pageIds_single, Shape.pageIds_remove]
          exact arranged.nodup
        · rw [Row.pageIds_single, Shape.pageIds_remove]
          exact arranged.fresh
      have records : ∀ entry ∈ (Shape.remove search key shape).entries,
          entry.1.length = tree.keySize ∧ entry.2.length = tree.valueSize :=
        fun entry entryMem => arranged.records entry (Shape.mem_of_mem_remove entryMem)
      refine ⟨_, _, ?_, held.arranged arranged.sized records, rfl, rfl, ?_⟩
      · simp only [removeWith, keySize, ne_eq, not_true_eq_false, if_false, found, present, result]
        rw [updated, Shape.rootId_remove, ← arranged.root, Shape.remove_size present,
          ← arranged.count]
        rfl
      · exact fun ordered => ⟨Shape.remove_ordered ordered Within.none,
          Shape.remove_entries ordered⟩

theorem removeWith_ok (search : Search Bytes) (represents : Represents tree shape)
    (keySize : key.length = tree.keySize) :
    ∃ (newTree : BPlusTree) (newShape : Shape depth),
      removeWith search tree key = .ok (hasKey key shape.entries, newTree) ∧
      Represents newTree newShape ∧
      newTree.keySize = tree.keySize ∧ newTree.valueSize = tree.valueSize ∧
      newShape.entries = removeKey key shape.entries := by
  rcases remove_arranged search represents.arranged keySize with
    ⟨newTree, newShape, removed, arranged, sameKey, sameValue, strictly⟩
  rcases strictly represents.ordered with ⟨ordered, entries⟩
  rw [Shape.found_eq represents.ordered] at removed
  exact ⟨newTree, newShape, removed, arranged.represents ordered, sameKey, sameValue, entries⟩

theorem remove_ok (represents : Represents tree shape) (keySize : key.length = tree.keySize) :
    ∃ (newTree : BPlusTree) (newShape : Shape depth),
      tree.remove key = .ok (hasKey key shape.entries, newTree) ∧ Represents newTree newShape ∧
      newTree.keySize = tree.keySize ∧ newTree.valueSize = tree.valueSize ∧
      newShape.entries = removeKey key shape.entries :=
  removeWith_ok .first represents keySize

theorem remove_wrong_size (search : Search Bytes) (wrong : key.length ≠ tree.keySize) :
    ∃ message, removeWith search tree key = .error (.error message) := by
  unfold removeWith
  rw [if_pos wrong]
  exact ⟨_, rfl⟩

/-! ## Bulk rebuild -/

/-- Sorting puts entries in ascending order. -/
theorem ascendingBy_mergeSort (entries : List (Bytes × Bytes)) :
    AscendingBy (· ≤ ·) (entries.mergeSort fun first second => decide (first.1 ≤ second.1)) := by
  have sorted : (entries.mergeSort fun first second => decide (first.1 ≤ second.1)).Pairwise
      fun first second => decide (first.1 ≤ second.1) = true := by
    apply List.pairwise_mergeSort
    · intro first second third
      simpa using le_trans
    · intro first second
      simpa using le_total first.1 second.1
  exact sorted.imp fun less => by simpa using less

/-- Distinct keys are then in strictly ascending order. -/
theorem ascending_mergeSort {entries : List (Bytes × Bytes)}
    (distinct : (entries.map Prod.fst).Nodup) :
    Ascending (entries.mergeSort fun first second => decide (first.1 ≤ second.1)) := by
  have keys := ((List.mergeSort_perm entries
    fun first second => decide (first.1 ≤ second.1)).map Prod.fst).nodup_iff.mpr distinct
  rw [List.nodup_iff_pairwise_ne, List.pairwise_map] at keys
  refine ((ascendingBy_mergeSort entries).and keys).imp ?_
  intro first second both
  exact lt_of_le_of_ne both.1 both.2

theorem rowHeld_rebuilt {base : BPlusTree} {maxLeaf count more height : ℕ}
    {contents : List (Bytes × Bytes)} {row : Row 0} {newShape : Shape height}
    {newPages finalPages : PageId → Page} (first : base.nextPageId = 1)
    (leafCapacity : base.maxLeafEntries = maxLeaf) (ascending : AscendingBy (· ≤ ·) contents)
    (leaves : LeavesWritten base maxLeaf nullPage contents row newPages count)
    (raised : Raised (base.withPages newPages (1 + count)) row newShape finalPages more) :
    RowHeld base finalPages (1 + count + more) (Row.single newShape) := by
  have pageIds : newShape.pageIds.Perm (List.range' 1 (count + more)) := by
    have ids := raised.pageIds
    rwa [leaves.pageIds, first, nextPageId_withPages, List.range'_append_1] at ids
  constructor
  · exact raised.stored
  · exact raised.ordered _ _
      (leaves.ordered comparison_le _ _ ascending fun _ _ => WithinBy.none)
  · rw [leafCapacity]
    exact ⟨by simp [Row.single], raised.fits _ (leaves.fits _)⟩
  · rw [Row.leafIds_single, raised.leafIds]
    refine linked_congr ?_ leaves.linked
    intro id idMem
    rw [leaves.leafIds, first, List.mem_range'_1] at idMem
    rw [linksOf, linksOf, raised.same id idMem.2, pages_withPages]
  · rw [Row.pageIds_single, pageIds.nodup_iff]
    exact List.nodup_range'
  · intro id idMem
    rw [Row.pageIds_single, pageIds.mem_iff, List.mem_range'_1] at idMem
    rw [Nat.add_assoc]
    exact idMem

/-- The tree after its file was truncated. -/
def emptied (tree : BPlusTree) : BPlusTree :=
  { tree with store := PageStore.create, nextPageId := 1, totalCount := 0 }

def counted (tree : BPlusTree) (count : ℕ) : BPlusTree := { tree with totalCount := count }

theorem rebuildFrom_cons {entries rest : List (Bytes × Bytes)} {first : Bytes × Bytes}
    (checked : (entries.all fun entry =>
      entry.1.length = tree.keySize ∧ entry.2.length = tree.valueSize) = true)
    (sorted : (entries.mergeSort fun one other => one.1 ≤ other.1) = first :: rest) :
    tree.rebuildFrom entries =
      let leafChunks := chunks (max tree.maxLeafEntries 1) (first :: rest).length (first :: rest)
      let level := leafLevel 1 leafChunks
      match buildInternalLevels level.length
          ((tree.emptied.writeLeaves nullPage leafChunks).counted (first :: rest).length) level with
      | .error failure => .error failure
      | .ok (root, tree) => .ok (writeSuperblock { tree with rootPageId := root }) := by
  rw [rebuildFrom, if_neg (not_not.mpr checked), sorted]
  rfl

/-- A rebuild sorts the entries, and every key is there as often as it was given. -/
theorem rebuildFrom_arranged (sized : tree.Sized) {entries : List (Bytes × Bytes)}
    (records : ∀ entry ∈ entries,
      entry.1.length = tree.keySize ∧ entry.2.length = tree.valueSize) :
    ∃ (newTree : BPlusTree) (newDepth : ℕ) (newShape : Shape newDepth),
      tree.rebuildFrom entries = .ok newTree ∧ Arranged newTree newShape ∧
      newTree.keySize = tree.keySize ∧ newTree.valueSize = tree.valueSize ∧
      newShape.entries = (entries.mergeSort fun first second => first.1 ≤ second.1) ∧
      ((entries.map Prod.fst).Nodup → Shape.Ordered newDepth none none newShape) := by
  have checked : (entries.all fun entry =>
      entry.1.length = tree.keySize ∧ entry.2.length = tree.valueSize) = true := by
    simpa [List.all_eq_true] using records
  have emptiedSized : tree.emptied.Sized :=
    ⟨sized.valid, sized.leaf, sized.internal, sized.leafRoom, sized.internalRoom⟩
  have ascending := ascendingBy_mergeSort entries
  have strictly : (entries.map Prod.fst).Nodup →
      Ascending (entries.mergeSort fun first second => decide (first.1 ≤ second.1)) :=
    ascending_mergeSort
  have sortedRecords : ∀ entry ∈ entries.mergeSort fun first second => first.1 ≤ second.1,
      entry.1.length = tree.keySize ∧ entry.2.length = tree.valueSize :=
    fun entry entryMem => records entry (List.mem_mergeSort.mp entryMem)
  cases sorted : entries.mergeSort fun one other => decide (one.1 ≤ other.1) with
  | nil =>
      have final := represents_empty emptiedSized
      refine ⟨tree.emptied.updated _ 2 1 0, 0, Shape.leaf 1 [], ?_, final.arranged, rfl, rfl, rfl,
        fun _ => final.ordered⟩
      rw [rebuildFrom, if_neg (not_not.mpr checked), sorted]
      rfl
  | cons first rest =>
      rw [sorted] at ascending strictly sortedRecords
      have capacity : max tree.maxLeafEntries 1 = tree.maxLeafEntries :=
        Nat.max_eq_left sized.leafRoom
      rcases writeLeaves_follows sized.leafRoom (first :: rest).length tree.emptied nullPage first
        rest le_rfl with ⟨row, newPages, count, _, written, level, leaves⟩
      have fresh : ∀ id ∈ row.pageIds, id < 1 + count := by
        intro id idMem
        rw [leaves.pageIds, List.mem_range'_1] at idMem
        exact idMem.2
      have length := Row.length_level first.1 row
      rcases buildInternalLevels_follows (Row.level first.1 row).length
        ((tree.emptied.withPages newPages (1 + count)).counted (first :: rest).length)
        first.1 row sized.internalRoom (by omega) leaves.stored fresh with
        ⟨height, newShape, finalPages, more, built, raised⟩
      have held : RowHeld tree.emptied finalPages (1 + count + more) (Row.single newShape) :=
        rowHeld_rebuilt rfl rfl ascending leaves
          ⟨raised.stored, raised.pageIds, raised.same, raised.entries, raised.leafIds,
            raised.ordered, raised.fits⟩
      have contents : newShape.entries = first :: rest := raised.entries.trans leaves.entries
      have total : newShape.size = (first :: rest).length := congrArg List.length contents
      rw [← contents] at sortedRecords
      have final := held.arranged emptiedSized sortedRecords
      refine ⟨_, height, newShape, ?_, final, rfl, rfl, contents, ?_⟩
      · rw [rebuildFrom_cons checked sorted, capacity]
        have levelFrom : leafLevel 1 (chunks tree.maxLeafEntries (first :: rest).length
            (first :: rest)) = Row.level first.1 row := level
        simp only [levelFrom, written]
        have next : tree.emptied.nextPageId = 1 := rfl
        rw [next, built, updated, total]
        rfl
      · intro distinct
        rw [Shape.ordered_eq]
        exact raised.ordered _ _
          (leaves.ordered comparison_lt _ _ (strictly distinct) fun _ _ => WithinBy.none)

theorem rebuildFrom_ok (represents : Represents tree shape) {entries : List (Bytes × Bytes)}
    (distinct : (entries.map Prod.fst).Nodup)
    (records : ∀ entry ∈ entries,
      entry.1.length = tree.keySize ∧ entry.2.length = tree.valueSize) :
    ∃ (newTree : BPlusTree) (newDepth : ℕ) (newShape : Shape newDepth),
      tree.rebuildFrom entries = .ok newTree ∧ Represents newTree newShape ∧
      newTree.keySize = tree.keySize ∧ newTree.valueSize = tree.valueSize ∧
      newShape.entries = entries.mergeSort fun first second => first.1 ≤ second.1 := by
  rcases rebuildFrom_arranged represents.sized records with
    ⟨newTree, newDepth, newShape, rebuilt, arranged, sameKey, sameValue, contents, strictly⟩
  exact ⟨newTree, newDepth, newShape, rebuilt, arranged.represents (strictly distinct), sameKey,
    sameValue, contents⟩

end BPlusTree

end Seisin
