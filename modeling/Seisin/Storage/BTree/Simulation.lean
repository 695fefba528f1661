import Seisin.Storage.BTree.Insertion

/-!
# Pages that follow a shape

What a change of pages has to do for the pages to store a new shape in place of an old one: contain
the new layout, leave the content of all other pages, and keep the links of the leaves in order.
-/

namespace Seisin

open SortedList Separated LinkedList

/-- The pages contain what the layout says. -/
def Stored (pages : PageId → Page) (layout : List (PageId × Page)) : Prop :=
  ∀ entry ∈ layout, (pages entry.1).content = entry.2

/-- The neighbours every page names. -/
def linksOf (pages : PageId → Page) (id : PageId) : Option (PageId × PageId) := (pages id).links

/-- The links are as they were, or one leaf has a new right neighbour. -/
def Relinked (pages newPages : PageId → Page) (next newNext : PageId)
    (leafIds newLeafIds : List PageId) : Prop :=
  (newLeafIds = leafIds ∧ ∀ id < next, linksOf newPages id = linksOf pages id) ∨
  ∃ before id newId after, leafIds = before ++ id :: after ∧
    newLeafIds = before ++ id :: newId :: after ∧ newId < newNext ∧
    Spliced nullPage (linksOf pages) (linksOf newPages) id newId (· < next)

/-- The leaves are among the pages that were allocated, and so are their right neighbours, which
are other leaves. -/
def Readable (pages : PageId → Page) (next : PageId) (leafIds : List PageId) : Prop :=
  ∀ id ∈ leafIds, id < next ∧ ∀ prior following, linksOf pages id = some (prior, following) →
    following < next ∧
      (following ≠ nullPage → following ≠ id ∧ ∃ node, pages following = .leaf node)

/-- The new pages store the new layout in place of the old one. -/
structure Follows (pages newPages : PageId → Page) (next newNext : PageId)
    (layout newLayout : List (PageId × Page)) (leafIds newLeafIds : List PageId) : Prop where
  grows : next ≤ newNext
  stored : Stored newPages newLayout
  frame : ∀ id < next, id ∉ layout.map Prod.fst → (newPages id).content = (pages id).content
  relinked : Relinked pages newPages next newNext leafIds newLeafIds

variable {pages newPages : PageId → Page} {next newNext id : PageId}
  {layout newLayout left right : List (PageId × Page)}
  {leafIds newLeafIds leftIds rightIds : List PageId} {node : InternalNode}

theorem links_of_content {page : Page} (same : page.content = .internal node) :
    page.links = none := by
  rw [Page.eq_internal_of_content same]
  rfl

theorem stored_append : Stored pages (left ++ right) ↔ Stored pages left ∧ Stored pages right :=
  List.forall_mem_append

theorem stored_cons {page : Page} : Stored pages ((id, page) :: layout) ↔
    (pages id).content = page ∧ Stored pages layout :=
  List.forall_mem_cons

theorem Stored.congr (stored : Stored pages layout)
    (same : ∀ id ∈ layout.map Prod.fst, (newPages id).content = (pages id).content) :
    Stored newPages layout := by
  intro entry entryMem
  rw [same entry.1 (List.mem_map_of_mem entryMem)]
  exact stored entry entryMem

theorem Stored.update_of_notMem (stored : Stored pages layout) (page : Page)
    (outside : id ∉ layout.map Prod.fst) : Stored (Function.update pages id page) layout := by
  apply stored.congr
  intro other otherMem
  rw [Function.update_of_ne]
  rintro rfl
  exact outside otherMem

theorem Readable.mono (readable : Readable pages next leafIds)
    (fewer : ∀ id ∈ newLeafIds, id ∈ leafIds) : Readable pages next newLeafIds :=
  fun id idMem => readable id (fewer id idMem)

/-- Only the links of pages that were allocated matter. -/
theorem Relinked.congr {otherPages : PageId → Page} {otherNext : PageId}
    (relinked : Relinked pages newPages next newNext leafIds newLeafIds)
    (readable : Readable pages next leafIds) (grows : next ≤ newNext)
    (further : newNext ≤ otherNext)
    (same : ∀ id < newNext, linksOf otherPages id = linksOf newPages id) :
    Relinked pages otherPages next otherNext leafIds newLeafIds := by
  rcases relinked with ⟨rfl, unchanged⟩ | ⟨before, id, newId, after, rfl, rfl, allocated, spliced⟩
  · refine Or.inl ⟨rfl, ?_⟩
    intro id old
    rw [same id (old.trans_le grows)]
    exact unchanged id old
  · refine Or.inr ⟨before, id, newId, after, rfl, rfl, allocated.trans_le further, ?_⟩
    rcases readable id (List.mem_append_right _ List.mem_cons_self) with ⟨old, neighbour⟩
    constructor
    · intro prior following link
      rw [same id (old.trans_le grows), same newId allocated]
      exact spliced.here prior following link
    · intro prior following link real back further back_link
      rw [same following ((neighbour prior following link).1.trans_le grows)]
      exact spliced.there prior following link real back further back_link
    · intro prior following link other otherOld apart beyond
      rw [same other (otherOld.trans_le grows)]
      exact spliced.elsewhere prior following link other otherOld apart beyond

namespace Follows

/-- Pages that store neighbouring layouts are left alone. -/
theorem around (follows : Follows pages newPages next newNext layout newLayout leafIds newLeafIds)
    (leftStored : Stored pages left) (rightStored : Stored pages right)
    (old : ∀ id ∈ (left ++ right).map Prod.fst, id < next ∧ id ∉ layout.map Prod.fst) :
    Follows pages newPages next newNext (left ++ (layout ++ right)) (left ++ (newLayout ++ right))
      (leftIds ++ (leafIds ++ rightIds)) (leftIds ++ (newLeafIds ++ rightIds)) where
  grows := follows.grows
  stored := by
    have same : ∀ id ∈ (left ++ right).map Prod.fst,
        (newPages id).content = (pages id).content :=
      fun id idMem => follows.frame id (old id idMem).1 (old id idMem).2
    have kept := (stored_append.mpr ⟨leftStored, rightStored⟩).congr same
    rcases stored_append.mp kept with ⟨leftKept, rightKept⟩
    exact stored_append.mpr ⟨leftKept, stored_append.mpr ⟨follows.stored, rightKept⟩⟩
  frame := by
    intro id oldId outside
    rw [List.map_append, List.map_append, List.mem_append, List.mem_append] at outside
    exact follows.frame id oldId fun inside => outside (Or.inr (Or.inl inside))
  relinked := by
    rcases follows.relinked with ⟨rfl, unchanged⟩ |
      ⟨before, id, newId, after, rfl, rfl, allocated, spliced⟩
    · exact Or.inl ⟨rfl, unchanged⟩
    · exact Or.inr ⟨leftIds ++ before, id, newId, after ++ rightIds, by simp, by simp, allocated,
        spliced⟩

/-- A page outside the layouts keeps its content. -/
theorem keep (follows : Follows pages newPages next newNext layout newLayout leafIds newLeafIds)
    (old : id < next) (outside : id ∉ layout.map Prod.fst) {page : Page}
    (content : (pages id).content = page) :
    Follows pages newPages next newNext ((id, page) :: layout) ((id, page) :: newLayout)
      leafIds newLeafIds where
  grows := follows.grows
  stored := stored_cons.mpr ⟨by rw [follows.frame id old outside, content], follows.stored⟩
  frame := by
    intro other otherOld apart
    rw [List.map_cons, List.mem_cons] at apart
    exact follows.frame other otherOld fun inside => apart (Or.inr inside)
  relinked := follows.relinked

/-- The page of an inner node is written. -/
theorem write (follows : Follows pages newPages next newNext layout newLayout leafIds newLeafIds)
    (readable : Readable pages next leafIds) (old : id < next)
    (outside : id ∉ layout.map Prod.fst) (apart : id ∉ newLayout.map Prod.fst)
    {oldNode : InternalNode} (content : (pages id).content = .internal oldNode)
    (node : InternalNode) :
    Follows pages (Function.update newPages id (.internal node)) next newNext
      ((id, .internal oldNode) :: layout) ((id, .internal node) :: newLayout)
      leafIds newLeafIds where
  grows := follows.grows
  stored := by
    refine stored_cons.mpr ⟨?_, follows.stored.update_of_notMem _ apart⟩
    rw [Function.update_self]
    rfl
  frame := by
    intro other otherOld away
    rw [List.map_cons, List.mem_cons, not_or] at away
    rw [Function.update_of_ne away.1]
    exact follows.frame other otherOld away.2
  relinked := by
    apply follows.relinked.congr readable follows.grows le_rfl
    intro other _
    rcases eq_or_ne other id with rfl | differ
    · have before := follows.frame other old outside
      rw [content] at before
      rw [linksOf, linksOf, Function.update_self, links_of_content before]
      rfl
    · rw [linksOf, linksOf, Function.update_of_ne differ]

/-- A page is allocated for an inner node and written. -/
theorem allocate
    (follows : Follows pages newPages next newNext layout newLayout leafIds newLeafIds)
    (readable : Readable pages next leafIds)
    (fresh : ∀ id ∈ newLayout.map Prod.fst, id < newNext) (node : InternalNode) :
    Follows pages (Function.update newPages newNext (.internal node)) next (newNext + 1)
      layout ((newNext, .internal node) :: newLayout) leafIds newLeafIds where
  grows := follows.grows.trans (Nat.le_succ _)
  stored := by
    refine stored_cons.mpr ⟨?_, follows.stored.update_of_notMem _ ?_⟩
    · rw [Function.update_self]
      rfl
    · exact fun inside => lt_irrefl _ (fresh newNext inside)
  frame := by
    intro other otherOld away
    rw [Function.update_of_ne (otherOld.trans_le follows.grows).ne]
    exact follows.frame other otherOld away
  relinked := by
    apply follows.relinked.congr readable follows.grows (Nat.le_succ _)
    intro other otherNew
    rw [linksOf, linksOf, Function.update_of_ne otherNew.ne]

theorem rearrange
    (follows : Follows pages newPages next newNext layout newLayout leafIds newLeafIds)
    {arranged : List (PageId × Page)} (fewer : ∀ entry ∈ arranged, entry ∈ newLayout) :
    Follows pages newPages next newNext layout arranged leafIds newLeafIds where
  grows := follows.grows
  stored := fun entry entryMem => follows.stored entry (fewer entry entryMem)
  frame := follows.frame
  relinked := follows.relinked

end Follows

/-! ## One leaf -/

namespace BPlusTree

/-- The tree with other pages and another page to allocate next. -/
def withPages (tree : BPlusTree) (pages : PageId → Page) (next : PageId) : BPlusTree :=
  { tree with store := { tree.store with pages := pages }, nextPageId := next }

@[simp]
theorem pages_withPages (tree : BPlusTree) (pages : PageId → Page) (next : PageId) :
    (tree.withPages pages next).store.pages = pages := rfl

@[simp]
theorem nextPageId_withPages (tree : BPlusTree) (pages : PageId → Page) (next : PageId) :
    (tree.withPages pages next).nextPageId = next := rfl

/-- What an insertion reports when a row has taken the place of a shape. -/
def outcomeOf {depth : ℕ} (isNew : Bool) (row : Row depth) : InsertOutcome :=
  match row.1 with
  | [] => .noSplit isNew
  | (separator, _) :: _ => .split isNew separator row.2.rootId row.2.size

/-- The tree has the shape in its pages, in order and within its capacities. -/
structure Held (tree : BPlusTree) (lo hi : Option Bytes) {depth : ℕ} (shape : Shape depth) :
    Prop where
  stored : Stored tree.store.pages shape.layout
  nodup : shape.pageIds.Nodup
  fresh : ∀ id ∈ shape.pageIds, id < tree.nextPageId
  readable : Readable tree.store.pages tree.nextPageId shape.leafIds
  sorted : Shape.OrderedBy (· ≤ ·) depth lo hi shape
  fits : shape.Fits tree.maxLeafEntries tree.maxInternalEntries

variable {search : Search Bytes} {tree : BPlusTree} {key value : Bytes} {lo hi : Option Bytes}
  {bound depth : ℕ}

theorem Held.page_leaf {id : PageId} {entries : List (Bytes × Bytes)}
    (held : Held tree lo hi (Shape.leaf id entries)) :
    ∃ prev next, tree.store.pages id = .leaf ⟨prev, next, entries⟩ :=
  Page.eq_leaf_of_content (held.stored _ List.mem_cons_self)

theorem Held.page_node {id : PageId} {row : Row depth} (held : Held tree lo hi (Shape.node id row)) :
    tree.store.pages id = .internal (Shape.rowNode row) :=
  Page.eq_internal_of_content (held.stored _ List.mem_cons_self)

/-- A leaf that has room is written in place. -/
theorem follows_write_leaf {prev next id : PageId} {oldEntries : List (Bytes × Bytes)}
    (nextId : PageId) (page : pages id = .leaf ⟨prev, next, oldEntries⟩)
    (entries : List (Bytes × Bytes)) :
    Follows pages (Function.update pages id (.leaf ⟨prev, next, entries⟩)) nextId nextId
      (Shape.leaf id oldEntries).layout (Shape.leaf id entries).layout [id] [id] where
  grows := le_rfl
  stored := by
    rw [Shape.layout_leaf]
    refine stored_cons.mpr ⟨?_, by simp [Stored]⟩
    rw [Function.update_self]
    rfl
  frame := by
    intro other _ away
    rw [Function.update_of_ne]
    rintro rfl
    exact away List.mem_cons_self
  relinked := by
    refine Or.inl ⟨rfl, ?_⟩
    intro other _
    rcases eq_or_ne other id with rfl | differ
    · rw [linksOf, linksOf, Function.update_self, page]
      rfl
    · rw [linksOf, linksOf, Function.update_of_ne differ]

/-- The right neighbour of a leaf names another page before it. -/
def relink (pages : PageId → Page) (next newId : PageId) : PageId → Page :=
  if next = nullPage then pages
  else
    match pages next with
    | .leaf node => Function.update pages next (.leaf { node with prev := newId })
    | .internal _ => pages

theorem relink_cases (pages : PageId → Page) (next newId : PageId) :
    relink pages next newId = pages ∨ ∃ node, pages next = .leaf node ∧
      relink pages next newId = Function.update pages next (.leaf { node with prev := newId }) := by
  by_cases real : next = nullPage
  · exact Or.inl (by rw [relink, if_pos real])
  · cases page : pages next with
    | leaf node => exact Or.inr ⟨node, rfl, by simp only [relink, real, if_false, page]⟩
    | internal node => exact Or.inl (by simp only [relink, real, if_false, page])

theorem content_relink (pages : PageId → Page) (next newId other : PageId) :
    (relink pages next newId other).content = (pages other).content := by
  rcases relink_cases pages next newId with same | ⟨node, page, changed⟩
  · rw [same]
  · rw [changed]
    rcases eq_or_ne other next with rfl | differ
    · rw [Function.update_self, page]
      rfl
    · rw [Function.update_of_ne differ]

theorem links_relink_of_ne {next newId other : PageId} (differ : other ≠ next) :
    linksOf (relink pages next newId) other = linksOf pages other := by
  rcases relink_cases pages next newId with same | ⟨node, page, changed⟩
  · rw [same]
  · rw [changed, linksOf, linksOf, Function.update_of_ne differ]

theorem links_relink_self {next newId back further : PageId} (real : next ≠ nullPage)
    (link : linksOf pages next = some (back, further)) :
    linksOf (relink pages next newId) next = some (newId, further) := by
  cases page : pages next with
  | leaf node =>
      simp only [linksOf, page, Page.links, Option.some.injEq, Prod.mk.injEq] at link
      simp only [relink, real, if_false, page, linksOf, Function.update_self, Page.links, link.2]
  | internal node =>
      rw [linksOf, page] at link
      cases link

/-- A leaf without room is cut; the larger half goes to a new page between it and its right
neighbour. -/
theorem follows_split_leaf {prev next id newId : PageId} {oldEntries : List (Bytes × Bytes)}
    (page : pages id = .leaf ⟨prev, next, oldEntries⟩)
    (readable : Readable pages newId [id]) (separator : Bytes)
    (entries newEntries : List (Bytes × Bytes)) :
    Follows pages
      (Function.update (Function.update (relink pages next newId) id
        (.leaf ⟨prev, newId, entries⟩)) newId (.leaf ⟨id, next, newEntries⟩))
      newId (newId + 1) (Shape.leaf id oldEntries).layout
      (Row.layout ([(separator, Shape.leaf id entries)], Shape.leaf newId newEntries))
      [id] [id, newId] where
  grows := Nat.le_succ _
  stored := by
    have old := (readable id List.mem_cons_self).1
    have layout : Row.layout ([(separator, Shape.leaf id entries)], Shape.leaf newId newEntries) =
        [(id, .leaf ⟨nullPage, nullPage, entries⟩),
          (newId, .leaf ⟨nullPage, nullPage, newEntries⟩)] := rfl
    rw [layout]
    refine stored_cons.mpr ⟨?_, stored_cons.mpr ⟨?_, by simp [Stored]⟩⟩
    · rw [Function.update_of_ne old.ne, Function.update_self]
      rfl
    · rw [Function.update_self]
      rfl
  frame := by
    intro other old away
    have differ : other ≠ id := by
      rintro rfl
      exact away List.mem_cons_self
    rw [Function.update_of_ne old.ne, Function.update_of_ne differ, content_relink]
  relinked := by
    have old := (readable id List.mem_cons_self).1
    have link : linksOf pages id = some (prev, next) := by
      rw [linksOf, page]
      rfl
    rcases (readable id List.mem_cons_self).2 prev next link with ⟨nextOld, other⟩
    refine Or.inr ⟨[], id, newId, [], rfl, rfl, Nat.lt_succ_self _, ?_, ?_, ?_⟩
    · intro prior following sameLink
      rw [link] at sameLink
      cases sameLink
      refine ⟨?_, ?_⟩
      · rw [linksOf, Function.update_of_ne old.ne, Function.update_self]
        rfl
      · rw [linksOf, Function.update_self]
        rfl
    · intro prior following sameLink real back further nextLink
      rw [link] at sameLink
      cases sameLink
      rw [linksOf, Function.update_of_ne nextOld.ne, Function.update_of_ne (other real).1]
      exact links_relink_self real nextLink
    · intro prior following sameLink third thirdOld apart beyond
      rw [link] at sameLink
      cases sameLink
      have fresh : third ≠ newId := (show third < newId from thirdOld).ne
      rw [linksOf, Function.update_of_ne fresh, Function.update_of_ne apart]
      exact links_relink_of_ne beyond

/-- The pages after an insertion that made a row of a shape. -/
def Inserted (search : Search Bytes) (tree : BPlusTree) (key value : Bytes) (bound : ℕ)
    (shape : Shape depth) : Prop :=
  let grown :=
    shape.insert search tree.maxLeafEntries tree.maxInternalEntries key value tree.nextPageId
  ∃ newPages, insertInto search key value bound tree shape.rootId =
      .ok (outcomeOf (!shape.found key) grown.1, tree.withPages newPages grown.2) ∧
    Follows tree.store.pages newPages tree.nextPageId grown.2 shape.layout grown.1.layout
      shape.leafIds grown.1.leafIds

theorem insertIntoLeaf_of_le {id : PageId} {node : LeafNode}
    (room : (upsertBy search key value node.entries).length ≤ tree.maxLeafEntries) :
    insertIntoLeaf search tree id node key value = .ok (.noSplit (!hasKey key node.entries),
      tree.withPages (Function.update tree.store.pages id
        (.leaf { node with entries := upsertBy search key value node.entries })) tree.nextPageId) := by
  unfold insertIntoLeaf
  simp only [room, if_true]
  rfl

theorem insertIntoLeaf_of_lt {id : PageId} {node : LeafNode}
    {left right : List (Bytes × Bytes)} {first : Bytes × Bytes}
    (neighbour : node.next ≠ nullPage → ∃ other, tree.store.pages node.next = .leaf other)
    (full : tree.maxLeafEntries < (upsertBy search key value node.entries).length)
    (whole : upsertBy search key value node.entries = left ++ first :: right)
    (half : left.length = (upsertBy search key value node.entries).length / 2) :
    insertIntoLeaf search tree id node key value =
      .ok (.split (!hasKey key node.entries) first.1 tree.nextPageId (first :: right).length,
        tree.withPages (Function.update (Function.update
          (relink tree.store.pages node.next tree.nextPageId) id
            (.leaf ⟨node.prev, tree.nextPageId, left⟩))
            tree.nextPageId (.leaf ⟨id, node.next, first :: right⟩)) (tree.nextPageId + 1)) := by
  have overfull : ¬(upsertBy search key value node.entries).length ≤ tree.maxLeafEntries := by omega
  have lower : (upsertBy search key value node.entries).take
      ((upsertBy search key value node.entries).length / 2) = left := by
    rw [← half, whole, List.take_left]
  have upper : (upsertBy search key value node.entries).drop
      ((upsertBy search key value node.entries).length / 2) = first :: right := by
    rw [← half, whole, List.drop_left]
  unfold insertIntoLeaf
  simp only [overfull, if_false, lower, upper, List.head?_cons, Option.map_some, Option.getD_some,
    allocatePage]
  by_cases real : node.next = nullPage
  · have same : relink tree.store.pages node.next tree.nextPageId = tree.store.pages := by
      rw [relink, if_pos real]
    simp only [real, ne_eq, not_true_eq_false, if_false]
    rw [real] at same
    rw [same]
    rfl
  · rcases neighbour real with ⟨other, page⟩
    have changed : relink tree.store.pages node.next tree.nextPageId =
        Function.update tree.store.pages node.next
          (.leaf { other with prev := tree.nextPageId }) := by
      simp only [relink, real, if_false, page]
    simp only [ne_eq, real, not_false_eq_true, if_true, readLeaf, page]
    rw [changed]
    rfl

theorem inserted_leaf {id : PageId} {entries : List (Bytes × Bytes)}
    (held : Held tree lo hi (Shape.leaf id entries)) (positive : 0 < tree.maxLeafEntries) :
    Inserted search tree key value (bound + 1) (Shape.leaf id entries) := by
  rcases held.page_leaf with ⟨prev, next, page⟩
  have descent : insertInto search key value (bound + 1) tree (Shape.leaf id entries).rootId =
      insertIntoLeaf search tree id ⟨prev, next, entries⟩ key value := by
    simp only [insertInto, Shape.rootId_leaf, page]
  have grown : (Shape.leaf id entries).insert search tree.maxLeafEntries tree.maxInternalEntries
      key value tree.nextPageId = Shape.settleLeaf tree.maxLeafEntries id tree.nextPageId
        (upsertBy search key value entries) := rfl
  unfold Inserted
  rw [descent, grown]
  rcases Shape.settleLeaf_cases (upsertBy search key value entries) _ positive
    (rfl : Shape.settleLeaf tree.maxLeafEntries id tree.nextPageId
      (upsertBy search key value entries) = _) with
    ⟨room, settled⟩ | ⟨left, first, right, whole, _, half, full, settled⟩
  · rw [settled]
    exact ⟨_, insertIntoLeaf_of_le room, follows_write_leaf _ page _⟩
  · rw [settled]
    have link : linksOf tree.store.pages id = some (prev, next) := by
      rw [linksOf, page]
      rfl
    have neighbour := ((held.readable id List.mem_cons_self).2 prev next link).2
    refine ⟨_, insertIntoLeaf_of_lt (fun real => (neighbour real).2) full whole half, ?_⟩
    exact follows_split_leaf page held.readable first.1 left (first :: right)

/-! ## One inner node -/

theorem sum_counts (row : Row depth) :
    ((Shape.rowNode row).entries.map fun entry => entry.2.2).sum +
      (Shape.rowNode row).rightmostCount = row.entries.length := by
  simp only [Shape.rowNode, List.map_map, Row.entries, rowEntries, List.length_append,
    List.length_flatMap]
  rfl

theorem settleInternal_of_le {id : PageId} {node : InternalNode} {isNew : Bool}
    (room : node.entries.length ≤ tree.maxInternalEntries) :
    tree.settleInternal id node isNew = (.noSplit isNew,
      tree.withPages (Function.update tree.store.pages id (.internal node)) tree.nextPageId) := by
  rw [settleInternal, if_pos room]
  rfl

theorem settleInternal_of_lt {id : PageId} {isNew : Bool} {left right : Row depth}
    {separator : Bytes} (full : tree.maxInternalEntries < (left.join separator right).1.length)
    (half : left.1.length = (left.join separator right).1.length / 2) :
    tree.settleInternal id (Shape.rowNode (left.join separator right)) isNew =
      (.split isNew separator tree.nextPageId right.entries.length,
        tree.withPages (Function.update
          (Function.update tree.store.pages id (.internal (Shape.rowNode left)))
          tree.nextPageId (.internal (Shape.rowNode right))) (tree.nextPageId + 1)) := by
  have parts : (Shape.rowNode (left.join separator right)).entries =
      (Shape.rowNode left).entries ++
        (separator, left.2.rootId, left.2.size) :: (Shape.rowNode right).entries := by
    simp [Shape.rowNode, Row.join]
  have lengths : (Shape.rowNode (left.join separator right)).entries.length =
      (left.join separator right).1.length := List.length_map _
  have size : (Shape.rowNode left).entries.length = left.1.length := List.length_map _
  have overfull : ¬(left.join separator right).1.length ≤ tree.maxInternalEntries := by omega
  have lower : (Shape.rowNode (left.join separator right)).entries.take left.1.length =
      (Shape.rowNode left).entries := by
    rw [parts, ← size, List.take_left]
  have upper : (Shape.rowNode (left.join separator right)).entries.drop (left.1.length + 1) =
      (Shape.rowNode right).entries := by
    rw [parts, ← size, List.drop_append, List.drop_of_length_le (Nat.le_succ _),
      Nat.add_sub_cancel_left]
    rfl
  have middle : (Shape.rowNode (left.join separator right)).entries[left.1.length]? =
      some (separator, left.2.rootId, left.2.size) := by
    rw [parts, ← size, List.getElem?_append_right le_rfl, Nat.sub_self]
    rfl
  unfold settleInternal
  simp only [lengths, overfull, if_false, ← half, lower, upper, middle, Option.getD_some,
    allocatePage, writeInternal, PageStore.writePage]
  rw [← sum_counts]
  rfl

/-- The page of an inner node takes the row that has taken the place of its old one. -/
theorem settleInternal_follows {id newNext : PageId} {oldRow row : Row depth}
    (follows : Follows tree.store.pages newPages tree.nextPageId newNext oldRow.layout row.layout
      oldRow.leafIds row.leafIds)
    (held : Held tree lo hi (Shape.node id oldRow)) (apart : id ∉ row.pageIds)
    (fresh : ∀ other ∈ row.pageIds, other < newNext) (isNew : Bool) :
    let settled := Shape.settle tree.maxInternalEntries id newNext row
    ∃ finalPages, (tree.withPages newPages newNext).settleInternal id (Shape.rowNode row) isNew =
        (outcomeOf isNew settled.1, tree.withPages finalPages settled.2) ∧
      Follows tree.store.pages finalPages tree.nextPageId settled.2 (Shape.node id oldRow).layout
        settled.1.layout oldRow.leafIds settled.1.leafIds := by
  intro settled
  have outside : id ∉ oldRow.pageIds := (List.nodup_cons.mp held.nodup).1
  have old : id < tree.nextPageId := held.fresh id List.mem_cons_self
  have content : (tree.store.pages id).content = .internal (Shape.rowNode oldRow) :=
    held.stored _ List.mem_cons_self
  rcases Shape.settle_cases settled rfl with
    ⟨room, equation⟩ | ⟨left, separator, right, rfl, half, full, equation⟩
  · have size : (Shape.rowNode row).entries.length = row.1.length := List.length_map _
    rw [equation]
    refine ⟨_, settleInternal_of_le ?_, follows.write held.readable old outside apart content _⟩
    rw [size]
    exact room
  · rw [equation]
    refine ⟨_, settleInternal_of_lt full half, ?_⟩
    have written := follows.write held.readable old outside apart content (Shape.rowNode left)
    have allocated := written.allocate held.readable
      (List.forall_mem_cons.mpr ⟨old.trans_le follows.grows, fresh⟩) (Shape.rowNode right)
    have leaves : Row.leafIds (Row.join left separator right) =
        Row.leafIds ([(separator, Shape.node id left)], Shape.node newNext right) := by
      rw [Row.leafIds_join]
      simp [Row.leafIds]
    rw [leaves] at allocated
    have layout : Row.layout ([(separator, Shape.node id left)], Shape.node newNext right) =
        ((id, .internal (Shape.rowNode left)) :: left.layout) ++
          ((newNext, .internal (Shape.rowNode right)) :: right.layout) := by
      simp [Row.layout]
    apply allocated.rearrange
    intro entry entryMem
    rw [layout] at entryMem
    rw [Row.layout_join]
    simp only [List.mem_append, List.mem_cons] at entryMem ⊢
    tauto

/-- A tree has grown into one or two, the first in its page. -/
structure Grown (child : Shape depth) (isNew : Bool) (grown : Row depth) : Prop where
  root : grown.firstId = child.rootId
  size : grown.entries.length = child.size + isNew.toNat
  short : grown.1.length ≤ 1

theorem Grown.cases {child : Shape depth} {isNew : Bool} {grown : Row depth}
    (growth : Grown child isNew grown) :
    (∃ newChild, grown = Row.single newChild ∧ newChild.rootId = child.rootId ∧
      newChild.size = child.size + isNew.toNat) ∨
    ∃ separator first last, grown = ([(separator, first)], last) ∧
      first.rootId = child.rootId ∧ first.size = child.size + isNew.toNat - last.size := by
  rcases growth with ⟨root, size, short⟩
  rcases grown with ⟨_ | ⟨⟨separator, first⟩, _ | ⟨second, rest⟩⟩, last⟩
  · exact Or.inl ⟨last, rfl, root, size⟩
  · refine Or.inr ⟨separator, first, last, rfl, root, ?_⟩
    have parts : first.size + last.size = child.size + isNew.toNat := by
      rw [← size]
      simp [Row.entries, rowEntries, Shape.size]
    omega
  · simp only [List.length_cons] at short
    omega

theorem route_rowNode_of_lt {before : List (Bytes × Shape depth)} {separator : Bytes}
    (after : List (Bytes × Shape depth)) (child last : Shape depth)
    (passed : ∀ entry ∈ before, entry.1 ≤ key) (less : key < separator) :
    route key (Shape.rowNode (Row.join (before, child) separator (after, last))).entries =
      ((Shape.rowNode (before, child)).entries,
        (separator, child.rootId, child.size) :: (Shape.rowNode (after, last)).entries) := by
  have parts : (Shape.rowNode (Row.join (before, child) separator (after, last))).entries =
      (Shape.rowNode (before, child)).entries ++
        (separator, child.rootId, child.size) :: (Shape.rowNode (after, last)).entries := by
    simp [Shape.rowNode, Row.join]
  rw [parts]
  refine route_of_lt ?_ less
  intro entry entryMem
  rcases List.mem_map.mp entryMem with ⟨original, originalMem, rfl⟩
  exact passed original originalMem

theorem route_rowNode_of_le {before : List (Bytes × Shape depth)} (last : Shape depth)
    (passed : ∀ entry ∈ before, entry.1 ≤ key) :
    route key (Shape.rowNode (before, last)).entries =
      ((Shape.rowNode (before, last)).entries, []) := by
  apply route_of_le
  intro entry entryMem
  rcases List.mem_map.mp entryMem with ⟨original, originalMem, rfl⟩
  exact passed original originalMem

/-- An insertion below a child before the last: the node takes the row that the child has grown
into, unless nothing about the child has changed that the node would know. -/
theorem insertInto_of_lt {id : PageId} {before after : List (Bytes × Shape depth)}
    {child last : Shape depth} {separator : Bytes} {grown : Row depth} {isNew : Bool}
    {newTree : BPlusTree}
    (page : tree.store.pages id =
      .internal (Shape.rowNode (Row.join (before, child) separator (after, last))))
    (passed : ∀ entry ∈ before, entry.1 ≤ key) (less : key < separator)
    (result : insertInto search key value bound tree child.rootId =
      .ok (outcomeOf isNew grown, newTree))
    (growth : Grown child isNew grown)
    (room : (Row.join (before, child) separator (after, last)).1.length ≤
      newTree.maxInternalEntries) :
    insertInto search key value (bound + 1) tree id = .ok (newTree.settleInternal id
        (Shape.rowNode ((grown.prepend before).join separator (after, last))) isNew) ∨
      isNew = false ∧ grown.1 = [] ∧
        Shape.rowNode ((grown.prepend before).join separator (after, last)) =
          Shape.rowNode (Row.join (before, child) separator (after, last)) ∧
        insertInto search key value (bound + 1) tree id = .ok (.noSplit isNew, newTree) := by
  have routed := route_rowNode_of_lt after child last passed less
  rcases growth.cases with
    ⟨newChild, rfl, root, size⟩ | ⟨newSeparator, first, newLast, rfl, root, size⟩
  · cases isNew with
    | false =>
        refine Or.inr ⟨rfl, rfl, ?_, ?_⟩
        · have same : newChild.size = child.size := size
          simp [Shape.rowNode, Row.join, Row.prepend, Row.single, root, same]
        · simp only [insertInto, page, routed, result, outcomeOf, Row.single]
          rfl
    | true =>
        left
        simp only [insertInto, page, routed, result, outcomeOf, Row.single]
        rw [settleInternal_of_le]
        · have same : newChild.size = child.size + 1 := size
          simp [Shape.rowNode, Row.join, Row.prepend, root, same]
          rfl
        · simpa [Shape.rowNode, Row.join, Row.prepend] using room
  · left
    simp only [insertInto, page, routed, result, outcomeOf]
    congr 2
    simp [Shape.rowNode, Row.join, Row.prepend, root, size]

/-- The same for an insertion below the last child. -/
theorem insertInto_of_le {id : PageId} {before : List (Bytes × Shape depth)} {last : Shape depth}
    {grown : Row depth} {isNew : Bool} {newTree : BPlusTree}
    (page : tree.store.pages id = .internal (Shape.rowNode (before, last)))
    (passed : ∀ entry ∈ before, entry.1 ≤ key)
    (result : insertInto search key value bound tree last.rootId =
      .ok (outcomeOf isNew grown, newTree))
    (growth : Grown last isNew grown) (room : before.length ≤ newTree.maxInternalEntries) :
    insertInto search key value (bound + 1) tree id = .ok (newTree.settleInternal id
        (Shape.rowNode (grown.prepend before)) isNew) ∨
      isNew = false ∧ grown.1 = [] ∧
        Shape.rowNode (grown.prepend before) = Shape.rowNode (before, last) ∧
        insertInto search key value (bound + 1) tree id = .ok (.noSplit isNew, newTree) := by
  have routed := route_rowNode_of_le last passed
  have rightmost : (Shape.rowNode (before, last)).rightmostChild = last.rootId := rfl
  rcases growth.cases with
    ⟨newLast, rfl, root, size⟩ | ⟨newSeparator, first, newLast, rfl, root, size⟩
  · cases isNew with
    | false =>
        refine Or.inr ⟨rfl, rfl, ?_, ?_⟩
        · have same : newLast.size = last.size := size
          simp [Shape.rowNode, Row.prepend, Row.single, root, same]
        · simp only [insertInto, page, routed, rightmost, result, outcomeOf, Row.single]
          rfl
    | true =>
        left
        simp only [insertInto, page, routed, rightmost, result, outcomeOf, Row.single]
        rw [settleInternal_of_le]
        · have same : newLast.size = last.size + 1 := size
          simp [Shape.rowNode, Row.prepend, root, same]
          rfl
        · simpa [Shape.rowNode, Row.prepend] using room
  · left
    simp only [insertInto, page, routed, rightmost, result, outcomeOf]
    congr 2
    simp [Shape.rowNode, Row.prepend, root, size]

/-! ## Whole trees -/

/-- A row that has taken the place of a shape has its entries, its page and no page of its own that
was allocated before. -/
theorem Held.grown {shape : Shape depth} (held : Held tree lo hi shape)
    (positive : 0 < tree.maxLeafEntries) :
    Grown shape (!shape.found key) (shape.insert search tree.maxLeafEntries
      tree.maxInternalEntries key value tree.nextPageId).1 where
  root := Shape.firstId_insert _ _ _ _ positive _ _
  size := Shape.insert_size positive held.sorted
  short := Shape.insert_length _ _ _ _ positive _ _

theorem Held.sub {shape : Shape (depth + 1)} {child : Shape depth} {lower upper : Option Bytes}
    (held : Held tree lo hi shape) (part : child.layout.Sublist shape.layout)
    (leaves : ∀ id ∈ child.leafIds, id ∈ shape.leafIds)
    (sorted : Shape.OrderedBy (· ≤ ·) depth lower upper child)
    (fits : child.Fits tree.maxLeafEntries tree.maxInternalEntries) :
    Held tree lower upper child where
  stored := fun entry entryMem => held.stored entry (part.subset entryMem)
  nodup := held.nodup.sublist (part.map _)
  fresh := fun id idMem => held.fresh id ((part.map _).subset idMem)
  readable := held.readable.mono leaves
  sorted := sorted
  fits := fits

/-- A child before the last. -/
theorem Held.child {id : PageId} {before after : List (Bytes × Shape depth)}
    {child last : Shape depth} {separator : Bytes}
    (held : Held tree lo hi (Shape.node id (Row.join (before, child) separator (after, last)))) :
    ∃ mid, Held tree mid (some separator) child := by
  rcases Row.orderedBy_join.mp held.sorted with ⟨left, _⟩
  rcases left.exists_last with ⟨mid, inner⟩
  refine ⟨mid, held.sub ?_ ?_ inner (Row.fits_join.mp held.fits.2).1.2⟩
  · rw [Shape.layout_node, Row.layout_join]
    exact ((List.sublist_append_right _ _).trans (List.sublist_append_left _ _)).trans
      (List.sublist_cons_self _ _)
  · intro other otherMem
    rw [Shape.leafIds_node, Row.leafIds_join]
    exact List.mem_append_left _ (List.mem_append_right _ otherMem)

theorem Held.lastChild {id : PageId} {before : List (Bytes × Shape depth)} {last : Shape depth}
    (held : Held tree lo hi (Shape.node id (before, last))) : ∃ mid, Held tree mid hi last := by
  have segments : Row.OrderedBy (· ≤ ·) lo hi (before, last) := held.sorted
  rcases segments.exists_last with ⟨mid, inner⟩
  refine ⟨mid, held.sub ?_ ?_ inner held.fits.2.2⟩
  · rw [Shape.layout_node]
    exact (List.sublist_append_right _ _).trans (List.sublist_cons_self _ _)
  · intro other otherMem
    rw [Shape.leafIds_node]
    exact List.mem_append_right _ otherMem

/-- A row in which one tree has given way to the row it has grown into. -/
theorem Held.surround {id : PageId} {oldRow row grown : Row depth} {child : Shape depth}
    (held : Held tree lo hi (Shape.node id oldRow))
    (oldLayout : oldRow.layout = left ++ (child.layout ++ right))
    (newLayout : row.layout = left ++ (grown.layout ++ right))
    (oldLeaves : oldRow.leafIds = leftIds ++ (child.leafIds ++ rightIds))
    (newLeaves : row.leafIds = leftIds ++ (grown.leafIds ++ rightIds)) {count : ℕ}
    (pageIds : grown.pageIds.Perm (child.pageIds ++ List.range' tree.nextPageId count))
    (follows : Follows tree.store.pages newPages tree.nextPageId (tree.nextPageId + count)
      child.layout grown.layout child.leafIds grown.leafIds) :
    Follows tree.store.pages newPages tree.nextPageId (tree.nextPageId + count)
      oldRow.layout row.layout oldRow.leafIds row.leafIds ∧
    id ∉ row.pageIds ∧ ∀ other ∈ row.pageIds, other < tree.nextPageId + count := by
  have oldIds : oldRow.pageIds = left.map Prod.fst ++ (child.pageIds ++ right.map Prod.fst) := by
    rw [Row.pageIds, oldLayout, List.map_append, List.map_append]
    rfl
  have newIds : row.pageIds = left.map Prod.fst ++ (grown.pageIds ++ right.map Prod.fst) := by
    rw [Row.pageIds, newLayout, List.map_append, List.map_append]
    rfl
  have nodup := held.nodup
  rw [Shape.pageIds_node, oldIds, List.nodup_cons, List.nodup_append', List.nodup_append'] at nodup
  rcases nodup with ⟨outside, _, ⟨_, _, childRight⟩, leftRest⟩
  have old : ∀ other ∈ oldRow.pageIds, other < tree.nextPageId :=
    fun other otherMem => held.fresh other (List.mem_cons_of_mem _ otherMem)
  have sources : ∀ other ∈ row.pageIds, other ∈ oldRow.pageIds ∨
      tree.nextPageId ≤ other ∧ other < tree.nextPageId + count := by
    intro other otherMem
    rw [newIds, List.mem_append, List.mem_append, pageIds.mem_iff, List.mem_append,
      List.mem_range'_1] at otherMem
    rw [oldIds, List.mem_append, List.mem_append]
    tauto
  have stored := (stored_cons.mp held.stored).2
  change Stored tree.store.pages oldRow.layout at stored
  rw [oldLayout, stored_append, stored_append] at stored
  refine ⟨?_, ?_, ?_⟩
  · rw [oldLayout, newLayout, oldLeaves, newLeaves]
    apply follows.around stored.1 stored.2.2
    intro other otherMem
    rw [List.map_append, List.mem_append] at otherMem
    refine ⟨?_, ?_⟩
    · apply old
      rw [oldIds, List.mem_append, List.mem_append]
      exact otherMem.imp_right Or.inr
    · intro inside
      rcases otherMem with inLeft | inRight
      · exact leftRest inLeft (List.mem_append_left _ inside)
      · exact childRight inside inRight
  · intro inside
    rcases sources id inside with present | ⟨isNew, _⟩
    · rw [oldIds] at present
      exact outside present
    · exact absurd isNew (not_le.mpr (held.fresh id List.mem_cons_self))
  · intro other inside
    rcases sources other inside with present | ⟨_, bounded⟩
    · exact (old other present).trans_le (Nat.le_add_right _ _)
    · exact bounded

theorem inserted_node {id newNext : PageId} {oldRow row : Row depth} {isNew : Bool}
    (held : Held tree lo hi (Shape.node id oldRow))
    (follows : Follows tree.store.pages newPages tree.nextPageId newNext
      oldRow.layout row.layout oldRow.leafIds row.leafIds)
    (apart : id ∉ row.pageIds) (fresh : ∀ other ∈ row.pageIds, other < newNext)
    (grown : (Shape.node id oldRow).insert search tree.maxLeafEntries tree.maxInternalEntries key
      value tree.nextPageId = Shape.settle tree.maxInternalEntries id newNext row)
    (present : (!(Shape.node id oldRow).found key) = isNew)
    (descent : insertInto search key value (bound + 1) tree id = .ok
        ((tree.withPages newPages newNext).settleInternal id (Shape.rowNode row) isNew) ∨
      isNew = false ∧ row.1.length ≤ tree.maxInternalEntries ∧
        Shape.rowNode row = Shape.rowNode oldRow ∧
        insertInto search key value (bound + 1) tree id =
          .ok (.noSplit isNew, tree.withPages newPages newNext)) :
    Inserted search tree key value (bound + 1) (Shape.node id oldRow) := by
  unfold Inserted
  rw [grown, present, Shape.rootId_node]
  rcases descent with descent | ⟨_, room, same, descent⟩
  · rcases settleInternal_follows follows held apart fresh isNew with ⟨finalPages, settled, final⟩
    exact ⟨finalPages, by rw [descent, settled], final⟩
  · rw [Shape.settle_of_le room]
    refine ⟨newPages, descent, ?_⟩
    have content : (tree.store.pages id).content = .internal (Shape.rowNode row) := by
      rw [same]
      exact held.stored _ List.mem_cons_self
    have kept := follows.keep (held.fresh id List.mem_cons_self)
      (List.nodup_cons.mp held.nodup).1 content
    rw [Shape.layout_node, ← same]
    exact kept

theorem inserted_of_lt {id : PageId} {before after : List (Bytes × Shape depth)}
    {child last : Shape depth} {separator : Bytes} {lower upper : Option Bytes}
    (leafRoom : 0 < tree.maxLeafEntries)
    (held : Held tree lo hi (Shape.node id (Row.join (before, child) separator (after, last))))
    (passed : ∀ entry ∈ before, entry.1 ≤ key) (less : key < separator)
    (inner : Held tree lower upper child) (below : Inserted search tree key value bound child) :
    Inserted search tree key value (bound + 1)
      (Shape.node id (Row.join (before, child) separator (after, last))) := by
  rcases below with ⟨newPages, result, follows⟩
  have growth : Grown child (!child.found key) (child.insert search tree.maxLeafEntries
    tree.maxInternalEntries key value tree.nextPageId).1 := inner.grown leafRoom
  rcases Shape.insert_pages search tree.maxInternalEntries key value leafRoom child
    tree.nextPageId with ⟨count, advanced, pageIds⟩
  have room := (Shape.fits_node.mp held.fits).1
  rw [advanced] at follows result
  rcases held.surround (Row.layout_join_mk before after child last)
    (Row.layout_prepend_join before after _ last) (Row.leafIds_join_mk before after child last)
    (Row.leafIds_prepend_join before after _ last) pageIds follows with ⟨rows, apart, fresh⟩
  refine inserted_node held rows apart fresh ?_
    (by rw [Shape.found_of_lt id after last passed less]) ?_
  · rw [Shape.insert_of_lt passed less, advanced]
  · rcases insertInto_of_lt held.page_node passed less result growth room with
      descent | ⟨isOld, alone, same, descent⟩
    · exact Or.inl descent
    · refine Or.inr ⟨isOld, ?_, same, descent⟩
      simpa [Row.join, Row.prepend, alone] using room

theorem inserted_of_le {id : PageId} {before : List (Bytes × Shape depth)} {last : Shape depth}
    {lower upper : Option Bytes} (leafRoom : 0 < tree.maxLeafEntries)
    (held : Held tree lo hi (Shape.node id (before, last)))
    (passed : ∀ entry ∈ before, entry.1 ≤ key) (inner : Held tree lower upper last)
    (below : Inserted search tree key value bound last) :
    Inserted search tree key value (bound + 1) (Shape.node id (before, last)) := by
  rcases below with ⟨newPages, result, follows⟩
  have growth : Grown last (!last.found key) (last.insert search tree.maxLeafEntries
    tree.maxInternalEntries key value tree.nextPageId).1 := inner.grown leafRoom
  rcases Shape.insert_pages search tree.maxInternalEntries key value leafRoom last
    tree.nextPageId with ⟨count, advanced, pageIds⟩
  have room := (Shape.fits_node.mp held.fits).1
  rw [advanced] at follows result
  have layouts : ∀ row : Row depth, (row.prepend before).layout =
      (before.flatMap fun child => child.2.layout) ++ (row.layout ++ []) := by
    intro row
    rw [Row.layout_prepend, List.append_nil]
  have leaves : ∀ row : Row depth, (row.prepend before).leafIds =
      (before.flatMap fun child => child.2.leafIds) ++ (row.leafIds ++ []) := by
    intro row
    rw [Row.leafIds_prepend, List.append_nil]
  have whole : (before, last) = (Row.single last).prepend before := Row.eq_prepend_single _
  rcases held.surround (whole ▸ layouts (Row.single last)) (layouts _)
    (whole ▸ leaves (Row.single last)) (leaves _) pageIds follows with ⟨rows, apart, fresh⟩
  refine inserted_node held rows apart fresh ?_
    (by rw [Shape.found_of_le id last passed]) ?_
  · rw [Shape.insert_of_le passed, advanced]
  · rcases insertInto_of_le held.page_node passed result growth room with
      descent | ⟨isOld, alone, same, descent⟩
    · exact Or.inl descent
    · refine Or.inr ⟨isOld, ?_, same, descent⟩
      simpa [Row.prepend, alone] using room

/-- An insertion into the pages does to them what it does to the shape. -/
theorem inserted (leafRoom : 0 < tree.maxLeafEntries) :
    ∀ {depth : ℕ} {shape : Shape depth} {lo hi : Option Bytes} {bound : ℕ}, depth < bound →
      Held tree lo hi shape → Inserted search tree key value bound shape := by
  intro depth
  induction depth with
  | zero =>
      intro shape lo hi bound deep held
      rcases Nat.exists_eq_succ_of_ne_zero (by omega : bound ≠ 0) with ⟨bound, rfl⟩
      rcases shape.exists_leaf with ⟨id, entries, rfl⟩
      exact inserted_leaf held leafRoom
  | succ depth ih =>
      intro shape lo hi bound deep held
      rcases Nat.exists_eq_succ_of_ne_zero (by omega : bound ≠ 0) with ⟨bound, rfl⟩
      have shallower := Nat.lt_of_succ_lt_succ deep
      rcases Shape.node_cases key shape with
        ⟨id, before, child, separator, after, last, rfl, passed, less⟩ |
        ⟨id, before, last, rfl, passed⟩
      · rcases held.child with ⟨mid, inner⟩
        exact inserted_of_lt leafRoom held passed less inner (ih shallower inner)
      · rcases held.lastChild with ⟨mid, inner⟩
        exact inserted_of_le leafRoom held passed inner (ih shallower inner)

end BPlusTree

end Seisin
