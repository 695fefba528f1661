import Seisin.Storage.BTree.Simulation

/-!
# Removal from a shape and from its pages

A removal takes the entry out of its leaf and leaves the nodes as they are, also when the leaf
becomes empty.  On the pages it counts down on the way to the leaf, after it has looked whether the
key is there.
-/

namespace Seisin

open SortedList Separated LinkedList

namespace Shape

variable {search : Search Bytes} {depth : ℕ} {key separator : Bytes} {id : PageId}
  {lo hi : Option Bytes} {before after : List (Bytes × Shape depth)} {child last : Shape depth}

def remove (search : Search Bytes) (key : Bytes) : {depth : ℕ} → Shape depth → Shape depth
  | 0, shape => leaf shape.1 (removeBy search key shape.2)
  | _ + 1, shape =>
      match BPlusTree.route key shape.2.1 with
      | (before, (separator, child) :: after) =>
          node shape.1 (Row.join (before, remove search key child) separator (after, shape.2.2))
      | (before, []) => node shape.1 (before, remove search key shape.2.2)

theorem remove_of_lt (passed : ∀ entry ∈ before, entry.1 ≤ key) (less : key < separator) :
    remove search key (node id (Row.join (before, child) separator (after, last))) =
      node id (Row.join (before, remove search key child) separator (after, last)) := by
  have routed : BPlusTree.route key (before ++ (separator, child) :: after) =
      (before, (separator, child) :: after) := BPlusTree.route_of_lt passed less
  simp only [remove, node, Row.join, routed]
  rfl

theorem remove_of_le (passed : ∀ entry ∈ before, entry.1 ≤ key) :
    remove search key (node id (before, last)) = node id (before, remove search key last) := by
  have routed : BPlusTree.route key before = (before, []) := BPlusTree.route_of_le passed
  simp only [remove, node, routed]
  rfl

theorem remove_orderedBy {r : Bytes → Bytes → Prop} :
    ∀ {depth : ℕ} {shape : Shape depth} {lo hi : Option Bytes},
      OrderedBy r depth lo hi shape → Within lo hi key →
        OrderedBy r depth lo hi (remove search key shape) := by
  intro depth
  induction depth with
  | zero =>
      intro shape lo hi ordered _
      refine ⟨ordered.1, ordered.2.1.sublist (removeBy_sublist search), ?_⟩
      intro entry entryMem
      exact ordered.2.2 entry ((removeBy_sublist search).subset entryMem)
  | succ depth ih =>
      intro shape lo hi ordered within
      rcases node_cases key shape with
        ⟨id, before, child, separator, after, last, rfl, passed, less⟩ |
        ⟨id, before, last, rfl, passed⟩
      · rcases Row.orderedBy_join.mp ordered with ⟨left, right⟩
        rw [remove_of_lt passed less]
        refine Row.orderedBy_join.mpr ⟨?_, right⟩
        have replaced : Row.OrderedBy r lo (some separator)
            (before ++ [], remove search key child) := by
          refine left.graft within.1 passed ?_
          intro mid notBelow inner
          exact ih inner (Within.of_lt ⟨notBelow, within.2⟩ less)
        rw [List.append_nil] at replaced
        exact replaced
      · rw [remove_of_le passed]
        have replaced : Row.OrderedBy r lo hi (before ++ [], remove search key last) := by
          refine Segments.graft ordered within.1 passed ?_
          intro mid notBelow inner
          exact ih inner ⟨notBelow, within.2⟩
        rw [List.append_nil] at replaced
        exact replaced

theorem remove_ordered {shape : Shape depth} (ordered : Ordered depth lo hi shape)
    (within : Within lo hi key) : Ordered depth lo hi (remove search key shape) := by
  rw [ordered_eq] at ordered ⊢
  exact remove_orderedBy ordered within

theorem remove_entries : ∀ {depth : ℕ} {shape : Shape depth} {lo hi : Option Bytes},
    Ordered depth lo hi shape →
      (remove search key shape).entries = removeKey key shape.entries := by
  intro depth
  induction depth with
  | zero =>
      intro shape lo hi ordered
      exact removeBy_eq search ordered.2.1
  | succ depth ih =>
      intro shape lo hi ordered
      rcases node_cases key shape with
        ⟨id, before, child, separator, after, last, rfl, passed, less⟩ |
        ⟨id, before, last, rfl, passed⟩
      · rcases Row.ordered_join.mp ordered with ⟨left, right⟩
        rcases left.exists_last with ⟨mid, inner⟩
        have under := left.entries_lt (fun _ _ _ inner => Ordered.within inner) passed
        have beyond : ∀ entry ∈ Row.entries (after, last), entry.1 ≠ key := by
          intro entry entryMem
          exact (less.trans_le ((right.within entry entryMem).1 separator rfl)).ne'
        rw [remove_of_lt passed less, entries_node, entries_node, Row.entries_join,
          Row.entries_join, removeKey_append_right beyond, Row.entries_mk before,
          Row.entries_mk before, ih inner,
          removeKey_append_left fun entry entryMem => (under entry entryMem).ne]
      · have segments : Row.Ordered lo hi (before, last) := ordered
        rcases segments.exists_last with ⟨mid, inner⟩
        have under := segments.entries_lt (fun _ _ _ inner => Ordered.within inner) passed
        rw [remove_of_le passed, entries_node, entries_node, Row.entries_mk, Row.entries_mk, ih inner,
          removeKey_append_left fun entry entryMem => (under entry entryMem).ne]

theorem size_pos_of_found : ∀ {depth : ℕ} {shape : Shape depth}, found key shape = true →
    0 < shape.size := by
  intro depth
  induction depth with
  | zero =>
      intro shape present
      rcases hasKey_iff.mp present with ⟨value, entryMem⟩
      exact List.length_pos_of_mem entryMem
  | succ depth ih =>
      intro shape present
      rcases node_cases key shape with
        ⟨id, before, child, separator, after, last, rfl, passed, less⟩ |
        ⟨id, before, last, rfl, passed⟩
      · rw [found_of_lt id after last passed less] at present
        have positive := ih present
        simp only [size, entries_node, Row.entries_join, Row.entries_mk, List.length_append]
          at positive ⊢
        omega
      · rw [found_of_le id last passed] at present
        have positive := ih present
        simp only [size, entries_node, Row.entries_mk, List.length_append] at positive ⊢
        omega

/-- An entry is taken out of the leaf that the key belongs to, if that has one. -/
theorem remove_size : ∀ {depth : ℕ} {shape : Shape depth}, found key shape = true →
    (remove search key shape).size = shape.size - 1 := by
  intro depth
  induction depth with
  | zero =>
      intro shape present
      have shorter := length_removeBy search (show hasKey key shape.2 = true from present)
      change (removeBy search key shape.2).length = shape.2.length - 1
      omega
  | succ depth ih =>
      intro shape present
      rcases node_cases key shape with
        ⟨id, before, child, separator, after, last, rfl, passed, less⟩ |
        ⟨id, before, last, rfl, passed⟩
      · rw [found_of_lt id after last passed less] at present
        have shorter := ih present
        have positive := size_pos_of_found present
        rw [remove_of_lt passed less]
        simp only [size, entries_node, Row.entries_join, Row.entries_mk, List.length_append]
          at shorter positive ⊢
        omega
      · rw [found_of_le id last passed] at present
        have shorter := ih present
        have positive := size_pos_of_found present
        rw [remove_of_le passed]
        simp only [size, entries_node, Row.entries_mk, List.length_append] at shorter positive ⊢
        omega

theorem mem_of_mem_remove {entry : Bytes × Bytes} : ∀ {depth : ℕ} {shape : Shape depth},
    entry ∈ (remove search key shape).entries → entry ∈ shape.entries := by
  intro depth
  induction depth with
  | zero => exact fun entryMem => (removeBy_sublist search).subset entryMem
  | succ depth ih =>
      intro shape entryMem
      rcases node_cases key shape with
        ⟨id, before, child, separator, after, last, rfl, passed, less⟩ |
        ⟨id, before, last, rfl, passed⟩
      · rw [remove_of_lt passed less] at entryMem
        simp only [entries_node, Row.entries_join, Row.entries_mk, List.mem_append] at entryMem ⊢
        exact entryMem.imp_left (Or.imp_right ih)
      · rw [remove_of_le passed] at entryMem
        simp only [entries_node, Row.entries_mk, List.mem_append] at entryMem ⊢
        exact entryMem.imp_right ih

theorem rootId_remove (shape : Shape depth) : (remove search key shape).rootId = shape.rootId := by
  cases depth with
  | zero => rfl
  | succ depth =>
      rcases node_cases key shape with
        ⟨id, before, child, separator, after, last, rfl, passed, less⟩ |
        ⟨id, before, last, rfl, passed⟩
      · rw [remove_of_lt passed less]
        rfl
      · rw [remove_of_le passed]
        rfl

theorem pageIds_remove : ∀ {depth : ℕ} (shape : Shape depth),
    (remove search key shape).pageIds = shape.pageIds := by
  intro depth
  induction depth with
  | zero => exact fun _ => rfl
  | succ depth ih =>
      intro shape
      rcases node_cases key shape with
        ⟨id, before, child, separator, after, last, rfl, passed, less⟩ |
        ⟨id, before, last, rfl, passed⟩
      · rw [remove_of_lt passed less, pageIds_node, pageIds_node, Row.pageIds_join,
          Row.pageIds_join, Row.pageIds_mk before, Row.pageIds_mk before, ih]
      · rw [remove_of_le passed, pageIds_node, pageIds_node, Row.pageIds_mk, Row.pageIds_mk, ih]

theorem leafIds_remove : ∀ {depth : ℕ} (shape : Shape depth),
    (remove search key shape).leafIds = shape.leafIds := by
  intro depth
  induction depth with
  | zero => exact fun _ => rfl
  | succ depth ih =>
      intro shape
      rcases node_cases key shape with
        ⟨id, before, child, separator, after, last, rfl, passed, less⟩ |
        ⟨id, before, last, rfl, passed⟩
      · rw [remove_of_lt passed less, leafIds_node, leafIds_node, Row.leafIds_join_mk,
          Row.leafIds_join_mk, ih]
      · rw [remove_of_le passed, leafIds_node, leafIds_node, Row.leafIds, Row.leafIds, ih]

theorem remove_fits {maxLeaf maxInternal : ℕ} : ∀ {depth : ℕ} {shape : Shape depth},
    shape.Fits maxLeaf maxInternal → (remove search key shape).Fits maxLeaf maxInternal := by
  intro depth
  induction depth with
  | zero =>
      intro shape fits
      have shorter : (removeBy search key shape.2).length ≤ shape.2.length :=
        (removeBy_sublist search).length_le
      exact shorter.trans fits
  | succ depth ih =>
      intro shape fits
      rcases node_cases key shape with
        ⟨id, before, child, separator, after, last, rfl, passed, less⟩ |
        ⟨id, before, last, rfl, passed⟩
      · rcases Row.fits_join.mp fits.2 with ⟨leftFits, rightFits⟩
        have count := fits.1
        rw [remove_of_lt passed less]
        refine ⟨?_, Row.fits_join.mpr ⟨⟨leftFits.1, ih leftFits.2⟩, rightFits⟩⟩
        simp only [node, Row.join, List.length_append, List.length_cons] at count ⊢
        exact count
      · rw [remove_of_le passed]
        exact ⟨fits.1, fits.2.1, ih fits.2.2⟩

end Shape

/-! ## The pages -/

/-- The pages after the entries of a leaf have become fewer: the same leaves are linked in the same
order. -/
structure Shrunk (pages newPages : PageId → Page) (layout newLayout : List (PageId × Page)) :
    Prop where
  stored : Stored newPages newLayout
  frame : ∀ id ∉ layout.map Prod.fst, (newPages id).content = (pages id).content
  links : ∀ id, linksOf newPages id = linksOf pages id

namespace BPlusTree

variable {search : Search Bytes} {tree : BPlusTree} {key : Bytes} {lo hi : Option Bytes}
  {bound depth : ℕ}

/-- The descent finds whether the leaf that the key belongs to has it. -/
theorem contains_eq : ∀ {depth : ℕ} {shape : Shape depth} {bound : ℕ},
    depth < bound → Stored tree.store.pages shape.layout →
      contains key bound tree shape.rootId = .ok (shape.found key) := by
  intro depth
  induction depth with
  | zero =>
      intro shape bound deep stored
      rcases Nat.exists_eq_succ_of_ne_zero (by omega : bound ≠ 0) with ⟨bound, rfl⟩
      rcases shape.exists_leaf with ⟨id, entries, rfl⟩
      rcases Page.eq_leaf_of_content (stored _ List.mem_cons_self) with ⟨prev, next, page⟩
      have here : tree.store.pages id = .leaf ⟨prev, next, entries⟩ := page
      simp only [contains, Shape.rootId_leaf, here]
      rfl
  | succ depth ih =>
      intro shape bound deep stored
      rcases Nat.exists_eq_succ_of_ne_zero (by omega : bound ≠ 0) with ⟨bound, rfl⟩
      have shallower := Nat.lt_of_succ_lt_succ deep
      rcases Shape.node_cases key shape with
        ⟨id, before, child, separator, after, last, rfl, passed, less⟩ |
        ⟨id, before, last, rfl, passed⟩
      · rw [Shape.layout_node, stored_cons, Row.layout_join_mk, stored_append,
          stored_append] at stored
        have page := Page.eq_internal_of_content stored.1
        rw [Shape.found_of_lt id after last passed less, ← ih shallower stored.2.2.1]
        simp only [contains, Shape.rootId_node, page,
          route_rowNode_of_lt after child last passed less]
      · rw [Shape.layout_node, stored_cons, Row.layout, stored_append] at stored
        have page := Page.eq_internal_of_content stored.1
        rw [Shape.found_of_le id last passed, ← ih shallower stored.2.2]
        simp only [contains, Shape.rootId_node, page, route_rowNode_of_le last passed]
        rfl

/-- The page of an inner node is written on the way to the child that shrinks. -/
theorem shrunk_node {pages newPages : PageId → Page} {id : PageId} {oldRow row : Row depth}
    {child newChild : Shape depth} {left right : List (PageId × Page)}
    (stored : Stored pages (Shape.node id oldRow).layout)
    (nodup : (Shape.node id oldRow).pageIds.Nodup)
    (oldLayout : oldRow.layout = left ++ (child.layout ++ right))
    (newLayout : row.layout = left ++ (newChild.layout ++ right))
    (shrunk : Shrunk (Function.update pages id (.internal (Shape.rowNode row))) newPages
      child.layout newChild.layout) :
    Shrunk pages newPages (Shape.node id oldRow).layout (Shape.node id row).layout := by
  have oldIds : oldRow.pageIds = left.map Prod.fst ++ (child.pageIds ++ right.map Prod.fst) := by
    rw [Row.pageIds, oldLayout, List.map_append, List.map_append]
    rfl
  rw [Shape.pageIds_node, oldIds, List.nodup_cons, List.nodup_append', List.nodup_append'] at nodup
  rcases nodup with ⟨outside, _, ⟨_, _, childRight⟩, leftRest⟩
  rw [Shape.layout_node, oldLayout, stored_cons, stored_append, stored_append] at stored
  rcases stored with ⟨content, leftStored, _, rightStored⟩
  have outsideChild : id ∉ child.pageIds :=
    fun inside => outside (List.mem_append_right _ (List.mem_append_left _ inside))
  have others : ∀ other ∈ (left ++ right).map Prod.fst,
      (newPages other).content = (pages other).content := by
    intro other otherMem
    rw [List.map_append, List.mem_append] at otherMem
    rw [shrunk.frame other, Function.update_of_ne]
    · rintro rfl
      exact outside (List.mem_append.mpr (otherMem.imp_right (List.mem_append_right _)))
    · intro inside
      rcases otherMem with inLeft | inRight
      · exact leftRest inLeft (List.mem_append_left _ inside)
      · exact childRight inside inRight
  constructor
  · rw [Shape.layout_node, newLayout, stored_cons, stored_append, stored_append]
    have kept := (stored_append.mpr ⟨leftStored, rightStored⟩).congr others
    rcases stored_append.mp kept with ⟨leftKept, rightKept⟩
    refine ⟨?_, leftKept, shrunk.stored, rightKept⟩
    rw [shrunk.frame id outsideChild, Function.update_self]
    rfl
  · intro other away
    have away : other ∉ id :: oldRow.pageIds := away
    rw [oldIds, List.mem_cons, List.mem_append, List.mem_append] at away
    rw [shrunk.frame other fun inside => away (Or.inr (Or.inr (Or.inl inside))),
      Function.update_of_ne fun same => away (Or.inl same)]
  · intro other
    rw [shrunk.links other]
    rcases eq_or_ne other id with rfl | differ
    · rw [linksOf, linksOf, Function.update_self, links_of_content content]
      rfl
    · rw [linksOf, linksOf, Function.update_of_ne differ]

theorem removeFrom_node {id : PageId} {oldRow row : Row depth} {child : Shape depth}
    {left right : List (PageId × Page)}
    (stored : Stored tree.store.pages (Shape.node id oldRow).layout)
    (nodup : (Shape.node id oldRow).pageIds.Nodup)
    (oldLayout : oldRow.layout = left ++ (child.layout ++ right))
    (newLayout : row.layout = left ++ ((Shape.remove search key child).layout ++ right))
    (descent : removeFrom search key (bound + 1) tree id =
      removeFrom search key bound (tree.writeInternal id (Shape.rowNode row)) child.rootId)
    (below : ∀ tree : BPlusTree, Stored tree.store.pages child.layout → child.pageIds.Nodup →
      ∃ newPages, removeFrom search key bound tree child.rootId =
          .ok (tree.withPages newPages tree.nextPageId) ∧
        Shrunk tree.store.pages newPages child.layout (Shape.remove search key child).layout) :
    ∃ newPages, removeFrom search key (bound + 1) tree id =
        .ok (tree.withPages newPages tree.nextPageId) ∧
      Shrunk tree.store.pages newPages (Shape.node id oldRow).layout
        (Shape.node id row).layout := by
  have part : child.layout.Sublist oldRow.layout := by
    rw [oldLayout]
    exact (List.sublist_append_left _ _).trans (List.sublist_append_right _ _)
  rcases List.nodup_cons.mp nodup with ⟨outside, rowNodup⟩
  have outsideChild : id ∉ child.pageIds := fun inside => outside ((part.map _).subset inside)
  have childStored : Stored tree.store.pages child.layout :=
    fun entry entryMem => stored entry (List.mem_cons_of_mem _ (part.subset entryMem))
  rcases below (tree.writeInternal id (Shape.rowNode row))
    (childStored.update_of_notMem _ outsideChild) (rowNodup.sublist (part.map _)) with
    ⟨newPages, result, shrunk⟩
  exact ⟨newPages, by rw [descent, result]; rfl,
    shrunk_node stored nodup oldLayout newLayout shrunk⟩

/-- A removal from the pages does to them what it does to the shape. -/
theorem removeFrom_follows : ∀ {depth : ℕ} {shape : Shape depth} {bound : ℕ}
    {tree : BPlusTree}, depth < bound → Stored tree.store.pages shape.layout →
      shape.pageIds.Nodup → shape.found key = true →
      ∃ newPages, removeFrom search key bound tree shape.rootId =
          .ok (tree.withPages newPages tree.nextPageId) ∧
        Shrunk tree.store.pages newPages shape.layout (Shape.remove search key shape).layout := by
  intro depth
  induction depth with
  | zero =>
      intro shape bound tree deep stored nodup present
      rcases Nat.exists_eq_succ_of_ne_zero (by omega : bound ≠ 0) with ⟨bound, rfl⟩
      rcases shape.exists_leaf with ⟨id, entries, rfl⟩
      rcases Page.eq_leaf_of_content (stored _ List.mem_cons_self) with ⟨prev, next, page⟩
      change tree.store.pages id = .leaf ⟨prev, next, entries⟩ at page
      change hasKey key entries = true at present
      refine ⟨Function.update tree.store.pages id
        (.leaf ⟨prev, next, removeBy search key entries⟩), ?_, ?_⟩
      · simp only [removeFrom, Shape.rootId_leaf, page, present, if_true]
        rfl
      · have follows := follows_write_leaf (id + 1) page (removeBy search key entries)
        rcases follows.relinked with ⟨_, links⟩ | ⟨before, other, newId, after, old, new, _⟩
        · refine ⟨follows.stored, ?_, ?_⟩
          · intro other away
            rw [Function.update_of_ne]
            rintro rfl
            exact away List.mem_cons_self
          · intro other
            rcases eq_or_ne other id with rfl | differ
            · exact links other (Nat.lt_succ_self _)
            · rw [linksOf, linksOf, Function.update_of_ne differ]
        · have longer := congrArg List.length (old.symm.trans new)
          simp at longer
  | succ depth ih =>
      intro shape bound tree deep stored nodup present
      rcases Nat.exists_eq_succ_of_ne_zero (by omega : bound ≠ 0) with ⟨bound, rfl⟩
      have shallower := Nat.lt_of_succ_lt_succ deep
      rcases Shape.node_cases key shape with
        ⟨id, before, child, separator, after, last, rfl, passed, less⟩ |
        ⟨id, before, last, rfl, passed⟩
      · rw [Shape.found_of_lt id after last passed less] at present
        have page : tree.store.pages id = .internal
            (Shape.rowNode (Row.join (before, child) separator (after, last))) :=
          Page.eq_internal_of_content (stored _ List.mem_cons_self)
        rw [Shape.remove_of_lt passed less]
        refine removeFrom_node stored nodup (Row.layout_join_mk before after child last)
          (Row.layout_join_mk before after _ last) ?_ fun _ childStored childNodup =>
            ih shallower childStored childNodup present
        have counted : Shape.rowNode
            (Row.join (before, Shape.remove search key child) separator (after, last)) =
            { Shape.rowNode (Row.join (before, child) separator (after, last)) with
              entries := (Shape.rowNode (before, child)).entries ++
                (separator, child.rootId, child.size - 1) ::
                  (Shape.rowNode (after, last)).entries } := by
          simp [Shape.rowNode, Row.join, Shape.rootId_remove, Shape.remove_size present]
        simp only [removeFrom, Shape.rootId_node, page,
          route_rowNode_of_lt after child last passed less, counted]
      · rw [Shape.found_of_le id last passed] at present
        have page : tree.store.pages id = .internal (Shape.rowNode (before, last)) :=
          Page.eq_internal_of_content (stored _ List.mem_cons_self)
        rw [Shape.remove_of_le passed]
        have layouts : ∀ shape : Shape depth, Row.layout (before, shape) =
            (before.flatMap fun child => child.2.layout) ++ (shape.layout ++ []) := by
          intro shape
          rw [List.append_nil]
          rfl
        refine removeFrom_node stored nodup (layouts last) (layouts _) ?_
          fun _ childStored childNodup =>
            ih shallower childStored childNodup present
        have counted : Shape.rowNode (before, Shape.remove search key last) =
            { Shape.rowNode (before, last) with rightmostCount := last.size - 1 } := by
          simp [Shape.rowNode, Shape.rootId_remove, Shape.remove_size present]
        simp only [removeFrom, Shape.rootId_node, page, route_rowNode_of_le last passed, counted]
        rfl

end BPlusTree

end Seisin
