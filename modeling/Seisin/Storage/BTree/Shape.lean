import Seisin.Lib.LinkedList
import Seisin.Lib.Separated
import Seisin.Storage.BTree.Pages

/-!
# The shape of a tree of pages

A shape is what the pages of a tree stand for: all leaves are at one depth and every node has the
page it is stored in.  Which pages a shape needs, whether its keys are in order and whether its nodes
are within capacity are separate matters; the sibling links of the leaves are a fourth.
-/

namespace Seisin

open SortedList Separated

namespace Page

/-- What a page has apart from the links of a leaf. -/
def content : Page → Page
  | .leaf node => .leaf ⟨nullPage, nullPage, node.entries⟩
  | .internal node => .internal node

/-- The neighbours a leaf names. -/
def links : Page → Option (PageId × PageId)
  | .leaf node => some (node.prev, node.next)
  | .internal _ => none

theorem eq_internal_of_content {page : Page} {node : InternalNode}
    (same : page.content = .internal node) : page = .internal node := by
  cases page with
  | leaf other => cases same
  | internal other => exact same

theorem eq_leaf_of_content {page : Page} {entries : List (Bytes × Bytes)}
    (same : page.content = .leaf ⟨nullPage, nullPage, entries⟩) :
    ∃ prev next, page = .leaf ⟨prev, next, entries⟩ := by
  cases page with
  | leaf node =>
      simp only [content, Page.leaf.injEq, LeafNode.mk.injEq, true_and] at same
      exact ⟨node.prev, node.next, by rw [← same]⟩
  | internal node => cases same

end Page

/-- A tree of the given depth: a leaf is a page with its entries, an inner node a page with its
children, each but the last with the separator after it. -/
def Shape : ℕ → Type
  | 0 => PageId × List (Bytes × Bytes)
  | depth + 1 => PageId × List (Bytes × Shape depth) × Shape depth

/-- Neighbouring trees of one depth with the separators between them. -/
abbrev Row (depth : ℕ) : Type := List (Bytes × Shape depth) × Shape depth

namespace Shape

def leaf (id : PageId) (entries : List (Bytes × Bytes)) : Shape 0 := (id, entries)

def node {depth : ℕ} (id : PageId) (row : Row depth) : Shape (depth + 1) := (id, row)

def rootId : {depth : ℕ} → Shape depth → PageId
  | 0, shape => shape.1
  | _ + 1, shape => shape.1

/-- The entries in order. -/
def entries : {depth : ℕ} → Shape depth → List (Bytes × Bytes)
  | 0, shape => shape.2
  | _ + 1, shape => rowEntries (fun child => entries child) shape.2.1 shape.2.2

def size {depth : ℕ} (shape : Shape depth) : ℕ := shape.entries.length

/-- What the page of an inner node has of a row. -/
def rowNode {depth : ℕ} (row : Row depth) : InternalNode where
  entries := row.1.map fun child => (child.1, child.2.rootId, child.2.size)
  rightmostChild := row.2.rootId
  rightmostCount := row.2.size

/-- The pages and what they have to contain. -/
def layout : {depth : ℕ} → Shape depth → List (PageId × Page)
  | 0, shape => [(shape.1, .leaf ⟨nullPage, nullPage, shape.2⟩)]
  | _ + 1, shape => (shape.1, .internal (rowNode shape.2)) ::
      ((shape.2.1.flatMap fun child => layout child.2) ++ layout shape.2.2)

/-- The pages of the leaves in order. -/
def leafIds : {depth : ℕ} → Shape depth → List PageId
  | 0, shape => [shape.1]
  | _ + 1, shape => (shape.2.1.flatMap fun child => leafIds child.2) ++ leafIds shape.2.2

/-- The keys ascend, lie within the bounds and are divided by the separators. -/
def Ordered : (depth : ℕ) → Option Bytes → Option Bytes → Shape depth → Prop
  | 0, lo, hi, shape =>
      Below lo hi ∧ Ascending shape.2 ∧ ∀ entry ∈ shape.2, Within lo hi entry.1
  | depth + 1, lo, hi, shape => Segments (Ordered depth) hi lo shape.2.1 shape.2.2

/-- The same with another comparison: with `≤` keys may be repeated. -/
def OrderedBy (r : Bytes → Bytes → Prop) :
    (depth : ℕ) → Option Bytes → Option Bytes → Shape depth → Prop
  | 0, lo, hi, shape =>
      BelowBy r lo hi ∧ AscendingBy r shape.2 ∧ ∀ entry ∈ shape.2, WithinBy r lo hi entry.1
  | depth + 1, lo, hi, shape => Segments (OrderedBy r depth) hi lo shape.2.1 shape.2.2

/-- Every node is within capacity. -/
def Fits (maxLeaf maxInternal : ℕ) : {depth : ℕ} → Shape depth → Prop
  | 0, shape => shape.2.length ≤ maxLeaf
  | _ + 1, shape => shape.2.1.length ≤ maxInternal ∧
      (∀ child ∈ shape.2.1, Fits maxLeaf maxInternal child.2) ∧ Fits maxLeaf maxInternal shape.2.2

def pageIds {depth : ℕ} (shape : Shape depth) : List PageId := shape.layout.map Prod.fst

theorem rootId_mem_pageIds {depth : ℕ} (shape : Shape depth) : shape.rootId ∈ shape.pageIds := by
  cases depth with
  | zero => exact List.mem_cons_self
  | succ depth => exact List.mem_cons_self

end Shape

/-! ## Rows -/

namespace Row

variable {depth : ℕ}

def entries (row : Row depth) : List (Bytes × Bytes) := rowEntries Shape.entries row.1 row.2

def layout (row : Row depth) : List (PageId × Page) :=
  (row.1.flatMap fun child => child.2.layout) ++ row.2.layout

def pageIds (row : Row depth) : List PageId := row.layout.map Prod.fst

def leafIds (row : Row depth) : List PageId :=
  (row.1.flatMap fun child => child.2.leafIds) ++ row.2.leafIds

def Ordered (lo hi : Option Bytes) (row : Row depth) : Prop :=
  Segments (Shape.Ordered depth) hi lo row.1 row.2

def OrderedBy (r : Bytes → Bytes → Prop) (lo hi : Option Bytes) (row : Row depth) : Prop :=
  Segments (Shape.OrderedBy r depth) hi lo row.1 row.2

def Fits (maxLeaf maxInternal : ℕ) (row : Row depth) : Prop :=
  (∀ child ∈ row.1, child.2.Fits maxLeaf maxInternal) ∧ row.2.Fits maxLeaf maxInternal

/-- The page of the first tree of the row. -/
def firstId (row : Row depth) : PageId := (row.1.head?.map fun child => child.2.rootId).getD
  row.2.rootId

/-- A row of one tree. -/
def single (shape : Shape depth) : Row depth := ([], shape)

/-- More trees before a row. -/
def prepend (before : List (Bytes × Shape depth)) (row : Row depth) : Row depth :=
  (before ++ row.1, row.2)

/-- Two rows with a separator between them. -/
def join (left : Row depth) (separator : Bytes) (right : Row depth) : Row depth :=
  (left.1 ++ (separator, left.2) :: right.1, right.2)

variable {left right row : Row depth} {before : List (Bytes × Shape depth)} {separator : Bytes}
  {lo hi : Option Bytes} {maxLeaf maxInternal : ℕ} {shape : Shape depth}

@[simp]
theorem entries_single : (single shape).entries = shape.entries := rfl

@[simp]
theorem layout_single : (single shape).layout = shape.layout := rfl

@[simp]
theorem pageIds_single : (single shape).pageIds = shape.pageIds := rfl

@[simp]
theorem leafIds_single : (single shape).leafIds = shape.leafIds := rfl

@[simp]
theorem entries_join : (left.join separator right).entries = left.entries ++ right.entries :=
  rowEntries_cut

@[simp]
theorem layout_join : (left.join separator right).layout = left.layout ++ right.layout := by
  simp [layout, join]

@[simp]
theorem pageIds_join : (left.join separator right).pageIds = left.pageIds ++ right.pageIds := by
  simp [pageIds]

@[simp]
theorem leafIds_join : (left.join separator right).leafIds = left.leafIds ++ right.leafIds := by
  simp [leafIds, join]

theorem entries_mk (before : List (Bytes × Shape depth)) (last : Shape depth) :
    Row.entries (before, last) = (before.flatMap fun child => child.2.entries) ++ last.entries :=
  rfl

@[simp]
theorem entries_prepend : (row.prepend before).entries =
    (before.flatMap fun child => child.2.entries) ++ row.entries := by
  simp [entries, prepend, rowEntries]

@[simp]
theorem layout_prepend : (row.prepend before).layout =
    (before.flatMap fun child => child.2.layout) ++ row.layout := by
  simp [layout, prepend]

@[simp]
theorem pageIds_mk (before : List (Bytes × Shape depth)) (last : Shape depth) :
    Row.pageIds (before, last) = (before.flatMap fun child => child.2.pageIds) ++ last.pageIds := by
  simp [pageIds, layout, Shape.pageIds, List.map_flatMap]

@[simp]
theorem pageIds_prepend : (row.prepend before).pageIds =
    (before.flatMap fun child => child.2.pageIds) ++ row.pageIds := by
  simp [pageIds, Shape.pageIds, List.map_flatMap]

@[simp]
theorem leafIds_prepend : (row.prepend before).leafIds =
    (before.flatMap fun child => child.2.leafIds) ++ row.leafIds := by
  simp [leafIds, prepend]

theorem layout_join_mk (before after : List (Bytes × Shape depth)) (child last : Shape depth) :
    (Row.join (before, child) separator (after, last)).layout =
      (before.flatMap fun child => child.2.layout) ++ (child.layout ++ Row.layout (after, last)) := by
  rw [layout_join, layout, List.append_assoc]

theorem leafIds_join_mk (before after : List (Bytes × Shape depth)) (child last : Shape depth) :
    (Row.join (before, child) separator (after, last)).leafIds =
      (before.flatMap fun child => child.2.leafIds) ++
        (child.leafIds ++ Row.leafIds (after, last)) := by
  rw [leafIds_join, leafIds, List.append_assoc]

theorem layout_prepend_join (before after : List (Bytes × Shape depth)) (row : Row depth)
    (last : Shape depth) : ((row.prepend before).join separator (after, last)).layout =
      (before.flatMap fun child => child.2.layout) ++ (row.layout ++ Row.layout (after, last)) := by
  rw [layout_join, layout_prepend, List.append_assoc]

theorem leafIds_prepend_join (before after : List (Bytes × Shape depth)) (row : Row depth)
    (last : Shape depth) : ((row.prepend before).join separator (after, last)).leafIds =
      (before.flatMap fun child => child.2.leafIds) ++
        (row.leafIds ++ Row.leafIds (after, last)) := by
  rw [leafIds_join, leafIds_prepend, List.append_assoc]

theorem orderedBy_join {r : Bytes → Bytes → Prop} :
    (left.join separator right).OrderedBy r lo hi ↔
      left.OrderedBy r lo (some separator) ∧ right.OrderedBy r (some separator) hi :=
  segments_cut

theorem ordered_join : (left.join separator right).Ordered lo hi ↔
    left.Ordered lo (some separator) ∧ right.Ordered (some separator) hi :=
  segments_cut

theorem fits_join : (left.join separator right).Fits maxLeaf maxInternal ↔
    left.Fits maxLeaf maxInternal ∧ right.Fits maxLeaf maxInternal := by
  simp only [Fits, join, List.mem_append, List.mem_cons]
  constructor
  · rintro ⟨children, last⟩
    exact ⟨⟨fun child childMem => children child (Or.inl childMem),
      children _ (Or.inr (Or.inl rfl))⟩,
      fun child childMem => children child (Or.inr (Or.inr childMem)), last⟩
  · rintro ⟨⟨first, middle⟩, second, last⟩
    refine ⟨?_, last⟩
    rintro child (childMem | rfl | childMem)
    · exact first child childMem
    · exact middle
    · exact second child childMem

theorem fits_prepend : (row.prepend before).Fits maxLeaf maxInternal ↔
    (∀ child ∈ before, child.2.Fits maxLeaf maxInternal) ∧ row.Fits maxLeaf maxInternal := by
  simp only [Fits, prepend, List.mem_append, or_imp, forall_and]
  rw [and_assoc]

/-- A row can be cut at each of its separators. -/
theorem eq_join_of_getElem? {row : Row depth} {index : ℕ} {child : Shape depth}
    (found : row.1[index]? = some (separator, child)) :
    row = Row.join (row.1.take index, child) separator (row.1.drop (index + 1), row.2) := by
  rcases List.getElem?_eq_some_iff.mp found with ⟨inside, here⟩
  refine Prod.ext ?_ rfl
  simp only [join]
  rw [← here, List.getElem_cons_drop, List.take_append_drop]

theorem exists_join {row : Row depth} {index : ℕ} (inside : index < row.1.length) :
    ∃ left separator right, row = Row.join left separator right ∧ left.1.length = index := by
  rcases present : row.1[index] with ⟨separator, child⟩
  have found : row.1[index]? = some (separator, child) := by
    rw [List.getElem?_eq_getElem inside, present]
  refine ⟨_, separator, _, eq_join_of_getElem? found, ?_⟩
  rw [List.length_take]
  omega

theorem eq_prepend_single (row : Row depth) : row = (single row.2).prepend row.1 := by
  simp [prepend, single]

end Row

/-! ## Order -/

namespace Shape

variable {depth : ℕ} {lo hi : Option Bytes}

theorem exists_leaf (shape : Shape 0) : ∃ id entries, shape = leaf id entries :=
  ⟨shape.1, shape.2, rfl⟩

theorem exists_node (shape : Shape (depth + 1)) :
    ∃ id children last, shape = node id (children, last) :=
  ⟨shape.1, shape.2.1, shape.2.2, rfl⟩

@[simp]
theorem entries_leaf (id : PageId) (entries : List (Bytes × Bytes)) :
    (leaf id entries).entries = entries := rfl

@[simp]
theorem layout_leaf (id : PageId) (entries : List (Bytes × Bytes)) :
    (leaf id entries).layout = [(id, .leaf ⟨nullPage, nullPage, entries⟩)] := rfl

@[simp]
theorem pageIds_leaf (id : PageId) (entries : List (Bytes × Bytes)) :
    (leaf id entries).pageIds = [id] := rfl

@[simp]
theorem leafIds_leaf (id : PageId) (entries : List (Bytes × Bytes)) :
    (leaf id entries).leafIds = [id] := rfl

@[simp]
theorem rootId_leaf (id : PageId) (entries : List (Bytes × Bytes)) :
    (leaf id entries).rootId = id := rfl

@[simp]
theorem entries_node (id : PageId) (row : Row depth) : (node id row).entries = row.entries := rfl

@[simp]
theorem layout_node (id : PageId) (row : Row depth) :
    (node id row).layout = (id, .internal (rowNode row)) :: row.layout := rfl

@[simp]
theorem pageIds_node (id : PageId) (row : Row depth) :
    (node id row).pageIds = id :: row.pageIds := rfl

@[simp]
theorem leafIds_node (id : PageId) (row : Row depth) : (node id row).leafIds = row.leafIds := rfl

@[simp]
theorem rootId_node (id : PageId) (row : Row depth) : (node id row).rootId = id := rfl

theorem fits_node {maxLeaf maxInternal : ℕ} {id : PageId} {row : Row depth} :
    (node id row).Fits maxLeaf maxInternal ↔
      row.1.length ≤ maxInternal ∧ row.Fits maxLeaf maxInternal := Iff.rfl

theorem ordered_eq : ∀ depth : ℕ, Ordered depth = OrderedBy (· < ·) depth
  | 0 => rfl
  | depth + 1 => by
      funext lo hi shape
      rw [Ordered, OrderedBy, ordered_eq depth]

theorem OrderedBy.below {r : Bytes → Bytes → Prop} (comparison : Comparison r) :
    ∀ {depth : ℕ} {lo hi : Option Bytes} {shape : Shape depth},
      OrderedBy r depth lo hi shape → BelowBy r lo hi
  | 0, _, _, _, ordered => ordered.1
  | _ + 1, _, _, _, ordered =>
      Segments.below comparison (fun _ _ _ inner => OrderedBy.below comparison inner) ordered

theorem OrderedBy.within {r : Bytes → Bytes → Prop} (comparison : Comparison r) :
    ∀ {depth : ℕ} {lo hi : Option Bytes} {shape : Shape depth},
      OrderedBy r depth lo hi shape → ∀ entry ∈ shape.entries, WithinBy r lo hi entry.1
  | 0, _, _, _, ordered => ordered.2.2
  | _ + 1, _, _, _, ordered =>
      Segments.within comparison (fun _ _ _ inner => inner.below comparison)
        (fun _ _ _ inner => OrderedBy.within comparison inner) ordered

theorem OrderedBy.ascending {r : Bytes → Bytes → Prop} (comparison : Comparison r) :
    ∀ {depth : ℕ} {lo hi : Option Bytes} {shape : Shape depth},
      OrderedBy r depth lo hi shape → AscendingBy r shape.entries
  | 0, _, _, _, ordered => ordered.2.1
  | _ + 1, _, _, _, ordered =>
      Segments.ascending comparison (fun _ _ _ inner => inner.below comparison)
        (fun _ _ _ inner => inner.within comparison)
        (fun _ _ _ inner => OrderedBy.ascending comparison inner) ordered

/-- Keys that ascend strictly ascend. -/
theorem OrderedBy.le : ∀ {depth : ℕ} {lo hi : Option Bytes} {shape : Shape depth},
    OrderedBy (· < ·) depth lo hi shape → OrderedBy (· ≤ ·) depth lo hi shape
  | 0, _, _, _, ordered =>
      ⟨fun low lowMem high highMem => (ordered.1 low lowMem high highMem).le,
        ordered.2.1.imp le_of_lt,
        fun entry entryMem => Within.withinBy comparison_le (ordered.2.2 entry entryMem)⟩
  | _ + 1, _, _, _, ordered => Segments.imp (fun _ _ _ inner => OrderedBy.le inner) ordered

theorem Ordered.le {shape : Shape depth} (ordered : Ordered depth lo hi shape) :
    OrderedBy (· ≤ ·) depth lo hi shape := by
  rw [ordered_eq] at ordered
  exact ordered.le

theorem Ordered.within {shape : Shape depth} (ordered : Ordered depth lo hi shape) :
    ∀ entry ∈ shape.entries, Within lo hi entry.1 := by
  rw [ordered_eq] at ordered
  exact ordered.within comparison_lt

theorem Ordered.ascending {shape : Shape depth} (ordered : Ordered depth lo hi shape) :
    Ascending shape.entries := by
  rw [ordered_eq] at ordered
  exact ordered.ascending comparison_lt

end Shape

namespace Row

variable {depth : ℕ} {row : Row depth} {lo hi : Option Bytes}

theorem ordered_eq : row.Ordered lo hi = row.OrderedBy (· < ·) lo hi := by
  rw [Ordered, OrderedBy, Shape.ordered_eq]

theorem Ordered.within (ordered : row.Ordered lo hi) :
    ∀ entry ∈ row.entries, Within lo hi entry.1 := by
  rw [ordered_eq] at ordered
  exact Segments.within comparison_lt (fun _ _ _ inner => inner.below comparison_lt)
    (fun _ _ _ inner => inner.within comparison_lt) ordered

end Row

end Seisin
