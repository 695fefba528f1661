import Mathlib
import Seisin.Storage.BTree.Shape

/-!
# Insertion into a shape

What an insertion makes of a shape: a row of one tree, or of two if the node had to be cut, with the
page that is allocated next.  The row keeps the order, the capacities and the pages, and its entries
are those of the shape with the new entry in its place.
-/

namespace Seisin

open SortedList Separated

namespace BPlusTree

variable {Child : Type} {key separator : Bytes} {entries before after : List (Bytes × Child)}
  {child : Child}

theorem route_of_lt (passed : ∀ entry ∈ before, entry.1 ≤ key) (less : key < separator) :
    route key (before ++ (separator, child) :: after) = (before, (separator, child) :: after) := by
  have all : ∀ entry ∈ before, decide (entry.1 ≤ key) = true :=
    fun entry entryMem => decide_eq_true (passed entry entryMem)
  have stop : ¬separator ≤ key := not_le.mpr less
  rw [route, List.span_eq_takeWhile_dropWhile, List.takeWhile_append_of_pos all,
    List.dropWhile_append_of_pos all]
  simp [stop]

theorem route_of_le (passed : ∀ entry ∈ entries, entry.1 ≤ key) :
    route key entries = (entries, []) := by
  have all : ∀ entry ∈ entries, decide (entry.1 ≤ key) = true :=
    fun entry entryMem => decide_eq_true (passed entry entryMem)
  rw [route, List.span_eq_takeWhile_dropWhile, List.takeWhile_eq_self_iff.mpr all,
    List.dropWhile_eq_nil_iff.mpr all]

/-- A key is below some separator and not below those before it, or below none. -/
theorem route_cases (key : Bytes) (entries : List (Bytes × Child)) :
    (∃ before separator child after, entries = before ++ (separator, child) :: after ∧
      (∀ entry ∈ before, entry.1 ≤ key) ∧ key < separator) ∨
    ∀ entry ∈ entries, entry.1 ≤ key := by
  induction entries with
  | nil => exact Or.inr (by simp)
  | cons first entries ih =>
      rcases first with ⟨separator, child⟩
      rcases lt_or_ge key separator with less | passed
      · exact Or.inl ⟨[], separator, child, entries, rfl, by simp, less⟩
      · rcases ih with ⟨before, later, other, after, rfl, others, less⟩ | others
        · refine Or.inl ⟨(separator, child) :: before, later, other, after, rfl, ?_, less⟩
          exact List.forall_mem_cons.mpr ⟨passed, others⟩
        · exact Or.inr (List.forall_mem_cons.mpr ⟨passed, others⟩)

end BPlusTree

namespace Shape

/-- The page of an inner node takes a row.  A row that is too long is cut at its middle, and what is
right of it goes to the next page. -/
def settle (maxInternal : ℕ) {depth : ℕ} (id next : PageId) (row : Row depth) :
    Row (depth + 1) × PageId :=
  if row.1.length ≤ maxInternal then (Row.single (node id row), next)
  else
    let mid := row.1.length / 2
    match row.1[mid]? with
    | none => (Row.single (node id row), next)
    | some (key, child) =>
        (([(key, node id (row.1.take mid, child))], node next (row.1.drop (mid + 1), row.2)),
          next + 1)

/-- The page of a leaf takes entries, or the smaller half of them. -/
def settleLeaf (maxLeaf : ℕ) (id next : PageId) (entries : List (Bytes × Bytes)) :
    Row 0 × PageId :=
  if entries.length ≤ maxLeaf then (Row.single (leaf id entries), next)
  else
    let mid := entries.length / 2
    (([(((entries.drop mid).head?.map Prod.fst).getD [], leaf id (entries.take mid))],
      leaf next (entries.drop mid)), next + 1)

def insert (search : Search Bytes) (maxLeaf maxInternal : ℕ) (key value : Bytes) :
    {depth : ℕ} → Shape depth → PageId → Row depth × PageId
  | 0, shape, next => settleLeaf maxLeaf shape.1 next (upsertBy search key value shape.2)
  | _ + 1, shape, next =>
      match BPlusTree.route key shape.2.1 with
      | (before, (separator, child) :: after) =>
          let (grown, next) := insert search maxLeaf maxInternal key value child next
          settle maxInternal shape.1 next
            ((grown.prepend before).join separator (after, shape.2.2))
      | (before, []) =>
          let (grown, next) := insert search maxLeaf maxInternal key value shape.2.2 next
          settle maxInternal shape.1 next (grown.prepend before)

/-! ## The two ways a node settles -/

variable {maxLeaf maxInternal depth : ℕ} {id next : PageId} {row : Row depth}
  {lo hi : Option Bytes} {r : Bytes → Bytes → Prop}

theorem settle_of_le (room : row.1.length ≤ maxInternal) :
    settle maxInternal id next row = (Row.single (node id row), next) := by
  rw [settle, if_pos room]

theorem settle_of_lt (id next : PageId) (full : maxInternal < row.1.length) :
    ∃ left separator right, row = left.join separator right ∧
      left.1.length = row.1.length / 2 ∧
      settle maxInternal id next row =
        (([(separator, node id left)], node next right), next + 1) := by
  have inside : row.1.length / 2 < row.1.length := by omega
  rcases present : row.1[row.1.length / 2] with ⟨separator, child⟩
  have found : row.1[row.1.length / 2]? = some (separator, child) := by
    rw [List.getElem?_eq_getElem inside, present]
  refine ⟨_, separator, _, Row.eq_join_of_getElem? found, ?_, ?_⟩
  · rw [List.length_take]
    omega
  · rw [settle, if_neg (by omega)]
    simp only [found]

theorem settle_cases (settled : Row (depth + 1) × PageId)
    (result : settle maxInternal id next row = settled) :
    (row.1.length ≤ maxInternal ∧ settled = (Row.single (node id row), next)) ∨
    ∃ left separator right, row = left.join separator right ∧
      left.1.length = row.1.length / 2 ∧ maxInternal < row.1.length ∧
      settled = (([(separator, node id left)], node next right), next + 1) := by
  rcases Nat.lt_or_ge maxInternal row.1.length with full | room
  · rcases settle_of_lt id next full with
      ⟨left, separator, right, whole, half, equation⟩
    exact Or.inr ⟨left, separator, right, whole, half, full, by rw [← result, equation]⟩
  · exact Or.inl ⟨room, by rw [← result, settle_of_le room]⟩

theorem settleLeaf_cases (entries : List (Bytes × Bytes)) (settled : Row 0 × PageId)
    (positive : 0 < maxLeaf) (result : settleLeaf maxLeaf id next entries = settled) :
    (entries.length ≤ maxLeaf ∧ settled = (Row.single (leaf id entries), next)) ∨
    ∃ left first right, entries = left ++ first :: right ∧ left ≠ [] ∧
      left.length = entries.length / 2 ∧ maxLeaf < entries.length ∧
      settled = (([(first.1, leaf id left)], leaf next (first :: right)), next + 1) := by
  rcases Nat.lt_or_ge maxLeaf entries.length with full | room
  · have inside : entries.length / 2 < entries.length := by omega
    refine Or.inr ⟨entries.take (entries.length / 2), entries[entries.length / 2],
      entries.drop (entries.length / 2 + 1), ?_, ?_, ?_, full, ?_⟩
    · rw [List.getElem_cons_drop, List.take_append_drop]
    · intro empty
      have none := congrArg List.length empty
      rw [List.length_take, List.length_nil] at none
      omega
    · rw [List.length_take]
      omega
    · rw [← result, settleLeaf, if_neg (by omega), List.getElem_cons_drop]
      have first : (entries.drop (entries.length / 2)).head? =
          some entries[entries.length / 2] := by
        rw [List.head?_drop, List.getElem?_eq_getElem inside]
      simp only [first, Option.map_some, Option.getD_some]
  · refine Or.inl ⟨room, ?_⟩
    rw [← result, settleLeaf, if_pos room]

/-! ## The two ways an insertion descends -/

variable {search : Search Bytes} {key value separator : Bytes}
  {before after : List (Bytes × Shape depth)} {child last : Shape depth}

theorem insert_of_lt (passed : ∀ entry ∈ before, entry.1 ≤ key) (less : key < separator) :
    insert search maxLeaf maxInternal key value
        (node id (Row.join (before, child) separator (after, last))) next =
      settle maxInternal id (insert search maxLeaf maxInternal key value child next).2
        (((insert search maxLeaf maxInternal key value child next).1.prepend before).join separator
          (after, last)) := by
  have routed : BPlusTree.route key (before ++ (separator, child) :: after) =
      (before, (separator, child) :: after) := BPlusTree.route_of_lt passed less
  simp only [insert, node, Row.prepend, Row.join, routed]

theorem insert_of_le (passed : ∀ entry ∈ before, entry.1 ≤ key) :
    insert search maxLeaf maxInternal key value (node id (before, last)) next =
      settle maxInternal id (insert search maxLeaf maxInternal key value last next).2
        ((insert search maxLeaf maxInternal key value last next).1.prepend before) := by
  have routed : BPlusTree.route key before = (before, []) := BPlusTree.route_of_le passed
  simp only [insert, node, Row.prepend, routed]

/-- An inner node, by the child the key belongs to. -/
theorem node_cases (key : Bytes) (shape : Shape (depth + 1)) :
    (∃ id before child separator after last,
      shape = node id (Row.join (before, child) separator (after, last)) ∧
      (∀ entry ∈ before, entry.1 ≤ key) ∧ key < separator) ∨
    ∃ id before last, shape = node id (before, last) ∧ ∀ entry ∈ before, entry.1 ≤ key := by
  rcases shape with ⟨id, children, last⟩
  rcases BPlusTree.route_cases key children with
    ⟨before, separator, child, after, rfl, passed, less⟩ | passed
  · exact Or.inl ⟨id, before, child, separator, after, last, rfl, passed, less⟩
  · exact Or.inr ⟨id, children, last, rfl, passed⟩

/-! ## Order and entries -/

theorem settle_ordered (ordered : row.OrderedBy r lo hi) :
    (settle maxInternal id next row).1.OrderedBy r lo hi := by
  rcases settle_cases _ (rfl : settle maxInternal id next row = _) with
    ⟨_, settled⟩ | ⟨left, separator, right, rfl, _, _, settled⟩
  · rw [settled]
    exact ordered
  · rw [settled]
    exact Row.orderedBy_join.mp ordered

theorem settle_entries : (settle maxInternal id next row).1.entries = row.entries := by
  rcases settle_cases _ (rfl : settle maxInternal id next row = _) with
    ⟨_, settled⟩ | ⟨left, separator, right, rfl, _, _, settled⟩
  · rw [settled]
    rfl
  · rw [settled, Row.entries_join]
    simp [Row.entries, rowEntries]

theorem settleLeaf_ordered {entries : List (Bytes × Bytes)} (comparison : Comparison r)
    (positive : 0 < maxLeaf) (ordered : OrderedBy r 0 lo hi (leaf id entries)) :
    (settleLeaf maxLeaf id next entries).1.OrderedBy r lo hi := by
  rcases settleLeaf_cases entries _ positive (rfl : settleLeaf maxLeaf id next entries = _) with
    ⟨_, settled⟩ | ⟨left, first, right, rfl, filled, _, _, settled⟩
  · rw [settled]
    exact ordered
  · rw [settled]
    rcases ordered with ⟨_, ascending, within⟩
    rcases List.pairwise_append.mp ascending with ⟨leftAscending, rightAscending, across⟩
    have leftBelow : ∀ entry ∈ left, r entry.1 first.1 :=
      fun entry entryMem => across entry entryMem first List.mem_cons_self
    have rightAbove : ∀ entry ∈ first :: right, first.1 ≤ entry.1 :=
      List.forall_mem_cons.mpr ⟨le_rfl, fun entry entryMem =>
        comparison.le ((List.pairwise_cons.mp rightAscending).1 entry entryMem)⟩
    have middle : WithinBy r lo hi first.1 :=
      within first (List.mem_append_right _ List.mem_cons_self)
    have leftWithin : ∀ entry ∈ left, WithinBy r lo (some first.1) entry.1 := by
      intro entry entryMem
      refine ⟨(within entry (List.mem_append_left _ entryMem)).1, ?_⟩
      intro high highMem
      rw [Option.mem_some_iff] at highMem
      rw [← highMem]
      exact leftBelow entry entryMem
    refine ⟨⟨?_, leftAscending, leftWithin⟩, ?_, rightAscending, ?_⟩
    · rcases List.exists_mem_of_ne_nil left filled with ⟨entry, entryMem⟩
      exact (leftWithin entry entryMem).below comparison
    · intro low lowMem high highMem
      rw [Option.mem_some_iff] at lowMem
      rw [← lowMem]
      exact middle.2 high highMem
    · intro entry entryMem
      refine ⟨?_, (within entry (List.mem_append_right _ entryMem)).2⟩
      intro low lowMem
      rw [Option.mem_some_iff] at lowMem
      rw [← lowMem]
      exact rightAbove entry entryMem

theorem settleLeaf_entries {entries : List (Bytes × Bytes)} (positive : 0 < maxLeaf) :
    (settleLeaf maxLeaf id next entries).1.entries = entries := by
  rcases settleLeaf_cases entries _ positive (rfl : settleLeaf maxLeaf id next entries = _) with
    ⟨_, settled⟩ | ⟨left, first, right, rfl, _, _, _, settled⟩
  · rw [settled]
    rfl
  · rw [settled]
    simp [Row.entries, rowEntries, Shape.entries, leaf]

theorem Within.of_lt {bound : Bytes} (within : Within lo hi key) (less : key < bound) :
    Within lo (some bound) key := by
  refine ⟨within.1, ?_⟩
  intro high highMem
  rw [Option.mem_some_iff] at highMem
  rw [← highMem]
  exact less

theorem insert_orderedBy (comparison : Comparison r) (positive : 0 < maxLeaf) :
    ∀ {depth : ℕ} {shape : Shape depth} {lo hi : Option Bytes} {next : PageId},
      OrderedBy r depth lo hi shape → Within lo hi key →
      (insert search maxLeaf maxInternal key value shape next).1.OrderedBy r lo hi := by
  intro depth
  induction depth with
  | zero =>
      intro shape lo hi next ordered within
      have here := within.withinBy comparison
      refine settleLeaf_ordered comparison positive
        ⟨here.below comparison, ordered.2.1.upsertBy search comparison, ?_⟩
      intro entry entryMem
      rcases mem_of_mem_upsertBy search entryMem with rfl | present
      · exact here
      · exact ordered.2.2 entry present
  | succ depth ih =>
      intro shape lo hi next ordered within
      rcases node_cases key shape with
        ⟨id, before, child, separator, after, last, rfl, passed, less⟩ |
        ⟨id, before, last, rfl, passed⟩
      · rcases Row.orderedBy_join.mp ordered with ⟨left, right⟩
        rw [insert_of_lt passed less]
        refine settle_ordered (Row.orderedBy_join.mpr ⟨?_, right⟩)
        refine left.graft within.1 passed ?_
        intro mid notBelow inner
        exact ih inner (Within.of_lt ⟨notBelow, within.2⟩ less)
      · rw [insert_of_le passed]
        refine settle_ordered (Segments.graft ordered within.1 passed ?_)
        intro mid notBelow inner
        exact ih inner ⟨notBelow, within.2⟩

theorem insert_ordered (positive : 0 < maxLeaf) {shape : Shape depth} {next : PageId}
    (ordered : Ordered depth lo hi shape) (within : Within lo hi key) :
    (insert search maxLeaf maxInternal key value shape next).1.Ordered lo hi := by
  rw [ordered_eq] at ordered
  rw [Row.ordered_eq]
  exact insert_orderedBy comparison_lt positive ordered within

theorem insert_entries (positive : 0 < maxLeaf) :
    ∀ {depth : ℕ} {shape : Shape depth} {lo hi : Option Bytes} {next : PageId},
      Ordered depth lo hi shape →
      (insert search maxLeaf maxInternal key value shape next).1.entries =
        upsert key value shape.entries := by
  intro depth
  induction depth with
  | zero =>
      intro shape lo hi next ordered
      rw [insert, settleLeaf_entries positive]
      exact upsertBy_eq search ordered.2.1
  | succ depth ih =>
      intro shape lo hi next ordered
      rcases node_cases key shape with
        ⟨id, before, child, separator, after, last, rfl, passed, less⟩ |
        ⟨id, before, last, rfl, passed⟩
      · rcases Row.ordered_join.mp ordered with ⟨left, right⟩
        rcases left.exists_last with ⟨mid, inner⟩
        have under := left.entries_lt (fun _ _ _ inner => Ordered.within inner) passed
        have beyond : ∀ entry ∈ Row.entries (after, last), key < entry.1 := by
          intro entry entryMem
          exact less.trans_le ((right.within entry entryMem).1 separator rfl)
        rw [insert_of_lt passed less, settle_entries, Row.entries_join, Row.entries_prepend,
          ih inner, entries_node, Row.entries_join, upsert_append_right beyond]
        congr 1
        exact (upsert_append_left under).symm
      · have segments : Row.Ordered lo hi (before, last) := ordered
        rcases segments.exists_last with ⟨mid, inner⟩
        have under := segments.entries_lt (fun _ _ _ inner => Ordered.within inner) passed
        rw [insert_of_le passed, settle_entries, Row.entries_prepend, ih inner]
        exact (upsert_append_left under).symm

/-! ## The leaf a key belongs to -/

/-- Whether the leaf that a key belongs to has it. -/
def found (key : Bytes) : {depth : ℕ} → Shape depth → Bool
  | 0, shape => hasKey key shape.2
  | _ + 1, shape =>
      match BPlusTree.route key shape.2.1 with
      | (_, (_, child) :: _) => found key child
      | (_, []) => found key shape.2.2

theorem found_of_lt (id : PageId) (after : List (Bytes × Shape depth)) (last : Shape depth)
    (passed : ∀ entry ∈ before, entry.1 ≤ key) (less : key < separator) :
    found key (node id (Row.join (before, child) separator (after, last))) = found key child := by
  have routed : BPlusTree.route key (before ++ (separator, child) :: after) =
      (before, (separator, child) :: after) := BPlusTree.route_of_lt passed less
  simp only [found, node, Row.join, routed]

theorem found_of_le (id : PageId) (last : Shape depth) (passed : ∀ entry ∈ before, entry.1 ≤ key) :
    found key (node id (before, last)) = found key last := by
  have routed : BPlusTree.route key before = (before, []) := BPlusTree.route_of_le passed
  simp only [found, node, routed]

/-- Where every key is there once, it is there or nowhere. -/
theorem found_eq : ∀ {depth : ℕ} {shape : Shape depth} {lo hi : Option Bytes},
    Ordered depth lo hi shape → found key shape = hasKey key shape.entries := by
  intro depth
  induction depth with
  | zero => exact fun _ => rfl
  | succ depth ih =>
      intro shape lo hi ordered
      rcases node_cases key shape with
        ⟨id, before, child, separator, after, last, rfl, passed, less⟩ |
        ⟨id, before, last, rfl, passed⟩
      · rcases Row.ordered_join.mp ordered with ⟨left, right⟩
        rcases left.exists_last with ⟨mid, inner⟩
        have under := left.entries_lt (fun _ _ _ inner => Ordered.within inner) passed
        have beyond : ∀ entry ∈ Row.entries (after, last), entry.1 ≠ key := by
          intro entry entryMem
          exact (less.trans_le ((right.within entry entryMem).1 separator rfl)).ne'
        rw [found_of_lt id after last passed less, ih inner, entries_node, Row.entries_join,
          hasKey_append, hasKey_eq_false beyond, Bool.or_false, Row.entries, rowEntries,
          hasKey_append, hasKey_eq_false fun entry entryMem => (under entry entryMem).ne,
          Bool.false_or]
      · have segments : Row.Ordered lo hi (before, last) := ordered
        rcases segments.exists_last with ⟨mid, inner⟩
        have under := segments.entries_lt (fun _ _ _ inner => Ordered.within inner) passed
        rw [found_of_le id last passed, ih inner, entries_node, Row.entries, rowEntries,
          hasKey_append, hasKey_eq_false fun entry entryMem => (under entry entryMem).ne,
          Bool.false_or]

theorem insert_size (positive : 0 < maxLeaf) :
    ∀ {depth : ℕ} {shape : Shape depth} {lo hi : Option Bytes} {next : PageId},
      OrderedBy (· ≤ ·) depth lo hi shape →
      (insert search maxLeaf maxInternal key value shape next).1.entries.length =
        shape.size + (!found key shape).toNat := by
  intro depth
  induction depth with
  | zero =>
      intro shape lo hi next ordered
      have grown := length_upsertBy search key value comparison_le ordered.2.1
      rw [insert, settleLeaf_entries positive, grown]
      rfl
  | succ depth ih =>
      intro shape lo hi next ordered
      rcases node_cases key shape with
        ⟨id, before, child, separator, after, last, rfl, passed, less⟩ |
        ⟨id, before, last, rfl, passed⟩
      · rcases Row.orderedBy_join.mp ordered with ⟨left, _⟩
        rcases left.exists_last with ⟨mid, inner⟩
        have grown : (insert search maxLeaf maxInternal key value child next).1.entries.length =
            child.size + (!found key child).toNat := ih inner
        rw [insert_of_lt passed less, settle_entries, Row.entries_join, Row.entries_prepend,
          found_of_lt id after last passed less, size, entries_node, Row.entries_join,
          Row.entries_mk before]
        simp only [List.length_append, grown, size]
        omega
      · have segments : Row.OrderedBy (· ≤ ·) lo hi (before, last) := ordered
        rcases segments.exists_last with ⟨mid, inner⟩
        have grown : (insert search maxLeaf maxInternal key value last next).1.entries.length =
            last.size + (!found key last).toNat := ih inner
        rw [insert_of_le passed, settle_entries, Row.entries_prepend, found_of_le id last passed,
          size, entries_node, Row.entries_mk before last]
        simp only [List.length_append, grown, size]
        omega

theorem mem_insert (positive : 0 < maxLeaf) {entry : Bytes × Bytes} :
    ∀ {depth : ℕ} {shape : Shape depth} {next : PageId},
      entry ∈ (insert search maxLeaf maxInternal key value shape next).1.entries →
      entry = (key, value) ∨ entry ∈ shape.entries := by
  intro depth
  induction depth with
  | zero =>
      intro shape next entryMem
      rw [insert, settleLeaf_entries positive] at entryMem
      exact mem_of_mem_upsertBy search entryMem
  | succ depth ih =>
      intro shape next entryMem
      rcases node_cases key shape with
        ⟨id, before, child, separator, after, last, rfl, passed, less⟩ |
        ⟨id, before, last, rfl, passed⟩
      · rw [insert_of_lt passed less, settle_entries, Row.entries_join, Row.entries_prepend,
          List.mem_append, List.mem_append] at entryMem
        rw [entries_node, Row.entries_join, Row.entries_mk before, List.mem_append, List.mem_append]
        rcases entryMem with (earlier | here) | later
        · exact Or.inr (Or.inl (Or.inl earlier))
        · exact (ih here).imp_right fun present => Or.inl (Or.inr present)
        · exact Or.inr (Or.inr later)
      · rw [insert_of_le passed, settle_entries, Row.entries_prepend, List.mem_append] at entryMem
        rw [entries_node, Row.entries_mk, List.mem_append]
        rcases entryMem with earlier | here
        · exact Or.inr (Or.inl earlier)
        · exact (ih here).imp_right Or.inr

/-! ## Capacities and pages -/

theorem settle_fits (positive : 0 < maxInternal) (fits : row.Fits maxLeaf maxInternal)
    (length : row.1.length ≤ maxInternal + 1) :
    (settle maxInternal id next row).1.Fits maxLeaf maxInternal := by
  rcases settle_cases _ (rfl : settle maxInternal id next row = _) with
    ⟨room, settled⟩ | ⟨left, separator, right, rfl, half, _, settled⟩
  · rw [settled]
    exact ⟨by simp [Row.single], room, fits⟩
  · rw [settled]
    rcases Row.fits_join.mp fits with ⟨leftFits, rightFits⟩
    have total : (left.join separator right).1.length = left.1.length + right.1.length + 1 := by
      simp [Row.join]
      omega
    have atLeast : 1 ≤ maxInternal := positive
    refine ⟨?_, ?_, rightFits⟩
    · simp only [List.mem_singleton, forall_eq]
      refine ⟨?_, leftFits⟩
      change left.1.length ≤ maxInternal
      omega
    · change right.1.length ≤ maxInternal
      omega

theorem settle_length : (settle maxInternal id next row).1.1.length ≤ 1 := by
  rcases settle_cases _ (rfl : settle maxInternal id next row = _) with
    ⟨_, settled⟩ | ⟨left, separator, right, _, _, _, settled⟩
  · rw [settled]
    exact Nat.zero_le 1
  · rw [settled]
    exact le_rfl

theorem firstId_settle : (settle maxInternal id next row).1.firstId = id := by
  rcases settle_cases _ (rfl : settle maxInternal id next row = _) with
    ⟨_, settled⟩ | ⟨left, separator, right, _, _, _, settled⟩
  · rw [settled]
    rfl
  · rw [settled]
    rfl

theorem insert_length (search : Search Bytes) (maxInternal : ℕ) (key value : Bytes)
    (positive : 0 < maxLeaf) :
    ∀ {depth : ℕ} (shape : Shape depth) (next : PageId),
      (insert search maxLeaf maxInternal key value shape next).1.1.length ≤ 1
  | 0, shape, next => by
      rcases settleLeaf_cases (upsertBy search key value shape.2) _ positive
        (rfl : settleLeaf maxLeaf shape.1 next (upsertBy search key value shape.2) = _) with
        ⟨_, settled⟩ | ⟨left, first, right, _, _, _, _, settled⟩
      · rw [insert, settled]
        exact Nat.zero_le 1
      · rw [insert, settled]
        exact le_rfl
  | depth + 1, shape, next => by
      rcases node_cases key shape with
        ⟨id, before, child, separator, after, last, rfl, passed, less⟩ |
        ⟨id, before, last, rfl, passed⟩
      · rw [insert_of_lt passed less]
        exact settle_length
      · rw [insert_of_le passed]
        exact settle_length

theorem insert_fits (leafRoom : 0 < maxLeaf) (room : 0 < maxInternal) :
    ∀ {depth : ℕ} {shape : Shape depth} {lo hi : Option Bytes} {next : PageId},
      OrderedBy (· ≤ ·) depth lo hi shape → shape.Fits maxLeaf maxInternal →
      (insert search maxLeaf maxInternal key value shape next).1.Fits maxLeaf maxInternal := by
  intro depth
  induction depth with
  | zero =>
      intro shape lo hi next ordered fits
      have grown := length_upsertBy search key value comparison_le ordered.2.1
      have bound : shape.2.length ≤ maxLeaf := fits
      have atMost := Bool.toNat_le (!hasKey key shape.2)
      rcases settleLeaf_cases (upsertBy search key value shape.2) _ leafRoom
        (rfl : settleLeaf maxLeaf shape.1 next (upsertBy search key value shape.2) = _) with
        ⟨within, settled⟩ | ⟨left, first, right, whole, _, half, _, settled⟩
      · rw [insert, settled]
        exact ⟨by simp [Row.single], within⟩
      · rw [insert, settled]
        have total := congrArg List.length whole
        rw [List.length_append] at total
        refine ⟨?_, ?_⟩
        · simp only [List.mem_singleton, forall_eq]
          change left.length ≤ maxLeaf
          omega
        · change (first :: right).length ≤ maxLeaf
          omega
  | succ depth ih =>
      intro shape lo hi next ordered fits
      rcases node_cases key shape with
        ⟨id, before, child, separator, after, last, rfl, passed, less⟩ |
        ⟨id, before, last, rfl, passed⟩
      · rcases Row.orderedBy_join.mp ordered with ⟨left, _⟩
        rcases left.exists_last with ⟨mid, inner⟩
        rcases Row.fits_join.mp fits.2 with ⟨leftFits, rightFits⟩
        have short := insert_length search maxInternal key value leafRoom child next
        have count := fits.1
        rw [insert_of_lt passed less]
        refine settle_fits room (Row.fits_join.mpr ⟨Row.fits_prepend.mpr
          ⟨leftFits.1, ih inner leftFits.2⟩, rightFits⟩) ?_
        simp only [Row.join, Row.prepend, node, List.length_append, List.length_cons] at count ⊢
        omega
      · have segments : Row.OrderedBy (· ≤ ·) lo hi (before, last) := ordered
        rcases segments.exists_last with ⟨mid, inner⟩
        have short := insert_length search maxInternal key value leafRoom last next
        have count := fits.1
        rw [insert_of_le passed]
        refine settle_fits room (Row.fits_prepend.mpr ⟨fits.2.1, ih inner fits.2.2⟩) ?_
        simp only [Row.prepend, node, List.length_append] at count ⊢
        omega

/-- The pages of a settled node are its own, those of the row, and those allocated for it. -/
theorem settle_pages : ∃ fresh, (settle maxInternal id next row).2 = next + fresh ∧
    ∀ a, (settle maxInternal id next row).1.pageIds.count a =
      (id :: row.pageIds).count a + (List.range' next fresh).count a := by
  rcases settle_cases _ (rfl : settle maxInternal id next row = _) with
    ⟨_, settled⟩ | ⟨left, separator, right, rfl, _, _, settled⟩
  · rw [settled]
    exact ⟨0, rfl, fun a => rfl⟩
  · rw [settled]
    refine ⟨1, rfl, ?_⟩
    intro a
    rw [Row.pageIds_mk, Row.pageIds_join]
    simp only [List.flatMap_cons, List.flatMap_nil, pageIds_node, List.append_nil,
      List.count_cons, List.count_append, List.range'_one, List.count_nil]
    omega

theorem count_insert (search : Search Bytes) (maxInternal : ℕ) (key value : Bytes)
    (positive : 0 < maxLeaf) :
    ∀ {depth : ℕ} (shape : Shape depth) (next : PageId),
      ∃ fresh, (insert search maxLeaf maxInternal key value shape next).2 = next + fresh ∧
        ∀ a, (insert search maxLeaf maxInternal key value shape next).1.pageIds.count a =
          shape.pageIds.count a + (List.range' next fresh).count a := by
  intro depth
  induction depth with
  | zero =>
      intro shape next
      rcases settleLeaf_cases (upsertBy search key value shape.2) _ positive
        (rfl : settleLeaf maxLeaf shape.1 next (upsertBy search key value shape.2) = _) with
        ⟨_, settled⟩ | ⟨left, first, right, _, _, _, _, settled⟩
      · rw [insert, settled]
        exact ⟨0, rfl, fun a => rfl⟩
      · rw [insert, settled]
        refine ⟨1, rfl, ?_⟩
        intro a
        change List.count a [shape.1, next] = List.count a [shape.1] + List.count a [next]
        simp only [List.count_cons, List.count_nil]
        omega
  | succ depth ih =>
      intro shape next
      rcases node_cases key shape with
        ⟨id, before, child, separator, after, last, rfl, passed, less⟩ |
        ⟨id, before, last, rfl, passed⟩
      · rcases ih child next with ⟨fresh, advanced, counts⟩
        rw [insert_of_lt passed less, advanced]
        rcases settle_pages with ⟨more, further, settled⟩
        refine ⟨fresh + more, ?_, ?_⟩
        · rw [further, Nat.add_assoc]
        · intro a
          have here := counts a
          rw [settled, ← List.range'_append_1]
          simp only [pageIds_node, Row.pageIds_join, Row.pageIds_prepend, List.count_cons,
            List.count_append, Row.pageIds_mk]
          omega
      · rcases ih last next with ⟨fresh, advanced, counts⟩
        rw [insert_of_le passed, advanced]
        rcases settle_pages with ⟨more, further, settled⟩
        refine ⟨fresh + more, ?_, ?_⟩
        · rw [further, Nat.add_assoc]
        · intro a
          have here := counts a
          rw [settled, ← List.range'_append_1]
          simp only [pageIds_node, Row.pageIds_prepend, List.count_cons, List.count_append,
            Row.pageIds_mk]
          omega

theorem insert_pages (search : Search Bytes) (maxInternal : ℕ) (key value : Bytes)
    (positive : 0 < maxLeaf) (shape : Shape depth) (next : PageId) :
    ∃ fresh, (insert search maxLeaf maxInternal key value shape next).2 = next + fresh ∧
      (insert search maxLeaf maxInternal key value shape next).1.pageIds.Perm
        (shape.pageIds ++ List.range' next fresh) := by
  rcases count_insert search maxInternal key value positive shape next with
    ⟨fresh, advanced, counts⟩
  refine ⟨fresh, advanced, List.perm_iff_count.mpr ?_⟩
  intro a
  rw [counts, List.count_append]

theorem firstId_insert (search : Search Bytes) (maxInternal : ℕ) (key value : Bytes)
    (positive : 0 < maxLeaf) (shape : Shape depth) (next : PageId) :
    (insert search maxLeaf maxInternal key value shape next).1.firstId = shape.rootId := by
  cases depth with
  | zero =>
      rcases settleLeaf_cases (upsertBy search key value shape.2) _ positive
        (rfl : settleLeaf maxLeaf shape.1 next (upsertBy search key value shape.2) = _) with
        ⟨_, settled⟩ | ⟨left, first, right, _, _, _, _, settled⟩
      · rw [insert, settled]
        rfl
      · rw [insert, settled]
        rfl
  | succ depth =>
      rcases node_cases key shape with
        ⟨id, before, child, separator, after, last, rfl, passed, less⟩ |
        ⟨id, before, last, rfl, passed⟩
      · rw [insert_of_lt passed less]
        exact firstId_settle
      · rw [insert_of_le passed]
        exact firstId_settle

end Shape

end Seisin
