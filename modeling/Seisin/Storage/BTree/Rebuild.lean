import Seisin.Storage.BTree.Removal

/-!
# Bulk rebuild

A rebuild writes the leaves in order and then one level over another.  A level is a row together with
the key its first tree begins with; what the source keeps of it is, for every tree, the first key, the
page and the number of entries.
-/

namespace Seisin

open SortedList Separated LinkedList

namespace Row

variable {depth : ℕ}

/-- The trees of a row, each with the key before it. -/
def treesFrom (key : Bytes) :
    List (Bytes × Shape depth) → Shape depth → List (Bytes × Shape depth)
  | [], last => [(key, last)]
  | (separator, child) :: rest, last => (key, child) :: treesFrom separator rest last

/-- What the source keeps of a level. -/
def level (key : Bytes) (row : Row depth) : List (Bytes × PageId × ℕ) :=
  (treesFrom key row.1 row.2).map fun tree => (tree.1, tree.2.rootId, tree.2.size)

variable {key separator : Bytes} {left right row : Row depth}

@[simp]
theorem level_single (key : Bytes) (shape : Shape depth) :
    level key (single shape) = [(key, shape.rootId, shape.size)] := rfl

theorem level_cons (child : Shape depth) (rest : List (Bytes × Shape depth))
    (last : Shape depth) : level key ((separator, child) :: rest, last) =
      (key, child.rootId, child.size) :: level separator (rest, last) := rfl

theorem length_level (key : Bytes) (row : Row depth) :
    (level key row).length = row.1.length + 1 := by
  rcases row with ⟨children, last⟩
  induction children generalizing key with
  | nil => rfl
  | cons first children ih =>
      rcases first with ⟨separator, child⟩
      rw [level_cons, List.length_cons, ih, List.length_cons]

theorem level_join : level key (left.join separator right) =
    level key left ++ level separator right := by
  rcases left with ⟨children, last⟩
  induction children generalizing key with
  | nil => rfl
  | cons first children ih =>
      rcases first with ⟨bound, child⟩
      have rest : Row.join ((bound, child) :: children, last) separator right =
          ((bound, child) :: (Row.join (children, last) separator right).1, right.2) := rfl
      rw [rest, level_cons, level_cons, List.cons_append, ← ih]
      rfl

theorem head_level (key : Bytes) (row : Row depth) :
    ((level key row).head?.map Prod.fst).getD [] = key := by
  rcases row with ⟨_ | ⟨⟨separator, child⟩, rest⟩, last⟩ <;> rfl

theorem groupNode_level (key : Bytes) (row : Row depth) :
    BPlusTree.groupNode (level key row) = Shape.rowNode row := by
  rcases row with ⟨children, last⟩
  induction children generalizing key with
  | nil => rfl
  | cons first children ih =>
      rcases first with ⟨separator, child⟩
      rw [level_cons]
      have inner := ih separator
      cases children with
      | nil => rfl
      | cons second children =>
          rcases second with ⟨bound, other⟩
          rw [level_cons] at inner ⊢
          simp only [BPlusTree.groupNode, inner]
          rfl

theorem sum_level (key : Bytes) (row : Row depth) :
    ((level key row).map fun child => child.2.2).sum = row.entries.length := by
  rcases row with ⟨children, last⟩
  induction children generalizing key with
  | nil => simp [level, treesFrom, Row.entries_mk, Shape.size]
  | cons first children ih =>
      rcases first with ⟨separator, child⟩
      rw [level_cons, List.map_cons, List.sum_cons, ih]
      simp [Row.entries_mk, Shape.size]

end Row

namespace BPlusTree

variable {Element : Type} {size bound : ℕ} {elements : List Element}

theorem chunks_of_le (filled : elements ≠ []) (short : elements.length ≤ size) :
    chunks size (bound + 1) elements = [elements] := by
  cases elements with
  | nil => exact absurd rfl filled
  | cons first rest =>
      rw [chunks, List.take_of_length_le short, List.drop_of_length_le short]
      · cases bound <;> rfl
      · simp

theorem chunks_of_lt (long : size < elements.length) :
    chunks size (bound + 1) elements =
      elements.take size :: chunks size bound (elements.drop size) := by
  cases elements with
  | nil => exact absurd long (by simp)
  | cons first rest =>
      rw [chunks]
      simp

/-! ## The leaves -/

/-- The pages of a row of new leaves. -/
structure LeavesWritten (tree : BPlusTree) (maxLeaf : ℕ) (prev : PageId)
    (contents : List (Bytes × Bytes)) (row : Row 0) (newPages : PageId → Page) (count : ℕ) :
    Prop where
  stored : Stored newPages row.layout
  pageIds : row.pageIds = List.range' tree.nextPageId count
  leafIds : row.leafIds = List.range' tree.nextPageId count
  linked : Linked nullPage (linksOf newPages) prev row.leafIds
  same : ∀ id < tree.nextPageId, newPages id = tree.store.pages id
  entries : row.entries = contents
  ordered : ∀ {r}, Comparison r → ∀ lo hi, AscendingBy r contents →
    (∀ entry ∈ contents, WithinBy r lo hi entry.1) → row.OrderedBy r lo hi
  fits : ∀ maxInternal, row.Fits maxLeaf maxInternal

theorem LeavesWritten.single (tree : BPlusTree) (prev : PageId) {contents : List (Bytes × Bytes)}
    (filled : contents ≠ []) (short : contents.length ≤ size) :
    LeavesWritten tree size prev contents (Row.single (Shape.leaf tree.nextPageId contents))
      (Function.update tree.store.pages tree.nextPageId (.leaf ⟨prev, nullPage, contents⟩)) 1 where
  stored := by
    rw [Row.layout_single, Shape.layout_leaf]
    refine stored_cons.mpr ⟨?_, by simp [Stored]⟩
    rw [Function.update_self]
    rfl
  pageIds := rfl
  leafIds := rfl
  linked := by
    rw [Row.leafIds_single, Shape.leafIds_leaf]
    refine ⟨?_, trivial⟩
    rw [linksOf, Function.update_self]
    rfl
  same := fun id old => Function.update_of_ne old.ne _ _
  entries := rfl
  ordered := by
    intro r comparison lo hi ascending within
    rcases List.exists_mem_of_ne_nil contents filled with ⟨entry, entryMem⟩
    exact ⟨(within entry entryMem).below comparison, ascending, within⟩
  fits := fun _ => ⟨by simp [Row.single], short⟩

/-- One more leaf before the others, whose first key separates them. -/
theorem LeavesWritten.cons {tree : BPlusTree} {prev : PageId} {chunk others : List (Bytes × Bytes)}
    {second : Bytes × Bytes} {row : Row 0} {newPages : PageId → Page} {count : ℕ}
    (filled : chunk ≠ []) (short : chunk.length ≤ size) (more : 0 < count)
    (leaves : LeavesWritten (tree.withPages (Function.update tree.store.pages tree.nextPageId
      (.leaf ⟨prev, tree.nextPageId + 1, chunk⟩)) (tree.nextPageId + 1)) size tree.nextPageId
      (second :: others) row newPages count) :
    LeavesWritten tree size prev (chunk ++ second :: others)
      (Row.join (Row.single (Shape.leaf tree.nextPageId chunk)) second.1 row) newPages
      (count + 1) where
  stored := by
    rw [Row.layout_join, stored_append]
    refine ⟨?_, leaves.stored⟩
    rw [Row.layout_single, Shape.layout_leaf]
    refine stored_cons.mpr ⟨?_, by simp [Stored]⟩
    rw [leaves.same tree.nextPageId (Nat.lt_succ_self _), pages_withPages, Function.update_self]
    rfl
  pageIds := by
    rw [Row.pageIds_join, leaves.pageIds]
    rfl
  leafIds := by
    rw [Row.leafIds_join, leaves.leafIds]
    rfl
  linked := by
    rw [Row.leafIds_join, Row.leafIds_single, Shape.leafIds_leaf]
    refine ⟨?_, leaves.linked⟩
    have next : row.leafIds.headD nullPage = tree.nextPageId + 1 := by
      rcases Nat.exists_eq_succ_of_ne_zero more.ne' with ⟨fewer, rfl⟩
      rw [leaves.leafIds]
      rfl
    change linksOf newPages tree.nextPageId = some (prev, row.leafIds.headD nullPage)
    rw [next, linksOf, leaves.same tree.nextPageId (Nat.lt_succ_self _), pages_withPages,
      Function.update_self]
    rfl
  same := by
    intro id old
    rw [leaves.same id (old.trans (Nat.lt_succ_self _))]
    exact Function.update_of_ne old.ne _ _
  entries := by
    rw [Row.entries_join, leaves.entries]
    rfl
  ordered := by
    intro r comparison lo hi ascending within
    rcases List.pairwise_append.mp ascending with ⟨chunkAscending, restAscending, across⟩
    have chunkWithin : ∀ entry ∈ chunk, WithinBy r lo (some second.1) entry.1 := by
      intro entry entryMem
      refine ⟨(within entry (List.mem_append_left _ entryMem)).1, ?_⟩
      intro high highMem
      rw [Option.mem_some_iff] at highMem
      rw [← highMem]
      exact across entry entryMem second List.mem_cons_self
    rcases List.exists_mem_of_ne_nil chunk filled with ⟨entry, entryMem⟩
    refine Row.orderedBy_join.mpr
      ⟨⟨(chunkWithin entry entryMem).below comparison, chunkAscending, chunkWithin⟩, ?_⟩
    apply leaves.ordered comparison _ _ restAscending
    intro other otherMem
    refine ⟨?_, (within other (List.mem_append_right _ otherMem)).2⟩
    intro low lowMem
    rw [Option.mem_some_iff] at lowMem
    rw [← lowMem]
    rcases List.mem_cons.mp otherMem with rfl | later
    · exact le_rfl
    · exact comparison.le ((List.pairwise_cons.mp restAscending).1 other later)
  fits := fun maxInternal =>
    Row.fits_join.mpr ⟨⟨by simp [Row.single], short⟩, leaves.fits maxInternal⟩

theorem writeLeaves_cons {tree : BPlusTree} {prev : PageId} {chunk : List (Bytes × Bytes)}
    {rest : List (List (Bytes × Bytes))} :
    tree.writeLeaves prev (chunk :: rest) =
      (tree.withPages (Function.update tree.store.pages tree.nextPageId
        (.leaf ⟨prev, if rest = [] then nullPage else tree.nextPageId + 1, chunk⟩))
        (tree.nextPageId + 1)).writeLeaves tree.nextPageId rest := rfl

/-- The chunks of entries become the leaves of a row. -/
theorem writeLeaves_follows (positive : 0 < size) : ∀ (bound : ℕ) (tree : BPlusTree)
    (prev : PageId) (first : Bytes × Bytes) (rest : List (Bytes × Bytes)),
    (first :: rest).length ≤ bound →
    ∃ row newPages count, 0 < count ∧
      tree.writeLeaves prev (chunks size bound (first :: rest)) =
        tree.withPages newPages (tree.nextPageId + count) ∧
      leafLevel tree.nextPageId (chunks size bound (first :: rest)) = Row.level first.1 row ∧
      LeavesWritten tree size prev (first :: rest) row newPages count := by
  intro bound
  induction bound with
  | zero =>
      intro tree prev first rest enough
      simp at enough
  | succ bound ih =>
      intro tree prev first rest enough
      rcases Nat.lt_or_ge size (first :: rest).length with long | short
      · have remaining : ((first :: rest).drop size).length = (first :: rest).length - size :=
          List.length_drop
        rcases dropped : (first :: rest).drop size with _ | ⟨second, others⟩
        · rw [dropped, List.length_nil] at remaining
          omega
        · rw [dropped] at remaining
          have parts : (first :: rest).take size ++ second :: others = first :: rest := by
            rw [← dropped, List.take_append_drop]
          have begins : ((first :: rest).take size).head? = some first := by
            rw [List.head?_take, if_neg (by omega)]
            rfl
          have filled : (first :: rest).take size ≠ [] := by
            intro empty
            rw [empty] at begins
            cases begins
          rcases ih (tree.withPages (Function.update tree.store.pages tree.nextPageId
            (.leaf ⟨prev, tree.nextPageId + 1, (first :: rest).take size⟩)) (tree.nextPageId + 1))
            tree.nextPageId second others (by omega) with
            ⟨row, newPages, count, some, written, level, leaves⟩
          have more : chunks size bound (second :: others) ≠ [] := by
            intro none
            rw [none] at level
            have length := congrArg List.length level
            rw [Row.length_level] at length
            simp [leafLevel] at length
          have together := leaves.cons filled (List.length_take_le _ _) some
          rw [parts] at together
          refine ⟨_, newPages, count + 1, Nat.succ_pos _, ?_, ?_, together⟩
          · rw [chunks_of_lt long, dropped, writeLeaves_cons, if_neg more, written]
            simp only [withPages]
            rw [Nat.add_assoc, Nat.add_comm 1]
          · rw [chunks_of_lt long, dropped, Row.level_join, ← level]
            simp only [leafLevel, begins, Option.map_some, Option.getD_some, Row.level_single]
            rfl
      · rw [chunks_of_le (by simp) short]
        exact ⟨_, _, 1, Nat.one_pos, writeLeaves_cons, rfl,
          LeavesWritten.single tree prev (by simp) short⟩

/-! ## The inner levels -/

/-- The pages of a row of new inner nodes over a row. -/
structure Grouped (tree : BPlusTree) (maxInternal : ℕ) {depth : ℕ} (row : Row depth)
    (newRow : Row (depth + 1)) (newPages : PageId → Page) (count : ℕ) : Prop where
  stored : Stored newPages newRow.layout
  pageIds : newRow.pageIds.Perm (row.pageIds ++ List.range' tree.nextPageId count)
  same : ∀ id < tree.nextPageId, newPages id = tree.store.pages id
  entries : newRow.entries = row.entries
  leafIds : newRow.leafIds = row.leafIds
  ordered : ∀ {r} lo hi, row.OrderedBy r lo hi → newRow.OrderedBy r lo hi
  fits : ∀ maxLeaf, row.Fits maxLeaf maxInternal → newRow.Fits maxLeaf maxInternal
  fewer : newRow.1.length * (maxInternal + 1) ≤ row.1.length

variable {tree : BPlusTree} {depth maxInternal : ℕ} {row left right : Row depth}
  {separator : Bytes}

theorem Grouped.single (stored : Stored tree.store.pages row.layout)
    (fresh : ∀ id ∈ row.pageIds, id < tree.nextPageId) (short : row.1.length ≤ maxInternal) :
    Grouped tree maxInternal row (Row.single (Shape.node tree.nextPageId row))
      (Function.update tree.store.pages tree.nextPageId (.internal (Shape.rowNode row))) 1 where
  stored := by
    rw [Row.layout_single, Shape.layout_node]
    refine stored_cons.mpr ⟨?_, stored.update_of_notMem _ ?_⟩
    · rw [Function.update_self]
      rfl
    · exact fun inside => lt_irrefl _ (fresh _ inside)
  pageIds := by
    rw [Row.pageIds_single, Shape.pageIds_node, List.range'_one]
    exact (List.perm_append_singleton _ _).symm
  same := fun id old => Function.update_of_ne old.ne _ _
  entries := rfl
  leafIds := rfl
  ordered := fun _ _ ordered => ordered
  fits := fun _ fits => ⟨by simp [Row.single], short, fits⟩
  fewer := by simp [Row.single]

/-- One more inner node before the others. -/
theorem Grouped.cons {newRow : Row (depth + 1)} {newPages : PageId → Page} {count : ℕ}
    (stored : Stored tree.store.pages left.layout)
    (fresh : ∀ id ∈ left.pageIds, id < tree.nextPageId) (full : left.1.length = maxInternal)
    (grouped : Grouped (tree.withPages (Function.update tree.store.pages tree.nextPageId
      (.internal (Shape.rowNode left))) (tree.nextPageId + 1)) maxInternal right newRow newPages
      count) :
    Grouped tree maxInternal (left.join separator right)
      (Row.join (Row.single (Shape.node tree.nextPageId left)) separator newRow) newPages
      (count + 1) where
  stored := by
    rw [Row.layout_join, Row.layout_single, Shape.layout_node, stored_append]
    refine ⟨stored_cons.mpr ⟨?_, stored.congr ?_⟩, grouped.stored⟩
    · rw [grouped.same tree.nextPageId (Nat.lt_succ_self _), pages_withPages, Function.update_self]
      rfl
    · intro id inside
      have old := fresh id inside
      rw [grouped.same id (old.trans (Nat.lt_succ_self _)), pages_withPages,
        Function.update_of_ne old.ne]
  pageIds := by
    rw [Row.pageIds_join, Row.pageIds_join, Row.pageIds_single, Shape.pageIds_node,
      List.perm_iff_count]
    intro a
    have counts := List.perm_iff_count.mp grouped.pageIds a
    rw [nextPageId_withPages] at counts
    rw [List.range'_succ]
    simp only [List.count_append, List.count_cons] at counts ⊢
    omega
  same := by
    intro id old
    rw [grouped.same id (old.trans (Nat.lt_succ_self _)), pages_withPages,
      Function.update_of_ne old.ne]
  entries := by
    rw [Row.entries_join, Row.entries_join, grouped.entries]
    rfl
  leafIds := by
    rw [Row.leafIds_join, Row.leafIds_join, grouped.leafIds]
    rfl
  ordered := by
    intro r lo hi ordered
    rcases Row.orderedBy_join.mp ordered with ⟨first, rest⟩
    exact Row.orderedBy_join.mpr ⟨first, grouped.ordered _ _ rest⟩
  fits := by
    intro maxLeaf fits
    rcases Row.fits_join.mp fits with ⟨first, rest⟩
    exact Row.fits_join.mpr ⟨⟨by simp [Row.single], full.le, first⟩, grouped.fits _ rest⟩
  fewer := by
    have rest := grouped.fewer
    simp only [Row.join, Row.single, List.nil_append, List.length_cons, List.length_append]
    rw [Nat.add_mul, Nat.one_mul]
    omega

theorem writeGroups_cons {group : List (Bytes × PageId × ℕ)}
    {rest : List (List (Bytes × PageId × ℕ))} :
    tree.writeGroups (group :: rest) =
      let written := (tree.withPages (Function.update tree.store.pages tree.nextPageId
        (.internal (groupNode group))) (tree.nextPageId + 1)).writeGroups rest
      (((group.head?.map Prod.fst).getD [], tree.nextPageId,
        (group.map fun child => child.2.2).sum) :: written.1, written.2) := rfl

theorem writeGroups_follows (maxInternal : ℕ) : ∀ (bound : ℕ) (tree : BPlusTree) (key : Bytes)
    (row : Row depth), row.1.length < bound → Stored tree.store.pages row.layout →
    (∀ id ∈ row.pageIds, id < tree.nextPageId) →
    ∃ newRow newPages count,
      tree.writeGroups (chunks (maxInternal + 1) bound (Row.level key row)) =
        (Row.level key newRow, tree.withPages newPages (tree.nextPageId + count)) ∧
      Grouped tree maxInternal row newRow newPages count := by
  intro bound
  induction bound with
  | zero =>
      intro tree key row enough
      exact absurd enough (Nat.not_lt_zero _)
  | succ bound ih =>
      intro tree key row enough stored fresh
      have length := Row.length_level key row
      rcases Nat.lt_or_ge maxInternal row.1.length with long | short
      · rcases Row.exists_join long with ⟨left, separator, right, rfl, full⟩
        have leftLength := Row.length_level key left
        have cut : Row.level key (left.join separator right) =
            Row.level key left ++ Row.level separator right := Row.level_join
        have joined : (left.join separator right).1.length =
            left.1.length + right.1.length + 1 := by
          simp [Row.join]
          omega
        rw [Row.layout_join, stored_append] at stored
        rw [Row.pageIds_join] at fresh
        have leftFresh : ∀ id ∈ left.pageIds, id < tree.nextPageId :=
          fun id idMem => fresh id (List.mem_append_left _ idMem)
        have rightFresh : ∀ id ∈ right.pageIds, id < tree.nextPageId :=
          fun id idMem => fresh id (List.mem_append_right _ idMem)
        rcases ih (tree.withPages (Function.update tree.store.pages tree.nextPageId
            (.internal (Shape.rowNode left))) (tree.nextPageId + 1)) separator right (by omega)
          (stored.2.update_of_notMem _ fun inside => lt_irrefl _ (rightFresh _ inside))
          (fun id idMem => (rightFresh id idMem).trans (Nat.lt_succ_self _)) with
          ⟨newRow, newPages, count, written, grouped⟩
        refine ⟨_, newPages, count + 1, ?_, grouped.cons stored.1 leftFresh full⟩
        have taken : (Row.level key (left.join separator right)).take (maxInternal + 1) =
            Row.level key left := by
          rw [cut, ← full, ← leftLength, List.take_left]
        have dropped : (Row.level key (left.join separator right)).drop (maxInternal + 1) =
            Row.level separator right := by
          rw [cut, ← full, ← leftLength, List.drop_left]
        rw [chunks_of_lt (by omega), taken, dropped, writeGroups_cons, Row.groupNode_level, written,
          Row.level_join, Row.head_level, Row.sum_level]
        simp only [withPages]
        rw [Nat.add_assoc, Nat.add_comm 1]
        rfl
      · have filled : Row.level key row ≠ [] := by
          intro none
          rw [none] at length
          cases length
        rw [chunks_of_le filled (by omega), writeGroups_cons, Row.groupNode_level, Row.head_level,
          Row.sum_level]
        exact ⟨_, _, 1, rfl, Grouped.single stored fresh short⟩

/-- The pages of one tree over a row. -/
structure Raised (tree : BPlusTree) {depth height : ℕ} (row : Row depth) (shape : Shape height)
    (newPages : PageId → Page) (count : ℕ) : Prop where
  stored : Stored newPages shape.layout
  pageIds : shape.pageIds.Perm (row.pageIds ++ List.range' tree.nextPageId count)
  same : ∀ id < tree.nextPageId, newPages id = tree.store.pages id
  entries : shape.entries = row.entries
  leafIds : shape.leafIds = row.leafIds
  ordered : ∀ {r} lo hi, row.OrderedBy r lo hi → Shape.OrderedBy r height lo hi shape
  fits : ∀ maxLeaf, row.Fits maxLeaf tree.maxInternalEntries →
    shape.Fits maxLeaf tree.maxInternalEntries

theorem Grouped.raised {height : ℕ} {shape : Shape height} {newRow : Row (depth + 1)}
    {newPages finalPages : PageId → Page} {count more : ℕ}
    (grouped : Grouped tree tree.maxInternalEntries row newRow newPages count)
    (raised : Raised (tree.withPages newPages (tree.nextPageId + count)) newRow shape finalPages
      more) : Raised tree row shape finalPages (count + more) where
  stored := raised.stored
  pageIds := by
    rw [List.perm_iff_count]
    intro a
    have first := List.perm_iff_count.mp grouped.pageIds a
    have second := List.perm_iff_count.mp raised.pageIds a
    rw [nextPageId_withPages] at second
    rw [← List.range'_append_1]
    simp only [List.count_append] at first second ⊢
    omega
  same := by
    intro id old
    rw [raised.same id (old.trans_le (Nat.le_add_right _ _)), pages_withPages, grouped.same id old]
  entries := raised.entries.trans grouped.entries
  leafIds := raised.leafIds.trans grouped.leafIds
  ordered := fun lo hi ordered => raised.ordered lo hi (grouped.ordered lo hi ordered)
  fits := fun maxLeaf fits => raised.fits maxLeaf (grouped.fits maxLeaf fits)

theorem Raised.single (stored : Stored tree.store.pages row.layout) (alone : row.1 = []) :
    Raised tree row row.2 tree.store.pages 0 := by
  rcases row with ⟨children, last⟩
  cases alone
  refine ⟨stored, ?_, fun _ _ => rfl, rfl, rfl, fun _ _ ordered => ordered, fun _ fits => fits.2⟩
  rw [List.range'_zero, List.append_nil]
  rfl

theorem buildInternalLevels_single {key : Bytes} (alone : row.1 = []) :
    buildInternalLevels bound tree (Row.level key row) = .ok (row.2.rootId, tree) := by
  rcases row with ⟨children, last⟩
  cases alone
  cases bound <;> rfl

theorem buildInternalLevels_succ {level : List (Bytes × PageId × ℕ)} (several : 2 ≤ level.length) :
    buildInternalLevels (bound + 1) tree level =
      let written := tree.writeGroups
        (chunks (tree.maxInternalEntries + 1) level.length level)
      buildInternalLevels bound written.2 written.1 := by
  rcases level with _ | ⟨first, _ | ⟨second, rest⟩⟩
  · simp at several
  · simp at several
  · rfl

/-- Levels are built until one tree is over all of the row. -/
theorem buildInternalLevels_follows : ∀ (bound : ℕ) {depth : ℕ} (tree : BPlusTree) (key : Bytes)
    (row : Row depth), 0 < tree.maxInternalEntries → row.1.length ≤ bound →
    Stored tree.store.pages row.layout → (∀ id ∈ row.pageIds, id < tree.nextPageId) →
    ∃ (height : ℕ) (shape : Shape height) (newPages : PageId → Page) (count : ℕ),
      buildInternalLevels bound tree (Row.level key row) =
        .ok (shape.rootId, tree.withPages newPages (tree.nextPageId + count)) ∧
      Raised tree row shape newPages count := by
  intro bound
  induction bound with
  | zero =>
      intro depth tree key row _ enough stored _
      have alone : row.1 = [] := List.eq_nil_of_length_eq_zero (Nat.le_zero.mp enough)
      exact ⟨depth, row.2, _, 0, buildInternalLevels_single alone, Raised.single stored alone⟩
  | succ bound ih =>
      intro depth tree key row positive enough stored fresh
      by_cases alone : row.1 = []
      · exact ⟨depth, row.2, _, 0, buildInternalLevels_single alone, Raised.single stored alone⟩
      · have several := List.length_pos_iff.mpr alone
        have length := Row.length_level key row
        rcases writeGroups_follows tree.maxInternalEntries
          (Row.level key row).length tree key row (by omega) stored fresh with
          ⟨newRow, newPages, count, written, grouped⟩
        have fewer : newRow.1.length ≤ bound := by
          have product := grouped.fewer
          have double : newRow.1.length * 2 ≤ newRow.1.length * (tree.maxInternalEntries + 1) :=
            Nat.mul_le_mul_left _ (by omega)
          omega
        have newFresh : ∀ id ∈ newRow.pageIds, id < tree.nextPageId + count := by
          intro id idMem
          rw [grouped.pageIds.mem_iff, List.mem_append, List.mem_range'_1] at idMem
          rcases idMem with old | new
          · exact (fresh id old).trans_le (Nat.le_add_right _ _)
          · exact new.2
        rcases ih (tree.withPages newPages (tree.nextPageId + count)) key newRow positive fewer
          grouped.stored newFresh with ⟨height, shape, finalPages, more, built, raised⟩
        refine ⟨height, shape, finalPages, count + more, ?_, grouped.raised raised⟩
        rw [buildInternalLevels_succ (by omega), written, ← Nat.add_assoc]
        exact built

end BPlusTree

end Seisin
