import Mathlib
import Seisin.Storage.BTree.Ranks
import Seisin.Storage.BTree.Refinement

/-!
# Scans and ranks over whole runs

The bounded scans go to the first or the last leaf and walk along the links, and an entry is fetched
by its rank with a counted descent.  The scans are right for every tree that any operations lead to,
also where a rebuild was given a key more than once; the ranks of keys only where none was.  Where a
leaf has a key more than once, a binary search may end at any of the entries: the runs are those of
any search.
-/

namespace Seisin

open SortedList Separated LinkedList

namespace BPlusTree

/-! ## The operations -/

def leftmostLeafId : ℕ → BPlusTree → PageId → Except TreeFailure PageId
  | 0, _, _ => .error descentFailure
  | bound + 1, tree, pageId =>
      match tree.store.pages pageId with
      | .leaf _ => .ok pageId
      | .internal node =>
          leftmostLeafId bound tree
            ((node.entries.head?.map fun entry => entry.2.1).getD node.rightmostChild)

def rightmostLeafId : ℕ → BPlusTree → PageId → Except TreeFailure PageId
  | 0, _, _ => .error descentFailure
  | bound + 1, tree, pageId =>
      match tree.store.pages pageId with
      | .leaf _ => .ok pageId
      | .internal node => rightmostLeafId bound tree node.rightmostChild

def scanForwardBounded (tree : BPlusTree) (n : ℕ) : Except TreeFailure (List (Bytes × Bytes)) :=
  if n = 0 then .ok []
  else
    match leftmostLeafId tree.nextPageId tree tree.rootPageId with
    | .error failure => .error failure
    | .ok pageId => walkLeaves (tree.nextPageId + 1) tree pageId 0 n

/-- Up to `n` entries from a leaf back, along the links. -/
def walkLeavesBack : ℕ → BPlusTree → PageId → ℕ → Except TreeFailure (List (Bytes × Bytes))
  | 0, _, _, _ => .error descentFailure
  | bound + 1, tree, pageId, n =>
      if pageId = nullPage ∨ n = 0 then .ok []
      else
        match tree.readLeaf pageId with
        | .error failure => .error failure
        | .ok node =>
            let taken := node.entries.reverse.take n
            match walkLeavesBack bound tree node.prev (n - taken.length) with
            | .error failure => .error failure
            | .ok rest => .ok (taken ++ rest)

def scanBackwardBounded (tree : BPlusTree) (n : ℕ) : Except TreeFailure (List (Bytes × Bytes)) :=
  if n = 0 then .ok []
  else
    match rightmostLeafId tree.nextPageId tree tree.rootPageId with
    | .error failure => .error failure
    | .ok pageId => walkLeavesBack (tree.nextPageId + 1) tree pageId n

def entryAtRank (tree : BPlusTree) (rank : ℕ) : Except TreeFailure (Bytes × Bytes) :=
  match leafAtRank tree.nextPageId tree tree.rootPageId rank with
  | .error failure => .error failure
  | .ok (pageId, rank) =>
      match tree.readLeaf pageId with
      | .error failure => .error failure
      | .ok node =>
          match node.entries[rank]? with
          | some entry => .ok entry
          | none =>
              .error (.error ("rank " ++ toString rank ++ " out of bounds for a leaf with " ++
                toString node.entries.length ++ " entries"))

def sampleByRank (tree : BPlusTree) (k : ℕ) : Except TreeFailure (List (Bytes × Bytes)) :=
  if tree.totalCount = 0 ∨ k = 0 then .ok []
  else if maxCapacity < k then .error .panic
  else (List.range k).mapM fun i => tree.entryAtRank (i * tree.totalCount / k)

/-! ## The ends of a tree -/

variable {search : Search Bytes} {tree : BPlusTree} {depth : ℕ} {shape : Shape depth}
  {key : Bytes}

theorem leftmostLeafId_eq : ∀ {depth : ℕ} {shape : Shape depth} {bound : ℕ}, depth < bound →
    Stored tree.store.pages shape.layout →
      leftmostLeafId bound tree shape.rootId = .ok (shape.leafIds.headD nullPage) := by
  intro depth
  induction depth with
  | zero =>
      intro shape bound deep stored
      rcases Nat.exists_eq_succ_of_ne_zero (by omega : bound ≠ 0) with ⟨bound, rfl⟩
      rcases shape.exists_leaf with ⟨id, entries, rfl⟩
      rcases Page.eq_leaf_of_content (stored _ List.mem_cons_self) with ⟨prev, next, page⟩
      have here : tree.store.pages id = .leaf ⟨prev, next, entries⟩ := page
      simp only [leftmostLeafId, Shape.rootId_leaf, here]
      rfl
  | succ depth ih =>
      intro shape bound deep stored
      rcases Nat.exists_eq_succ_of_ne_zero (by omega : bound ≠ 0) with ⟨bound, rfl⟩
      have shallower := Nat.lt_of_succ_lt_succ deep
      rcases shape.exists_node with ⟨id, children, last, rfl⟩
      rw [Shape.layout_node, stored_cons, Row.layout, stored_append] at stored
      have page := Page.eq_internal_of_content stored.1
      simp only [leftmostLeafId, Shape.rootId_node, page]
      cases children with
      | nil => exact ih shallower stored.2.2
      | cons first children =>
          have firstStored : Stored tree.store.pages first.2.layout :=
            fun entry entryMem => stored.2.1 entry (List.mem_append_left _ entryMem)
          have leaves : (Shape.node id (first :: children, last)).leafIds.headD nullPage =
              first.2.leafIds.headD nullPage := by
            rw [Shape.leafIds_node, Row.leafIds, List.flatMap_cons, List.append_assoc]
            cases listed : first.2.leafIds with
            | nil => exact absurd listed first.2.leafIds_ne_nil
            | cons leaf leaves => rfl
          rw [leaves]
          exact ih shallower firstStored

theorem rightmostLeafId_eq : ∀ {depth : ℕ} {shape : Shape depth} {bound : ℕ}, depth < bound →
    Stored tree.store.pages shape.layout →
      rightmostLeafId bound tree shape.rootId = .ok (shape.leafIds.getLastD nullPage) := by
  intro depth
  induction depth with
  | zero =>
      intro shape bound deep stored
      rcases Nat.exists_eq_succ_of_ne_zero (by omega : bound ≠ 0) with ⟨bound, rfl⟩
      rcases shape.exists_leaf with ⟨id, entries, rfl⟩
      rcases Page.eq_leaf_of_content (stored _ List.mem_cons_self) with ⟨prev, next, page⟩
      have here : tree.store.pages id = .leaf ⟨prev, next, entries⟩ := page
      simp only [rightmostLeafId, Shape.rootId_leaf, here]
      rfl
  | succ depth ih =>
      intro shape bound deep stored
      rcases Nat.exists_eq_succ_of_ne_zero (by omega : bound ≠ 0) with ⟨bound, rfl⟩
      have shallower := Nat.lt_of_succ_lt_succ deep
      rcases shape.exists_node with ⟨id, children, last, rfl⟩
      rw [Shape.layout_node, stored_cons, Row.layout, stored_append] at stored
      have page := Page.eq_internal_of_content stored.1
      have leaves : (Shape.node id (children, last)).leafIds.getLastD nullPage =
          last.leafIds.getLastD nullPage := by
        rw [Shape.leafIds_node, Row.leafIds, List.getLastD_eq_getLast?, List.getLastD_eq_getLast?,
          List.getLast?_append_of_ne_nil _ last.leafIds_ne_nil]
      simp only [rightmostLeafId, Shape.rootId_node, page, leaves]
      exact ih shallower stored.2.2

/-! ## Walks along the links -/

/-- The walk back takes the entries of the leaves in reverse. -/
theorem walkLeavesBack_eq (leaves : List (PageId × List (Bytes × Bytes))) {after : List PageId}
    {bound : ℕ} (deep : leaves.length < bound)
    (linked : Linked nullPage (linksOf tree.store.pages) nullPage (leaves.map Prod.fst ++ after))
    (real : ∀ leaf ∈ leaves, leaf.1 ≠ nullPage)
    (stored : ∀ leaf ∈ leaves, (tree.store.pages leaf.1).content =
      .leaf ⟨nullPage, nullPage, leaf.2⟩) (n : ℕ) :
    walkLeavesBack bound tree ((leaves.map Prod.fst).getLastD nullPage) n =
      .ok ((leaves.flatMap Prod.snd).reverse.take n) := by
  -- by induction from the end: the last leaf comes first
  induction leaves using List.reverseRecOn generalizing after bound n with
  | nil =>
      rcases Nat.exists_eq_succ_of_ne_zero (by omega : bound ≠ 0) with ⟨bound, rfl⟩
      simp [walkLeavesBack]
  | append_singleton leaves leaf ih =>
      rcases Nat.exists_eq_succ_of_ne_zero (by omega : bound ≠ 0) with ⟨bound, rfl⟩
      rw [List.length_append, List.length_singleton] at deep
      rcases leaf with ⟨id, entries⟩
      have lastMem : (id, entries) ∈ leaves ++ [(id, entries)] := by simp
      have idReal : id ≠ nullPage := real (id, entries) lastMem
      rcases Page.eq_leaf_of_content (stored (id, entries) lastMem) with ⟨prior, next, page⟩
      have here : tree.store.pages id = .leaf ⟨prior, next, entries⟩ := page
      rw [List.map_append, List.map_singleton, List.append_assoc, List.singleton_append] at linked
      rcases linked.back with ⟨following, link⟩
      simp only [linksOf, here, Page.links, Option.some.injEq, Prod.mk.injEq] at link
      have ends : ((leaves ++ [(id, entries)]).map Prod.fst).getLastD nullPage = id := by
        rw [List.map_append, List.map_singleton, List.getLastD_concat]
      rw [ends, walkLeavesBack]
      simp only [idReal, false_or]
      by_cases none : n = 0
      · simp [none]
      · have rest : walkLeavesBack bound tree ((leaves.map Prod.fst).getLastD nullPage)
            (n - (entries.reverse.take n).length) = .ok ((leaves.flatMap Prod.snd).reverse.take
              (n - (entries.reverse.take n).length)) :=
          ih (by omega) linked
            (fun other otherMem => real other (List.mem_append_left _ otherMem))
            (fun other otherMem => stored other (List.mem_append_left _ otherMem)) _
        have left : n - (entries.reverse.take n).length = n - entries.reverse.length := by
          rw [List.length_take]
          omega
        rw [if_neg none]
        simp only [readLeaf, here, link.1, rest]
        rw [left, List.flatMap_append, List.flatMap_singleton, List.reverse_append,
          List.take_append]

namespace Arranged

theorem leaves_real (arranged : Arranged tree shape) :
    ∀ leaf ∈ shape.leaves, leaf.1 ≠ nullPage := by
  intro leaf leafMem
  have listed : leaf.1 ∈ shape.leafIds := by
    rw [← shape.map_fst_leaves]
    exact List.mem_map_of_mem leafMem
  exact (arranged.leaf_fresh _ listed).1.ne'

theorem leaves_stored (arranged : Arranged tree shape) : ∀ leaf ∈ shape.leaves,
    (tree.store.pages leaf.1).content = .leaf ⟨nullPage, nullPage, leaf.2⟩ :=
  fun leaf leafMem => arranged.stored _ (shape.leaves_subset_layout leaf leafMem)

/-- The bound of a walk is enough: there are no more leaves than pages. -/
theorem leaves_length_lt (arranged : Arranged tree shape) :
    shape.leaves.length < tree.nextPageId + 1 := by
  have leafIds : shape.leafIds ⊆ List.range tree.nextPageId :=
    fun id idMem => List.mem_range.mpr (arranged.leaf_fresh id idMem).2
  have length := (List.subperm_of_subset arranged.leaf_nodup leafIds).length_le
  rw [List.length_range, ← shape.map_fst_leaves, List.length_map] at length
  omega

end Arranged

theorem scanForwardBounded_ok (arranged : Arranged tree shape) (n : ℕ) :
    tree.scanForwardBounded n = .ok (shape.entries.take n) := by
  unfold scanForwardBounded
  by_cases none : n = 0
  · simp [none]
  · have linked := arranged.linked
    rw [← shape.map_fst_leaves] at linked
    have walked := walkLeaves_eq arranged.leaves_length_lt linked arranged.leaves_real
      arranged.leaves_stored (fun _ _ => Nat.zero_le _) n
    rw [shape.map_fst_leaves, shape.flatMap_snd_leaves, List.drop_zero] at walked
    rw [if_neg none, arranged.root, leftmostLeafId_eq arranged.deep arranged.stored]
    exact walked

theorem scanBackwardBounded_ok (arranged : Arranged tree shape) (n : ℕ) :
    tree.scanBackwardBounded n = .ok (shape.entries.reverse.take n) := by
  unfold scanBackwardBounded
  by_cases none : n = 0
  · simp [none]
  · have linked := arranged.linked
    rw [← shape.map_fst_leaves, ← List.append_nil (shape.leaves.map Prod.fst)] at linked
    have walked := walkLeavesBack_eq shape.leaves arranged.leaves_length_lt linked
      arranged.leaves_real arranged.leaves_stored n
    rw [shape.map_fst_leaves, shape.flatMap_snd_leaves] at walked
    rw [if_neg none, arranged.root, rightmostLeafId_eq arranged.deep arranged.stored]
    exact walked

theorem entryAtRank_ok (arranged : Arranged tree shape) {rank : ℕ} {entry : Bytes × Bytes}
    (present : shape.entries[rank]? = some entry) : tree.entryAtRank rank = .ok entry := by
  have inside : rank < shape.size := (List.getElem?_eq_some_iff.mp present).1
  rcases leafAtRank_eq arranged.deep arranged.stored inside with
    ⟨before, leaf, after, split, descended, least, most⟩
  have leafMem : leaf ∈ shape.leaves := by
    rw [split]
    exact List.mem_append_right _ List.mem_cons_self
  rcases Page.eq_leaf_of_content (arranged.leaves_stored leaf leafMem) with ⟨prev, next, page⟩
  rw [← shape.flatMap_snd_leaves, split, List.flatMap_append, List.flatMap_cons,
    List.getElem?_append_right least, List.getElem?_append_left most] at present
  rw [entryAtRank, arranged.root]
  simp only [descended, readLeaf, page, present]

/-- A sample is of the list, and a panic if there is something to sample and no room for as many
entries as are asked for. -/
theorem sampleByRank_eq (arranged : Arranged tree shape) (k : ℕ) :
    tree.sampleByRank k = if 0 < shape.entries.length ∧ maxCapacity < k then .error .panic
      else .ok ((List.range k).filterMap
        fun i => shape.entries[i * shape.entries.length / k]?) := by
  have count : tree.totalCount = shape.entries.length := arranged.count
  unfold sampleByRank
  by_cases nothing : tree.totalCount = 0 ∨ k = 0
  · rw [if_pos nothing, if_neg (by omega)]
    rcases nothing with empty | rfl
    · rw [count] at empty
      rw [List.eq_nil_of_length_eq_zero empty]
      simp
    · rfl
  · rw [if_neg nothing]
    rw [not_or, count] at nothing
    by_cases crowded : maxCapacity < k
    · rw [if_pos crowded, if_pos ⟨Nat.pos_of_ne_zero nothing.1, crowded⟩]
    rw [if_neg crowded, if_neg fun both => crowded both.2]
    have picked : ∀ i ∈ List.range k, ∃ entry,
        shape.entries[i * shape.entries.length / k]? = some entry := by
      intro i inside
      have smaller : i * shape.entries.length / k < shape.entries.length := by
        rw [Nat.div_lt_iff_lt_mul (Nat.pos_of_ne_zero nothing.2), Nat.mul_comm]
        exact Nat.mul_lt_mul_of_pos_left (List.mem_range.mp inside) (Nat.pos_of_ne_zero nothing.1)
      exact ⟨_, List.getElem?_eq_getElem smaller⟩
    have first : ∃ entry, shape.entries[0]? = some entry :=
      ⟨_, List.getElem?_eq_getElem (Nat.pos_of_ne_zero nothing.1)⟩
    rcases first with ⟨default, _⟩
    have sampled : (List.range k).mapM (fun i => tree.entryAtRank (i * tree.totalCount / k)) =
        .ok ((List.range k).map
          fun i => (shape.entries[i * shape.entries.length / k]?).getD default) := by
      apply mapM_eq_ok
      intro i inside
      rcases picked i inside with ⟨entry, present⟩
      rw [count, entryAtRank_ok arranged present, present, Option.getD_some]
    rw [sampled, ← List.filterMap_eq_map]
    congr 1
    apply List.filterMap_congr
    intro i inside
    rcases picked i inside with ⟨entry, present⟩
    rw [Function.comp_apply, present, Option.getD_some]

theorem sampleByRank_ok (arranged : Arranged tree shape) {k : ℕ} (room : k ≤ maxCapacity) :
    tree.sampleByRank k = .ok ((List.range k).filterMap
      fun i => shape.entries[i * shape.entries.length / k]?) := by
  rw [sampleByRank_eq arranged, if_neg fun both => room.not_gt both.2]

/-! ## Whole runs -/

/-- Every operation keeps the keys in order; each is there once if that was so, and no rebuild is
given a key twice. -/
theorem apply_arranged (arranged : Arranged tree shape) {op : TreeOp}
    {answer : TreeReply × BPlusTree} (applied : apply search tree op = some answer) :
    ∃ (newDepth : ℕ) (newShape : Shape newDepth), Arranged answer.2 newShape ∧
      (op.Distinct → Shape.Ordered depth none none shape →
        Shape.Ordered newDepth none none newShape) := by
  have unchanged : answer.2 = tree → ∃ (newDepth : ℕ) (newShape : Shape newDepth),
      Arranged answer.2 newShape ∧ (op.Distinct → Shape.Ordered depth none none shape →
        Shape.Ordered newDepth none none newShape) := by
    intro same
    rw [same]
    exact ⟨depth, shape, arranged, fun _ ordered => ordered⟩
  cases op with
  | create keySize valueSize pageSize =>
      simp only [apply] at applied
      cases created : create keySize valueSize pageSize with
      | ok newTree =>
          simp only [created, Except.map, settleResult, Option.some.injEq] at applied
          rcases create_ok created with ⟨represents, _, _⟩
          subst applied
          exact ⟨0, _, represents.arranged, fun _ _ => represents.ordered⟩
      | error failure =>
          cases failure with
          | error message =>
              simp only [created, Except.map, settleResult, Option.some.injEq] at applied
              exact unchanged (applied ▸ rfl)
          | panic => simp [created, Except.map, settleResult] at applied
  | insert key value =>
      simp only [apply] at applied
      by_cases sizes : key.length = tree.keySize ∧ value.length = tree.valueSize
      · rcases insert_arranged search arranged sizes.1 sizes.2 with
          ⟨newTree, newDepth, newShape, inserted, final, _, _, strictly⟩
        simp only [inserted, Except.map, settleResult, Option.some.injEq] at applied
        subst applied
        exact ⟨newDepth, newShape, final, fun _ ordered => (strictly ordered).1⟩
      · rcases insert_wrong_size search (not_and_or.mp sizes) with ⟨message, failed⟩
        simp only [failed, Except.map, settleResult, Option.some.injEq] at applied
        exact unchanged (applied ▸ rfl)
  | remove key =>
      simp only [apply] at applied
      by_cases keySize : key.length = tree.keySize
      · rcases remove_arranged search arranged keySize with
          ⟨newTree, newShape, removed, final, _, _, strictly⟩
        simp only [removed, Except.map, settleResult, Option.some.injEq] at applied
        subst applied
        exact ⟨depth, newShape, final, fun _ ordered => (strictly ordered).1⟩
      · rcases remove_wrong_size search keySize with ⟨message, failed⟩
        simp only [failed, Except.map, settleResult, Option.some.injEq] at applied
        exact unchanged (applied ▸ rfl)
  | reopen =>
      simp only [apply, openFile_eq arranged, Except.map, settleResult, Option.some.injEq]
        at applied
      exact unchanged (applied ▸ rfl)
  | rebuildFrom entries =>
      simp only [apply] at applied
      cases checked : entries.all fun entry =>
          entry.1.length = tree.keySize ∧ entry.2.length = tree.valueSize with
      | false =>
          have failed : tree.rebuildFrom entries = .error .panic := by
            rw [rebuildFrom, if_pos (by rw [checked]; exact Bool.false_ne_true)]
          simp only [failed, Except.map, settleResult, reduceCtorEq] at applied
      | true =>
          have records : ∀ entry ∈ entries,
              entry.1.length = tree.keySize ∧ entry.2.length = tree.valueSize := by
            simpa [List.all_eq_true] using checked
          rcases rebuildFrom_arranged arranged.sized records with
            ⟨newTree, newDepth, newShape, rebuilt, final, _, _, _, strictly⟩
          simp only [rebuilt, Except.map, settleResult, Option.some.injEq] at applied
          subst applied
          exact ⟨newDepth, newShape, final, fun distinct _ => strictly distinct⟩

/-- The trees that operations lead to are arranged. -/
theorem run_arranged {keySize valueSize pageSize : ℕ} {start : BPlusTree}
    (created : create keySize valueSize pageSize = .ok start) {ops : List TreeOp}
    {result : List TreeReply × BPlusTree}
    (ran : Service.run (apply search) start ops = some result) :
    ∃ (depth : ℕ) (shape : Shape depth), Arranged result.2 shape := by
  rcases create_ok created with ⟨represents, _, _⟩
  have kept : ∀ op ∈ ops, ∀ (tree : BPlusTree) (answer : TreeReply × BPlusTree),
      (∃ (depth : ℕ) (shape : Shape depth), Arranged tree shape) →
      apply search tree op = some answer →
      ∃ (depth : ℕ) (shape : Shape depth), Arranged answer.2 shape := by
    rintro op _ tree answer ⟨depth, shape, arranged⟩ applied
    rcases apply_arranged arranged applied with ⟨newDepth, newShape, final, _⟩
    exact ⟨newDepth, newShape, final⟩
  exact Service.run_invariant kept ⟨0, _, represents.arranged⟩ ran

/-- With distinct keys in every rebuild, each key is there once. -/
theorem run_represents {keySize valueSize pageSize : ℕ} {start : BPlusTree}
    (created : create keySize valueSize pageSize = .ok start) {ops : List TreeOp}
    (distinct : ∀ op ∈ ops, op.Distinct) {result : List TreeReply × BPlusTree}
    (ran : Service.run (apply search) start ops = some result) :
    ∃ (depth : ℕ) (shape : Shape depth), Represents result.2 shape := by
  rcases create_ok created with ⟨represents, _, _⟩
  have kept : ∀ op ∈ ops, ∀ (tree : BPlusTree) (answer : TreeReply × BPlusTree),
      (∃ (depth : ℕ) (shape : Shape depth), Represents tree shape) →
      apply search tree op = some answer →
      ∃ (depth : ℕ) (shape : Shape depth), Represents answer.2 shape := by
    rintro op opMem tree answer ⟨depth, shape, represents⟩ applied
    rcases apply_arranged represents.arranged applied with ⟨newDepth, newShape, final, strictly⟩
    exact ⟨newDepth, newShape,
      final.represents (strictly (distinct op opMem) represents.ordered)⟩
  exact Service.run_invariant kept ⟨0, _, represents⟩ ran

theorem Arranged.allEntries (arranged : Arranged tree shape) :
    tree.allEntries = .ok shape.entries := by
  rw [BPlusTree.allEntries, arranged.root]
  exact collectAll_eq arranged.deep arranged.stored

/-- Whatever operations led to a tree, a scan returns as many entries as were asked for or as there
are, from the end of the sorted contents that it starts at. -/
theorem bounded_scans_agree {keySize valueSize pageSize : ℕ} {start : BPlusTree}
    (created : create keySize valueSize pageSize = .ok start) {ops : List TreeOp}
    {replies : List TreeReply} {tree : BPlusTree}
    (ran : Service.run (apply search) start ops = some (replies, tree)) :
    ∃ entries, tree.allEntries = .ok entries ∧ AscendingBy (· ≤ ·) entries ∧
      tree.len = entries.length ∧
      ∀ n, tree.scanForwardBounded n = .ok (entries.take (min n tree.len)) ∧
        tree.scanBackwardBounded n = .ok (entries.reverse.take (min n tree.len)) := by
  rcases run_arranged created ran with ⟨depth, shape, arranged⟩
  have count : tree.len = shape.entries.length := arranged.count
  refine ⟨shape.entries, arranged.allEntries, arranged.sorted.ascending comparison_le, count, ?_⟩
  intro n
  have forward : shape.entries.take (min n tree.len) = shape.entries.take n := by
    rw [count, ← List.take_take, List.take_length]
  have backward : shape.entries.reverse.take (min n tree.len) = shape.entries.reverse.take n := by
    rw [count, ← List.length_reverse, ← List.take_take, List.take_length]
  rw [forward, backward]
  exact ⟨scanForwardBounded_ok arranged n, scanBackwardBounded_ok arranged n⟩

/-- Two inserts, of which one is taken back, and a reopen. -/
def scanOps : List TreeOp :=
  [.insert [2] [20], .insert [1] [10], .insert [3] [30], .remove [2], .reopen]

/-- What a tree has after these operations, read by a function. -/
theorem exists_run_scanOps {Seen : Type} [DecidableEq Seen] (see : BPlusTree → Seen) {seen : Seen}
    (observed : ((create 1 1 4096).toOption.bind fun start =>
      (Service.run (apply .first) start scanOps).map fun result => see result.2) = some seen) :
    ∃ start replies tree, create 1 1 4096 = .ok start ∧
      Service.run (apply .first) start scanOps = some (replies, tree) ∧ see tree = seen := by
  rcases Option.bind_eq_some_iff.mp observed with ⟨start, created, ran⟩
  rcases Option.map_eq_some_iff.mp ran with ⟨⟨replies, tree⟩, ranOps, sees⟩
  exact ⟨start, replies, tree, Service.eq_ok_of_toOption created, ranOps, sees⟩

theorem bounded_scans_agree_sample : ∃ start replies tree, create 1 1 4096 = .ok start ∧
    Service.run (apply .first) start scanOps = some (replies, tree) ∧
    tree.scanForwardBounded 1 = .ok [([1], [10])] ∧
    tree.scanBackwardBounded 5 = .ok [([3], [30]), ([1], [10])] := by
  rcases exists_run_scanOps (fun tree => (tree.allEntries.toOption, tree.len))
    (show _ = some (some [([1], [10]), ([3], [30])], 2) by decide +kernel) with
    ⟨start, replies, tree, created, ran, sees⟩
  rcases bounded_scans_agree created ran with ⟨entries, all, _, _, scans⟩
  simp only [all, Except.toOption, Prod.mk.injEq, Option.some.injEq] at sees
  rcases sees with ⟨rfl, len⟩
  refine ⟨start, replies, tree, created, ran, ?_, ?_⟩
  · rw [(scans 1).1, len]
    rfl
  · rw [(scans 5).2, len]
    rfl

theorem ite_error_eq_ok {Failure Answer : Type} {fails : Prop} [Decidable fails]
    {failure : Failure} {answer : Answer} :
    (if fails then Except.error failure else Except.ok answer) = Except.ok answer ↔ ¬fails := by
  by_cases fails <;> simp [*]

/-- What the tree answers about ranks is so of the list, exactly as far as a scan and a sample have
nothing to return or are asked for no more entries than a vector can have. -/
structure OrderStatistics (tree : BPlusTree) (entries : List (Bytes × Bytes)) : Prop where
  rankOfKey : ∀ search key, key.length = tree.keySize →
    rankOfKeyWith search tree key = .ok (position key entries)
  rankOfFloor : ∀ search key, key.length = tree.keySize →
    rankOfFloorWith search tree key = .ok (floorIndex key entries)
  scanFromRank : ∀ rank n,
    tree.scanFromRank rank n = .ok ((entries.drop rank).take (min n (tree.len - rank))) ↔
      n ≤ maxCapacity ∨ tree.len ≤ rank
  entryAtRank : ∀ rank entry, entries[rank]? = some entry → tree.entryAtRank rank = .ok entry
  sampleByRank : ∀ k, tree.sampleByRank k =
      .ok ((List.range k).filterMap fun i => entries[i * entries.length / k]?) ↔
    k ≤ maxCapacity ∨ tree.len = 0

/-- Whatever operations led to a tree, as long as no rebuild was given a key more than once, its
ranks are those of the sorted list of its contents. -/
theorem order_statistics_agree {keySize valueSize pageSize : ℕ} {start : BPlusTree}
    (created : create keySize valueSize pageSize = .ok start) {ops : List TreeOp}
    (distinct : ∀ op ∈ ops, op.Distinct) {replies : List TreeReply} {tree : BPlusTree}
    (ran : Service.run (apply search) start ops = some (replies, tree)) :
    ∃ entries, tree.allEntries = .ok entries ∧ Ascending entries ∧
      OrderStatistics tree entries := by
  rcases run_represents created distinct ran with ⟨depth, shape, represents⟩
  have arranged := represents.arranged
  have count : tree.len = shape.entries.length := arranged.count
  refine ⟨shape.entries, arranged.allEntries, represents.ordered.ascending, ?_, ?_, ?_, ?_, ?_⟩
  · exact fun _ _ keySize => rankOfKeyWith_ok represents keySize
  · exact fun _ _ keySize => rankOfFloorWith_ok represents keySize
  · intro rank n
    rw [scanFromRank_eq arranged, count, ← List.length_drop, ← List.take_take, List.take_length,
      ite_error_eq_ok]
    omega
  · exact fun rank entry present => entryAtRank_ok arranged present
  · intro k
    rw [sampleByRank_eq arranged, count, ite_error_eq_ok]
    omega

theorem order_statistics_agree_sample : ∃ start replies tree, create 1 1 4096 = .ok start ∧
    Service.run (apply .first) start scanOps = some (replies, tree) ∧
    tree.rankOfKey [3] = .ok (some 1) ∧ tree.rankOfKey [2] = .ok none ∧
    tree.rankOfFloor [2] = .ok (some 0) ∧ tree.entryAtRank 1 = .ok ([3], [30]) := by
  rcases exists_run_scanOps (fun tree => (tree.allEntries.toOption, tree.keySize))
    (show _ = some (some [([1], [10]), ([3], [30])], 1) by decide +kernel) with
    ⟨start, replies, tree, created, ran, sees⟩
  have distinct : ∀ op ∈ scanOps, op.Distinct := by
    intro op opMem
    simp only [scanOps, List.mem_cons, List.not_mem_nil, or_false] at opMem
    rcases opMem with rfl | rfl | rfl | rfl | rfl <;> trivial
  rcases order_statistics_agree created distinct ran with ⟨entries, all, _, statistics⟩
  simp only [all, Except.toOption, Prod.mk.injEq, Option.some.injEq] at sees
  rcases sees with ⟨rfl, keySize⟩
  refine ⟨start, replies, tree, created, ran, ?_, ?_, ?_, ?_⟩
  · refine (statistics.rankOfKey .first [3] keySize.symm).trans ?_
    decide +kernel
  · refine (statistics.rankOfKey .first [2] keySize.symm).trans ?_
    decide +kernel
  · refine (statistics.rankOfFloor .first [2] keySize.symm).trans ?_
    decide +kernel
  · exact statistics.entryAtRank 1 _ rfl

/-- A key and a value so wide that a leaf has room for one. -/
def wideEntry : Bytes × Bytes := (List.replicate 8 0, List.replicate 4000 0)

theorem sort_wideEntry :
    ([wideEntry, wideEntry].mergeSort fun one other => one.1 ≤ other.1) =
      [wideEntry, wideEntry] := by
  apply List.mergeSort_of_pairwise
  simp

/-- A tree for such entries. -/
def wideTree : BPlusTree :=
  writeSuperblock
    { store := PageStore.create.writePage 1 (.leaf ⟨nullPage, nullPage, []⟩)
      pageSize := 4096
      keySize := 8
      valueSize := 4000
      rootPageId := 1
      totalCount := 0
      nextPageId := 2
      maxLeafEntries := 1
      maxInternalEntries := 169 }

/-- Rebuilt from one key twice, the tree has it in two leaves.  A removal goes to the second, and
from then on the key is not found, although the first leaf has it. -/
theorem rankless_key : create 8 4000 4096 = .ok wideTree ∧ ∃ replies tree,
    Service.run (apply .first) wideTree [.rebuildFrom [wideEntry, wideEntry], .remove wideEntry.1] =
      some (replies, tree) ∧
    tree.allEntries = .ok [wideEntry] ∧ tree.rankOfKey wideEntry.1 = .ok none := by
  refine ⟨rfl, ?_⟩
  have checked : ([wideEntry, wideEntry].all fun entry =>
      entry.1.length = wideTree.keySize ∧ entry.2.length = wideTree.valueSize) = true := by
    refine List.all_eq_true.mpr fun entry entryMem => ?_
    have same : entry = wideEntry := by simpa using entryMem
    rw [same]
    exact decide_eq_true ⟨List.length_replicate, List.length_replicate⟩
  have rebuilt : wideTree.rebuildFrom [wideEntry, wideEntry] = _ :=
    rebuildFrom_cons checked sort_wideEntry
  have observed : (Service.run (apply .first) wideTree
      [.rebuildFrom [wideEntry, wideEntry], .remove wideEntry.1]).map (fun result =>
        (result.2.allEntries.toOption, (result.2.rankOfKey wideEntry.1).toOption)) =
          some (some [wideEntry], some none) := by
    simp only [Service.run, apply, rebuilt]
    rfl
  rcases Option.map_eq_some_iff.mp observed with ⟨⟨replies, tree⟩, ran, seen⟩
  rw [Prod.mk.injEq] at seen
  exact ⟨replies, tree, ran, Service.eq_ok_of_toOption seen.1, Service.eq_ok_of_toOption seen.2⟩

end BPlusTree

end Seisin
