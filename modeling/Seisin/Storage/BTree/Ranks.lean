import Seisin.Storage.BTree.Representation

/-!
# Ranks

Every internal page counts the entries below each child, so a descent to a key can add up what it
passes on the left, and a descent to a rank can take it off.  `rank_of_key`, `rank_of_floor` and
`scan_from_rank` are built on the two descents; the last then walks along the sibling links.
-/

namespace Seisin

open SortedList Separated LinkedList

namespace Shape

/-- The leaves in order, with their entries. -/
def leaves : {depth : ℕ} → Shape depth → List (PageId × List (Bytes × Bytes))
  | 0, shape => [shape]
  | _ + 1, shape => (shape.2.1.flatMap fun child => leaves child.2) ++ leaves shape.2.2

theorem leaves_node {depth : ℕ} (id : PageId) (children : List (Bytes × Shape depth))
    (last : Shape depth) : (node id (children, last)).leaves =
      (children.map Prod.snd ++ [last]).flatMap leaves := by
  rw [List.flatMap_append, List.flatMap_map, List.flatMap_singleton]
  rfl

theorem map_fst_leaves : ∀ {depth : ℕ} (shape : Shape depth),
    shape.leaves.map Prod.fst = shape.leafIds := by
  intro depth
  induction depth with
  | zero => exact fun _ => rfl
  | succ depth ih =>
      intro shape
      rcases shape.exists_node with ⟨id, children, last, rfl⟩
      rw [leaves_node, List.map_flatMap, leafIds_node, Row.leafIds, List.flatMap_append,
        List.flatMap_map, List.flatMap_singleton]
      simp only [ih]

theorem flatMap_snd_leaves : ∀ {depth : ℕ} (shape : Shape depth),
    shape.leaves.flatMap Prod.snd = shape.entries := by
  intro depth
  induction depth with
  | zero => exact fun _ => List.append_nil _
  | succ depth ih =>
      intro shape
      rcases shape.exists_node with ⟨id, children, last, rfl⟩
      rw [leaves_node, List.flatMap_assoc, entries_node, Row.entries_mk, List.flatMap_append,
        List.flatMap_map, List.flatMap_singleton]
      simp only [ih]

theorem leaves_subset_layout : ∀ {depth : ℕ} (shape : Shape depth), ∀ leaf ∈ shape.leaves,
    (leaf.1, Page.leaf ⟨nullPage, nullPage, leaf.2⟩) ∈ shape.layout := by
  intro depth
  induction depth with
  | zero =>
      intro shape leaf leafMem
      rw [List.mem_singleton.mp leafMem]
      exact List.mem_singleton_self _
  | succ depth ih =>
      intro shape leaf leafMem
      rcases shape.exists_node with ⟨id, children, last, rfl⟩
      rw [leaves_node, List.mem_flatMap] at leafMem
      rcases leafMem with ⟨child, childMem, inside⟩
      rw [layout_node, Row.layout]
      refine List.mem_cons_of_mem _ (List.mem_append.mpr ?_)
      rcases List.mem_append.mp childMem with among | isLast
      · rcases List.mem_map.mp among with ⟨pair, pairMem, rfl⟩
        exact Or.inl (List.mem_flatMap.mpr ⟨pair, pairMem, ih pair.2 leaf inside⟩)
      · rw [List.mem_singleton.mp isLast] at inside
        exact Or.inr (ih last leaf inside)

end Shape

namespace BPlusTree

/-! ## The operations -/

/-- The leaf that a key belongs to, and how many entries were passed on the left. -/
def countedDescent (key : Bytes) : ℕ → BPlusTree → PageId → ℕ → Except TreeFailure (ℕ × LeafNode)
  | 0, _, _, _ => .error descentFailure
  | bound + 1, tree, pageId, passed =>
      match tree.store.pages pageId with
      | .leaf node => .ok (passed, node)
      | .internal node =>
          match route key node.entries with
          | (before, after) =>
              countedDescent key bound tree
                ((after.head?.map fun entry => entry.2.1).getD node.rightmostChild)
                (passed + (before.map fun entry => entry.2.2).sum)

/-- A binary search for a key: where it finds it, or the index it would have. -/
def binarySearch (search : Search Bytes) (key : Bytes) (entries : List (Bytes × Bytes)) :
    Except ℕ ℕ :=
  if hasKey key entries then .ok (place search key entries)
  else .error (entries.countP fun entry => entry.1 < key)

def rankOfKeyWith (search : Search Bytes) (tree : BPlusTree) (key : Bytes) :
    Except TreeFailure (Option ℕ) :=
  if key.length ≠ tree.keySize then .error (keyError tree.keySize key.length)
  else
    match countedDescent key tree.nextPageId tree tree.rootPageId 0 with
    | .error failure => .error failure
    | .ok (passed, node) =>
        match binarySearch search key node.entries with
        | .ok index => .ok (some (passed + index))
        | .error _ => .ok none

def rankOfKey (tree : BPlusTree) (key : Bytes) : Except TreeFailure (Option ℕ) :=
  rankOfKeyWith .first tree key

/-- The rank of the greatest key that is not above the given one. -/
def rankOfFloorWith (search : Search Bytes) (tree : BPlusTree) (key : Bytes) :
    Except TreeFailure (Option ℕ) :=
  if key.length ≠ tree.keySize then .error (keyError tree.keySize key.length)
  else
    match countedDescent key tree.nextPageId tree tree.rootPageId 0 with
    | .error failure => .error failure
    | .ok (passed, node) =>
        match binarySearch search key node.entries with
        | .ok index => .ok (some (passed + index))
        | .error 0 => .ok (if passed = 0 then none else some (passed - 1))
        | .error (index + 1) => .ok (some (passed + (index + 1) - 1))

def rankOfFloor (tree : BPlusTree) (key : Bytes) : Except TreeFailure (Option ℕ) :=
  rankOfFloorWith .first tree key

/-- The child with the entry of a rank, and the rank of the entry below it. -/
def routeRank (last : PageId) : ℕ → List (Bytes × PageId × ℕ) → PageId × ℕ
  | rank, [] => (last, rank)
  | rank, (_, child, count) :: rest =>
      if rank < count then (child, rank) else routeRank last (rank - count) rest

def leafAtRank : ℕ → BPlusTree → PageId → ℕ → Except TreeFailure (PageId × ℕ)
  | 0, _, _, _ => .error descentFailure
  | bound + 1, tree, pageId, rank =>
      match tree.store.pages pageId with
      | .leaf _ => .ok (pageId, rank)
      | .internal node =>
          match routeRank node.rightmostChild rank node.entries with
          | (child, rank) => leafAtRank bound tree child rank

/-- Up to `n` entries from a leaf on, along the links, without the first `skip`. -/
def walkLeaves : ℕ → BPlusTree → PageId → ℕ → ℕ → Except TreeFailure (List (Bytes × Bytes))
  | 0, _, _, _, _ => .error descentFailure
  | bound + 1, tree, pageId, skip, n =>
      if pageId = nullPage ∨ n = 0 then .ok []
      else
        match tree.readLeaf pageId with
        | .error failure => .error failure
        | .ok node =>
            let taken := (node.entries.drop skip).take n
            match walkLeaves bound tree node.next 0 (n - taken.length) with
            | .error failure => .error failure
            | .ok rest => .ok (taken ++ rest)

/-- How many entries of two vectors each a vector can be given room for. -/
def maxCapacity : ℕ := (2 ^ 63 - 1) / 48

def scanFromRank (tree : BPlusTree) (rank n : ℕ) : Except TreeFailure (List (Bytes × Bytes)) :=
  if n = 0 ∨ tree.totalCount ≤ rank then .ok []
  else
    match leafAtRank tree.nextPageId tree tree.rootPageId rank with
    | .error failure => .error failure
    | .ok (pageId, skip) =>
        -- room is made for all of them, however few there are
        if maxCapacity < n then .error .panic
        else walkLeaves (tree.nextPageId + 1) tree pageId skip n

/-- A number of 32 bits leaves room. -/
theorem toNat_le_maxCapacity (n : UInt32) : n.toNat ≤ maxCapacity := by
  have small := n.toNat_lt
  have least : 2 ^ 32 ≤ maxCapacity := by decide
  omega

/-! ## Descents to a key -/

variable {search : Search Bytes} {tree : BPlusTree} {depth : ℕ} {shape : Shape depth} {key : Bytes}

/-- The counts of the children before the last are those of their entries. -/
theorem sum_rowNode (before : List (Bytes × Shape depth)) (last : Shape depth) :
    ((Shape.rowNode (before, last)).entries.map fun entry => entry.2.2).sum =
      (before.flatMap fun child => child.2.entries).length := by
  rw [Shape.rowNode, List.map_map, List.length_flatMap]
  rfl

/-- The descent ends at a leaf; what is passed on the left is below the key, and what is not reached
on the right is above it. -/
theorem countedDescent_eq : ∀ {depth : ℕ} {shape : Shape depth} {lo hi : Option Bytes} {bound : ℕ},
    depth < bound → Stored tree.store.pages shape.layout → Shape.Ordered depth lo hi shape →
      ∀ passed, ∃ before node after, countedDescent key bound tree shape.rootId passed =
          .ok (passed + before.length, node) ∧
        shape.entries = before ++ node.entries ++ after ∧
        (∀ entry ∈ before, entry.1 < key) ∧ ∀ entry ∈ after, key < entry.1 := by
  intro depth
  induction depth with
  | zero =>
      intro shape lo hi bound deep stored _ passed
      rcases Nat.exists_eq_succ_of_ne_zero (by omega : bound ≠ 0) with ⟨bound, rfl⟩
      rcases shape.exists_leaf with ⟨id, entries, rfl⟩
      rcases Page.eq_leaf_of_content (stored _ List.mem_cons_self) with ⟨prev, next, page⟩
      have here : tree.store.pages id = .leaf ⟨prev, next, entries⟩ := page
      refine ⟨[], ⟨prev, next, entries⟩, [], ?_, ?_, nofun, nofun⟩
      · simp only [countedDescent, Shape.rootId_leaf, here, List.length_nil, Nat.add_zero]
      · simp
  | succ depth ih =>
      intro shape lo hi bound deep stored ordered passed
      rcases Nat.exists_eq_succ_of_ne_zero (by omega : bound ≠ 0) with ⟨bound, rfl⟩
      have shallower := Nat.lt_of_succ_lt_succ deep
      rcases Shape.node_cases key shape with
        ⟨id, before, child, separator, after, last, rfl, below, less⟩ |
        ⟨id, before, last, rfl, below⟩
      · rw [Shape.layout_node, stored_cons, Row.layout_join_mk, stored_append,
          stored_append] at stored
        have page := Page.eq_internal_of_content stored.1
        rcases Row.ordered_join.mp ordered with ⟨left, right⟩
        rcases left.exists_last with ⟨mid, inner⟩
        have under := left.entries_lt (fun _ _ _ inner => Shape.Ordered.within inner) below
        have beyond : ∀ entry ∈ Row.entries (after, last), key < entry.1 :=
          fun entry entryMem => less.trans_le ((right.within entry entryMem).1 separator rfl)
        rcases ih shallower stored.2.2.1 inner
          (passed + (before.flatMap fun child => child.2.entries).length) with
          ⟨first, node, rest, descended, entries, firstBelow, restAbove⟩
        refine ⟨(before.flatMap fun child => child.2.entries) ++ first, node,
          rest ++ Row.entries (after, last), ?_, ?_, ?_, ?_⟩
        · simp only [countedDescent, Shape.rootId_node, page,
            route_rowNode_of_lt after child last below less, sum_rowNode, List.head?_cons,
            Option.map_some, Option.getD_some, descended, List.length_append, Nat.add_assoc]
        · rw [Shape.entries_node, Row.entries_join, Row.entries_mk, entries]
          simp only [List.append_assoc]
        · exact List.forall_mem_append.mpr ⟨under, firstBelow⟩
        · exact List.forall_mem_append.mpr ⟨restAbove, beyond⟩
      · rw [Shape.layout_node, stored_cons, Row.layout, stored_append] at stored
        have page := Page.eq_internal_of_content stored.1
        have segments : Row.Ordered lo hi (before, last) := ordered
        rcases segments.exists_last with ⟨mid, inner⟩
        have under := segments.entries_lt (fun _ _ _ inner => Shape.Ordered.within inner) below
        rcases ih shallower stored.2.2 inner
          (passed + (before.flatMap fun child => child.2.entries).length) with
          ⟨first, node, rest, descended, entries, firstBelow, restAbove⟩
        have rightmost : (Shape.rowNode (before, last)).rightmostChild = last.rootId := rfl
        refine ⟨(before.flatMap fun child => child.2.entries) ++ first, node, rest, ?_, ?_, ?_,
          restAbove⟩
        · simp only [countedDescent, Shape.rootId_node, page,
            route_rowNode_of_le last below, sum_rowNode, List.head?_nil, Option.map_none,
            Option.getD_none, rightmost, descended, List.length_append, Nat.add_assoc]
        · rw [Shape.entries_node, Row.entries_mk, entries]
          simp only [List.append_assoc]
        · exact List.forall_mem_append.mpr ⟨under, firstBelow⟩

/-- The rank of the last of a number of entries. -/
def lastRank : ℕ → Option ℕ
  | 0 => none
  | count + 1 => some count

/-- The rank of the greatest key that is not above the given one, in a sorted list. -/
def floorIndex (key : Bytes) (entries : List (Bytes × Bytes)) : Option ℕ :=
  lastRank (entries.countP fun entry => entry.1 ≤ key)

/-- Where every key is there once, a binary search finds its position. -/
theorem binarySearch_eq {entries : List (Bytes × Bytes)} (ascending : Ascending entries)
    (search : Search Bytes) (key : Bytes) : binarySearch search key entries =
      match position key entries with
      | some index => .ok index
      | none => .error (entries.countP fun entry => entry.1 < key) := by
  rw [binarySearch, position_eq search ascending]
  cases hasKey key entries <;> rfl

/-- How many entries are not above a key, by a binary search for it. -/
theorem countP_le_of_binarySearch {entries : List (Bytes × Bytes)} (ascending : Ascending entries)
    (search : Search Bytes) (key : Bytes) :
    (entries.countP fun entry => entry.1 ≤ key) =
      match binarySearch search key entries with
      | .ok index => index + 1
      | .error index => index := by
  rw [binarySearch_eq ascending]
  cases found : position key entries with
  | none =>
      refine List.countP_congr fun entry entryMem => ?_
      have differ : entry.1 ≠ key := by
        simpa using List.findIdx?_eq_none_iff.mp found entry entryMem
      simp [le_iff_lt_or_eq, differ]
  | some index =>
      rcases List.findIdx?_eq_some_iff_getElem.mp found with ⟨inside, here, _⟩
      have same : entries[index].1 = key := by simpa using here
      have split : entries = entries.take index ++ entries[index] :: entries.drop (index + 1) := by
        rw [List.getElem_cons_drop, List.take_append_drop]
      have parts := ascending
      rw [split, ascending_append] at parts
      have earlier : ((entries.take index).countP fun entry => entry.1 ≤ key) = index := by
        rw [List.countP_eq_length.mpr, List.length_take, min_eq_left inside.le]
        intro entry entryMem
        have less := parts.2.2 entry entryMem _ List.mem_cons_self
        rw [same] at less
        exact decide_eq_true less.le
      have later : ((entries.drop (index + 1)).countP fun entry => entry.1 ≤ key) = 0 := by
        refine List.countP_eq_zero.mpr fun entry entryMem => ?_
        have less := (List.pairwise_cons.mp parts.2.1).1 entry entryMem
        rw [same] at less
        simpa using less
      rw [split, List.countP_append, List.countP_cons, earlier, later]
      simp [same]

theorem rankOfFloorWith_ok (represents : Represents tree shape) (keySize : key.length = tree.keySize) :
    rankOfFloorWith search tree key = .ok (floorIndex key shape.entries) := by
  rcases countedDescent_eq represents.deep represents.stored represents.ordered 0 with
    ⟨before, node, after, descended, entries, below, above⟩
  have ascending := represents.ordered.ascending
  rw [entries, ascending_append, ascending_append] at ascending
  have counted := countP_le_of_binarySearch ascending.1.2.1 search key
  have countBefore : (before.countP fun entry => entry.1 ≤ key) = before.length :=
    List.countP_eq_length.mpr fun entry entryMem => decide_eq_true (below entry entryMem).le
  have countAfter : (after.countP fun entry => entry.1 ≤ key) = 0 :=
    List.countP_eq_zero.mpr fun entry entryMem => by simpa using above entry entryMem
  rw [← represents.root, Nat.zero_add] at descended
  rw [floorIndex, entries, List.countP_append, List.countP_append, countBefore, countAfter, counted]
  simp only [rankOfFloorWith, keySize, ne_eq, not_true_eq_false, if_false, descended]
  cases binarySearch search key node.entries with
  | ok index => rfl
  | error index =>
      cases index with
      | zero =>
          simp only [Nat.add_zero]
          cases before.length <;> rfl
      | succ index => rfl

theorem rankOfFloor_ok (represents : Represents tree shape) (keySize : key.length = tree.keySize) :
    tree.rankOfFloor key = .ok (floorIndex key shape.entries) :=
  rankOfFloorWith_ok represents keySize

/-- The rank of a key is its position among all entries. -/
theorem rankOfKeyWith_ok (represents : Represents tree shape) (keySize : key.length = tree.keySize) :
    rankOfKeyWith search tree key = .ok (position key shape.entries) := by
  rcases countedDescent_eq represents.deep represents.stored represents.ordered 0 with
    ⟨before, node, after, descended, entries, below, above⟩
  have notBefore : position key before = none := by
    refine List.findIdx?_eq_none_iff.mpr fun entry entryMem => ?_
    simpa using (below entry entryMem).ne
  have notAfter : position key after = none := by
    refine List.findIdx?_eq_none_iff.mpr fun entry entryMem => ?_
    simpa using (above entry entryMem).ne'
  have whole : position key shape.entries =
      (position key node.entries).map fun index => before.length + index := by
    unfold position at notBefore notAfter ⊢
    rw [entries, List.findIdx?_append, List.findIdx?_append, notBefore, notAfter]
    simp [Nat.add_comm]
  have ascending := represents.ordered.ascending
  rw [entries, ascending_append, ascending_append] at ascending
  rw [← represents.root, Nat.zero_add] at descended
  simp only [rankOfKeyWith, keySize, ne_eq, not_true_eq_false, if_false, descended, whole,
    binarySearch_eq ascending.1.2.1]
  cases position key node.entries with
  | none => rfl
  | some index => rfl

/-! ## Descents to a rank -/

theorem routeRank_eq (children : List (Bytes × Shape depth)) (last : Shape depth) (rank : ℕ)
    (inside : rank < ((children.map Prod.snd ++ [last]).flatMap Shape.entries).length) :
    ∃ before child after, children.map Prod.snd ++ [last] = before ++ child :: after ∧
      routeRank last.rootId rank (Shape.rowNode (children, last)).entries =
        (child.rootId, rank - (before.flatMap Shape.entries).length) ∧
      (before.flatMap Shape.entries).length ≤ rank ∧
      rank - (before.flatMap Shape.entries).length < child.size := by
  induction children generalizing rank with
  | nil =>
      refine ⟨[], last, [], rfl, rfl, Nat.zero_le _, ?_⟩
      rw [List.map_nil, List.nil_append, List.flatMap_singleton] at inside
      exact inside
  | cons first children ih =>
      have page : (Shape.rowNode (first :: children, last)).entries =
          (first.1, first.2.rootId, first.2.size) :: (Shape.rowNode (children, last)).entries := rfl
      by_cases here : rank < first.2.size
      · refine ⟨[], first.2, children.map Prod.snd ++ [last], rfl, ?_, Nat.zero_le _, here⟩
        rw [page, routeRank, if_pos here]
        rfl
      · have later : rank - first.2.size <
            ((children.map Prod.snd ++ [last]).flatMap Shape.entries).length := by
          have total : ((List.map Prod.snd (first :: children) ++ [last]).flatMap
              Shape.entries).length = first.2.size +
                ((children.map Prod.snd ++ [last]).flatMap Shape.entries).length := by
            rw [List.map_cons, List.cons_append, List.flatMap_cons, List.length_append]
            rfl
          omega
        rcases ih _ later with ⟨before, child, after, split, routed, least, most⟩
        have passed : ((first.2 :: before).flatMap Shape.entries).length =
            first.2.size + (before.flatMap Shape.entries).length := by
          rw [List.flatMap_cons, List.length_append]
          rfl
        refine ⟨first.2 :: before, child, after, by rw [List.map_cons, List.cons_append, split,
          List.cons_append], ?_, by omega, by omega⟩
        rw [page, routeRank, if_neg here, routed, passed, Nat.sub_sub]

/-- The descent ends at the leaf that has the entry of the rank. -/
theorem leafAtRank_eq : ∀ {depth : ℕ} {shape : Shape depth} {bound : ℕ}, depth < bound →
    Stored tree.store.pages shape.layout → ∀ {rank : ℕ}, rank < shape.size →
      ∃ before leaf after, shape.leaves = before ++ leaf :: after ∧
        leafAtRank bound tree shape.rootId rank =
          .ok (leaf.1, rank - (before.flatMap Prod.snd).length) ∧
        (before.flatMap Prod.snd).length ≤ rank ∧
        rank - (before.flatMap Prod.snd).length < leaf.2.length := by
  intro depth
  induction depth with
  | zero =>
      intro shape bound deep stored rank inside
      rcases Nat.exists_eq_succ_of_ne_zero (by omega : bound ≠ 0) with ⟨bound, rfl⟩
      rcases shape.exists_leaf with ⟨id, entries, rfl⟩
      rcases Page.eq_leaf_of_content (stored _ List.mem_cons_self) with ⟨prev, next, page⟩
      have here : tree.store.pages id = .leaf ⟨prev, next, entries⟩ := page
      refine ⟨[], (id, entries), [], rfl, ?_, Nat.zero_le _, inside⟩
      simp only [leafAtRank, Shape.rootId_leaf, here]
      rfl
  | succ depth ih =>
      intro shape bound deep stored rank inside
      rcases Nat.exists_eq_succ_of_ne_zero (by omega : bound ≠ 0) with ⟨bound, rfl⟩
      have shallower := Nat.lt_of_succ_lt_succ deep
      rcases shape.exists_node with ⟨id, children, last, rfl⟩
      rw [Shape.layout_node, stored_cons, Row.layout, stored_append] at stored
      have page := Page.eq_internal_of_content stored.1
      have entries : (Shape.node id (children, last)).entries =
          (children.map Prod.snd ++ [last]).flatMap Shape.entries := by
        rw [Shape.entries_node, Row.entries_mk, List.flatMap_append, List.flatMap_map,
          List.flatMap_singleton]
      rw [Shape.size, entries] at inside
      rcases routeRank_eq children last rank inside with
        ⟨before, child, after, split, routed, least, most⟩
      have childStored : Stored tree.store.pages child.layout := by
        have among : child ∈ children.map Prod.snd ++ [last] := by
          rw [split]
          exact List.mem_append_right _ List.mem_cons_self
        rcases List.mem_append.mp among with inChildren | isLast
        · rcases List.mem_map.mp inChildren with ⟨pair, pairMem, rfl⟩
          intro entry entryMem
          exact stored.2.1 entry (List.mem_flatMap.mpr ⟨pair, pairMem, entryMem⟩)
        · rw [List.mem_singleton.mp isLast]
          exact stored.2.2
      rcases ih shallower childStored most with
        ⟨first, leaf, rest, childLeaves, descended, childLeast, childMost⟩
      have passed : ((before.flatMap Shape.leaves ++ first).flatMap Prod.snd).length =
          (before.flatMap Shape.entries).length + (first.flatMap Prod.snd).length := by
        rw [List.flatMap_append, List.flatMap_assoc, List.length_append]
        simp only [Shape.flatMap_snd_leaves]
      refine ⟨before.flatMap Shape.leaves ++ first, leaf, rest ++ after.flatMap Shape.leaves, ?_, ?_,
        by omega, by omega⟩
      · rw [Shape.leaves_node, split, List.flatMap_append, List.flatMap_cons, childLeaves]
        simp only [List.append_assoc, List.cons_append]
      · have rightmost : (Shape.rowNode (children, last)).rightmostChild = last.rootId := rfl
        simp only [leafAtRank, Shape.rootId_node, page, rightmost, routed, descended, passed,
          Nat.sub_sub]

/-- The walk takes the entries of the leaves in order. -/
theorem walkLeaves_eq {leaves : List (PageId × List (Bytes × Bytes))} {prev : PageId} {bound : ℕ}
    (deep : leaves.length < bound)
    (linked : Linked nullPage (linksOf tree.store.pages) prev (leaves.map Prod.fst))
    (real : ∀ leaf ∈ leaves, leaf.1 ≠ nullPage)
    (stored : ∀ leaf ∈ leaves, (tree.store.pages leaf.1).content =
      .leaf ⟨nullPage, nullPage, leaf.2⟩) {skip : ℕ} (first : ∀ leaf ∈ leaves.head?,
        skip ≤ leaf.2.length) (n : ℕ) :
    walkLeaves bound tree ((leaves.map Prod.fst).headD nullPage) skip n =
      .ok (((leaves.flatMap Prod.snd).drop skip).take n) := by
  induction leaves generalizing prev bound skip n with
  | nil =>
      rcases Nat.exists_eq_succ_of_ne_zero (by omega : bound ≠ 0) with ⟨bound, rfl⟩
      simp [walkLeaves]
  | cons leaf leaves ih =>
      rcases Nat.exists_eq_succ_of_ne_zero (by omega : bound ≠ 0) with ⟨bound, rfl⟩
      rw [List.length_cons] at deep
      rcases leaf with ⟨id, entries⟩
      have idReal : id ≠ nullPage := real (id, entries) List.mem_cons_self
      rcases Page.eq_leaf_of_content (stored (id, entries) List.mem_cons_self) with
        ⟨prior, next, page⟩
      have here : tree.store.pages id = .leaf ⟨prior, next, entries⟩ := page
      have link := linked.1
      simp only [linksOf, here, Page.links, Option.some.injEq, Prod.mk.injEq] at link
      have inside : skip ≤ entries.length := first (id, entries) rfl
      simp only [walkLeaves, List.map_cons, List.headD_cons, idReal, false_or]
      by_cases none : n = 0
      · simp [none]
      · have rest : walkLeaves bound tree ((leaves.map Prod.fst).headD nullPage) 0
            (n - ((entries.drop skip).take n).length) = .ok (((leaves.flatMap Prod.snd).drop 0).take
              (n - ((entries.drop skip).take n).length)) :=
          ih (by omega) linked.2
            (fun other otherMem => real other (List.mem_cons_of_mem _ otherMem))
            (fun other otherMem => stored other (List.mem_cons_of_mem _ otherMem))
            (fun _ _ => Nat.zero_le _) _
        rw [if_neg none]
        simp only [readLeaf, here, link.2, rest, List.drop_zero]
        have left : n - ((entries.drop skip).take n).length = n - (entries.drop skip).length := by
          rw [List.length_take]
          omega
        rw [left, List.flatMap_cons, List.drop_append_of_le_length inside, List.take_append]

/-- The scan is a part of the list, and a panic if there is something to scan and no room for as
many entries as are asked for. -/
theorem scanFromRank_eq (arranged : Arranged tree shape) (rank n : ℕ) :
    tree.scanFromRank rank n = if rank < shape.entries.length ∧ maxCapacity < n then .error .panic
      else .ok ((shape.entries.drop rank).take n) := by
  have count : tree.totalCount = shape.entries.length := arranged.count
  unfold scanFromRank
  by_cases nothing : n = 0 ∨ tree.totalCount ≤ rank
  · rw [if_pos nothing, if_neg (by omega)]
    rcases nothing with rfl | past
    · simp
    · rw [count] at past
      rw [List.drop_eq_nil_of_le past, List.take_nil]
  · rw [if_neg nothing, arranged.root]
    have inside : rank < shape.size := by
      rw [← arranged.count]
      omega
    rcases leafAtRank_eq arranged.deep arranged.stored inside with
      ⟨before, leaf, after, split, descended, least, most⟩
    simp only [descended]
    by_cases crowded : maxCapacity < n
    · rw [if_pos crowded, if_pos ⟨inside, crowded⟩]
    rw [if_neg crowded, if_neg fun both => crowded both.2]
    have among : ∀ other ∈ leaf :: after, other ∈ shape.leaves := by
      intro other otherMem
      rw [split]
      exact List.mem_append_right _ otherMem
    have few : (leaf :: after).length < tree.nextPageId + 1 := by
      have leafIds : shape.leafIds ⊆ List.range tree.nextPageId :=
        fun id idMem => List.mem_range.mpr (arranged.leaf_fresh id idMem).2
      have length := (List.subperm_of_subset arranged.leaf_nodup leafIds).length_le
      rw [List.length_range, ← shape.map_fst_leaves, List.length_map, split,
        List.length_append] at length
      omega
    have chain := arranged.linked
    rw [← shape.map_fst_leaves, split, List.map_append] at chain
    rcases chain.suffix with ⟨prior, linked⟩
    have walked : walkLeaves (tree.nextPageId + 1) tree leaf.1
        (rank - (before.flatMap Prod.snd).length) n =
          .ok ((((leaf :: after).flatMap Prod.snd).drop
            (rank - (before.flatMap Prod.snd).length)).take n) := by
      refine walkLeaves_eq few linked ?_ ?_ ?_ n
      · intro other otherMem
        have listed : other.1 ∈ shape.leafIds := by
          rw [← shape.map_fst_leaves]
          exact List.mem_map_of_mem (among other otherMem)
        exact (arranged.leaf_fresh _ listed).1.ne'
      · intro other otherMem
        exact arranged.stored _ (shape.leaves_subset_layout other (among other otherMem))
      · rintro other ⟨⟩
        exact most.le
    rw [walked, ← shape.flatMap_snd_leaves, split, List.flatMap_append,
      List.drop_append, List.drop_eq_nil_of_le least, List.nil_append]

theorem scanFromRank_ok (arranged : Arranged tree shape) (rank : ℕ) {n : ℕ}
    (room : n ≤ maxCapacity) :
    tree.scanFromRank rank n = .ok ((shape.entries.drop rank).take n) := by
  rw [scanFromRank_eq arranged, if_neg fun both => room.not_gt both.2]

end BPlusTree

end Seisin
