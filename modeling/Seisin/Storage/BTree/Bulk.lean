import Mathlib
import Seisin.Storage.BTree.Scans

/-!
# Bulk rebuild and insertion one by one

A rebuild sorts what it is given and writes it out, an insertion replaces the value of a key that is
there.  The two lead to trees that answer alike where every key is given once, and to trees of
different sizes where one is not.
-/

namespace Seisin

open SortedList

namespace BPlusTree

/-- The trees have the same contents, length, ranks and scans. -/
structure SameAnswers (first second : BPlusTree) : Prop where
  contents : first.allEntries = second.allEntries
  len : first.len = second.len
  rankOfKey : ∀ search key, rankOfKeyWith search first key = rankOfKeyWith search second key
  rankOfFloor : ∀ search key,
    rankOfFloorWith search first key = rankOfFloorWith search second key
  scanFromRank : ∀ rank n, first.scanFromRank rank n = second.scanFromRank rank n
  scanForwardBounded : ∀ n, first.scanForwardBounded n = second.scanForwardBounded n
  scanBackwardBounded : ∀ n, first.scanBackwardBounded n = second.scanBackwardBounded n
  sampleByRank : ∀ k, first.sampleByRank k = second.sampleByRank k

/-- What a tree answers depends on its entries and on the size of its keys. -/
theorem sameAnswers_of_entries {first second : BPlusTree} {firstDepth secondDepth : ℕ}
    {firstShape : Shape firstDepth} {secondShape : Shape secondDepth}
    (firstRepresents : Represents first firstShape)
    (secondRepresents : Represents second secondShape) (keySize : first.keySize = second.keySize)
    (entries : firstShape.entries = secondShape.entries) : SameAnswers first second := by
  have firstArranged := firstRepresents.arranged
  have secondArranged := secondRepresents.arranged
  constructor
  · rw [firstArranged.allEntries, secondArranged.allEntries, entries]
  · rw [len, len, firstArranged.count, secondArranged.count, Shape.size, Shape.size, entries]
  · intro search key
    by_cases right : key.length = first.keySize
    · rw [rankOfKeyWith_ok firstRepresents right,
        rankOfKeyWith_ok secondRepresents (right.trans keySize), entries]
    · rw [rankOfKeyWith, rankOfKeyWith, if_pos right, if_pos (keySize ▸ right), keySize]
  · intro search key
    by_cases right : key.length = first.keySize
    · rw [rankOfFloorWith_ok firstRepresents right,
        rankOfFloorWith_ok secondRepresents (right.trans keySize), entries]
    · rw [rankOfFloorWith, rankOfFloorWith, if_pos right, if_pos (keySize ▸ right), keySize]
  · intro rank n
    rw [scanFromRank_eq firstArranged, scanFromRank_eq secondArranged, entries]
  · intro n
    rw [scanForwardBounded_ok firstArranged, scanForwardBounded_ok secondArranged, entries]
  · intro n
    rw [scanBackwardBounded_ok firstArranged, scanBackwardBounded_ok secondArranged, entries]
  · intro k
    rw [sampleByRank_eq firstArranged, sampleByRank_eq secondArranged, entries]

variable {search : Search Bytes} {tree : BPlusTree} {depth : ℕ} {shape : Shape depth}

theorem insertEach_ok {entries : List (Bytes × Bytes)} (represents : Represents tree shape)
    (records : ∀ entry ∈ entries,
      entry.1.length = tree.keySize ∧ entry.2.length = tree.valueSize) :
    ∃ (newTree : BPlusTree) (newDepth : ℕ) (newShape : Shape newDepth),
      tree.insertEach entries = .ok newTree ∧ Represents newTree newShape ∧
      newTree.keySize = tree.keySize ∧ newShape.entries = upsertAll shape.entries entries := by
  induction entries generalizing tree depth with
  | nil => exact ⟨tree, depth, shape, rfl, represents, rfl, rfl⟩
  | cons entry entries ih =>
      rcases records entry List.mem_cons_self with ⟨keySize, valueSize⟩
      rcases insert_ok represents keySize valueSize with
        ⟨next, nextDepth, nextShape, inserted, nextRepresents, sameKey, sameValue, upserted⟩
      have nextRecords : ∀ other ∈ entries,
          other.1.length = next.keySize ∧ other.2.length = next.valueSize := by
        intro other otherMem
        rw [sameKey, sameValue]
        exact records other (List.mem_cons_of_mem _ otherMem)
      rcases ih nextRepresents nextRecords with
        ⟨newTree, newDepth, newShape, each, final, finalKey, contents⟩
      refine ⟨newTree, newDepth, newShape, ?_, final, finalKey.trans sameKey, ?_⟩
      · simp only [insertEach, inserted, each]
      · rw [contents, upserted]
        rfl

/-- An empty tree with the sizes of another can be created. -/
theorem Sized.exists_create (sized : tree.Sized) :
    ∃ fresh, create tree.keySize tree.valueSize tree.pageSize = .ok fresh := by
  unfold create
  rw [sized.valid, sized.leaf, sized.internal]
  dsimp only
  rw [if_neg sized.leafRoom.ne', if_neg sized.internalRoom.ne']
  exact ⟨_, rfl⟩

/-- For every tree that operations lead to, and entries of the right sizes in any order: the tree
rebuilt from them and an empty tree of the same sizes into which they are inserted answer alike
exactly if no key is repeated. -/
theorem rebuild_same_as_inserts_iff {keySize valueSize pageSize : ℕ} {start : BPlusTree}
    (created : create keySize valueSize pageSize = .ok start) {ops : List TreeOp}
    {replies : List TreeReply} {tree : BPlusTree}
    (ran : Service.run (apply search) start ops = some (replies, tree)) {entries : List (Bytes × Bytes)}
    (records : ∀ entry ∈ entries,
      entry.1.length = tree.keySize ∧ entry.2.length = tree.valueSize) :
    ∃ fresh rebuilt inserted, create tree.keySize tree.valueSize tree.pageSize = .ok fresh ∧
      tree.rebuildFrom entries = .ok rebuilt ∧ fresh.insertEach entries = .ok inserted ∧
      (SameAnswers rebuilt inserted ↔ (entries.map Prod.fst).Nodup) := by
  rcases run_arranged created ran with ⟨depth, shape, arranged⟩
  rcases arranged.sized.exists_create with ⟨fresh, freshCreated⟩
  rcases create_ok freshCreated with ⟨freshRepresents, freshKey, freshValue⟩
  rcases rebuildFrom_arranged arranged.sized records with
    ⟨rebuilt, rebuiltDepth, rebuiltShape, rebuilds, rebuiltArranged, rebuiltKey, _, sorted,
      strictly⟩
  rw [← freshKey, ← freshValue] at records
  rcases insertEach_ok freshRepresents records with
    ⟨inserted, insertedDepth, insertedShape, inserts, insertedRepresents, insertedKey, contents⟩
  rw [Shape.entries_leaf] at contents
  refine ⟨fresh, rebuilt, inserted, freshCreated, rebuilds, inserts, ?_, ?_⟩
  · intro same
    -- The rebuilt tree has as many entries as were given, the other as there are different keys.
    have rebuiltLen : rebuilt.len = entries.length := by
      rw [len, rebuiltArranged.count, Shape.size, sorted, List.length_mergeSort]
    have insertedLen : inserted.len = (entries.map Prod.fst).toFinset.card := by
      have ascending : Ascending insertedShape.entries := insertedRepresents.ordered.ascending
      have keys : (insertedShape.entries.map Prod.fst).toFinset =
          (entries.map Prod.fst).toFinset := by
        ext key
        rw [List.mem_toFinset, List.mem_toFinset, contents, mem_keys_upsertAll Ascending.nil]
        simp
      rw [← keys, List.toFinset_card_of_nodup ascending.nodup_keys, List.length_map, len,
        insertedRepresents.count]
      rfl
    have card : (entries.map Prod.fst).toFinset.card = (entries.map Prod.fst).length := by
      rw [← insertedLen, ← same.len, rebuiltLen, List.length_map]
    exact Multiset.toFinset_card_eq_card_iff_nodup.mp card
  · intro distinct
    have rebuiltRepresents := rebuiltArranged.represents (strictly distinct)
    refine sameAnswers_of_entries rebuiltRepresents insertedRepresents
      (rebuiltKey.trans (insertedKey.trans freshKey).symm) ?_
    apply Ascending.eq_of_mem_iff rebuiltRepresents.ordered.ascending
      insertedRepresents.ordered.ascending
    intro entry
    rw [sorted, List.mem_mergeSort, contents, mem_upsertAll Ascending.nil distinct (by simp)]
    simp

/-- An empty tree for keys and values of one byte. -/
def smallTree : BPlusTree :=
  writeSuperblock
    { store := PageStore.create.writePage 1 (.leaf ⟨nullPage, nullPage, []⟩)
      pageSize := 4096
      keySize := 1
      valueSize := 1
      rootPageId := 1
      totalCount := 0
      nextPageId := 2
      maxLeafEntries := 2032
      maxInternalEntries := 239 }

theorem create_smallTree : create 1 1 4096 = .ok smallTree := rfl

/-- Two entries out of order. -/
theorem rebuild_same_as_inserts_iff_pair : ∃ rebuilt inserted,
    smallTree.rebuildFrom [([2], [20]), ([1], [10])] = .ok rebuilt ∧
    smallTree.insertEach [([2], [20]), ([1], [10])] = .ok inserted ∧
    SameAnswers rebuilt inserted := by
  have records : ∀ entry ∈ [(([2], [20]) : Bytes × Bytes), ([1], [10])],
      entry.1.length = smallTree.keySize ∧ entry.2.length = smallTree.valueSize := by
    intro entry entryMem
    simp only [List.mem_cons, List.not_mem_nil, or_false] at entryMem
    rcases entryMem with rfl | rfl <;> exact ⟨rfl, rfl⟩
  have ran : Service.run (apply .first) smallTree [] = some ([], smallTree) := rfl
  rcases rebuild_same_as_inserts_iff create_smallTree ran records with
    ⟨fresh, rebuilt, inserted, created, rebuilds, inserts, same⟩
  have isFresh : smallTree = fresh := Except.ok.inj (create_smallTree.symm.trans created)
  rw [← isFresh] at inserts
  exact ⟨rebuilt, inserted, rebuilds, inserts, same.mpr (by decide)⟩

/-- A key given twice is there twice after a rebuild and once after two inserts. -/
theorem repeated_key_kept : create 1 1 4096 = .ok smallTree ∧ ∃ rebuilt inserted,
    smallTree.rebuildFrom [([1], [10]), ([1], [11])] = .ok rebuilt ∧
    smallTree.insertEach [([1], [10]), ([1], [11])] = .ok inserted ∧
    rebuilt.len = 2 ∧ inserted.len = 1 ∧ ¬SameAnswers rebuilt inserted := by
  refine ⟨rfl, ?_⟩
  have sized := (create_ok create_smallTree).1.sized
  have records : ∀ entry ∈ [(([1], [10]) : Bytes × Bytes), ([1], [11])],
      entry.1.length = smallTree.keySize ∧ entry.2.length = smallTree.valueSize := by
    intro entry entryMem
    simp only [List.mem_cons, List.not_mem_nil, or_false] at entryMem
    rcases entryMem with rfl | rfl <;> exact ⟨rfl, rfl⟩
  rcases rebuildFrom_arranged sized records with
    ⟨rebuilt, _, shape, rebuilds, arranged, _, _, sorted, _⟩
  have two : rebuilt.len = 2 := by
    rw [len, arranged.count, Shape.size, sorted, List.length_mergeSort]
    rfl
  refine ⟨rebuilt, _, rebuilds, rfl, two, rfl, ?_⟩
  intro same
  have equal := same.len
  rw [two] at equal
  exact absurd equal (by decide)

end BPlusTree

end Seisin
