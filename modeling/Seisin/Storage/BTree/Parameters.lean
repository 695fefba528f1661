import Mathlib
import Seisin.Storage.BTree.PageCodec
import Seisin.Storage.BTree.Refinement

/-!
# The sizes of a tree

Keys, values and pages have the sizes a tree was created with, and how many records go into a page
is a quotient of these.  Creating a tree checks that the quotients are not zero, but divides by the
length of a record first; opening one takes the sizes from the superblock and checks nothing but the
page size.  Where the quotients are not zero, no insertion writes past the end of a page.
-/

namespace Seisin

open SortedList Separated

/-! ## Pages within their bounds -/

/-- A page with no more records than the tree has room for, and of the right sizes. -/
def Page.Bounded (tree : BPlusTree) : Page → Prop
  | .leaf node => node.entries.length ≤ tree.maxLeafEntries ∧
      ∀ entry ∈ node.entries, entry.1.length = tree.keySize ∧ entry.2.length = tree.valueSize
  | .internal node => node.entries.length ≤ tree.maxInternalEntries ∧
      ∀ entry ∈ node.entries, entry.1.length = tree.keySize

namespace BPlusTree

/-- The separator of a split is a key. -/
def InsertOutcome.Bounded (tree : BPlusTree) : InsertOutcome → Prop
  | .noSplit _ => True
  | .split _ separatorKey _ _ => separatorKey.length = tree.keySize

def Bounded (tree : BPlusTree) : Prop := ∀ id, (tree.store.pages id).Bounded tree

/-- What an insertion below some page leaves. -/
structure Extended (tree newTree : BPlusTree) (outcome : InsertOutcome) : Prop where
  same : ∃ pages next, newTree = tree.withPages pages next
  pages : ∀ id, (newTree.store.pages id).Bounded tree
  outcome : outcome.Bounded tree

variable {search : Search Bytes} {tree newTree : BPlusTree} {key value : Bytes}
  {outcome : InsertOutcome}

theorem bounded_update {pages : PageId → Page} (bounded : ∀ id, (pages id).Bounded tree)
    (page : Page) (fits : page.Bounded tree) (id : PageId) :
    ∀ other, (Function.update pages id page other).Bounded tree := by
  intro other
  by_cases same : other = id
  · rw [same, Function.update_self]
    exact fits
  · rw [Function.update_of_ne same]
    exact bounded other

/-- The neighbour of a leaf that splits keeps its records. -/
theorem linked_bounded (bounded : tree.Bounded) {next newPageId : PageId} {linked : BPlusTree}
    (linkedIs : (if next ≠ nullPage then
        match tree.readLeaf next with
        | .error failure => .error failure
        | .ok nextNode => .ok (tree.writeLeaf next { nextNode with prev := newPageId })
      else (.ok tree : Except TreeFailure BPlusTree)) = .ok linked) :
    ∃ pages, linked = tree.withPages pages tree.nextPageId ∧
      ∀ id, (pages id).Bounded tree := by
  by_cases last : next = nullPage
  · rw [if_neg (not_not.mpr last)] at linkedIs
    cases linkedIs
    exact ⟨_, rfl, bounded⟩
  · rw [if_pos last, readLeaf] at linkedIs
    cases nextStored : tree.store.pages next with
    | internal _ =>
        rw [nextStored] at linkedIs
        cases linkedIs
    | leaf nextNode =>
        rw [nextStored] at linkedIs
        cases linkedIs
        have there : (Page.leaf nextNode).Bounded tree := nextStored ▸ bounded next
        exact ⟨_, rfl, bounded_update bounded (.leaf { nextNode with prev := newPageId }) there next⟩

theorem insertIntoLeaf_extended (bounded : tree.Bounded) (room : 0 < tree.maxLeafEntries)
    (keySize : key.length = tree.keySize) (valueSize : value.length = tree.valueSize)
    {id : PageId} {node : LeafNode} (stored : tree.store.pages id = .leaf node)
    (inserted : insertIntoLeaf search tree id node key value = .ok (outcome, newTree)) :
    Extended tree newTree outcome := by
  have here : (Page.leaf node).Bounded tree := stored ▸ bounded id
  have records : ∀ entry ∈ upsertBy search key value node.entries,
      entry.1.length = tree.keySize ∧ entry.2.length = tree.valueSize := by
    intro entry entryMem
    rcases mem_of_mem_upsertBy search entryMem with rfl | old
    · exact ⟨keySize, valueSize⟩
    · exact here.2 entry old
  have longer := length_upsertBy_le search key value node.entries
  have few := here.1
  unfold insertIntoLeaf at inserted
  simp only at inserted
  generalize upsertBy search key value node.entries = entries at inserted records longer
  split at inserted
  · rename_i enough
    cases inserted
    exact ⟨⟨_, _, rfl⟩, bounded_update bounded (.leaf { node with entries := entries })
      ⟨enough, records⟩ id, trivial⟩
  · rename_i full
    split at inserted
    · cases inserted
    · rename_i linked linkedIs
      have allocated : tree.allocatePage.2.Bounded := bounded
      rcases linked_bounded allocated linkedIs with ⟨pages, rfl, neighbours⟩
      have linkedBounded : ∀ id, (pages id).Bounded tree := neighbours
      have leftFits : (Page.leaf { node with
          next := tree.nextPageId, entries := entries.take (entries.length / 2) }).Bounded tree := by
        refine ⟨?_, fun entry entryMem => records entry (List.mem_of_mem_take entryMem)⟩
        rw [List.length_take]
        omega
      have rightFits : (Page.leaf
          ⟨id, node.next, entries.drop (entries.length / 2)⟩).Bounded tree := by
        refine ⟨?_, fun entry entryMem => records entry (List.mem_of_mem_drop entryMem)⟩
        rw [List.length_drop]
        omega
      cases inserted
      refine ⟨⟨_, _, rfl⟩, bounded_update (bounded_update linkedBounded _ leftFits id) _ rightFits
        tree.nextPageId, ?_⟩
      cases rightIs : entries.drop (entries.length / 2) with
      | nil =>
          have none := congrArg List.length rightIs
          rw [List.length_drop, List.length_nil] at none
          omega
      | cons first rest =>
          have firstMem : first ∈ entries.drop (entries.length / 2) := by simp [rightIs]
          exact (records first (List.mem_of_mem_drop firstMem)).1

/-- An internal page with one record more than there is room for, at most. -/
theorem settleInternal_extended {below : BPlusTree} {earlier : InsertOutcome}
    (extended : Extended tree below earlier) (room : 0 < tree.maxInternalEntries)
    {node : InternalNode} (few : node.entries.length ≤ tree.maxInternalEntries + 1)
    (separators : ∀ entry ∈ node.entries, entry.1.length = tree.keySize) {id : PageId}
    {isNew : Bool} (settled : below.settleInternal id node isNew = (outcome, newTree)) :
    Extended tree newTree outcome := by
  rcases extended with ⟨⟨pages, next, rfl⟩, bounded, -⟩
  rw [settleInternal] at settled
  split at settled
  · rename_i enough
    cases settled
    exact ⟨⟨_, _, rfl⟩, bounded_update bounded (.internal node) ⟨enough, separators⟩ id, trivial⟩
  · rename_i full
    have overfull : tree.maxInternalEntries < node.entries.length := Nat.not_le.mp full
    have inside : node.entries.length / 2 < node.entries.length := by omega
    simp only [List.getElem?_eq_getElem inside, Option.getD_some] at settled
    have promoted := separators _ (List.getElem_mem inside)
    have leftFits : (Page.internal ⟨node.entries.take (node.entries.length / 2),
        (node.entries[node.entries.length / 2]).2.1,
        (node.entries[node.entries.length / 2]).2.2⟩).Bounded tree := by
      refine ⟨?_, fun entry entryMem => separators entry (List.mem_of_mem_take entryMem)⟩
      rw [List.length_take]
      omega
    have rightFits : (Page.internal ⟨node.entries.drop (node.entries.length / 2 + 1),
        node.rightmostChild, node.rightmostCount⟩).Bounded tree := by
      refine ⟨?_, fun entry entryMem => separators entry (List.mem_of_mem_drop entryMem)⟩
      rw [List.length_drop]
      omega
    cases settled
    exact ⟨⟨_, _, rfl⟩, bounded_update (bounded_update bounded _ leftFits id) _ rightFits next,
      promoted⟩

theorem route_append {Child : Type} (key : Bytes) (entries : List (Bytes × Child)) :
    (route key entries).1 ++ (route key entries).2 = entries := by
  rw [route, List.span_eq_takeWhile_dropWhile]
  exact List.takeWhile_append_dropWhile

/-- On the way back from the page below, a page gets one record more, or other counts. -/
theorem insertInto_extended (leafRoom : 0 < tree.maxLeafEntries)
    (internalRoom : 0 < tree.maxInternalEntries) (bounded : tree.Bounded)
    (keySize : key.length = tree.keySize) (valueSize : value.length = tree.valueSize)
    {bound : ℕ} {id : PageId} (inserted : insertInto search key value bound tree id =
      .ok (outcome, newTree)) : Extended tree newTree outcome := by
  induction bound generalizing id outcome newTree with
  | zero => cases inserted
  | succ bound ih =>
      rw [insertInto] at inserted
      cases stored : tree.store.pages id with
      | leaf node =>
          rw [stored] at inserted
          exact insertIntoLeaf_extended bounded leafRoom keySize valueSize stored inserted
      | internal node =>
          have here : (Page.internal node).Bounded tree := stored ▸ bounded id
          have whole := route_append key node.entries
          rw [stored] at inserted
          simp only at inserted
          generalize route key node.entries = routed at inserted whole
          rcases routed with ⟨before, _ | ⟨⟨separator, child, count⟩, after⟩⟩
          · simp only at inserted
            split at inserted
            · cases inserted
            · rename_i isNew below belowIs
              rcases ih belowIs with ⟨⟨pages, next, rfl⟩, belowBounded, -⟩
              cases isNew with
              | false =>
                  cases inserted
                  exact ⟨⟨_, _, rfl⟩, belowBounded, trivial⟩
              | true =>
                  cases inserted
                  exact ⟨⟨_, _, rfl⟩, bounded_update belowBounded
                    (.internal { node with rightmostCount := node.rightmostCount + 1 }) here id,
                    trivial⟩
            · rename_i isNew separatorKey newPageId newPageCount below belowIs
              rw [Except.ok.injEq] at inserted
              have extended := ih belowIs
              refine settleInternal_extended extended internalRoom ?_ ?_ inserted
              · rw [List.length_append]
                exact Nat.succ_le_succ here.1
              · intro entry entryMem
                rcases List.mem_append.mp entryMem with old | new
                · exact here.2 entry old
                · rw [List.mem_singleton.mp new]
                  exact extended.outcome
          · simp only at inserted whole
            have sized : ∀ entry ∈ before ++ after, entry.1.length = tree.keySize := by
              intro entry entryMem
              apply here.2 entry
              rw [← whole]
              rcases List.mem_append.mp entryMem with early | late
              · exact List.mem_append_left _ early
              · exact List.mem_append_right _ (List.mem_cons_of_mem _ late)
            have separatorSized : separator.length = tree.keySize := by
              apply here.2 (separator, child, count)
              rw [← whole]
              exact List.mem_append_right _ List.mem_cons_self
            have few : (before ++ (separator, child, count) :: after).length ≤
                tree.maxInternalEntries := by
              rw [whole]
              exact here.1
            rw [List.length_append, List.length_cons] at few
            split at inserted
            · cases inserted
            · rename_i isNew below belowIs
              rcases ih belowIs with ⟨⟨pages, next, rfl⟩, belowBounded, -⟩
              cases isNew with
              | false =>
                  cases inserted
                  exact ⟨⟨_, _, rfl⟩, belowBounded, trivial⟩
              | true =>
                  cases inserted
                  refine ⟨⟨_, _, rfl⟩, bounded_update belowBounded (.internal { node with
                    entries := before ++ (separator, child, count + 1) :: after }) ⟨?_, ?_⟩ id,
                    trivial⟩
                  · rw [List.length_append, List.length_cons]
                    exact few
                  · intro entry entryMem
                    rcases List.mem_append.mp entryMem with early | late
                    · exact sized entry (List.mem_append_left _ early)
                    · rcases List.mem_cons.mp late with rfl | later
                      · exact separatorSized
                      · exact sized entry (List.mem_append_right _ later)
            · rename_i isNew separatorKey newPageId newPageCount below belowIs
              rw [Except.ok.injEq] at inserted
              have extended := ih belowIs
              refine settleInternal_extended extended internalRoom ?_ ?_ inserted
              · simp only [List.length_append, List.length_cons]
                omega
              · intro entry entryMem
                rcases List.mem_append.mp entryMem with early | late
                · exact sized entry (List.mem_append_left _ early)
                · rcases List.mem_cons.mp late with rfl | later
                  · exact extended.outcome
                  · rcases List.mem_cons.mp later with rfl | last
                    · exact separatorSized
                    · exact sized entry (List.mem_append_right _ last)

theorem insert_bounded (sized : tree.Sized) (bounded : tree.Bounded)
    (keySize : key.length = tree.keySize) (valueSize : value.length = tree.valueSize)
    (inserted : tree.insert key value = .ok newTree) : newTree.Bounded := by
  rw [insert, insertWith, if_neg (not_not.mpr keySize), if_neg (not_not.mpr valueSize)] at inserted
  split at inserted
  · cases inserted
  · rename_i isNew below belowIs
    rcases insertInto_extended sized.leafRoom sized.internalRoom bounded keySize valueSize belowIs
      with ⟨⟨pages, next, rfl⟩, belowBounded, -⟩
    cases inserted
    exact belowBounded
  · rename_i isNew separatorKey newPageId newPageCount below belowIs
    rcases insertInto_extended sized.leafRoom sized.internalRoom bounded keySize valueSize belowIs
      with ⟨⟨pages, next, rfl⟩, belowBounded, separatorFits⟩
    cases inserted
    have rootFits : (Page.internal ⟨[(separatorKey, tree.rootPageId,
        tree.totalCount + isNew.toNat - newPageCount)], newPageId, newPageCount⟩).Bounded tree := by
      refine ⟨sized.internalRoom, ?_⟩
      intro entry entryMem
      rw [List.mem_singleton.mp entryMem]
      exact separatorFits
    exact bounded_update belowBounded _ rootFits next

/-! ## Writing them -/

def encodePage (tree : BPlusTree) : Page → Except TreeFailure Bytes
  | .leaf node => encodeLeaf node tree.pageSize tree.keySize tree.valueSize
  | .internal node => encodeInternal node tree.pageSize tree.keySize

/-- All pages are written without a panic, and as whole pages.  An insertion writes no page twice,
so that these are all the writes it makes. -/
def Written (tree : BPlusTree) : Prop :=
  ∀ id, ∃ bytes, tree.encodePage (tree.store.pages id) = .ok bytes ∧ bytes.length = tree.pageSize

theorem large_of_valid {pageSize : ℕ} (valid : validatePageSize pageSize = .ok ()) :
    nodeHeaderLen ≤ pageSize := by
  rw [nodeHeaderLen]
  unfold validatePageSize at valid
  split at valid
  · cases valid
  · omega

theorem Bounded.written (bounded : tree.Bounded) (sized : tree.Sized) : tree.Written := by
  intro id
  have large := large_of_valid sized.valid
  have fits := bounded id
  generalize tree.store.pages id = page at fits ⊢
  cases page with
  | leaf node =>
      have leaf := sized.leaf
      unfold Seisin.maxLeafEntries at leaf
      split at leaf
      · cases leaf
      · rename_i positive
        rw [Except.ok.injEq] at leaf
        have few : node.entries.length ≤ tree.maxLeafEntries := fits.1
        rw [← leaf, le_capacity_iff (by omega)] at few
        have encoded := encodeLeaf_eq large fits.2
        rw [if_pos few] at encoded
        refine ⟨_, encoded, length_encoded _ _ _ large ?_ few⟩
        intro entry entryMem
        rw [List.length_append, (fits.2 entry entryMem).1, (fits.2 entry entryMem).2]
  | internal node =>
      have few : node.entries.length ≤ tree.maxInternalEntries := fits.1
      rw [← sized.internal, Seisin.maxInternalEntries, le_capacity_iff (by omega)] at few
      have encoded := encodeInternal_eq large fits.2
      rw [if_pos few] at encoded
      refine ⟨_, encoded, length_encoded _ _ _ large ?_ few⟩
      intro entry entryMem
      exact (writes_internalEntry (fits.2 entry entryMem)).1

/-! ## Trees that can be used -/

/-- A tree with room in its pages, into which records of its sizes can be inserted. -/
structure Usable (tree : BPlusTree) : Prop where
  leafRoom : 1 ≤ tree.maxLeafEntries
  internalRoom : 1 ≤ tree.maxInternalEntries
  inserts : ∀ entries : List (Bytes × Bytes),
    (∀ entry ∈ entries, entry.1.length = tree.keySize ∧ entry.2.length = tree.valueSize) →
    ∃ newTree, tree.insertEach entries = .ok newTree ∧ newTree.Written

/-- An error, or a tree that can be used. -/
def Validated : Except TreeFailure BPlusTree → Prop
  | .ok tree => tree.Usable
  | .error (.error _) => True
  | .error .panic => False

theorem insertEach_written {depth : ℕ} {shape : Shape depth} (represents : Represents tree shape)
    (bounded : tree.Bounded) {entries : List (Bytes × Bytes)}
    (records : ∀ entry ∈ entries,
      entry.1.length = tree.keySize ∧ entry.2.length = tree.valueSize) :
    ∃ newTree, tree.insertEach entries = .ok newTree ∧ newTree.Written := by
  induction entries generalizing tree depth with
  | nil => exact ⟨tree, rfl, bounded.written represents.sized⟩
  | cons entry entries ih =>
      have sizes := records entry List.mem_cons_self
      rcases insert_ok represents sizes.1 sizes.2 with
        ⟨newTree, newDepth, newShape, inserted, newRepresents, sameKey, sameValue, -⟩
      have newBounded := insert_bounded represents.sized bounded sizes.1 sizes.2 inserted
      rw [insertEach, inserted]
      apply ih newRepresents newBounded
      intro other otherMem
      rw [sameKey, sameValue]
      exact records other (List.mem_cons_of_mem _ otherMem)

theorem Represents.usable {depth : ℕ} {shape : Shape depth} (represents : Represents tree shape)
    (bounded : tree.Bounded) : tree.Usable where
  leafRoom := represents.sized.leafRoom
  internalRoom := represents.sized.internalRoom
  inserts _ records := insertEach_written represents bounded records

/-! ## Creating and opening -/

theorem validatePageSize_cases (pageSize : ℕ) :
    validatePageSize pageSize = .ok () ∨
      ∃ message, validatePageSize pageSize = .error (.error message) := by
  unfold validatePageSize
  split
  · exact Or.inr ⟨_, rfl⟩
  · split
    · exact Or.inr ⟨_, rfl⟩
    · exact Or.inl rfl

theorem maxLeafEntries_of_pos {keySize valueSize : ℕ} (pageSize : ℕ)
    (positive : 0 < keySize + valueSize) :
    Seisin.maxLeafEntries pageSize keySize valueSize =
      .ok ((pageSize - nodeHeaderLen) / (keySize + valueSize)) := by
  rw [Seisin.maxLeafEntries, if_neg positive.ne']

theorem bounded_empty (tree : BPlusTree) (prev next : PageId) :
    (Page.leaf ⟨prev, next, []⟩).Bounded tree :=
  ⟨Nat.zero_le _, by simp⟩

theorem create_bounded {keySize valueSize pageSize : ℕ}
    (created : create keySize valueSize pageSize = .ok tree) : tree.Bounded := by
  unfold create at created
  split at created
  · cases created
  · cases created
  · split at created
    · cases created
    · split at created
      · cases created
      · cases created
        intro id
        exact bounded_update (fun _ => bounded_empty _ _ _) _ (bounded_empty _ _ _) 1 id

/-- Creating a tree goes wrong for records of no bytes only, which it divides by before anything
about them is checked. -/
theorem create_validated_iff (keySize valueSize pageSize : ℕ) :
    Validated (create keySize valueSize pageSize) ↔
      (validatePageSize pageSize = .ok () → 0 < keySize + valueSize) := by
  rcases validatePageSize_cases pageSize with valid | ⟨message, invalid⟩
  · rcases Nat.eq_zero_or_pos (keySize + valueSize) with zero | positive
    · have panics : create keySize valueSize pageSize = .error .panic := by
        simp [create, valid, Seisin.maxLeafEntries, zero]
      rw [panics]
      constructor
      · exact False.elim
      · intro positive
        exact absurd (positive valid) (by omega)
    · refine iff_of_true ?_ fun _ => positive
      cases created : create keySize valueSize pageSize with
      | ok tree => exact (create_ok created).1.usable (create_bounded created)
      | error failure =>
          cases failure with
          | error message => trivial
          | panic =>
              simp only [create, valid, maxLeafEntries_of_pos pageSize positive] at created
              split at created
              · cases created
              · split at created
                · cases created
                · cases created
  · have refused : create keySize valueSize pageSize = .error (.error message) := by
      simp [create, invalid]
    rw [refused]
    exact iff_of_true trivial fun valid => by rw [invalid] at valid; cases valid

/-- The tree that a superblock describes. -/
def described (store : PageStore) (block : Superblock) : BPlusTree where
  store := store
  pageSize := block.pageSize
  keySize := block.keySize
  valueSize := block.valueSize
  rootPageId := block.rootPageId
  totalCount := block.totalCount
  nextPageId := block.nextPageId
  maxLeafEntries := (block.pageSize - nodeHeaderLen) / (block.keySize + block.valueSize)
  maxInternalEntries := Seisin.maxInternalEntries block.pageSize block.keySize

/-- Pages that hold a tree, whatever the sizes are. -/
structure Laid (tree : BPlusTree) {depth : ℕ} (shape : Shape depth) : Prop where
  root : tree.rootPageId = shape.rootId
  stored : Stored tree.store.pages shape.layout
  ordered : Shape.Ordered depth none none shape
  fits : shape.Fits tree.maxLeafEntries tree.maxInternalEntries
  linked : LinkedList.Linked nullPage (linksOf tree.store.pages) nullPage shape.leafIds
  nodup : shape.pageIds.Nodup
  fresh : ∀ id ∈ shape.pageIds, 0 < id ∧ id < tree.nextPageId
  count : tree.totalCount = shape.size
  records : ∀ entry ∈ shape.entries,
    entry.1.length = tree.keySize ∧ entry.2.length = tree.valueSize
  saved : tree.store.superblock = some ⟨tree.pageSize, tree.keySize, tree.valueSize,
    tree.rootPageId, tree.totalCount, tree.nextPageId⟩
  bounded : tree.Bounded

theorem Laid.represents {depth : ℕ} {shape : Shape depth} (laid : Laid tree shape)
    (sized : tree.Sized) : Represents tree shape where
  __ := laid
  sized := sized

/-- One record fits a page of each kind. -/
def RecordFits (keySize valueSize pageSize : ℕ) : Prop :=
  0 < keySize + valueSize ∧ keySize + valueSize ≤ pageSize - nodeHeaderLen ∧
    keySize + 16 ≤ pageSize - nodeHeaderLen

theorem recordFits_iff {keySize valueSize pageSize : ℕ} (positive : 0 < keySize + valueSize) :
    RecordFits keySize valueSize pageSize ↔
      1 ≤ (pageSize - nodeHeaderLen) / (keySize + valueSize) ∧
      1 ≤ Seisin.maxInternalEntries pageSize keySize := by
  rw [Seisin.maxInternalEntries, Nat.one_le_div_iff positive, Nat.one_le_div_iff (by omega),
    RecordFits]
  exact and_iff_right positive

/-- Opening a tree checks nothing about its records: it panics for records of no bytes, and gives a
tree without room for records that are too large. -/
theorem openFile_validated_iff {store : PageStore} {block : Superblock} {depth : ℕ}
    {shape : Shape depth} (laid : Laid (described store block) shape) :
    Validated (openFile store) ↔ (validatePageSize block.pageSize = .ok () →
      RecordFits block.keySize block.valueSize block.pageSize) := by
  have saved : store.superblock = some block := laid.saved
  rcases validatePageSize_cases block.pageSize with valid | ⟨message, invalid⟩
  · rcases Nat.eq_zero_or_pos (block.keySize + block.valueSize) with zero | positive
    · have panics : openFile store = .error .panic := by
        simp [openFile, saved, valid, Seisin.maxLeafEntries, zero]
      rw [panics]
      exact iff_of_false id fun fits => absurd (fits valid).1 (by omega)
    · have opened : openFile store = .ok (described store block) := by
        simp only [openFile, saved, valid, maxLeafEntries_of_pos _ positive, described]
      rw [opened, recordFits_iff positive]
      constructor
      · exact fun usable _ => ⟨usable.leafRoom, usable.internalRoom⟩
      · intro room
        have sized : (described store block).Sized :=
          ⟨valid, maxLeafEntries_of_pos _ positive, rfl, (room valid).1, (room valid).2⟩
        exact (laid.represents sized).usable laid.bounded
  · have refused : openFile store = .error (.error message) := by
      simp [openFile, saved, invalid]
    rw [refused]
    exact iff_of_true trivial fun valid => by rw [invalid] at valid; cases valid

/-- A file of an empty tree, with any sizes. -/
def emptyFile (keySize valueSize pageSize : ℕ) : PageStore where
  superblock := some ⟨pageSize, keySize, valueSize, 1, 0, 2⟩
  pages := fun _ => .leaf ⟨nullPage, nullPage, []⟩

theorem laid_emptyFile (keySize valueSize pageSize : ℕ) :
    Laid (described (emptyFile keySize valueSize pageSize)
      ⟨pageSize, keySize, valueSize, 1, 0, 2⟩) (Shape.leaf 1 []) where
  root := rfl
  stored := by
    intro entry entryMem
    rw [Shape.layout_leaf, List.mem_singleton] at entryMem
    subst entryMem
    rfl
  ordered := by
    have anything : Within none none ([] : Bytes) := Within.none
    exact ⟨anything.below, Ascending.nil, by simp [Shape.leaf]⟩
  fits := Nat.zero_le _
  linked := ⟨rfl, trivial⟩
  nodup := List.nodup_singleton _
  fresh := by
    intro id idMem
    rw [Shape.pageIds_leaf, List.mem_singleton] at idMem
    subst idMem
    exact ⟨Nat.one_pos, Nat.one_lt_two⟩
  count := rfl
  records := by simp
  saved := rfl
  bounded := fun _ => bounded_empty _ _ _

end BPlusTree

end Seisin
