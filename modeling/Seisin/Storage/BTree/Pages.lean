import Mathlib
import Seisin.Core
import Seisin.Lib.SortedList

/-!
# The counted B+tree

A tree is a file of pages: a superblock, leaves that are linked to their siblings, and internal
pages that have, for every child but the last, a key all keys below it are less than, and for every
child the number of entries below it.  Pages stand here decoded; a page that was never written reads
as zeros, which is an empty leaf.  The source descends in loops and recursions along child ids; here
every descent has a bound, which is the number of pages ever allocated.  Which of several equal keys
the library's binary search finds in a leaf is not specified: insertion and removal are for any
search, and `insert` and `remove` are those of the search that finds the first.
-/

namespace Seisin

open SortedList

abbrev PageId := ℕ

def nullPage : PageId := 0

structure LeafNode where
  prev : PageId
  next : PageId
  entries : List (Bytes × Bytes)

structure InternalNode where
  entries : List (Bytes × PageId × ℕ)
  rightmostChild : PageId
  rightmostCount : ℕ

inductive Page where
  | leaf (node : LeafNode)
  | internal (node : InternalNode)

structure Superblock where
  pageSize : ℕ
  keySize : ℕ
  valueSize : ℕ
  rootPageId : PageId
  totalCount : ℕ
  nextPageId : PageId

structure PageStore where
  superblock : Option Superblock
  pages : PageId → Page

/-- An error that is returned, or a panic. -/
inductive TreeFailure where
  | error (message : String)
  | panic
  deriving DecidableEq

structure BPlusTree where
  store : PageStore
  pageSize : ℕ
  keySize : ℕ
  valueSize : ℕ
  rootPageId : PageId
  totalCount : ℕ
  nextPageId : PageId
  maxLeafEntries : ℕ
  maxInternalEntries : ℕ

/-! ## Capacities and the superblock -/

def nodeHeaderLen : ℕ := 32

/-- The source divides by the record length, which panics if that is zero. -/
def maxLeafEntries (pageSize keySize valueSize : ℕ) : Except TreeFailure ℕ :=
  if keySize + valueSize = 0 then .error .panic
  else .ok ((pageSize - nodeHeaderLen) / (keySize + valueSize))

def maxInternalEntries (pageSize keySize : ℕ) : ℕ := (pageSize - nodeHeaderLen) / (keySize + 16)

def validatePageSize (pageSize : ℕ) : Except TreeFailure Unit :=
  if pageSize < 4096 then
    .error (.error ("page_size must be at least 4096, got " ++ toString pageSize))
  else if ¬2 ^ pageSize.log2 = pageSize then
    .error (.error ("page_size must be a power of 2, got " ++ toString pageSize))
  else .ok ()

namespace PageStore

/-- A file without a page. -/
def create : PageStore := ⟨none, fun _ => .leaf ⟨nullPage, nullPage, []⟩⟩

def writePage (store : PageStore) (id : PageId) (page : Page) : PageStore :=
  { store with pages := Function.update store.pages id page }

end PageStore

namespace BPlusTree

def writeSuperblock (tree : BPlusTree) : BPlusTree :=
  { tree with
    store := { tree.store with
      superblock := some ⟨tree.pageSize, tree.keySize, tree.valueSize, tree.rootPageId,
        tree.totalCount, tree.nextPageId⟩ } }

def create (keySize valueSize pageSize : ℕ) : Except TreeFailure BPlusTree :=
  match validatePageSize pageSize, Seisin.maxLeafEntries pageSize keySize valueSize with
  | .error failure, _ => .error failure
  | .ok _, .error failure => .error failure
  | .ok _, .ok maxLeaf =>
      if maxLeaf = 0 then
        .error (.error ("key_size + value_size too large for page_size " ++ toString pageSize))
      else if Seisin.maxInternalEntries pageSize keySize = 0 then
        .error (.error ("key_size too large for page_size " ++ toString pageSize ++
          " (internal node capacity)"))
      else
        .ok (writeSuperblock
          { store := PageStore.create.writePage 1 (.leaf ⟨nullPage, nullPage, []⟩)
            pageSize := pageSize
            keySize := keySize
            valueSize := valueSize
            rootPageId := 1
            totalCount := 0
            nextPageId := 2
            maxLeafEntries := maxLeaf
            maxInternalEntries := Seisin.maxInternalEntries pageSize keySize })

/-- Opens the tree of a file; everything but the pages comes from the superblock. -/
def openFile (store : PageStore) : Except TreeFailure BPlusTree :=
  match store.superblock with
  | none => .error (.error "failed to fill whole buffer")
  | some block =>
      match validatePageSize block.pageSize,
          Seisin.maxLeafEntries block.pageSize block.keySize block.valueSize with
      | .error failure, _ => .error failure
      | .ok _, .error failure => .error failure
      | .ok _, .ok maxLeaf =>
          .ok
            { store := store
              pageSize := block.pageSize
              keySize := block.keySize
              valueSize := block.valueSize
              rootPageId := block.rootPageId
              totalCount := block.totalCount
              nextPageId := block.nextPageId
              maxLeafEntries := maxLeaf
              maxInternalEntries := Seisin.maxInternalEntries block.pageSize block.keySize }

def allocatePage (tree : BPlusTree) : PageId × BPlusTree :=
  (tree.nextPageId, { tree with nextPageId := tree.nextPageId + 1 })

def readLeaf (tree : BPlusTree) (id : PageId) : Except TreeFailure LeafNode :=
  match tree.store.pages id with
  | .leaf node => .ok node
  | .internal _ => .error (.error "page is not a leaf page (wrong page_type byte)")

def writeLeaf (tree : BPlusTree) (id : PageId) (node : LeafNode) : BPlusTree :=
  { tree with store := tree.store.writePage id (.leaf node) }

def writeInternal (tree : BPlusTree) (id : PageId) (node : InternalNode) : BPlusTree :=
  { tree with store := tree.store.writePage id (.internal node) }

def len (tree : BPlusTree) : ℕ := tree.totalCount

/-- No descent is longer than the number of pages. -/
def descentFailure : TreeFailure := .error "descent does not end"

/-! ## Insertion -/

inductive InsertOutcome where
  | noSplit (isNew : Bool)
  | split (isNew : Bool) (separatorKey : Bytes) (newPageId : PageId) (newPageCount : ℕ)

/-- The leaf's entries are sorted; a binary search finds the key or its place. -/
def insertIntoLeaf (search : Search Bytes) (tree : BPlusTree) (pageId : PageId)
    (node : LeafNode) (key value : Bytes) : Except TreeFailure (InsertOutcome × BPlusTree) :=
  let isNew := !hasKey key node.entries
  let entries := upsertBy search key value node.entries
  if entries.length ≤ tree.maxLeafEntries then
    .ok (.noSplit isNew, tree.writeLeaf pageId { node with entries := entries })
  else
    let mid := entries.length / 2
    let rightEntries := entries.drop mid
    let (newPageId, tree) := tree.allocatePage
    let separatorKey := (rightEntries.head?.map Prod.fst).getD []
    let linked : Except TreeFailure BPlusTree :=
      if node.next ≠ nullPage then
        match tree.readLeaf node.next with
        | .error failure => .error failure
        | .ok nextNode => .ok (tree.writeLeaf node.next { nextNode with prev := newPageId })
      else .ok tree
    match linked with
    | .error failure => .error failure
    | .ok tree =>
        let tree := tree.writeLeaf pageId
          { node with next := newPageId, entries := entries.take mid }
        let tree := tree.writeLeaf newPageId ⟨pageId, node.next, rightEntries⟩
        .ok (.split isNew separatorKey newPageId rightEntries.length, tree)

/-- Writes an internal page, in two halves if it has too many entries. -/
def settleInternal (tree : BPlusTree) (pageId : PageId) (node : InternalNode) (isNew : Bool) :
    InsertOutcome × BPlusTree :=
  if node.entries.length ≤ tree.maxInternalEntries then
    (.noSplit isNew, tree.writeInternal pageId node)
  else
    let mid := node.entries.length / 2
    let (promotedKey, promotedChild, promotedCount) := (node.entries[mid]?).getD ([], nullPage, 0)
    let rightEntries := node.entries.drop (mid + 1)
    let (newPageId, tree) := tree.allocatePage
    let newCount := (rightEntries.map fun entry => entry.2.2).sum + node.rightmostCount
    let tree := tree.writeInternal pageId ⟨node.entries.take mid, promotedChild, promotedCount⟩
    let tree := tree.writeInternal newPageId
      ⟨rightEntries, node.rightmostChild, node.rightmostCount⟩
    (.split isNew promotedKey newPageId newCount, tree)

/-- The entries whose separator the key is not less than, and the others. -/
def route (key : Bytes) {Child : Type} (entries : List (Bytes × Child)) :
    List (Bytes × Child) × List (Bytes × Child) :=
  entries.span fun entry => entry.1 ≤ key

def insertInto (search : Search Bytes) (key value : Bytes) :
    ℕ → BPlusTree → PageId → Except TreeFailure (InsertOutcome × BPlusTree)
  | 0, _, _ => .error descentFailure
  | bound + 1, tree, pageId =>
      match tree.store.pages pageId with
      | .leaf node => insertIntoLeaf search tree pageId node key value
      | .internal node =>
          match route key node.entries with
          | (before, (separator, child, count) :: after) =>
              match insertInto search key value bound tree child with
              | .error failure => .error failure
              | .ok (.noSplit isNew, tree) =>
                  .ok (.noSplit isNew, if isNew then tree.writeInternal pageId
                    { node with entries := before ++ (separator, child, count + 1) :: after }
                    else tree)
              | .ok (.split isNew separatorKey newPageId newPageCount, tree) =>
                  -- the smaller half stays and gets the new separator, the larger takes the old one
                  .ok (tree.settleInternal pageId { node with
                    entries := before ++
                      (separatorKey, child, count + isNew.toNat - newPageCount) ::
                      (separator, newPageId, newPageCount) :: after } isNew)
          | (_, []) =>
              match insertInto search key value bound tree node.rightmostChild with
              | .error failure => .error failure
              | .ok (.noSplit isNew, tree) =>
                  .ok (.noSplit isNew, if isNew then tree.writeInternal pageId
                    { node with rightmostCount := node.rightmostCount + 1 } else tree)
              | .ok (.split isNew separatorKey newPageId newPageCount, tree) =>
                  .ok (tree.settleInternal pageId
                    ⟨node.entries ++ [(separatorKey, node.rightmostChild,
                        node.rightmostCount + isNew.toNat - newPageCount)],
                      newPageId, newPageCount⟩ isNew)

def keyError (expected actual : ℕ) : TreeFailure :=
  .error ("key must be exactly " ++ toString expected ++ " bytes, got " ++ toString actual)

def valueError (expected actual : ℕ) : TreeFailure :=
  .error ("value must be exactly " ++ toString expected ++ " bytes, got " ++ toString actual)

def insertWith (search : Search Bytes) (tree : BPlusTree) (key value : Bytes) :
    Except TreeFailure BPlusTree :=
  if key.length ≠ tree.keySize then .error (keyError tree.keySize key.length)
  else if value.length ≠ tree.valueSize then .error (valueError tree.valueSize value.length)
  else
    match insertInto search key value tree.nextPageId tree tree.rootPageId with
    | .error failure => .error failure
    | .ok (.noSplit isNew, tree) =>
        .ok (writeSuperblock { tree with totalCount := tree.totalCount + isNew.toNat })
    | .ok (.split isNew separatorKey newPageId newPageCount, tree) =>
        let oldRootCount := tree.totalCount + isNew.toNat - newPageCount
        let root := tree.rootPageId
        let (newRootId, tree) := tree.allocatePage
        let tree := tree.writeInternal newRootId
          ⟨[(separatorKey, root, oldRootCount)], newPageId, newPageCount⟩
        .ok (writeSuperblock { tree with
          rootPageId := newRootId
          totalCount := tree.totalCount + isNew.toNat })

def insert (tree : BPlusTree) (key value : Bytes) : Except TreeFailure BPlusTree :=
  insertWith .first tree key value

/-- The entries inserted in the order of the list. -/
def insertEach (tree : BPlusTree) : List (Bytes × Bytes) → Except TreeFailure BPlusTree
  | [] => .ok tree
  | entry :: rest =>
      match tree.insert entry.1 entry.2 with
      | .error failure => .error failure
      | .ok next => next.insertEach rest

/-! ## Removal -/

def contains (key : Bytes) : ℕ → BPlusTree → PageId → Except TreeFailure Bool
  | 0, _, _ => .error descentFailure
  | bound + 1, tree, pageId =>
      match tree.store.pages pageId with
      | .leaf node => .ok (hasKey key node.entries)
      | .internal node =>
          match route key node.entries with
          | (_, (_, child, _) :: _) => contains key bound tree child
          | (_, []) => contains key bound tree node.rightmostChild

/-- The descent of a removal takes one off every count on the way. -/
def removeFrom (search : Search Bytes) (key : Bytes) :
    ℕ → BPlusTree → PageId → Except TreeFailure BPlusTree
  | 0, _, _ => .error descentFailure
  | bound + 1, tree, pageId =>
      match tree.store.pages pageId with
      | .leaf node =>
          if hasKey key node.entries then
            .ok (tree.writeLeaf pageId { node with entries := removeBy search key node.entries })
          else .ok tree
      | .internal node =>
          match route key node.entries with
          | (before, (separator, child, count) :: after) =>
              removeFrom search key bound (tree.writeInternal pageId
                { node with entries := before ++ (separator, child, count - 1) :: after }) child
          | (_, []) =>
              removeFrom search key bound (tree.writeInternal pageId
                { node with rightmostCount := node.rightmostCount - 1 }) node.rightmostChild

def removeWith (search : Search Bytes) (tree : BPlusTree) (key : Bytes) :
    Except TreeFailure (Bool × BPlusTree) :=
  if key.length ≠ tree.keySize then .error (keyError tree.keySize key.length)
  else
    match contains key tree.nextPageId tree tree.rootPageId with
    | .error failure => .error failure
    | .ok false => .ok (false, tree)
    | .ok true =>
        match removeFrom search key tree.nextPageId tree tree.rootPageId with
        | .error failure => .error failure
        | .ok tree => .ok (true, writeSuperblock { tree with totalCount := tree.totalCount - 1 })

def remove (tree : BPlusTree) (key : Bytes) : Except TreeFailure (Bool × BPlusTree) :=
  removeWith .first tree key

/-! ## Bulk rebuild -/

/-- Pieces of `size` elements, the last of which may be shorter. -/
def chunks {α : Type} (size : ℕ) : ℕ → List α → List (List α)
  | 0, _ => []
  | _ + 1, [] => []
  | bound + 1, elements => elements.take size :: chunks size bound (elements.drop size)

/-- Gives every chunk a page and writes it, linked to its neighbours. -/
def writeLeaves (tree : BPlusTree) (prev : PageId) : List (List (Bytes × Bytes)) → BPlusTree
  | [] => tree
  | chunk :: rest =>
      let (id, tree) := tree.allocatePage
      writeLeaves (tree.writeLeaf id
        ⟨prev, if rest = [] then nullPage else tree.nextPageId, chunk⟩) id rest

/-- What a level has of the chunks: their first keys, pages from `firstId` on, and lengths. -/
def leafLevel (firstId : PageId) : List (List (Bytes × Bytes)) → List (Bytes × PageId × ℕ)
  | [] => []
  | chunk :: rest =>
      ((chunk.head?.map Prod.fst).getD [], firstId, chunk.length) :: leafLevel (firstId + 1) rest

/-- One internal page over a group of children: every child but the last gets the first key of the
next as its separator. -/
def groupNode : List (Bytes × PageId × ℕ) → InternalNode
  | [] => ⟨[], nullPage, 0⟩
  | [(_, id, count)] => ⟨[], id, count⟩
  | (_, id, count) :: (key, rest) :: others =>
      let node := groupNode ((key, rest) :: others)
      { node with entries := (key, id, count) :: node.entries }

def writeGroups (tree : BPlusTree) :
    List (List (Bytes × PageId × ℕ)) → List (Bytes × PageId × ℕ) × BPlusTree
  | [] => ([], tree)
  | group :: rest =>
      let (id, tree) := tree.allocatePage
      let (level, tree) := writeGroups (tree.writeInternal id (groupNode group)) rest
      (((group.head?.map Prod.fst).getD [], id,
        (group.map fun child => child.2.2).sum) :: level, tree)

/-- Builds one level over another until one page remains. -/
def buildInternalLevels :
    ℕ → BPlusTree → List (Bytes × PageId × ℕ) → Except TreeFailure (PageId × BPlusTree)
  | _, _, [] => .error .panic
  | _, tree, [(_, id, _)] => .ok (id, tree)
  | 0, _, _ => .error descentFailure
  | bound + 1, tree, level =>
      let (next, tree) := tree.writeGroups (chunks (tree.maxInternalEntries + 1) level.length level)
      buildInternalLevels bound tree next

/-- Writing a page panics on a key or value of the wrong size. -/
def rebuildFrom (tree : BPlusTree) (entries : List (Bytes × Bytes)) :
    Except TreeFailure BPlusTree :=
  if ¬entries.all fun entry =>
      entry.1.length = tree.keySize ∧ entry.2.length = tree.valueSize then .error .panic
  else
    let sorted := entries.mergeSort fun first second => first.1 ≤ second.1
    let tree := { tree with store := PageStore.create, nextPageId := 1, totalCount := 0 }
    if sorted = [] then
      let (id, tree) := tree.allocatePage
      .ok (writeSuperblock
        { tree.writeLeaf id ⟨nullPage, nullPage, []⟩ with rootPageId := id })
    else
      let leafChunks := chunks (max tree.maxLeafEntries 1) sorted.length sorted
      let level := leafLevel tree.nextPageId leafChunks
      let tree := { tree.writeLeaves nullPage leafChunks with totalCount := sorted.length }
      match buildInternalLevels level.length tree level with
      | .error failure => .error failure
      | .ok (root, tree) => .ok (writeSuperblock { tree with rootPageId := root })

/-! ## Contents -/

/-- The entries in order, by descent. -/
def collectAll : ℕ → BPlusTree → PageId → Except TreeFailure (List (Bytes × Bytes))
  | 0, _, _ => .error descentFailure
  | bound + 1, tree, pageId =>
      match tree.store.pages pageId with
      | .leaf node => .ok node.entries
      | .internal node =>
          match node.entries.mapM fun entry => collectAll bound tree entry.2.1,
              collectAll bound tree node.rightmostChild with
          | .ok parts, .ok last => .ok (parts.flatten ++ last)
          | .error failure, _ => .error failure
          | _, .error failure => .error failure

def allEntries (tree : BPlusTree) : Except TreeFailure (List (Bytes × Bytes)) :=
  collectAll tree.nextPageId tree tree.rootPageId

end BPlusTree

end Seisin
