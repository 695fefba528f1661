import Mathlib
import Seisin.Lib.Records
import Seisin.Storage.BTree.Pages

/-!
# The pages as bytes

A page is a buffer of the page size: a byte for its type, two numbers, the number of entries, and
from byte 32 on the entries, which all have the same width.  A leaf has its siblings as the two
numbers and keys with values as entries; an internal page has its rightmost child with its count,
and keys with children and counts.  Slices outside the buffer and copies of the wrong length panic.
Page 0 is the superblock.
-/

namespace Seisin

open ByteString Records

/-! ## Nodes -/

def leafPageType : UInt8 := 0

def internalPageType : UInt8 := 1

inductive PageType where
  | leaf
  | internal
  deriving DecidableEq

/-- The first part of a page, the same in both layouts; the number of entries is cut to 32 bits. -/
def encodeHeader (pageType : UInt8) (first second count pageSize : ℕ) : Option Bytes := do
  let buf ← write (zeros pageSize) 0 1 [pageType]
  let buf ← write buf 8 8 (leBytes 8 first)
  let buf ← write buf 16 8 (leBytes 8 second)
  write buf 24 4 (leBytes 4 count)

/-- The first number of a page, the second, and the number of its entries. -/
def decodeHeader (bytes : Bytes) : Option (ℕ × ℕ × ℕ) := do
  let first ← read bytes 8 8
  let second ← read bytes 16 8
  let count ← read bytes 24 4
  return (leNat first, leNat second, leNat count)

def encodeLeafEntry (keySize valueSize : ℕ) (buf : Bytes) (offset : ℕ) (entry : Bytes × Bytes) :
    Option Bytes := do
  let buf ← write buf offset keySize entry.1
  write buf (offset + keySize) valueSize entry.2

def decodeLeafEntry (keySize valueSize : ℕ) (bytes : Bytes) (offset : ℕ) :
    Option (Bytes × Bytes) := do
  let key ← read bytes offset keySize
  let value ← read bytes (offset + keySize) valueSize
  return (key, value)

def encodeInternalEntry (keySize : ℕ) (buf : Bytes) (offset : ℕ) (entry : Bytes × PageId × ℕ) :
    Option Bytes := do
  let buf ← write buf offset keySize entry.1
  let childOffset := offset + keySize
  let buf ← write buf childOffset 8 (leBytes 8 entry.2.1)
  write buf (childOffset + 8) 8 (leBytes 8 entry.2.2)

def decodeInternalEntry (keySize : ℕ) (bytes : Bytes) (offset : ℕ) :
    Option (Bytes × PageId × ℕ) := do
  let key ← read bytes offset keySize
  let childOffset := offset + keySize
  let child ← read bytes childOffset 8
  let count ← read bytes (childOffset + 8) 8
  return (key, leNat child, leNat count)

/-- Nothing stands for a panic. -/
def orPanic {Value : Type} : Option Value → Except TreeFailure Value
  | some value => .ok value
  | none => .error .panic

def encodeLeaf (node : LeafNode) (pageSize keySize valueSize : ℕ) : Except TreeFailure Bytes :=
  orPanic do
    let buf ← encodeHeader leafPageType node.prev node.next node.entries.length pageSize
    writeAll (encodeLeafEntry keySize valueSize) (keySize + valueSize) buf nodeHeaderLen node.entries

def decodeLeaf (bytes : Bytes) (keySize valueSize : ℕ) : Except TreeFailure LeafNode :=
  if bytes.head? ≠ some leafPageType then
    .error (.error "page is not a leaf page (wrong page_type byte)")
  else
    orPanic do
      let (prev, next, count) ← decodeHeader bytes
      let entries ← readAll (decodeLeafEntry keySize valueSize) (keySize + valueSize) bytes count
        nodeHeaderLen
      return ⟨prev, next, entries⟩

def encodeInternal (node : InternalNode) (pageSize keySize : ℕ) : Except TreeFailure Bytes :=
  orPanic do
    let buf ← encodeHeader internalPageType node.rightmostChild node.rightmostCount
      node.entries.length pageSize
    writeAll (encodeInternalEntry keySize) (keySize + 16) buf nodeHeaderLen node.entries

def decodeInternal (bytes : Bytes) (keySize : ℕ) : Except TreeFailure InternalNode :=
  if bytes.head? ≠ some internalPageType then
    .error (.error "page is not an internal page (wrong page_type byte)")
  else
    orPanic do
      let (rightmostChild, rightmostCount, count) ← decodeHeader bytes
      let entries ← readAll (decodeInternalEntry keySize) (keySize + 16) bytes count nodeHeaderLen
      return ⟨entries, rightmostChild, rightmostCount⟩

def pageType (bytes : Bytes) : Except TreeFailure PageType :=
  if bytes.head? = some leafPageType then .ok .leaf
  else if bytes.head? = some internalPageType then .ok .internal
  else .error (.error "unrecognized page type byte")

/-! ## The superblock -/

namespace Superblock

def magic : Bytes := ofString "SEISNBT1"

def headerLen : ℕ := 44

def encode (block : Superblock) (pageSize : ℕ) : Except TreeFailure Bytes :=
  orPanic do
    let buf ← write (zeros pageSize) 0 8 magic
    let buf ← write buf 8 4 (leBytes 4 block.pageSize)
    let buf ← write buf 12 4 (leBytes 4 block.keySize)
    let buf ← write buf 16 4 (leBytes 4 block.valueSize)
    let buf ← write buf 20 8 (leBytes 8 block.rootPageId)
    let buf ← write buf 28 8 (leBytes 8 block.totalCount)
    write buf 36 8 (leBytes 8 block.nextPageId)

def decode (bytes : Bytes) : Except TreeFailure Superblock :=
  if bytes.length < headerLen then
    .error (.error "superblock page is too short to contain a header")
  else if bytes.take 8 ≠ magic then
    .error (.error "not a seisin-storage B+Tree file (magic mismatch)")
  else
    let field (offset width : ℕ) : ℕ := leNat ((bytes.drop offset).take width)
    match validatePageSize (field 8 4) with
    | .error failure => .error failure
    | .ok _ => .ok ⟨field 8 4, field 12 4, field 16 4, field 20 8, field 28 8, field 36 8⟩

end Superblock

/-! ## Nodes are read back -/

/-- The first part of a page. -/
def pageHeader (pageType : UInt8) (first second count : ℕ) : Bytes :=
  [pageType] ++ zeros 7 ++ leBytes 8 first ++ leBytes 8 second ++ leBytes 4 count ++ zeros 4

theorem length_pageHeader (pageType : UInt8) (first second count : ℕ) :
    (pageHeader pageType first second count).length = nodeHeaderLen := by
  simp [pageHeader, nodeHeaderLen]

theorem head?_pageHeader (pageType : UInt8) (first second count : ℕ) (entries after : Bytes) :
    (pageHeader pageType first second count ++ entries ++ after).head? = some pageType := rfl

theorem encodeHeader_eq (pageType : UInt8) (first second count : ℕ) {pageSize : ℕ}
    (large : nodeHeaderLen ≤ pageSize) :
    encodeHeader pageType first second count pageSize =
      some (pageHeader pageType first second count ++ zeros (pageSize - nodeHeaderLen)) := by
  rw [nodeHeaderLen] at large ⊢
  have tail : zeros (pageSize - 1 - (7 + 8) - 8 - 4) = zeros 4 ++ zeros (pageSize - 32) := by
    rw [← zeros_add]
    congr 1
    omega
  have typed : write (zeros pageSize) 0 1 [pageType] =
      some ([pageType] ++ zeros (pageSize - 1)) :=
    write_zeros [] [pageType] rfl rfl (by omega)
  have numbered : write ([pageType] ++ zeros (pageSize - 1)) 8 8 (leBytes 8 first) =
      some ([pageType] ++ zeros 7 ++ leBytes 8 first ++ zeros (pageSize - 1 - (7 + 8))) :=
    write_after_gap _ _ rfl (by simp) (by omega)
  simp only [encodeHeader, typed, numbered, Option.bind_eq_bind, Option.bind_some]
  rw [write_zeros _ _ (by simp) (by simp) (by omega), Option.bind_some,
    write_zeros _ _ (by simp) (by simp) (by omega), tail, ← List.append_assoc]
  rfl

theorem decodeHeader_eq (pageType : UInt8) {first second count : ℕ} (firstFits : first < 2 ^ 64)
    (secondFits : second < 2 ^ 64) (countFits : count < 2 ^ 32) (after : Bytes) :
    decodeHeader (pageHeader pageType first second count ++ after) =
      some (first, second, count) := by
  have firstRead : read (pageHeader pageType first second count ++ after) 8 8 =
      some (leBytes 8 first) := by
    have field := read_middle ([pageType] ++ zeros 7) (leBytes 8 first)
      (leBytes 8 second ++ leBytes 4 count ++ zeros 4 ++ after) rfl (length_leBytes 8 first)
    simpa [pageHeader] using field
  have secondRead : read (pageHeader pageType first second count ++ after) 16 8 =
      some (leBytes 8 second) := by
    have field := read_middle ([pageType] ++ zeros 7 ++ leBytes 8 first) (leBytes 8 second)
      (leBytes 4 count ++ zeros 4 ++ after) rfl (length_leBytes 8 second)
    simpa [pageHeader] using field
  have countRead : read (pageHeader pageType first second count ++ after) 24 4 =
      some (leBytes 4 count) := by
    have field := read_middle ([pageType] ++ zeros 7 ++ leBytes 8 first ++ leBytes 8 second)
      (leBytes 4 count) (zeros 4 ++ after) rfl (length_leBytes 4 count)
    simpa [pageHeader] using field
  have firstBack : leNat (leBytes 8 first) = first := leNat_leBytes firstFits
  have secondBack : leNat (leBytes 8 second) = second := leNat_leBytes secondFits
  simp only [decodeHeader, firstRead, secondRead, countRead, Option.bind_eq_bind,
    Option.bind_some, firstBack, secondBack, leNat_leBytes_four countFits, Option.pure_def]

variable {pageSize keySize valueSize : ℕ}

theorem writes_leafEntry {entry : Bytes × Bytes} (key : entry.1.length = keySize)
    (value : entry.2.length = valueSize) :
    Writes (encodeLeafEntry keySize valueSize) (fun entry => entry.1 ++ entry.2)
      (keySize + valueSize) entry :=
  (writes_field key).andThen (writes_field value)

theorem reads_leafEntry {entry : Bytes × Bytes} (key : entry.1.length = keySize)
    (value : entry.2.length = valueSize) :
    Reads (decodeLeafEntry keySize valueSize) (fun entry => entry.1 ++ entry.2)
      (keySize + valueSize) entry := by
  have both := (reads_field key).andThen (reads_field value)
  refine ⟨both.1, ?_⟩
  intro before after
  rw [← both.2 before after]
  simp only [decodeLeafEntry, Option.bind_eq_bind, Option.map_eq_bind]
  rfl

def spellInternalEntry (entry : Bytes × PageId × ℕ) : Bytes :=
  entry.1 ++ (leBytes 8 entry.2.1 ++ leBytes 8 entry.2.2)

theorem writes_internalEntry {entry : Bytes × PageId × ℕ} (key : entry.1.length = keySize) :
    Writes (encodeInternalEntry keySize) spellInternalEntry (keySize + 16) entry := by
  have child : Writes (fun buf offset (entry : Bytes × PageId × ℕ) =>
      write buf offset 8 (leBytes 8 entry.2.1)) (fun entry => leBytes 8 entry.2.1) 8 entry :=
    writes_field (length_leBytes 8 entry.2.1)
  have count : Writes (fun buf offset (entry : Bytes × PageId × ℕ) =>
      write buf offset 8 (leBytes 8 entry.2.2)) (fun entry => leBytes 8 entry.2.2) 8 entry :=
    writes_field (length_leBytes 8 entry.2.2)
  exact (writes_field key).andThen (child.andThen count)

theorem reads_number {value : ℕ} (fits : value < 2 ^ 64) :
    Reads (fun buf offset => (read buf offset 8).map leNat) (leBytes 8) 8 value :=
  (reads_field (length_leBytes 8 value)).map (leNat_leBytes fits)

theorem reads_internalEntry {entry : Bytes × PageId × ℕ} (key : entry.1.length = keySize)
    (child : entry.2.1 < 2 ^ 64) (count : entry.2.2 < 2 ^ 64) :
    Reads (decodeInternalEntry keySize) spellInternalEntry (keySize + 16) entry := by
  have all := (reads_field key).andThen ((reads_number child).andThen (reads_number count))
  refine ⟨all.1, ?_⟩
  intro before after
  have here := all.2 before after
  simp only [decodeInternalEntry, spellInternalEntry, Option.bind_eq_bind, Option.map_eq_bind,
    Option.bind_assoc] at here ⊢
  exact here

/-- Ids and entries that a page has the space for: the numbers have 64 bits, keys and values the
sizes of the tree. -/
structure LeafNode.Exact (node : LeafNode) (keySize valueSize : ℕ) : Prop where
  prev : node.prev < 2 ^ 64
  next : node.next < 2 ^ 64
  entries : ∀ entry ∈ node.entries, entry.1.length = keySize ∧ entry.2.length = valueSize

structure InternalNode.Exact (node : InternalNode) (keySize : ℕ) : Prop where
  rightmostChild : node.rightmostChild < 2 ^ 64
  rightmostCount : node.rightmostCount < 2 ^ 64
  entries : ∀ entry ∈ node.entries,
    entry.1.length = keySize ∧ entry.2.1 < 2 ^ 64 ∧ entry.2.2 < 2 ^ 64

/-- A header and an array of records, in what is left of the page after the header. -/
theorem encode_eq {Entry : Type} {writeOne : Bytes → ℕ → Entry → Option Bytes}
    {spell : Entry → Bytes} {width : ℕ} {entries : List Entry} (type : UInt8) (first second : ℕ)
    (large : nodeHeaderLen ≤ pageSize)
    (each : ∀ entry ∈ entries, Writes writeOne spell width entry) :
    (orPanic do
      let buf ← encodeHeader type first second entries.length pageSize
      writeAll writeOne width buf nodeHeaderLen entries) =
      if entries.length * width ≤ pageSize - nodeHeaderLen then
        .ok (pageHeader type first second entries.length ++ entries.flatMap spell ++
          zeros (pageSize - nodeHeaderLen - entries.length * width))
      else .error .panic := by
  have written := writeAll_zeros each (pageHeader type first second entries.length)
    (pageSize - nodeHeaderLen)
  rw [length_pageHeader] at written
  rw [encodeHeader_eq _ _ _ _ large, Option.bind_eq_bind, Option.bind_some, written]
  split
  · rfl
  · rfl

theorem length_encoded {Entry : Type} {spell : Entry → Bytes} {width : ℕ} {entries : List Entry}
    (type : UInt8) (first second : ℕ) (large : nodeHeaderLen ≤ pageSize)
    (each : ∀ entry ∈ entries, (spell entry).length = width)
    (room : entries.length * width ≤ pageSize - nodeHeaderLen) :
    (pageHeader type first second entries.length ++ entries.flatMap spell ++
      zeros (pageSize - nodeHeaderLen - entries.length * width)).length = pageSize := by
  rw [List.length_append, List.length_append, length_pageHeader, Records.length_flatMap each,
    length_zeros]
  omega

/-- As many records as the capacity says fit behind the header, and no more. -/
theorem le_capacity_iff {count width : ℕ} (positive : 0 < width) :
    count ≤ (pageSize - nodeHeaderLen) / width ↔ count * width ≤ pageSize - nodeHeaderLen :=
  Nat.le_div_iff_mul_le positive

/-- The page of a leaf, if there is room for its entries. -/
theorem encodeLeaf_eq {node : LeafNode} (large : nodeHeaderLen ≤ pageSize)
    (records : ∀ entry ∈ node.entries, entry.1.length = keySize ∧ entry.2.length = valueSize) :
    encodeLeaf node pageSize keySize valueSize =
      if node.entries.length * (keySize + valueSize) ≤ pageSize - nodeHeaderLen then
        .ok (pageHeader leafPageType node.prev node.next node.entries.length ++
          node.entries.flatMap (fun entry => entry.1 ++ entry.2) ++
          zeros (pageSize - nodeHeaderLen - node.entries.length * (keySize + valueSize)))
      else .error .panic :=
  encode_eq leafPageType node.prev node.next large fun entry entryMem =>
    writes_leafEntry (records entry entryMem).1 (records entry entryMem).2

theorem encodeInternal_eq {node : InternalNode} (large : nodeHeaderLen ≤ pageSize)
    (separators : ∀ entry ∈ node.entries, entry.1.length = keySize) :
    encodeInternal node pageSize keySize =
      if node.entries.length * (keySize + 16) ≤ pageSize - nodeHeaderLen then
        .ok (pageHeader internalPageType node.rightmostChild node.rightmostCount
            node.entries.length ++ node.entries.flatMap spellInternalEntry ++
          zeros (pageSize - nodeHeaderLen - node.entries.length * (keySize + 16)))
      else .error .panic :=
  encode_eq internalPageType node.rightmostChild node.rightmostCount large fun entry entryMem =>
    writes_internalEntry (separators entry entryMem)

theorem decodeLeaf_encoded {node : LeafNode} (exact : node.Exact keySize valueSize)
    (count : node.entries.length < 2 ^ 32) (after : Bytes) :
    decodeLeaf (pageHeader leafPageType node.prev node.next node.entries.length ++
      node.entries.flatMap (fun entry => entry.1 ++ entry.2) ++ after) keySize valueSize =
        .ok node := by
  have entries := readAll_flatMap (fun entry entryMem => reads_leafEntry
      (exact.entries entry entryMem).1 (exact.entries entry entryMem).2)
    (pageHeader leafPageType node.prev node.next node.entries.length) after
  rw [length_pageHeader] at entries
  have header := decodeHeader_eq leafPageType exact.prev exact.next count
    (node.entries.flatMap (fun entry => entry.1 ++ entry.2) ++ after)
  rw [← List.append_assoc] at header
  rw [decodeLeaf, if_neg (not_not.mpr (head?_pageHeader _ _ _ _ _ _)), header]
  simp only [Option.bind_eq_bind, Option.bind_some, entries]
  rfl

theorem decodeInternal_encoded {node : InternalNode} (exact : node.Exact keySize)
    (count : node.entries.length < 2 ^ 32) (after : Bytes) :
    decodeInternal (pageHeader internalPageType node.rightmostChild node.rightmostCount
      node.entries.length ++ node.entries.flatMap spellInternalEntry ++ after) keySize =
        .ok node := by
  have entries := readAll_flatMap (fun entry entryMem => reads_internalEntry
      (exact.entries entry entryMem).1 (exact.entries entry entryMem).2.1
      (exact.entries entry entryMem).2.2)
    (pageHeader internalPageType node.rightmostChild node.rightmostCount node.entries.length) after
  rw [length_pageHeader] at entries
  have header := decodeHeader_eq internalPageType exact.rightmostChild exact.rightmostCount count
    (node.entries.flatMap spellInternalEntry ++ after)
  rw [← List.append_assoc] at header
  rw [decodeInternal, if_neg (not_not.mpr (head?_pageHeader _ _ _ _ _ _)), header]
  simp only [Option.bind_eq_bind, Option.bind_some, entries]
  rfl

/-! ## The superblock is read back -/

namespace Superblock

/-- Numbers of the widths that a superblock has for them. -/
structure Exact (block : Superblock) : Prop where
  pageSize : block.pageSize < 2 ^ 32
  keySize : block.keySize < 2 ^ 32
  valueSize : block.valueSize < 2 ^ 32
  rootPageId : block.rootPageId < 2 ^ 64
  totalCount : block.totalCount < 2 ^ 64
  nextPageId : block.nextPageId < 2 ^ 64

def header (block : Superblock) : Bytes :=
  magic ++ leBytes 4 block.pageSize ++ leBytes 4 block.keySize ++ leBytes 4 block.valueSize ++
    leBytes 8 block.rootPageId ++ leBytes 8 block.totalCount ++ leBytes 8 block.nextPageId

theorem length_magic : magic.length = 8 := by
  rw [magic, ofString, byteArray_toList_eq]
  rfl

theorem length_header (block : Superblock) : block.header.length = headerLen := by
  simp [header, length_magic, headerLen]

/-- The page of a superblock, if there is room for the header. -/
theorem encode_eq (block : Superblock) {pageSize : ℕ} (large : headerLen ≤ pageSize) :
    block.encode pageSize = .ok (block.header ++ zeros (pageSize - headerLen)) := by
  rw [headerLen] at large ⊢
  have started : write (zeros pageSize) 0 8 magic = some (magic ++ zeros (pageSize - 8)) :=
    write_zeros [] magic rfl length_magic (by omega)
  have left : pageSize - 8 - 4 - 4 - 4 - 8 - 8 - 8 = pageSize - 44 := by omega
  have fieldWritten : ∀ {offset width before : ℕ} (prior : Bytes) (value : ℕ),
      prior.length = offset → width ≤ before →
      write (prior ++ zeros before) offset width (leBytes width value) =
        some (prior ++ leBytes width value ++ zeros (before - width)) :=
    fun prior value start room => write_zeros prior _ start (length_leBytes _ _) room
  simp only [encode, started, Option.bind_eq_bind, Option.bind_some]
  rw [fieldWritten _ _ (by simp [length_magic]) (by omega), Option.bind_some,
    fieldWritten _ _ (by simp [length_magic]) (by omega), Option.bind_some,
    fieldWritten _ _ (by simp [length_magic]) (by omega), Option.bind_some,
    fieldWritten _ _ (by simp [length_magic]) (by omega), Option.bind_some,
    fieldWritten _ _ (by simp [length_magic]) (by omega), Option.bind_some,
    fieldWritten _ _ (by simp [length_magic]) (by omega), left]
  rfl

/-- A number inside a page is read back. -/
theorem leNat_field {value : ℕ} (offset width : ℕ) (prior rest : Bytes)
    (start : prior.length = offset) (fits : value < 256 ^ width) :
    leNat (((prior ++ leBytes width value ++ rest).drop offset).take width) = value := by
  have middle := window_middle prior (leBytes width value) rest
  rw [start, length_leBytes] at middle
  rw [middle, leNat_leBytes fits]

/-- Decoding sees the header only, and rejects a page size that is not valid. -/
theorem decode_header {block : Superblock} (exact : block.Exact) (after : Bytes) :
    decode (block.header ++ after) = (validatePageSize block.pageSize).map fun _ => block := by
  have magicRead : (block.header ++ after).take 8 = magic := by
    rw [header]
    simp only [List.append_assoc]
    exact List.take_left' length_magic
  have long : ¬(block.header ++ after).length < headerLen := by
    rw [List.length_append, length_header]
    omega
  have pageSize := leNat_field 8 4 magic (leBytes 4 block.keySize ++ leBytes 4 block.valueSize ++
      leBytes 8 block.rootPageId ++ leBytes 8 block.totalCount ++ leBytes 8 block.nextPageId ++
      after)
    length_magic exact.pageSize
  have keySize := leNat_field 12 4 (magic ++ leBytes 4 block.pageSize)
    (leBytes 4 block.valueSize ++ leBytes 8 block.rootPageId ++ leBytes 8 block.totalCount ++
      leBytes 8 block.nextPageId ++ after)
    (by simp [length_magic]) exact.keySize
  have valueSize := leNat_field 16 4 (magic ++ leBytes 4 block.pageSize ++ leBytes 4 block.keySize)
    (leBytes 8 block.rootPageId ++ leBytes 8 block.totalCount ++ leBytes 8 block.nextPageId ++
      after)
    (by simp [length_magic]) exact.valueSize
  have rootPageId := leNat_field 20 8 (magic ++ leBytes 4 block.pageSize ++
      leBytes 4 block.keySize ++ leBytes 4 block.valueSize)
    (leBytes 8 block.totalCount ++ leBytes 8 block.nextPageId ++ after)
    (by simp [length_magic]) exact.rootPageId
  have totalCount := leNat_field 28 8 (magic ++ leBytes 4 block.pageSize ++
      leBytes 4 block.keySize ++ leBytes 4 block.valueSize ++ leBytes 8 block.rootPageId)
    (leBytes 8 block.nextPageId ++ after)
    (by simp [length_magic]) exact.totalCount
  have nextPageId := leNat_field 36 8 (magic ++ leBytes 4 block.pageSize ++
      leBytes 4 block.keySize ++ leBytes 4 block.valueSize ++ leBytes 8 block.rootPageId ++
      leBytes 8 block.totalCount) after
    (by simp [length_magic]) exact.nextPageId
  rw [decode, if_neg long, if_neg (not_not.mpr magicRead), header]
  simp only [List.append_assoc] at pageSize keySize valueSize rootPageId totalCount nextPageId ⊢
  simp only [pageSize, keySize, valueSize, rootPageId, totalCount, nextPageId]
  cases validatePageSize block.pageSize with
  | error failure => rfl
  | ok _ => rfl

end Superblock

/-! ## Both together -/

/-- The entries of a leaf that its capacity allows for fit a page, and are read back from it. -/
theorem leaf_round_trip (pageSize keySize valueSize : UInt32)
    (large : nodeHeaderLen ≤ pageSize.toNat) {node : LeafNode} {capacity : ℕ}
    (exact : node.Exact keySize.toNat valueSize.toNat)
    (computed : maxLeafEntries pageSize.toNat keySize.toNat valueSize.toNat = .ok capacity)
    (room : node.entries.length ≤ capacity) :
    ∃ page, encodeLeaf node pageSize.toNat keySize.toNat valueSize.toNat = .ok page ∧
      page.length = pageSize.toNat ∧ pageType page = .ok .leaf ∧
      decodeLeaf page keySize.toNat valueSize.toNat = .ok node := by
  have small := pageSize.toNat_lt
  unfold maxLeafEntries at computed
  split at computed
  · cases computed
  · rename_i positive
    cases computed
    have count : node.entries.length < 2 ^ 32 := by
      have quotient := Nat.div_le_self (pageSize.toNat - nodeHeaderLen)
        (keySize.toNat + valueSize.toNat)
      omega
    rw [le_capacity_iff (by omega)] at room
    have encoded := encodeLeaf_eq large exact.entries
    rw [if_pos room] at encoded
    refine ⟨_, encoded, ?_, rfl, decodeLeaf_encoded exact count _⟩
    apply length_encoded _ _ _ large _ room
    intro entry entryMem
    rw [List.length_append, (exact.entries entry entryMem).1, (exact.entries entry entryMem).2]

theorem internal_round_trip (pageSize keySize : UInt32)
    (large : nodeHeaderLen ≤ pageSize.toNat) {node : InternalNode}
    (exact : node.Exact keySize.toNat)
    (room : node.entries.length ≤ maxInternalEntries pageSize.toNat keySize.toNat) :
    ∃ page, encodeInternal node pageSize.toNat keySize.toNat = .ok page ∧
      page.length = pageSize.toNat ∧ pageType page = .ok .internal ∧
      decodeInternal page keySize.toNat = .ok node := by
  have small := pageSize.toNat_lt
  have count : node.entries.length < 2 ^ 32 := by
    have quotient := Nat.div_le_self (pageSize.toNat - nodeHeaderLen) (keySize.toNat + 16)
    rw [maxInternalEntries] at room
    omega
  rw [maxInternalEntries, le_capacity_iff (by omega)] at room
  have encoded := encodeInternal_eq large fun entry entryMem => (exact.entries entry entryMem).1
  rw [if_pos room] at encoded
  refine ⟨_, encoded, ?_, rfl, decodeInternal_encoded exact count _⟩
  apply length_encoded _ _ _ large _ room
  intro entry entryMem
  exact (writes_internalEntry (exact.entries entry entryMem).1).1

/-- A superblock is read back from its page, and from the first bytes that opening a tree reads,
unless its page size is not valid. -/
theorem superblock_round_trip {block : Superblock} (exact : block.Exact) {pageSize : ℕ}
    (large : Superblock.headerLen ≤ pageSize) :
    ∃ page, block.encode pageSize = .ok page ∧ page.length = pageSize ∧
      Superblock.decode page = ((validatePageSize block.pageSize).map fun _ => block) ∧
      Superblock.decode (page.take Superblock.headerLen) =
        ((validatePageSize block.pageSize).map fun _ => block) := by
  refine ⟨_, block.encode_eq large, ?_, Superblock.decode_header exact _, ?_⟩
  · rw [List.length_append, Superblock.length_header, length_zeros]
    omega
  · rw [List.take_left' block.length_header]
    have bare := Superblock.decode_header exact []
    rwa [List.append_nil] at bare

/-- Pages are read back as they were written, and what is written ends with the page. -/
theorem pages_round_trip :
    (∀ pageSize keySize valueSize : UInt32, nodeHeaderLen ≤ pageSize.toNat →
      (∀ (node : LeafNode) (capacity : ℕ), node.Exact keySize.toNat valueSize.toNat →
        maxLeafEntries pageSize.toNat keySize.toNat valueSize.toNat = .ok capacity →
        node.entries.length ≤ capacity →
        ∃ page, encodeLeaf node pageSize.toNat keySize.toNat valueSize.toNat = .ok page ∧
          page.length = pageSize.toNat ∧ pageType page = .ok .leaf ∧
          decodeLeaf page keySize.toNat valueSize.toNat = .ok node) ∧
      ∀ node : InternalNode, node.Exact keySize.toNat →
        node.entries.length ≤ maxInternalEntries pageSize.toNat keySize.toNat →
        ∃ page, encodeInternal node pageSize.toNat keySize.toNat = .ok page ∧
          page.length = pageSize.toNat ∧ pageType page = .ok .internal ∧
          decodeInternal page keySize.toNat = .ok node) ∧
    ∀ block : Superblock, block.Exact → ∀ pageSize, Superblock.headerLen ≤ pageSize →
      ∃ page, block.encode pageSize = .ok page ∧ page.length = pageSize ∧
        Superblock.decode page = ((validatePageSize block.pageSize).map fun _ => block) ∧
        Superblock.decode (page.take Superblock.headerLen) =
          ((validatePageSize block.pageSize).map fun _ => block) :=
  ⟨fun pageSize keySize valueSize large =>
    ⟨fun _ _ exact computed room =>
      leaf_round_trip pageSize keySize valueSize large exact computed room,
    fun _ exact room => internal_round_trip pageSize keySize large exact room⟩,
  fun _ exact _ large => superblock_round_trip exact large⟩

/-- A full leaf: two records of 2032 bytes in the 4064 bytes behind the header. -/
theorem pages_round_trip_full :
    ∃ page, encodeLeaf ⟨3, 7, [(List.replicate 2000 1, List.replicate 32 2),
        (List.replicate 2000 3, List.replicate 32 4)]⟩ 4096 2000 32 = .ok page ∧
      page.length = 4096 ∧ pageType page = .ok .leaf ∧
      decodeLeaf page 2000 32 = .ok ⟨3, 7, [(List.replicate 2000 1, List.replicate 32 2),
        (List.replicate 2000 3, List.replicate 32 4)]⟩ := by
  apply (pages_round_trip.1 4096 2000 32 (by decide)).1 _ 2
  · refine ⟨by decide, by decide, ?_⟩
    intro entry entryMem
    simp only [List.mem_cons, List.not_mem_nil, or_false] at entryMem
    rcases entryMem with rfl | rfl
    · exact ⟨List.length_replicate, List.length_replicate⟩
    · exact ⟨List.length_replicate, List.length_replicate⟩
  · rfl
  · exact le_rfl

/-- A page shorter than the header has no room for an empty leaf, and a superblock with a page size
that is not a power of two is written but not read. -/
theorem pages_not_read :
    encodeLeaf ⟨nullPage, nullPage, []⟩ 16 8 8 = .error .panic ∧
    ¬∀ block : Superblock, block.Exact →
      ∃ page, block.encode block.pageSize = .ok page ∧ Superblock.decode page = .ok block := by
  refine ⟨by decide, ?_⟩
  intro readBack
  have exact : (⟨5000, 8, 8, 1, 0, 2⟩ : Superblock).Exact := by
    constructor <;> decide
  rcases readBack _ exact with ⟨page, encoded, decoded⟩
  rcases superblock_round_trip exact (by decide : Superblock.headerLen ≤ 5000) with
    ⟨other, sameEncoded, -, rejected, -⟩
  rw [encoded] at sameEncoded
  cases sameEncoded
  rw [decoded] at rejected
  cases rejected

end Seisin
