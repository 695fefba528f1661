import Seisin.Protocol.Operations
import Seisin.Storage.BTree.Scans
import Seisin.Types.Listings
import Seisin.Types.Revalidation

/-!
# Queries of resident indexes

A client reads the listing of an index through the home of the index datum: the home opens the
resident structure if it is not open, and answers the bytes of a query with the bytes of a result.
A rank tree is read from either end or sampled, a partition page by page.  Nothing is stored by a
query, nor by an execution.
-/

namespace Seisin

open BPlusTree Protocol

/-! ## The tree kinds -/

/-- What a query reads of entries that are in the order of their keys. -/
def Protocol.RkQueryKind.select {Item : Type} (entries : List Item) : RkQueryKind → List Item
  | .topN n => entries.reverse.take n.toNat
  | .bottomN n => entries.take n.toNat
  | .percentileSample k => (List.range k.toNat).filterMap
      fun i => entries[i * entries.length / k.toNat]?

namespace RkResidentIndex

def scan (tree : BPlusTree) : RkQueryKind → Except TreeFailure (List (Bytes × Bytes))
  | .topN n => tree.scanBackwardBounded n.toNat
  | .bottomN n => tree.scanForwardBounded n.toNat
  | .percentileSample k => tree.sampleByRank k.toNat

def query (tree : BPlusTree) (query : Bytes) : Except String Bytes :=
  match decodeRkQueryKind query with
  | .error message => .error message
  | .ok kind =>
      match scan tree kind with
      | .error failure => .error failure.message
      | .ok raw => .ok (encodeRkEntries (raw.map fun (key, value) =>
          (key.take 8, DatumId.fromBytes value)))

end RkResidentIndex

namespace PartitionResident

def query (tree : BPlusTree) (query : Bytes) : Except String Bytes :=
  match decodeExtentPage query with
  | .error message => .error message
  | .ok (offset, limit) =>
      match page tree offset.toNat limit with
      | .error failure => .error failure.message
      | .ok (total, pks) => .ok (encodeExtentResult (UInt64.ofNat total) pks)

/-- Changes the membership; the answer is the new number of members. -/
def execute (tree : BPlusTree) (payload : Bytes) : BPlusTree × Except String Bytes :=
  match decodeExtentOp payload with
  | .error message => (tree, .error message)
  | .ok op =>
      match change tree op with
      | .error failure => (tree, .error failure.message)
      | .ok changed => (changed, .ok (encodeExtentResult (UInt64.ofNat changed.len) []))

end PartitionResident

namespace TreeResident

def query (resident : TreeResident) (query : Bytes) : Except String Bytes :=
  match resident with
  | .rk tree => RkResidentIndex.query tree query
  | .partition tree => PartitionResident.query tree query

def execute (resident : TreeResident) (payload : Bytes) : TreeResident × Except String Bytes :=
  match resident with
  | .rk tree => (.rk tree, .error "this index kind supports no execute ops")
  | .partition tree =>
      let (changed, result) := PartitionResident.execute tree payload
      (.partition changed, result)

end TreeResident

namespace Slot

variable {Resident : Type}

/-- Answers a query; the structure stays open. -/
def query (kinds : IndexKinds Resident) (target : DatumId) (indexKind : String) (query : Bytes)
    (slot : Slot Resident) : Slot Resident × Except String Bytes :=
  match slot.openFor kinds target indexKind with
  | .error message => (slot, .error message)
  | .ok resident => ({ slot with resident := some resident }, kinds.query resident query)

/-- Runs an execution; what it changes is not written through. -/
def execute (kinds : IndexKinds Resident) (target : DatumId) (indexKind : String)
    (payload : Bytes) (slot : Slot Resident) : Slot Resident × Except String Bytes :=
  match slot.openFor kinds target indexKind with
  | .error message => (slot, .error message)
  | .ok resident =>
      let (executed, result) := kinds.execute resident payload
      ({ slot with resident := some executed }, result)

variable {kinds : IndexKinds Resident} {target : DatumId} {indexKind : String} {bytes : Bytes}
  {slot : Slot Resident}

theorem eq_of_parts {other : Slot Resident} (stored : slot.stored = other.stored)
    (resident : slot.resident = other.resident) : slot = other := by
  cases slot
  cases other
  cases stored
  cases resident
  rfl

/-- A query leaves open what it has opened. -/
theorem openFor_query : (slot.query kinds target indexKind bytes).1.openFor kinds target indexKind =
    slot.openFor kinds target indexKind := by
  unfold query
  cases opened : slot.openFor kinds target indexKind with
  | error message => exact opened
  | ok resident => rfl

theorem stored_query : (slot.query kinds target indexKind bytes).1.stored = slot.stored := by
  unfold query
  cases slot.openFor kinds target indexKind <;> rfl

theorem stored_execute : (slot.execute kinds target indexKind bytes).1.stored = slot.stored := by
  unfold execute
  cases slot.openFor kinds target indexKind <;> rfl

theorem query_of_opens {resident : Resident}
    (opens : slot.openFor kinds target indexKind = .ok resident) :
    (slot.query kinds target indexKind bytes).2 = kinds.query resident bytes := by
  unfold query
  rw [opens]

end Slot

/-- The kinds that typed writes maintain, with the queries and executions of the source. -/
abbrev residentKinds : IndexKinds (TypedResident TreeResident) :=
  Slot.typedKinds TreeResident.query TreeResident.execute

/-! ## Listings in order -/

/-- What every element is the image of. -/
theorem exists_map_eq {Item Entry : Type} (f : Item → Entry) {listed : Set Item}
    {entries : List Entry} (images : ∀ entry ∈ entries, ∃ item ∈ listed, f item = entry) :
    ∃ items : List Item, items.map f = entries ∧ ∀ item ∈ items, item ∈ listed := by
  induction entries with
  | nil => exact ⟨[], rfl, nofun⟩
  | cons entry entries ih =>
      rw [List.forall_mem_cons] at images
      rcases images.1 with ⟨item, itemListed, rfl⟩
      rcases ih images.2 with ⟨items, rfl, listed⟩
      exact ⟨item :: items, rfl, List.forall_mem_cons.mpr ⟨itemListed, listed⟩⟩

/-- Every item of a listing once, in the order of the keys. -/
structure Ranked {Item : Type} (key : Item → Bytes) (listing : Set Item) (items : List Item) :
    Prop where
  ascending : items.Pairwise fun first second => key first < key second
  mem : ∀ item, item ∈ items ↔ item ∈ listing

namespace Ranked

variable {Item : Type} {key : Item → Bytes} {listing : Set Item} {items others : List Item}

theorem nodup (ranked : Ranked key listing items) : items.Nodup :=
  ranked.ascending.imp fun less same => absurd (congrArg key same) less.ne

/-- There is one such list. -/
theorem unique (ranked : Ranked key listing items) (also : Ranked key listing others) :
    items = others := by
  have perm : items.Perm others := by
    refine (List.perm_ext_iff_of_nodup ranked.nodup also.nodup).mpr fun item => ?_
    rw [ranked.mem, also.mem]
  have antisymm : ∀ first second, first ∈ items → second ∈ others → key first < key second →
      key second < key first → first = second :=
    fun first second _ _ less greater => absurd less greater.asymm
  exact perm.eq_of_pairwise antisymm ranked.ascending also.ascending

end Ranked

namespace BPlusTree

variable {Item : Type} {tree : BPlusTree} {keySize valueSize : ℕ} {entry : Item → Bytes × Bytes}
  {listing : Set Item}

/-- The entries of a tree are those of what it lists, in order. -/
theorem Lists.ranked (lists : tree.Lists keySize valueSize entry listing)
    (distinct : ∀ first second, (entry first).1 = (entry second).1 → first = second) :
    ∃ (depth : ℕ) (shape : Shape depth) (items : List Item), Represents tree shape ∧
      shape.entries = items.map entry ∧ Ranked (fun item => (entry item).1) listing items := by
  rcases lists with ⟨contents, keeps, same⟩
  rcases keeps.represents with ⟨depth, shape, represents, holds⟩
  have images : ∀ row ∈ shape.entries, ∃ item ∈ listing, entry item = row := by
    intro row rowMem
    exact (same row.1 row.2).mp ((holds row.1 row.2).mp rowMem)
  rcases exists_map_eq entry images with ⟨items, mapped, listed⟩
  refine ⟨depth, shape, items, represents, mapped.symm, ?_, ?_⟩
  · have ascending := represents.ordered.ascending
    rw [← mapped, SortedList.Ascending, List.pairwise_map] at ascending
    exact ascending
  · intro item
    refine ⟨listed item, fun itemListed => ?_⟩
    have held := (holds (entry item).1 (entry item).2).mpr
      ((same _ _).mpr ⟨item, itemListed, rfl⟩)
    rw [← mapped] at held
    rcases List.mem_map.mp held with ⟨other, otherMem, sameEntry⟩
    rwa [← distinct other item (congrArg Prod.fst sameEntry)]

end BPlusTree

/-! ## Answers -/

theorem Protocol.RkQueryKind.map_select {Item Entry : Type} (f : Item → Entry) (items : List Item)
    (kind : RkQueryKind) : kind.select (items.map f) = (kind.select items).map f := by
  cases kind with
  | topN n => simp [select, List.map_take, List.map_reverse]
  | bottomN n => simp [select, List.map_take]
  | percentileSample k =>
      simp only [select, List.map_filterMap, List.length_map, List.getElem?_map]

theorem Protocol.RkQueryKind.mem_of_mem_select {Item : Type} {items : List Item} {item : Item}
    {kind : RkQueryKind} (selected : item ∈ kind.select items) : item ∈ items := by
  cases kind with
  | topN n => exact List.mem_reverse.mp (List.mem_of_mem_take selected)
  | bottomN n => exact List.mem_of_mem_take selected
  | percentileSample k =>
      rcases List.mem_filterMap.mp selected with ⟨i, -, found⟩
      exact List.mem_of_getElem? found

/-- A query of a rank tree is answered with what it selects of the listing, as ranks and pks. -/
theorem RkResidentIndex.query_eq {tree : BPlusTree} {listing : Set (Bytes × DatumId)}
    (lists : tree.Lists rkKeySize rkValueSize rkEntry listing) :
    ∃ items, Ranked (fun item => (rkEntry item).1) listing items ∧
      (∀ item ∈ items, item.1.length = 8) ∧
      ∀ kind, RkResidentIndex.query tree (encodeRkQueryKind kind) =
        .ok (encodeRkEntries (kind.select items)) := by
  have keySize : tree.keySize = rkKeySize := by
    rcases lists with ⟨contents, keeps, -⟩
    exact keeps.keySize
  rcases lists.ranked rkEntry_distinct with ⟨depth, shape, items, represents, entries, ranked⟩
  have eight : ∀ item ∈ items, item.1.length = 8 := by
    intro item itemMem
    have sized := (represents.records (rkEntry item) (by
      rw [entries]
      exact List.mem_map_of_mem itemMem)).1
    rw [keySize, rkEntry, compositeKey, List.length_append, DatumId.length_asBytes,
      rkKeySize] at sized
    omega
  have scanned : ∀ kind, RkResidentIndex.scan tree kind = .ok (kind.select shape.entries) := by
    intro kind
    cases kind with
    | topN n => exact scanBackwardBounded_ok represents.arranged n.toNat
    | bottomN n => exact scanForwardBounded_ok represents.arranged n.toNat
    | percentileSample k => exact sampleByRank_ok represents.arranged (toNat_le_maxCapacity k)
  refine ⟨items, ranked, eight, fun kind => ?_⟩
  have back : ∀ item ∈ kind.select items,
      ((rkEntry item).1.take 8, DatumId.fromBytes (rkEntry item).2) = item := by
    intro item selected
    have length := eight item (RkQueryKind.mem_of_mem_select selected)
    rw [rkEntry, compositeKey, List.take_left' length, DatumId.fromBytes_asBytes]
  have decoded : decodeRkQueryKind (encodeRkQueryKind kind) = .ok kind :=
    decodeRkQueryKind_eq_ok.mpr rfl
  simp only [RkResidentIndex.query, decoded, scanned, entries, RkQueryKind.map_select,
    List.map_map]
  refine congrArg (fun answer => Except.ok (encodeRkEntries answer)) ?_
  exact (List.map_congr_left back).trans (List.map_id' _)

/-- A page of a partition is answered with the number of members and a part of their list. -/
theorem PartitionResident.query_eq {tree : BPlusTree} {listing : Set DatumId}
    (lists : tree.Lists 16 1 partitionEntry listing) :
    ∃ pks, Ranked DatumId.asBytes listing pks ∧
      ∀ offset limit, PartitionResident.query tree (encodeExtentPage offset limit) =
        .ok (encodeExtentResult (UInt64.ofNat pks.length)
          ((pks.drop offset.toNat).take limit.toNat)) := by
  have sizes : tree.keySize = 16 ∧ tree.valueSize = 1 := by
    rcases lists with ⟨contents, keeps, -⟩
    exact ⟨keeps.keySize, keeps.valueSize⟩
  rcases lists.ranked partitionEntry_distinct with
    ⟨depth, shape, pks, represents, entries, ranked⟩
  have members : Members tree pks := by
    refine ⟨⟨depth, shape, represents, ?_⟩, sizes.1, sizes.2⟩
    rw [entries, List.map_map]
    rfl
  have size : tree.len = pks.length := by
    have counted : tree.len = shape.entries.length := represents.count
    rw [counted, entries, List.length_map]
  refine ⟨pks, ranked, fun offset limit => ?_⟩
  have decoded : decodeExtentPage (encodeExtentPage offset limit) = .ok (offset, limit) :=
    decodeExtentPage_eq_ok.mpr rfl
  simp only [PartitionResident.query, decoded, members.page_eq, size]

/-! ## The worker's turns -/

namespace Env

variable {Resident : Type} {env : Env Resident} {worker : Worker Resident} {store : Store}

/-- A thread whose cached copies are current finds or opens what its slot does. -/
theorem residentFor_eq_openFor (current : worker.cache.Copies store) (target : DatumId)
    (indexKind : String) :
    let slot : Slot Resident := ⟨store target, worker.residentIndexes target⟩
    let found := env.residentFor worker store target indexKind
    found.1 = slot.openFor env.indexKinds target indexKind ∧
      found.2.residentIndexes target =
        match slot.openFor env.indexKinds target indexKind with
        | .error _ => slot.resident
        | .ok resident => some resident := by
  have read : (worker.cache.get store target).1 = store target := current.read target 1
  simp only [residentFor, Slot.openFor]
  cases was : worker.residentIndexes target with
  | some resident => simp [was]
  | none =>
      simp only [IndexKinds.openResident]
      cases registered : env.indexKinds.kinds indexKind with
      | none => simp [was]
      | some openKind =>
          simp only [read]
          cases openKind target (store target) with
          | error message => simp [was]
          | ok resident => simp

theorem serveIndexQuery_eq_query (current : worker.cache.Copies store) (target : DatumId)
    (indexKind : String) (query : Bytes) :
    let turn := env.serveIndexQuery worker store target indexKind query
    let answered := Slot.query env.indexKinds target indexKind query
      ⟨store target, worker.residentIndexes target⟩
    (⟨turn.store target, turn.worker.residentIndexes target⟩ : Slot Resident) = answered.1 ∧
      turn.effects = [.answer answered.2] := by
  rcases residentFor_eq_openFor current target indexKind with ⟨opens, keeps⟩
  rcases accessed : env.residentFor worker store target indexKind with ⟨message | resident, opened⟩
  · rw [accessed] at opens keeps
    simp only [← opens] at keeps
    simp only [serveIndexQuery, accessed, Slot.query, ← opens, keeps, and_self]
  · rw [accessed] at opens keeps
    simp only [← opens] at keeps
    simp only [serveIndexQuery, accessed, Slot.query, ← opens, keeps, and_self]

theorem serveIndexExecute_eq_execute (current : worker.cache.Copies store) (target : DatumId)
    (indexKind : String) (payload : Bytes) :
    let turn := env.serveIndexExecute worker store target indexKind payload
    let executed := Slot.execute env.indexKinds target indexKind payload
      ⟨store target, worker.residentIndexes target⟩
    (⟨turn.store target, turn.worker.residentIndexes target⟩ : Slot Resident) = executed.1 ∧
      turn.effects = [.answer executed.2] := by
  rcases residentFor_eq_openFor current target indexKind with ⟨opens, keeps⟩
  rcases accessed : env.residentFor worker store target indexKind with ⟨message | resident, opened⟩
  · rw [accessed] at opens keeps
    simp only [← opens] at keeps
    simp only [serveIndexExecute, accessed, Slot.execute, ← opens, keeps, and_self]
  · rw [accessed] at opens
    simp only [serveIndexExecute, accessed, Slot.execute, ← opens, Function.update_self, and_self]

end Env

end Seisin
