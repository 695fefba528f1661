import Seisin.Lib.Upkeep
import Seisin.Types.SecondaryKeys

/-!
# What index updates do to a listing

An index lists items: the pks under one secondary key, the pks with their rank keys in a rank tree,
the pks of a partition.  Each accepted update is one change of its listing.
-/

namespace Seisin

open ByteString Upkeep

/-! ## Trees -/

namespace BPlusTree

variable {Item : Type} {tree : BPlusTree} {keySize valueSize : ℕ} {entry : Item → Bytes × Bytes}
  {listing : Set Item}

/-- The tree holds one entry for each listed item and no others. -/
def Lists (tree : BPlusTree) (keySize valueSize : ℕ) (entry : Item → Bytes × Bytes)
    (listing : Set Item) : Prop :=
  ∃ contents, tree.Keeps keySize valueSize contents ∧
    ∀ key value, contents key = some value ↔ ∃ item ∈ listing, entry item = (key, value)

theorem lists_create {pageSize : ℕ} (created : create keySize valueSize pageSize = .ok tree) :
    tree.Lists keySize valueSize entry ∅ :=
  ⟨_, keeps_create created, by simp⟩

theorem Lists.insert (lists : tree.Lists keySize valueSize entry listing) (item : Item)
    (distinct : ∀ first second, (entry first).1 = (entry second).1 → first = second)
    (keySized : (entry item).1.length = keySize) (valueSized : (entry item).2.length = valueSize) :
    ∃ inserted, tree.insert (entry item).1 (entry item).2 = .ok inserted ∧
      inserted.Lists keySize valueSize entry ((Change.mk none (some item)).apply listing) := by
  rcases lists with ⟨contents, keeps, same⟩
  rcases keeps.insert keySized valueSized with ⟨inserted, inserts, keepsNow⟩
  refine ⟨inserted, inserts, _, keepsNow, ?_⟩
  intro key value
  rcases eq_or_ne key (entry item).1 with rfl | differ
  · rw [Function.update_self]
    constructor
    · intro isValue
      cases isValue
      exact ⟨item, Or.inl rfl, rfl⟩
    · rintro ⟨other, _, isEntry⟩
      have isItem := distinct other item (by rw [isEntry])
      subst isItem
      rw [isEntry]
  · rw [Function.update_of_ne differ, same]
    constructor
    · rintro ⟨other, listed, isEntry⟩
      exact ⟨other, Or.inr ⟨listed, by simp⟩, isEntry⟩
    · rintro ⟨other, comes | ⟨listed, _⟩, isEntry⟩
      · cases comes
        exact absurd (congrArg Prod.fst isEntry).symm differ
      · exact ⟨other, listed, isEntry⟩

theorem Lists.remove (lists : tree.Lists keySize valueSize entry listing) (item : Item)
    (distinct : ∀ first second, (entry first).1 = (entry second).1 → first = second)
    (keySized : (entry item).1.length = keySize) :
    ∃ found removed, tree.remove (entry item).1 = .ok (found, removed) ∧
      removed.Lists keySize valueSize entry ((Change.mk (some item) none).apply listing) := by
  rcases lists with ⟨contents, keeps, same⟩
  rcases keeps.remove keySized with ⟨found, removed, removes, keepsNow⟩
  refine ⟨found, removed, removes, _, keepsNow, ?_⟩
  intro key value
  rcases eq_or_ne key (entry item).1 with rfl | differ
  · rw [Function.update_self]
    constructor
    · intro impossible
      cases impossible
    · rintro ⟨other, impossible | ⟨_, kept⟩, isEntry⟩
      · cases impossible
      · exact absurd (congrArg some (distinct other item (by rw [isEntry])).symm) kept
  · rw [Function.update_of_ne differ, same]
    constructor
    · rintro ⟨other, listed, isEntry⟩
      refine ⟨other, Or.inr ⟨listed, ?_⟩, isEntry⟩
      rintro isItem
      cases isItem
      exact differ (congrArg Prod.fst isEntry).symm
    · rintro ⟨other, impossible | ⟨listed, _⟩, isEntry⟩
      · cases impossible
      · exact ⟨other, listed, isEntry⟩

end BPlusTree

/-- The entry of a pk at a rank. -/
def rkEntry (item : Bytes × DatumId) : Bytes × Bytes :=
  (compositeKey item.1 item.2, item.2.asBytes)

def partitionEntry (pk : DatumId) : Bytes × Bytes := (pk.asBytes, [0])

theorem rkEntry_distinct (first second : Bytes × DatumId)
    (same : (rkEntry first).1 = (rkEntry second).1) : first = second := by
  have sizes : first.2.asBytes.length = second.2.asBytes.length := by
    rw [DatumId.length_asBytes, DatumId.length_asBytes]
  rcases List.append_inj' same sizes with ⟨ranks, pks⟩
  exact Prod.ext ranks (DatumId.asBytes_injective pks)

theorem partitionEntry_distinct (first second : DatumId)
    (same : (partitionEntry first).1 = (partitionEntry second).1) : first = second :=
  DatumId.asBytes_injective same

/-! ## Changes -/

/-- The change that an update of a secondary key makes. -/
def SkIndexOp.change : SkIndexOp → Change DatumId
  | .insert pkId _ => ⟨none, some pkId⟩
  | .remove pkId => ⟨some pkId, none⟩

def RkIndexOp.change (op : RkIndexOp) : Change (Bytes × DatumId) :=
  ⟨op.oldRankKey.map (·, op.pkId), op.newRankKey.map (·, op.pkId)⟩

def ExtentOp.change : ExtentOp → Change DatumId
  | .insert pk => ⟨none, some pk⟩
  | .remove pk => ⟨some pk, none⟩

theorem mem_onEntries {op : SkIndexOp} {entries : SkEntries} {listing : Set DatumId}
    (lists : ∀ pk, pk ∈ entries.map Prod.fst ↔ pk ∈ listing) (pk : DatumId) :
    pk ∈ (op.onEntries entries).map Prod.fst ↔ pk ∈ op.change.apply listing := by
  cases op with
  | remove pkId =>
      rw [SkIndexOp.onEntries, SkIndexOp.change, Change.mem_apply, ← lists pk]
      simp only [List.mem_map, List.mem_filter, decide_eq_true_eq, ne_eq, Option.some.injEq,
        reduceCtorEq, false_or]
      constructor
      · rintro ⟨entry, ⟨entryMem, other⟩, rfl⟩
        exact ⟨⟨entry, entryMem, rfl⟩, fun same => other same.symm⟩
      · rintro ⟨⟨entry, entryMem, rfl⟩, other⟩
        exact ⟨entry, ⟨entryMem, fun same => other same.symm⟩, rfl⟩
  | insert pkId conflictOp =>
      rw [SkIndexOp.onEntries, SkIndexOp.change, Change.mem_apply, ← lists pk]
      split
      · rename_i present
        simp only [List.any_eq_true, decide_eq_true_eq] at present
        rcases present with ⟨entry, entryMem, rfl⟩
        constructor
        · exact fun listed => Or.inr ⟨listed, by simp⟩
        · rintro (comes | ⟨listed, _⟩)
          · cases comes
            exact List.mem_map_of_mem entryMem
          · exact listed
      · simp [or_comm, eq_comm]

/-- A conflict name that is too long for its length field does not go through. -/
theorem decodeSkIndexOp_encode {op decoded : SkIndexOp}
    (decodes : decodeSkIndexOp (encodeSkIndexOp op) = .ok decoded) : decoded = op := by
  cases op with
  | remove pkId =>
      rw [decodeSkIndexOp_remove] at decodes
      cases decodes
      rfl
  | insert pkId conflictOp =>
      by_cases named : ∀ name, conflictOp = some name → (ofString name).length < 2 ^ 32
      · rw [decodeSkIndexOp_insert pkId named] at decodes
        cases decodes
        rfl
      · push Not at named
        rcases named with ⟨name, rfl, long⟩
        have front : ∀ rest : Bytes, (pkId.asBytes ++ rest).drop 16 = rest :=
          fun rest => List.drop_left' (DatumId.length_asBytes pkId)
        have sizeField : (leBytes 4 (ofString name).length ++ ofString name).take 4 =
            leBytes 4 (ofString name).length := List.take_left' (length_leBytes 4 _)
        have size : leNat (leBytes 4 (ofString name).length) < 2 ^ 32 := by
          rw [leNat_leBytes_mod]
          exact Nat.mod_lt _ (by decide)
        have pkLong : ¬16 + (4 + (ofString name).length + 1) < 16 := by omega
        have nameLong : ¬4 + (ofString name).length < 4 := by omega
        have mismatch : (ofString name).length ≠ leNat (leBytes 4 (ofString name).length) := by
          omega
        simp [decodeSkIndexOp, encodeSkIndexOp, front, sizeField, pkLong, nameLong,
          mismatch] at decodes

/-! ## Slots -/

namespace Slot

variable (query : TreeResident → Bytes → Except String Bytes)
  (execute : TreeResident → Bytes → TreeResident × Except String Bytes)

/-- The kinds that typed writes maintain. -/
abbrev typedKinds : IndexKinds (TypedResident TreeResident) :=
  typedIndexKinds (treeKinds query execute)

/-- The home of a secondary key lists these pks, or would if it opened the key now. -/
def SkLists (target : DatumId) (slot : Slot (TypedResident TreeResident))
    (listing : Set DatumId) : Prop :=
  ∃ entries, slot.openFor (typedKinds query execute) target "sk" = .ok (.sk entries) ∧
    ∀ pk, pk ∈ entries.map Prod.fst ↔ pk ∈ listing

def RkLists (target : DatumId) (slot : Slot (TypedResident TreeResident))
    (listing : Set (Bytes × DatumId)) : Prop :=
  ∃ tree, slot.openFor (typedKinds query execute) target "rk" = .ok (.other (.rk tree)) ∧
    tree.Lists rkKeySize rkValueSize rkEntry listing

def PartitionLists (target : DatumId) (slot : Slot (TypedResident TreeResident))
    (listing : Set DatumId) : Prop :=
  ∃ tree, slot.openFor (typedKinds query execute) target "partition" =
      .ok (.other (.partition tree)) ∧
    tree.Lists 16 1 partitionEntry listing

variable {query execute} {target : DatumId} {slot : Slot (TypedResident TreeResident)}

theorem skLists_empty : SkLists query execute target empty ∅ :=
  ⟨[], rfl, by simp⟩

theorem rkLists_empty : RkLists query execute target empty ∅ := by
  have created : ∃ tree, BPlusTree.create rkKeySize rkValueSize rkPageSize = .ok tree := ⟨_, rfl⟩
  rcases created with ⟨tree, created⟩
  refine ⟨tree, ?_, BPlusTree.lists_create created⟩
  simp only [openFor, typedKinds, typedIndexKinds, treeKinds, created]
  rfl

theorem partitionLists_empty : PartitionLists query execute target empty ∅ := by
  have created : ∃ tree, BPlusTree.create 16 1 partitionPageSize = .ok tree := ⟨_, rfl⟩
  rcases created with ⟨tree, created⟩
  refine ⟨tree, ?_, BPlusTree.lists_create created⟩
  simp only [openFor, typedKinds, typedIndexKinds, treeKinds, created]
  rfl

/-- What a slot with an open structure makes of an update. -/
theorem serve_opened {kinds : IndexKinds (TypedResident TreeResident)}
    {resident : TypedResident TreeResident} (update : PendingIndexUpdate)
    (opened : slot.openFor kinds update.target update.indexKind = .ok resident) :
    (slot.serve kinds update).1.resident = some (kinds.apply resident update.payload).1 ∧
      (slot.serve kinds update).2 = (kinds.apply resident update.payload).2.violation := by
  simp only [serve, opened, and_self]

theorem openFor_resident {kinds : IndexKinds (TypedResident TreeResident)} {indexKind : String}
    {resident : TypedResident TreeResident} (isOpen : slot.resident = some resident) :
    slot.openFor kinds target indexKind = .ok resident := by
  simp only [openFor, isOpen]

theorem SkLists.serve {listing : Set DatumId} (lists : SkLists query execute target slot listing)
    (op : SkIndexOp) (accepted : (slot.serve (typedKinds query execute)
      ⟨target, "sk", encodeSkIndexOp op⟩).2 = none) :
    SkLists query execute target (slot.serve (typedKinds query execute)
      ⟨target, "sk", encodeSkIndexOp op⟩).1 (op.change.apply listing) := by
  rcases lists with ⟨entries, opened, same⟩
  rcases serve_opened ⟨target, "sk", encodeSkIndexOp op⟩ opened with ⟨served, answers⟩
  rw [accepted] at answers
  have applied : (typedKinds query execute).apply (.sk entries) (encodeSkIndexOp op) =
      (.sk (SkResidentIndex.apply entries (encodeSkIndexOp op)).1,
        (SkResidentIndex.apply entries (encodeSkIndexOp op)).2) := rfl
  rw [applied] at served answers
  rcases SkResidentIndex.apply_cases entries (encodeSkIndexOp op) with
    ⟨_, violation, refused⟩ | ⟨decoded, decodes, _, applies⟩
  · rw [refused] at answers
    cases answers
  · rw [applies, decodeSkIndexOp_encode decodes] at served
    exact ⟨op.onEntries entries, openFor_resident served, mem_onEntries same⟩

theorem RkLists.serve {listing : Set (Bytes × DatumId)}
    (lists : RkLists query execute target slot listing) {op : RkIndexOp}
    (oldSized : ∀ bytes, op.oldRankKey = some bytes → bytes.length = 8)
    (newSized : ∀ bytes, op.newRankKey = some bytes → bytes.length = 8) :
    RkLists query execute target (slot.serve (typedKinds query execute)
      ⟨target, "rk", encodeRkIndexOp op⟩).1 (op.change.apply listing) := by
  rcases lists with ⟨tree, opened, lists⟩
  have keySized : ∀ {rankKey : Bytes}, rankKey.length = 8 →
      (rkEntry (rankKey, op.pkId)).1.length = rkKeySize := by
    intro rankKey eight
    simp [rkEntry, compositeKey, eight, DatumId.length_asBytes, rkKeySize]
  have removes : ∃ removed, RkResidentIndex.removeOld tree op = .ok removed ∧
      removed.Lists rkKeySize rkValueSize rkEntry
        ((Change.mk op.change.out none).apply listing) := by
    unfold RkResidentIndex.removeOld RkIndexOp.change
    cases isOld : op.oldRankKey with
    | none => exact ⟨tree, rfl, by rwa [Option.map_none, ← Change.none, Change.apply_none]⟩
    | some rankKey =>
        rcases lists.remove (rankKey, op.pkId) rkEntry_distinct (keySized (oldSized rankKey isOld)) with
          ⟨found, removed, removes, listsNow⟩
        refine ⟨removed, ?_, listsNow⟩
        change (tree.remove (rkEntry (rankKey, op.pkId)).1).map Prod.snd = _
        rw [removes]
        rfl
  rcases removes with ⟨removed, removes, listsThen⟩
  have inserts : ∃ inserted, RkResidentIndex.insertNew removed op = .ok inserted ∧
      inserted.Lists rkKeySize rkValueSize rkEntry (op.change.apply listing) := by
    rw [← Change.apply_into_apply_out]
    unfold RkResidentIndex.insertNew
    cases isNew : op.newRankKey with
    | none =>
        refine ⟨removed, rfl, ?_⟩
        rw [show op.change.into = none by rw [RkIndexOp.change, isNew, Option.map_none],
          ← Change.none, Change.apply_none]
        exact listsThen
    | some rankKey =>
        rw [show op.change.into = some (rankKey, op.pkId) by
          rw [RkIndexOp.change, isNew, Option.map_some]]
        exact listsThen.insert (rankKey, op.pkId) rkEntry_distinct (keySized (newSized rankKey isNew))
          (DatumId.length_asBytes op.pkId)
  rcases inserts with ⟨inserted, inserts, listsNow⟩
  rcases serve_opened ⟨target, "rk", encodeRkIndexOp op⟩ opened with ⟨served, _⟩
  have applied : RkResidentIndex.apply tree (encodeRkIndexOp op) =
      (inserted, RkResidentIndex.accepted) := by
    simp only [RkResidentIndex.apply, decodeRkIndexOp_encode oldSized newSized, removes, inserts]
  have applies : ((typedKinds query execute).apply (.other (.rk tree)) (encodeRkIndexOp op)).1 =
      .other (.rk (RkResidentIndex.apply tree (encodeRkIndexOp op)).1) := rfl
  rw [applies, applied] at served
  exact ⟨inserted, openFor_resident served, listsNow⟩

theorem PartitionLists.serve {listing : Set DatumId}
    (lists : PartitionLists query execute target slot listing) (op : ExtentOp) :
    PartitionLists query execute target (slot.serve (typedKinds query execute)
      ⟨target, "partition", encodeExtentOp op⟩).1 (op.change.apply listing) := by
  rcases lists with ⟨tree, opened, lists⟩
  have changes : ∃ changed, PartitionResident.change tree op = .ok changed ∧
      changed.Lists 16 1 partitionEntry (op.change.apply listing) := by
    cases op with
    | insert pk =>
        exact lists.insert pk partitionEntry_distinct (DatumId.length_asBytes pk) rfl
    | remove pk =>
        rcases lists.remove pk partitionEntry_distinct (DatumId.length_asBytes pk) with
          ⟨found, removed, removes, listsNow⟩
        refine ⟨removed, ?_, listsNow⟩
        change (tree.remove (partitionEntry pk).1).map Prod.snd = _
        rw [removes]
        rfl
  rcases changes with ⟨changed, changes, listsNow⟩
  rcases serve_opened ⟨target, "partition", encodeExtentOp op⟩ opened with ⟨served, _⟩
  have applied : PartitionResident.apply tree (encodeExtentOp op) = (changed, ⟨none, .none⟩) := by
    simp only [PartitionResident.apply, decodeExtentOp_encode, changes]
  have applies :
      ((typedKinds query execute).apply (.other (.partition tree)) (encodeExtentOp op)).1 =
        .other (.partition (PartitionResident.apply tree (encodeExtentOp op)).1) := rfl
  rw [applies, applied] at served
  exact ⟨changed, openFor_resident served, listsNow⟩

end Slot

end Seisin
