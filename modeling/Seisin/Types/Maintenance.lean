import Seisin.Types.Interpretation
import Seisin.Types.Listings
import Seisin.Types.Settlement
import Seisin.Types.DerivedIds

/-!
# What typed writes do to indexes

When a typed context is dropped, each part of the declaration of a datum that was written gives rise
to updates, by comparing the datum with what it was.  The updates of one part come one after another
at the home they go to, where together they make one change of its listing.
-/

namespace Seisin

open Upkeep

/-! ## Equal values -/

/-- Values that do not differ are the same to an index, unless they are the two zeros. -/
theorem keys_eq_of_not_changed {old new : Option FieldValue} (same : changed old new = false)
    (zeros : ∀ first second, old = some (.f64 first) → new = some (.f64 second) →
      first.isZero = true → second.isZero = true → first = second) :
    old.bind skValueBytes = new.bind skValueBytes ∧
      old.bind encodeRankKey = new.bind encodeRankKey := by
  cases old with
  | none =>
      cases new with
      | none => exact ⟨rfl, rfl⟩
      | some value => cases same
  | some first =>
      cases new with
      | none => cases same
      | some second =>
          have equal : first.beq second = true := by
            simpa [changed, BEq.beq] using same
          cases first with
          | bool value => cases second <;> simp_all [FieldValue.beq]
          | i64 value => cases second <;> simp_all [FieldValue.beq]
          | string value => cases second <;> simp_all [FieldValue.beq]
          | bytes value => cases second <;> simp_all [FieldValue.beq]
          | array items =>
              cases second with
              | array others => exact ⟨rfl, rfl⟩
              | _ => simp [FieldValue.beq] at equal
          | dict entries =>
              cases second with
              | dict others => exact ⟨rfl, rfl⟩
              | _ => simp [FieldValue.beq] at equal
          | f64 value =>
              cases second with
              | f64 other =>
                  simp only [FieldValue.beq, F64.beq, Bool.and_eq_true, Bool.or_eq_true,
                    decide_eq_true_eq] at equal
                  have isSame : value = other := by
                    rcases equal.2 with bits | ⟨zero, zeroToo⟩
                    · cases value
                      cases other
                      exact congrArg F64.mk bits
                    · exact zeros value other rfl rfl zero zeroToo
                  rw [isSame]
                  exact ⟨rfl, rfl⟩
              | _ => simp [FieldValue.beq] at equal

theorem bind_skKey (fromName : Bytes → DatumId) (typeName field : String)
    (value : Option FieldValue) : value.bind (skKey fromName typeName field) =
      (value.bind skValueBytes).map fun bytes => (DerivedKey.sk typeName field bytes).id fromName := by
  cases value with
  | none => rfl
  | some one => rfl

/-! ## Where updates come from -/

/-- What part of a declaration an update is due to. -/
inductive Origin where
  | index (index : IndexDef)
  | extent
  | guard (guard : GuardRef)

/-- The kind of the ids that such updates go to. -/
def Origin.word : Origin → String
  | .index (.sk _ _) => "sk"
  | .index (.rk _) => "rk"
  | .extent => "partition"
  | .guard _ => "deleted_refs"

/-- One part of the declaration of a datum that an op wrote. -/
structure Piece where
  pkId : DatumId
  tracked : TrackedDatum
  origin : Origin

namespace Piece

variable (fromName : Bytes → DatumId)

def updates (piece : Piece) : List PendingIndexUpdate :=
  match piece.origin with
  | .index index => indexUpdates fromName piece.pkId piece.tracked index
  | .extent => extentUpdates fromName piece.pkId piece.tracked
  | .guard guard => (guardCalls fromName piece.pkId guard).filterMap Scheduled.asUpdate

/-- The parts that updates are due to, in the order in which the code visits them. -/
def ofTracked (pkId : DatumId) (tracked : TrackedDatum) : List Piece :=
  if tracked.touched then
    (tracked.typeDef.indexes.map fun index => ⟨pkId, tracked, .index index⟩) ++
      [⟨pkId, tracked, .extent⟩] ++
      (if tracked.after = none ∧ tracked.before.isSome then
        tracked.typeDef.guards.map fun guard => ⟨pkId, tracked, .guard guard⟩ else [])
  else []

end Piece

theorem asUpdate_map (updates : List PendingIndexUpdate) :
    (updates.map Scheduled.update).filterMap Scheduled.asUpdate = updates := by
  rw [List.filterMap_map]
  exact List.filterMap_some

theorem asUpdate_constraintCalls (fromName : Bytes → DatumId) (pkId : DatumId)
    (tracked : TrackedDatum) (values : List FieldValue) (constraint : RelationalConstraintDef) :
    (constraintCalls fromName pkId tracked values constraint).filterMap Scheduled.asUpdate = [] := by
  unfold constraintCalls
  split
  · rfl
  · split
    · rfl
    · split
      · split
        · rfl
        · rfl
      · rfl

theorem updates_dropCalls (fromName : Bytes → DatumId) (pkId : DatumId) (tracked : TrackedDatum) :
    (dropCalls fromName pkId tracked).filterMap Scheduled.asUpdate =
      (Piece.ofTracked pkId tracked).flatMap (Piece.updates fromName) := by
  unfold dropCalls Piece.ofTracked
  split
  · rw [List.filterMap_append, List.filterMap_append, asUpdate_map, List.filterMap_flatMap,
      List.flatMap_append, List.flatMap_append, List.flatMap_map, List.flatMap_singleton]
    refine congrArg₂ (· ++ ·) ?_ ?_
    · simp only [asUpdate_map, Piece.updates]
    · cases after : tracked.after with
      | none =>
          cases existed : tracked.before.isSome with
          | false => rfl
          | true => simp [List.filterMap_flatMap, List.flatMap_map, Piece.updates]
      | some values =>
          simp [List.filterMap_flatMap, asUpdate_constraintCalls]
  · rfl

/-! ## What the ids of indexes are derived from -/

/-- The keys of the indexes of a schema, as far as secondary keys are made of the bytes in
`occurring`. -/
inductive Schema.Derives (schema : Schema) (occurring : Set Bytes) : DerivedKey → Prop where
  | sk {pkId : DatumId} {typeDef : DatumTypeDef} {field : String} {unique : Option ConflictOp}
      {bytes : Bytes} (declared : schema pkId = some typeDef)
      (indexed : .sk field unique ∈ typeDef.indexes) (occurs : bytes ∈ occurring) :
      schema.Derives occurring (.sk typeDef.name field bytes)
  | rk {pkId : DatumId} {typeDef : DatumTypeDef} {field : String}
      (declared : schema pkId = some typeDef) (indexed : .rk field ∈ typeDef.indexes) :
      schema.Derives occurring (.rk typeDef.name field)
  | extent {pkId : DatumId} {typeDef : DatumTypeDef} (declared : schema pkId = some typeDef)
      (tracks : typeDef.trackExtent = true) :
      schema.Derives occurring (.partition typeDef.name "all")
  | pending {pkId : DatumId} {typeDef : DatumTypeDef} {constraint : RelationalConstraintDef}
      (declared : schema pkId = some typeDef) (constrained : constraint ∈ typeDef.constraints) :
      schema.Derives occurring (.fkPending typeDef.name constraint.field)
  | deleted {pkId : DatumId} {typeDef : DatumTypeDef} {guard : GuardRef}
      (declared : schema pkId = some typeDef) (guarded : guard ∈ typeDef.guards) :
      schema.Derives occurring (.fkDeleted guard.typeName guard.field)

/-- Types are told apart by their names, and indexes from each other and from datums by their ids. -/
structure Schema.Separate (schema : Schema) (fromName : Bytes → DatumId) (occurring : Set Bytes) :
    Prop where
  versions : ∀ pkId typeDef, schema pkId = some typeDef → typeDef.version < 2 ^ 16
  names : ∀ first second typeDef other, schema first = some typeDef → schema second = some other →
    typeDef.name = other.name → typeDef = other
  keys : ∀ first second, schema.Derives occurring first → schema.Derives occurring second →
    first.id fromName = second.id fromName → first = second
  datums : ∀ key, schema.Derives occurring key → schema (key.id fromName) = none

namespace Piece

variable {schema : Schema} {occurring : Set Bytes} {fromName : Bytes → DatumId}

/-- The key that the target of an update is derived from. -/
def Aims (occurring : Set Bytes) (piece : Piece) : DerivedKey → Prop :=
  match piece.origin with
  | .index (.sk field _) =>
      fun key => ∃ bytes ∈ occurring, key = .sk piece.tracked.typeDef.name field bytes
  | .index (.rk field) => fun key => key = .rk piece.tracked.typeDef.name field
  | .extent => fun key => key = .partition piece.tracked.typeDef.name "all"
  | .guard guard => fun key => key = .fkDeleted guard.typeName guard.field

theorem word_of_aims {piece : Piece} {key : DerivedKey} (aims : piece.Aims occurring key) :
    key.word = piece.origin.word := by
  rcases piece with ⟨pkId, tracked, origin⟩
  cases origin with
  | index index =>
      cases index with
      | sk field unique =>
          rcases aims with ⟨bytes, _, rfl⟩
          rfl
      | rk field =>
          rw [show key = _ from aims]
          rfl
  | extent =>
      rw [show key = _ from aims]
      rfl
  | guard guard =>
      rw [show key = _ from aims]
      rfl

/-- The part is declared, and the values of its datum before and after occur. -/
structure Declared (schema : Schema) (occurring : Set Bytes) (piece : Piece) : Prop where
  typed : schema piece.pkId = some piece.tracked.typeDef
  part : match piece.origin with
    | .index index => index ∈ piece.tracked.typeDef.indexes
    | .extent => True
    | .guard guard => guard ∈ piece.tracked.typeDef.guards
  occursBefore : ∀ idx value bytes, fieldOf piece.tracked.before idx = some value →
    skValueBytes value = some bytes → bytes ∈ occurring
  occursAfter : ∀ idx value bytes, fieldOf piece.tracked.after idx = some value →
    skValueBytes value = some bytes → bytes ∈ occurring

theorem aims_of_mem_updates {piece : Piece} (declared : piece.Declared schema occurring)
    {update : PendingIndexUpdate} (updateMem : update ∈ piece.updates fromName) :
    ∃ key, piece.Aims occurring key ∧ schema.Derives occurring key ∧
      update.target = key.id fromName := by
  rcases piece with ⟨pkId, tracked, origin⟩
  have typed := declared.typed
  have part := declared.part
  cases origin with
  | index index =>
      cases index with
      | sk field unique =>
          simp only [updates, indexUpdates] at updateMem
          split at updateMem
          · cases updateMem
          · rename_i idx found
            split at updateMem
            · have keyed : ∀ (value : Option FieldValue), (∀ one bytes, value = some one →
                  skValueBytes one = some bytes → bytes ∈ occurring) → ∀ target,
                    value.bind (skKey fromName tracked.typeDef.name field) = some target →
                    ∃ key, Aims occurring ⟨pkId, tracked, .index (.sk field unique)⟩ key ∧
                      schema.Derives occurring key ∧ target = key.id fromName := by
                intro value occurs target keys
                rcases Option.bind_eq_some_iff.mp keys with ⟨one, isOne, key⟩
                rcases Option.map_eq_some_iff.mp key with ⟨bytes, hasBytes, rfl⟩
                have occurring := occurs one bytes isOne hasBytes
                exact ⟨.sk tracked.typeDef.name field bytes, ⟨bytes, occurring, rfl⟩,
                  .sk typed part occurring, rfl⟩
              rcases List.mem_append.mp updateMem with removes | inserts
              · rcases List.mem_map.mp removes with ⟨target, targetMem, rfl⟩
                exact keyed _ (declared.occursBefore idx) target (Option.mem_toList.mp targetMem)
              · rcases List.mem_map.mp inserts with ⟨target, targetMem, rfl⟩
                exact keyed _ (declared.occursAfter idx) target (Option.mem_toList.mp targetMem)
            · cases updateMem
      | rk field =>
          simp only [updates, indexUpdates] at updateMem
          refine ⟨.rk tracked.typeDef.name field, rfl, .rk typed part, ?_⟩
          split at updateMem
          · cases updateMem
          · split at updateMem
            · split at updateMem
              · cases updateMem
              · rw [List.mem_singleton.mp updateMem]
                rfl
            · cases updateMem
  | extent =>
      simp only [updates, extentUpdates] at updateMem
      split at updateMem
      · rename_i tracks
        refine ⟨.partition tracked.typeDef.name "all", rfl, .extent typed tracks, ?_⟩
        split at updateMem
        · rw [List.mem_singleton.mp updateMem]
          rfl
        · rw [List.mem_singleton.mp updateMem]
          rfl
        · cases updateMem
      · cases updateMem
  | guard guard =>
      refine ⟨.fkDeleted guard.typeName guard.field, rfl, .deleted typed part, ?_⟩
      simp only [updates, guardCalls] at updateMem
      split at updateMem
      · cases updateMem
      · split at updateMem
        · cases updateMem
        · have isUpdate := List.mem_singleton.mp updateMem
          rw [isUpdate]
          rfl

/-! ## What the updates of a part change -/

/-- The value of a field before the op. -/
def old (piece : Piece) (field : String) : Option FieldValue :=
  (piece.tracked.typeDef.fieldIdx field).bind (fieldOf piece.tracked.before)

/-- The value of a field after the op. -/
def new (piece : Piece) (field : String) : Option FieldValue :=
  (piece.tracked.typeDef.fieldIdx field).bind (fieldOf piece.tracked.after)

/-- The key of a value, if it is the one asked for. -/
def skItem (fromName : Bytes → DatumId) (target : DatumId) (piece : Piece) (field : String)
    (value : Option FieldValue) : Option DatumId :=
  if value.bind (skKey fromName piece.tracked.typeDef.name field) = some target then
    some piece.pkId
  else none

def rkItem (piece : Piece) (value : Option FieldValue) : Option (Bytes × DatumId) :=
  (value.bind encodeRankKey).map (·, piece.pkId)

def skChange (fromName : Bytes → DatumId) (target : DatumId) (piece : Piece) : Change DatumId :=
  match piece.origin with
  | .index (.sk field _) =>
      if changed (piece.old field) (piece.new field) then
        ⟨piece.skItem fromName target field (piece.old field),
          piece.skItem fromName target field (piece.new field)⟩
      else .none
  | _ => .none

def rkChange (typeName field : String) (piece : Piece) : Change (Bytes × DatumId) :=
  match piece.origin with
  | .index (.rk other) =>
      if piece.tracked.typeDef.name = typeName ∧ other = field ∧
          changed (piece.old other) (piece.new other) then
        ⟨piece.rkItem (piece.old other), piece.rkItem (piece.new other)⟩
      else .none
  | _ => .none

def extentChange (typeName : String) (piece : Piece) : Change DatumId :=
  match piece.origin with
  | .extent =>
      if piece.tracked.typeDef.name = typeName ∧ piece.tracked.typeDef.trackExtent then
        ⟨if piece.tracked.after = none ∧ piece.tracked.before.isSome then some piece.pkId else none,
          if piece.tracked.before = none ∧ piece.tracked.after.isSome then some piece.pkId else none⟩
      else .none
  | _ => .none

variable {target : DatumId} {piece : Piece}

theorem skItem_of_keyed {field : String} {value : Option FieldValue}
    (keyed : value.bind (skKey fromName piece.tracked.typeDef.name field) = some target) :
    piece.skItem fromName target field value = some piece.pkId := if_pos keyed

theorem skChange_of_changed {field : String} {unique : Option ConflictOp}
    (isSk : piece.origin = .index (.sk field unique))
    (differs : changed (piece.old field) (piece.new field) = true) :
    piece.skChange fromName target = ⟨piece.skItem fromName target field (piece.old field),
      piece.skItem fromName target field (piece.new field)⟩ := by
  unfold skChange
  simp only [isSk]
  exact if_pos differs

theorem skChange_cases (fromName : Bytes → DatumId) (target : DatumId) (piece : Piece) :
    piece.skChange fromName target = .none ∨ ∃ field unique,
      piece.origin = .index (.sk field unique) ∧
        changed (piece.old field) (piece.new field) = true := by
  rcases piece with ⟨pkId, tracked, origin⟩
  unfold skChange
  cases origin with
  | index index =>
      cases index with
      | sk field unique =>
          by_cases differs : changed (old ⟨pkId, tracked, .index (.sk field unique)⟩ field)
              (new ⟨pkId, tracked, .index (.sk field unique)⟩ field) = true
          · exact Or.inr ⟨field, unique, rfl, differs⟩
          · exact Or.inl (if_neg differs)
      | rk field => exact Or.inl rfl
  | extent => exact Or.inl rfl
  | guard guard => exact Or.inl rfl

theorem rkChange_of_changed {typeName field : String} (isRk : piece.origin = .index (.rk field))
    (named : piece.tracked.typeDef.name = typeName)
    (differs : changed (piece.old field) (piece.new field) = true) :
    piece.rkChange typeName field =
      ⟨piece.rkItem (piece.old field), piece.rkItem (piece.new field)⟩ := by
  unfold rkChange
  simp only [isRk]
  exact if_pos ⟨named, trivial, differs⟩

theorem rkChange_cases (typeName field : String) (piece : Piece) :
    piece.rkChange typeName field = .none ∨ piece.origin = .index (.rk field) ∧
      piece.tracked.typeDef.name = typeName ∧
        changed (piece.old field) (piece.new field) = true := by
  rcases piece with ⟨pkId, tracked, origin⟩
  unfold rkChange
  cases origin with
  | index index =>
      cases index with
      | sk itsField unique => exact Or.inl rfl
      | rk itsField =>
          by_cases own : tracked.typeDef.name = typeName ∧ itsField = field ∧
              changed (old ⟨pkId, tracked, .index (.rk itsField)⟩ itsField)
                (new ⟨pkId, tracked, .index (.rk itsField)⟩ itsField) = true
          · rcases own with ⟨named, rfl, differs⟩
            exact Or.inr ⟨rfl, named, differs⟩
          · exact Or.inl (if_neg own)
  | extent => exact Or.inl rfl
  | guard guard => exact Or.inl rfl

theorem rkItem_eq_some {value : Option FieldValue} {item : Bytes × DatumId} :
    piece.rkItem value = some item ↔
      piece.pkId = item.2 ∧ value.bind encodeRankKey = some item.1 := by
  rcases item with ⟨rankKey, pkId⟩
  rw [rkItem, Option.map_eq_some_iff]
  constructor
  · rintro ⟨_, ranks, same⟩
    cases same
    exact ⟨rfl, ranks⟩
  · rintro ⟨rfl, ranks⟩
    exact ⟨rankKey, ranks, rfl⟩

theorem extentChange_of_tracks (piece : Piece) {typeName : String} (isExtent : piece.origin = .extent)
    (named : piece.tracked.typeDef.name = typeName)
    (tracks : piece.tracked.typeDef.trackExtent = true) :
    piece.extentChange typeName =
      ⟨if piece.tracked.after = none ∧ piece.tracked.before.isSome then some piece.pkId else none,
        if piece.tracked.before = none ∧ piece.tracked.after.isSome then some piece.pkId
        else none⟩ := by
  unfold extentChange
  simp only [isExtent]
  exact if_pos ⟨named, tracks⟩

theorem extentChange_cases (typeName : String) (piece : Piece) :
    piece.extentChange typeName = .none ∨ piece.origin = .extent ∧
      piece.tracked.typeDef.name = typeName ∧ piece.tracked.typeDef.trackExtent = true := by
  rcases piece with ⟨pkId, tracked, origin⟩
  unfold extentChange
  cases origin with
  | index index => exact Or.inl rfl
  | extent =>
      by_cases own : tracked.typeDef.name = typeName ∧ tracked.typeDef.trackExtent = true
      · exact Or.inr ⟨rfl, own⟩
      · exact Or.inl (if_neg own)
  | guard guard => exact Or.inl rfl

variable {query : TreeResident → Bytes → Except String Bytes}
  {execute : TreeResident → Bytes → TreeResident × Except String Bytes}

/-- The updates that go to one home. -/
def tasksAt (query : TreeResident → Bytes → Except String Bytes)
    (execute : TreeResident → Bytes → TreeResident × Except String Bytes)
    (fromName : Bytes → DatumId) (target : DatumId) (piece : Piece) : List IndexTask :=
  (indexProtocol (Slot.typedKinds query execute)).forKey target
    ((piece.updates fromName).map .update)

theorem tasksAt_eq_nil (separate : schema.Separate fromName occurring)
    (declared : piece.Declared schema occurring) {key : DerivedKey}
    (derives : schema.Derives occurring key) (elsewhere : ¬piece.Aims occurring key) :
    piece.tasksAt query execute fromName (key.id fromName) = [] := by
  unfold tasksAt Dispatch.Protocol.forKey
  rw [List.filter_eq_nil_iff]
  intro task taskMem
  rcases List.mem_map.mp taskMem with ⟨update, updateMem, rfl⟩
  rcases aims_of_mem_updates declared updateMem with ⟨aimed, aims, aimedDerives, target⟩
  intro same
  have sameId : aimed.id fromName = key.id fromName := target.symm.trans (of_decide_eq_true same)
  rw [separate.keys aimed key aimedDerives derives sameId] at aims
  exact elsewhere aims

theorem forKey_toList {kinds : IndexKinds (TypedResident TreeResident)} (target : DatumId)
    (value : Option DatumId) (indexKind : String) (payload : Bytes) :
    (indexProtocol kinds).forKey target
        ((value.toList.map fun key => PendingIndexUpdate.mk key indexKind payload).map .update) =
      if value = some target then [.update ⟨target, indexKind, payload⟩] else [] := by
  cases value with
  | none => rfl
  | some key =>
      by_cases same : key = target
      · subst same
        simp [Dispatch.Protocol.forKey, indexProtocol, IndexTask.target]
      · simp [Dispatch.Protocol.forKey, indexProtocol, IndexTask.target, same]

@[simp]
theorem serveAll_update (slot : Slot (TypedResident TreeResident)) (update : PendingIndexUpdate) :
    (indexProtocol (Slot.typedKinds query execute)).serveAll slot [.update update] =
      ((slot.serve (Slot.typedKinds query execute) update).1,
        [(.update update, .updated (slot.serve (Slot.typedKinds query execute) update).2)]) := rfl

theorem updates_sk {field : String} {unique : Option ConflictOp}
    (isSk : piece.origin = .index (.sk field unique)) :
    piece.updates fromName =
      if changed (piece.old field) (piece.new field) then
        (((piece.old field).bind (skKey fromName piece.tracked.typeDef.name field)).toList.map
          fun key => ⟨key, "sk", encodeSkIndexOp (.remove piece.pkId)⟩) ++
        (((piece.new field).bind (skKey fromName piece.tracked.typeDef.name field)).toList.map
          fun key => ⟨key, "sk", encodeSkIndexOp
            (.insert piece.pkId (unique.map ConflictOp.name))⟩)
      else [] := by
  unfold updates old new
  simp only [isSk, indexUpdates]
  cases piece.tracked.typeDef.fieldIdx field with
  | none => rfl
  | some idx => rfl

theorem updates_rk {field : String} (isRk : piece.origin = .index (.rk field)) :
    piece.updates fromName =
      if changed (piece.old field) (piece.new field) then
        if ((piece.old field).bind encodeRankKey).isNone &&
            ((piece.new field).bind encodeRankKey).isNone then []
        else
          [⟨rkKey fromName piece.tracked.typeDef.name field, "rk", encodeRkIndexOp
            ⟨piece.pkId, (piece.old field).bind encodeRankKey,
              (piece.new field).bind encodeRankKey⟩⟩]
      else [] := by
  unfold updates old new
  simp only [isRk, indexUpdates]
  cases piece.tracked.typeDef.fieldIdx field with
  | none => rfl
  | some idx => rfl

theorem skLists_if {condition : Prop} [Decidable condition] {target : DatumId}
    {slot : Slot (TypedResident TreeResident)} {listing : Set DatumId} (op : SkIndexOp)
    (lists : slot.SkLists query execute target listing)
    (accepted : ∀ answered ∈ ((indexProtocol (Slot.typedKinds query execute)).serveAll slot
      (if condition then [.update ⟨target, "sk", encodeSkIndexOp op⟩] else [])).2,
        answered.2.Accepts) :
    Slot.SkLists query execute target
      ((indexProtocol (Slot.typedKinds query execute)).serveAll slot
        (if condition then [.update ⟨target, "sk", encodeSkIndexOp op⟩] else [])).1
      ((if condition then op.change else .none).apply listing) := by
  split at accepted
  · rename_i holds
    rw [if_pos holds, if_pos holds]
    exact lists.serve op (accepted _ (List.mem_singleton_self _))
  · rename_i fails
    rw [if_neg fails, if_neg fails, Change.apply_none]
    exact lists

theorem skItem_out {target : DatumId} {field : String} {value : Option FieldValue} :
    (if value.bind (skKey fromName piece.tracked.typeDef.name field) = some target then
        (SkIndexOp.remove piece.pkId).change else .none) =
      ⟨piece.skItem fromName target field value, none⟩ := by
  unfold skItem
  split <;> rfl

theorem skItem_into {target : DatumId} {field : String} {value : Option FieldValue}
    {conflictOp : Option String} :
    (if value.bind (skKey fromName piece.tracked.typeDef.name field) = some target then
        (SkIndexOp.insert piece.pkId conflictOp).change else .none) =
      ⟨none, piece.skItem fromName target field value⟩ := by
  unfold skItem
  split <;> rfl

/-- A secondary key lists the datum or no longer does as its new and its old value say. -/
theorem skLists_tasksAt (separate : schema.Separate fromName occurring)
    (declared : piece.Declared schema occurring) {key : DerivedKey}
    (derives : schema.Derives occurring key) (isSk : key.word = "sk")
    {slot : Slot (TypedResident TreeResident)} {listing : Set DatumId}
    (lists : slot.SkLists query execute (key.id fromName) listing)
    (accepted : ∀ answered ∈ ((indexProtocol (Slot.typedKinds query execute)).serveAll slot
      (piece.tasksAt query execute fromName (key.id fromName))).2, answered.2.Accepts) :
    Slot.SkLists query execute (key.id fromName)
      ((indexProtocol (Slot.typedKinds query execute)).serveAll slot
        (piece.tasksAt query execute fromName (key.id fromName))).1
      ((piece.skChange fromName (key.id fromName)).apply listing) := by
  have elsewhere : piece.origin.word ≠ "sk" →
      piece.tasksAt query execute fromName (key.id fromName) = [] := by
    intro other
    apply tasksAt_eq_nil separate declared derives
    intro aims
    exact other ((word_of_aims aims).symm.trans isSk)
  generalize key.id fromName = target at *
  cases isOrigin : piece.origin with
  | index index =>
      cases index with
      | sk field unique =>
          rw [tasksAt, updates_sk isOrigin] at accepted ⊢
          rw [skChange]
          simp only [isOrigin]
          by_cases differs : changed (piece.old field) (piece.new field) = true
          · rw [if_pos differs] at accepted ⊢
            rw [if_pos differs, ← Change.apply_into_apply_out]
            rw [List.map_append, Dispatch.Protocol.forKey_append, forKey_toList, forKey_toList,
              Dispatch.Protocol.serveAll_append] at accepted ⊢
            -- the removal comes before the insertion, also where both are of one key
            have removed := skLists_if (.remove piece.pkId) lists
              fun answered answeredMem => accepted answered (List.mem_append_left _ answeredMem)
            have inserted := skLists_if (.insert piece.pkId (unique.map ConflictOp.name)) removed
              fun answered answeredMem => accepted answered (List.mem_append_right _ answeredMem)
            rw [skItem_out] at inserted
            rw [skItem_into] at inserted
            exact inserted
          · rw [if_neg differs] at accepted ⊢
            rw [if_neg differs, Change.apply_none]
            exact lists
      | rk field =>
          rw [elsewhere (by rw [isOrigin]; exact (by decide : "rk" ≠ "sk")), skChange]
          simp only [isOrigin, Change.apply_none]
          exact lists
  | extent =>
      rw [elsewhere (by rw [isOrigin]; exact (by decide : "partition" ≠ "sk")), skChange]
      simp only [isOrigin, Change.apply_none]
      exact lists
  | guard guard =>
      rw [elsewhere (by rw [isOrigin]; exact (by decide : "deleted_refs" ≠ "sk")), skChange]
      simp only [isOrigin, Change.apply_none]
      exact lists

theorem forKey_singleton {kinds : IndexKinds (TypedResident TreeResident)} (target : DatumId)
    (indexKind : String) (payload : Bytes) :
    (indexProtocol kinds).forKey target
        ([PendingIndexUpdate.mk target indexKind payload].map .update) =
      [.update ⟨target, indexKind, payload⟩] := by
  simp [Dispatch.Protocol.forKey, indexProtocol, IndexTask.target]

theorem rankKey_length {value : Option FieldValue} {rankKey : Bytes}
    (ranks : value.bind encodeRankKey = some rankKey) : rankKey.length = 8 := by
  rcases Option.bind_eq_some_iff.mp ranks with ⟨_, _, encoded⟩
  exact encodeRankKey_length encoded

/-- A rank tree moves the datum from its old rank to its new one. -/
theorem rkLists_tasksAt (separate : schema.Separate fromName occurring)
    (declared : piece.Declared schema occurring) {typeName field : String}
    (derives : schema.Derives occurring (.rk typeName field))
    {slot : Slot (TypedResident TreeResident)} {listing : Set (Bytes × DatumId)}
    (lists : slot.RkLists query execute (rkKey fromName typeName field) listing) :
    Slot.RkLists query execute (rkKey fromName typeName field)
      ((indexProtocol (Slot.typedKinds query execute)).serveAll slot
        (piece.tasksAt query execute fromName (rkKey fromName typeName field))).1
      ((piece.rkChange typeName field).apply listing) := by
  have elsewhere : ¬piece.Aims occurring (.rk typeName field) →
      piece.tasksAt query execute fromName (rkKey fromName typeName field) = [] :=
    tasksAt_eq_nil separate declared derives
  have other : piece.origin.word ≠ "rk" →
      piece.tasksAt query execute fromName (rkKey fromName typeName field) = [] :=
    fun different => elsewhere fun aims => different (word_of_aims aims).symm
  cases isOrigin : piece.origin with
  | index index =>
      cases index with
      | sk skField unique =>
          rw [other (by rw [isOrigin]; exact (by decide : "sk" ≠ "rk")), rkChange]
          simp only [isOrigin, Change.apply_none]
          exact lists
      | rk itsField =>
          rw [rkChange]
          simp only [isOrigin]
          by_cases own : piece.tracked.typeDef.name = typeName ∧ itsField = field
          · rcases own with ⟨rfl, rfl⟩
            rw [tasksAt, updates_rk isOrigin]
            by_cases differs : changed (piece.old itsField) (piece.new itsField) = true
            · have all : piece.tracked.typeDef.name = piece.tracked.typeDef.name ∧
                  itsField = itsField ∧ changed (piece.old itsField) (piece.new itsField) = true :=
                ⟨rfl, rfl, differs⟩
              rw [if_pos differs, if_pos all]
              by_cases unranked : (((piece.old itsField).bind encodeRankKey).isNone &&
                  ((piece.new itsField).bind encodeRankKey).isNone) = true
              · rw [if_pos unranked]
                rw [Bool.and_eq_true, Option.isNone_iff_eq_none, Option.isNone_iff_eq_none]
                  at unranked
                rw [rkItem, rkItem, unranked.1, unranked.2, Option.map_none]
                change Slot.RkLists query execute _ slot (Change.none.apply listing)
                rw [Change.apply_none]
                exact lists
              · rw [if_neg unranked, forKey_singleton, serveAll_update]
                exact lists.serve (fun _ => rankKey_length) fun _ => rankKey_length
            · have same : ¬(piece.tracked.typeDef.name = piece.tracked.typeDef.name ∧
                  itsField = itsField ∧
                    changed (piece.old itsField) (piece.new itsField) = true) :=
                fun all => differs all.2.2
              rw [if_neg differs, if_neg same, Change.apply_none]
              exact lists
          · have notAimed : ¬piece.Aims occurring (.rk typeName field) := by
              unfold Aims
              rw [isOrigin]
              intro aims
              cases aims
              exact own ⟨rfl, rfl⟩
            rw [elsewhere notAimed, if_neg fun all => own ⟨all.1, all.2.1⟩, Change.apply_none]
            exact lists
  | extent =>
      rw [other (by rw [isOrigin]; exact (by decide : "partition" ≠ "rk")), rkChange]
      simp only [isOrigin, Change.apply_none]
      exact lists
  | guard guard =>
      rw [other (by rw [isOrigin]; exact (by decide : "deleted_refs" ≠ "rk")), rkChange]
      simp only [isOrigin, Change.apply_none]
      exact lists

/-- An extent is joined by what an op creates and left by what it deletes. -/
theorem partitionLists_tasksAt (separate : schema.Separate fromName occurring)
    (declared : piece.Declared schema occurring) {typeName : String}
    (derives : schema.Derives occurring (.partition typeName "all"))
    {slot : Slot (TypedResident TreeResident)} {listing : Set DatumId}
    (lists : slot.PartitionLists query execute (extentKey fromName typeName) listing) :
    Slot.PartitionLists query execute (extentKey fromName typeName)
      ((indexProtocol (Slot.typedKinds query execute)).serveAll slot
        (piece.tasksAt query execute fromName (extentKey fromName typeName))).1
      ((piece.extentChange typeName).apply listing) := by
  have elsewhere : ¬piece.Aims occurring (.partition typeName "all") →
      piece.tasksAt query execute fromName (extentKey fromName typeName) = [] :=
    tasksAt_eq_nil separate declared derives
  cases isOrigin : piece.origin with
  | index index =>
      have different : ¬piece.Aims occurring (.partition typeName "all") := by
        intro aims
        have words := word_of_aims aims
        rw [isOrigin] at words
        cases index with
        | sk field unique => exact absurd words (by decide : "partition" ≠ "sk")
        | rk field => exact absurd words (by decide : "partition" ≠ "rk")
      rw [elsewhere different, extentChange]
      simp only [isOrigin, Change.apply_none]
      exact lists
  | extent =>
      rw [extentChange]
      simp only [isOrigin]
      by_cases own : piece.tracked.typeDef.name = typeName
      · subst own
        have updates : piece.updates fromName =
            extentUpdates fromName piece.pkId piece.tracked := by
          unfold updates
          simp only [isOrigin]
        rw [tasksAt, updates, extentUpdates]
        by_cases tracks : piece.tracked.typeDef.trackExtent = true
        · have both : piece.tracked.typeDef.name = piece.tracked.typeDef.name ∧
              piece.tracked.typeDef.trackExtent = true := ⟨rfl, tracks⟩
          rw [if_pos tracks, if_pos both]
          cases before : piece.tracked.before with
          | none =>
              cases after : piece.tracked.after with
              | none =>
                  change Slot.PartitionLists query execute _ slot (Change.none.apply listing)
                  rw [Change.apply_none]
                  exact lists
              | some values =>
                  dsimp only
                  rw [forKey_singleton, serveAll_update]
                  exact lists.serve (.insert piece.pkId)
          | some values =>
              cases after : piece.tracked.after with
              | none =>
                  dsimp only
                  rw [forKey_singleton, serveAll_update]
                  exact lists.serve (.remove piece.pkId)
              | some others =>
                  change Slot.PartitionLists query execute _ slot (Change.none.apply listing)
                  rw [Change.apply_none]
                  exact lists
        · rw [if_neg tracks, if_neg fun both => tracks both.2, Change.apply_none]
          exact lists
      · have notAimed : ¬piece.Aims occurring (.partition typeName "all") := by
          unfold Aims
          rw [isOrigin]
          intro aims
          cases aims
          exact own rfl
        rw [elsewhere notAimed, if_neg fun both => own both.1, Change.apply_none]
        exact lists
  | guard guard =>
      have different : ¬piece.Aims occurring (.partition typeName "all") := by
        intro aims
        have words := word_of_aims aims
        rw [isOrigin] at words
        exact absurd words (by decide : "partition" ≠ "deleted_refs")
      rw [elsewhere different, extentChange]
      simp only [isOrigin, Change.apply_none]
      exact lists

end Piece

end Seisin
