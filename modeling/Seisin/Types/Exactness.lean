import Seisin.Lib.Transition
import Seisin.Types.Outcomes

/-!
# Exactness of the indexes

Between typed ops, every index lists what it should: a secondary key the pks that have its value, a
rank tree each existing pk once, at the rank of its value, and an extent the pks that exist.  The
comparison that updates are due to takes the two zeros of a floating-point field for one value: an op
that turns one into the other leaves the datum under its old key.
-/

namespace Seisin

open Upkeep Transition

/-! ## What the indexes have to list -/

namespace Database

variable {Resident : Type}

/-- The pks whose value for a field has a key. -/
def skListing (database : Database Resident) (schema : Schema) (fromName : Bytes → DatumId)
    (typeDef : DatumTypeDef) (field : String) (key : DatumId) : Set DatumId :=
  {pk | schema pk = some typeDef ∧
    (database.fieldValue typeDef field pk).bind (skKey fromName typeDef.name field) = some key}

/-- The pks with the ranks of their values for a field. -/
def rkListing (database : Database Resident) (schema : Schema) (typeDef : DatumTypeDef)
    (field : String) : Set (Bytes × DatumId) :=
  {item | schema item.2 = some typeDef ∧
    (database.fieldValue typeDef field item.2).bind encodeRankKey = some item.1}

/-- The pks that exist. -/
def extentListing (database : Database Resident) (schema : Schema) (typeDef : DatumTypeDef) :
    Set DatumId :=
  {pk | schema pk = some typeDef ∧ (database.store pk).isSome}

end Database

section Exactness

variable (query : TreeResident → Bytes → Except String Bytes)
  (execute : TreeResident → Bytes → TreeResident × Except String Bytes)

/-- Each index of the schema lists what it has to. -/
structure Exact (schema : Schema) (fromName : Bytes → DatumId) (occurring : Set Bytes)
    (database : Database (TypedResident TreeResident)) : Prop where
  sk : ∀ pkId typeDef field unique, schema pkId = some typeDef →
    .sk field unique ∈ typeDef.indexes → ∀ bytes ∈ occurring,
      let key := (DerivedKey.sk typeDef.name field bytes).id fromName
      (database key).SkLists query execute key
        (database.skListing schema fromName typeDef field key)
  rk : ∀ pkId typeDef field, schema pkId = some typeDef → .rk field ∈ typeDef.indexes →
    let key := rkKey fromName typeDef.name field
    (database key).RkLists query execute key (database.rkListing schema typeDef field)
  extent : ∀ pkId typeDef, schema pkId = some typeDef → typeDef.trackExtent = true →
    let key := extentKey fromName typeDef.name
    (database key).PartitionLists query execute key (database.extentListing schema typeDef)

end Exactness

/-! ## One op -/

namespace IndexDef

def field : IndexDef → String
  | .sk field _ => field
  | .rk field => field

end IndexDef

namespace TypedOp

variable {query : TreeResident → Bytes → Except String Bytes}
  {execute : TreeResident → Bytes → TreeResident × Except String Bytes} {env : TypedEnv}
  {schema : Schema} {occurring : Set Bytes} {op : TypedOp}
  {database next : Database (TypedResident TreeResident)} {tracked : Tracked} {ctx : OpContext}
  {later : List PendingIndexUpdate}

/-- The op leaves an indexed field of a datum at a zero of the other sign than it was. -/
def SwapsZeros (env : TypedEnv) (schema : Schema)
    (database : Database (TypedResident TreeResident)) (op : TypedOp) : Prop :=
  ∃ pkId typeDef index values first second, schema pkId = some typeDef ∧
    index ∈ typeDef.indexes ∧ op.writes env database pkId = some (some values) ∧
    database.fieldValue typeDef index.field pkId = some (.f64 first) ∧
    (typeDef.fieldIdx index.field).bind (fieldOf (some values)) = some (.f64 second) ∧
    first.isZero = true ∧ second.isZero = true ∧ first ≠ second

namespace Outcome

section Settled

variable (outcome : op.Outcome env (Slot.typedKinds query execute) schema database next
    tracked ctx later) (drains : ∀ entries, (env.drainOrder entries).Perm entries)
  (separate : schema.Separate env.fromName occurring)
  (admitted : op.Admitted env schema occurring database)
  (legible : Legible schema occurring database)

include outcome drains separate admitted legible

/-- A part of a declaration is of a datum that was written. -/
theorem turns_of_mem {piece : Piece} (pieceMem : piece ∈ pieces env tracked) :
    Turns schema database next piece.pkId piece.tracked := by
  rcases (mem_pieces drains).mp pieceMem with ⟨found, ofTracked⟩
  exact outcome.turns drains separate admitted legible found (touched_of_mem_ofTracked ofTracked)

theorem fieldValue_old {piece : Piece} (pieceMem : piece ∈ pieces env tracked) (field : String) :
    database.fieldValue piece.tracked.typeDef field piece.pkId = piece.old field := by
  have turns := outcome.turns_of_mem drains separate admitted legible pieceMem
  rw [Database.fieldValue, Database.valueOf_eq turns.before]
  rfl

theorem fieldValue_new {piece : Piece} (pieceMem : piece ∈ pieces env tracked) (field : String) :
    next.fieldValue piece.tracked.typeDef field piece.pkId = piece.new field := by
  have turns := outcome.turns_of_mem drains separate admitted legible pieceMem
  rw [Database.fieldValue, Database.valueOf_eq turns.after]
  rfl

/-- A datum is left as it was, or all parts of its declaration are among those visited. -/
theorem unchanged_or_visited {pkId : DatumId} {typeDef : DatumTypeDef}
    (typed : schema pkId = some typeDef) :
    next.store pkId = database.store pkId ∨
      ∃ entry, entry.typeDef = typeDef ∧ tracked.lookup pkId = some entry ∧
        entry.touched = true := by
  cases written : op.writes env database pkId with
  | none => exact Or.inl (outcome.unchanged drains separate admitted legible typed written)
  | some value =>
      right
      cases found : tracked.lookup pkId with
      | none =>
          rw [outcome.untracked pkId found] at written
          cases written
      | some entry =>
          have reflects := outcome.entries pkId entry found
          refine ⟨entry, ?_, rfl, ?_⟩
          · exact Option.some.inj (reflects.typed.symm.trans typed)
          · by_contra untouched
            rw [reflects.after, if_neg untouched] at written
            cases written

/-- Where no zero is swapped, a part that schedules nothing has the keys it had. -/
theorem keys_eq (steady : ¬op.SwapsZeros env schema database) {piece : Piece}
    (pieceMem : piece ∈ pieces env tracked) {index : IndexDef} (isIndex : piece.origin = .index index)
    (same : changed (piece.old index.field) (piece.new index.field) = false) :
    (piece.old index.field).bind skValueBytes = (piece.new index.field).bind skValueBytes ∧
      (piece.old index.field).bind encodeRankKey = (piece.new index.field).bind encodeRankKey := by
  apply keys_eq_of_not_changed same
  intro first second isOld isNew zero zeroToo
  by_contra differ
  rcases (mem_pieces drains).mp pieceMem with ⟨found, ofTracked⟩
  have reflects := outcome.entries piece.pkId piece.tracked found
  have declared := outcome.declared drains admitted legible pieceMem
  have part := declared.part
  rw [isIndex] at part
  cases after : piece.tracked.after with
  | none =>
      rw [Piece.new, after] at isNew
      rcases Option.bind_eq_some_iff.mp isNew with ⟨_, _, impossible⟩
      cases impossible
  | some values =>
      refine steady ⟨piece.pkId, piece.tracked.typeDef, index, values, first, second,
        reflects.typed, part, ?_, ?_, ?_, zero, zeroToo, differ⟩
      · rw [reflects.after, if_pos (touched_of_mem_ofTracked ofTracked), after]
      · rw [outcome.fieldValue_old drains separate admitted legible pieceMem]
        exact isOld
      · rw [← after]
        exact isNew

/-! ### Secondary keys -/

/-- A part that names a pk under a secondary key is one of the field that the key is derived of. -/
theorem sk_owner {piece : Piece} (pieceMem : piece ∈ pieces env tracked) {pkId : DatumId}
    {typeDef : DatumTypeDef} {field : String} {bytes : Bytes}
    (derives : schema.Derives occurring (.sk typeDef.name field bytes))
    (typed : schema pkId = some typeDef) {itsField : String} {unique : Option ConflictOp}
    (isSk : piece.origin = .index (.sk itsField unique)) {value : Option FieldValue}
    (isValue : value = piece.old itsField ∨ value = piece.new itsField) {item : DatumId}
    (keyed : piece.skItem env.fromName ((DerivedKey.sk typeDef.name field bytes).id env.fromName)
      itsField value = some item) :
    piece.pkId = item ∧ piece.tracked.typeDef = typeDef ∧ itsField = field ∧
      value.bind (skKey env.fromName typeDef.name field) =
        some ((DerivedKey.sk typeDef.name field bytes).id env.fromName) := by
  unfold Piece.skItem at keyed
  split at keyed
  · rename_i toKey
    rw [Option.some.injEq] at keyed
    have declared := outcome.declared drains admitted legible pieceMem
    have part := declared.part
    rw [isSk] at part
    rcases Option.bind_eq_some_iff.mp toKey with ⟨one, isOne, key⟩
    rcases Option.map_eq_some_iff.mp key with ⟨itsBytes, hasBytes, sameId⟩
    have occurs : itsBytes ∈ occurring := by
      rcases isValue with rfl | rfl
      · rcases Option.bind_eq_some_iff.mp isOne with ⟨idx, _, inDatum⟩
        exact declared.occursBefore idx one itsBytes inDatum hasBytes
      · rcases Option.bind_eq_some_iff.mp isOne with ⟨idx, _, inDatum⟩
        exact declared.occursAfter idx one itsBytes inDatum hasBytes
    have same := separate.keys (.sk piece.tracked.typeDef.name itsField itsBytes) _
      (.sk declared.typed part occurs) derives sameId
    rw [DerivedKey.sk.injEq] at same
    have sameType := separate.names _ _ _ _ declared.typed typed same.1
    rw [sameType, same.2.1] at toKey
    exact ⟨keyed, sameType, same.2.1, toKey⟩
  · cases keyed

end Settled

theorem mem_pieces_index (drains : ∀ entries, (env.drainOrder entries).Perm entries)
    {pkId : DatumId} {entry : TrackedDatum} (found : tracked.lookup pkId = some entry)
    (touched : entry.touched = true) {index : IndexDef} (indexed : index ∈ entry.typeDef.indexes) :
    ⟨pkId, entry, .index index⟩ ∈ pieces env tracked := by
  refine (mem_pieces drains).mpr ⟨found, ?_⟩
  rw [Piece.ofTracked, if_pos touched]
  exact List.mem_append_left _ (List.mem_append_left _ (List.mem_map_of_mem indexed))

theorem mem_pieces_extent (drains : ∀ entries, (env.drainOrder entries).Perm entries)
    {pkId : DatumId} {entry : TrackedDatum} (found : tracked.lookup pkId = some entry)
    (touched : entry.touched = true) : ⟨pkId, entry, .extent⟩ ∈ pieces env tracked := by
  refine (mem_pieces drains).mpr ⟨found, ?_⟩
  rw [Piece.ofTracked, if_pos touched]
  exact List.mem_append_left _ (List.mem_append_right _ (List.mem_singleton_self _))

section Settles

variable (outcome : op.Outcome env (Slot.typedKinds query execute) schema database next
    tracked ctx later) (drains : ∀ entries, (env.drainOrder entries).Perm entries)
  (separate : schema.Separate env.fromName occurring)
  (admitted : op.Admitted env schema occurring database)
  (legible : Legible schema occurring database)
  (steady : ¬op.SwapsZeros env schema database)

include outcome drains separate admitted legible steady

theorem skSettles {pkId : DatumId} {typeDef : DatumTypeDef} {field : String}
    {unique : Option ConflictOp} {bytes : Bytes} (typed : schema pkId = some typeDef)
    (indexed : .sk field unique ∈ typeDef.indexes) (occurs : bytes ∈ occurring) (item : DatumId) :
    let key := (DerivedKey.sk typeDef.name field bytes).id env.fromName
    Settles ((pieces env tracked).map (Piece.skChange env.fromName key)) item
      (item ∈ database.skListing schema env.fromName typeDef field key)
      (item ∈ next.skListing schema env.fromName typeDef field key) := by
  intro key
  have derives : schema.Derives occurring (.sk typeDef.name field bytes) :=
    .sk typed indexed occurs
  refine ⟨?_, ?_, ?_⟩
  · intro change changeMem comes
    rcases List.mem_map.mp changeMem with ⟨piece, pieceMem, rfl⟩
    have turns := outcome.turns_of_mem drains separate admitted legible pieceMem
    rcases Piece.skChange_cases env.fromName key piece with
      none | ⟨itsField, itsUnique, isSk, differs⟩
    · rw [none] at comes
      cases comes
    · rw [Piece.skChange_of_changed isSk differs] at comes
      rcases outcome.sk_owner drains separate admitted legible pieceMem derives typed isSk
        (Or.inr rfl) comes with ⟨rfl, rfl, rfl, keyed⟩
      refine ⟨turns.typed, ?_⟩
      rw [outcome.fieldValue_new drains separate admitted legible pieceMem]
      exact keyed
  · intro change changeMem goes after
    rcases List.mem_map.mp changeMem with ⟨piece, pieceMem, rfl⟩
    rcases Piece.skChange_cases env.fromName key piece with
      none | ⟨itsField, itsUnique, isSk, differs⟩
    · rw [none] at goes
      cases goes
    · rw [Piece.skChange_of_changed isSk differs] at goes ⊢
      rcases outcome.sk_owner drains separate admitted legible pieceMem derives typed isSk
        (Or.inl rfl) goes with ⟨rfl, rfl, rfl, _⟩
      have keyed := after.2
      rw [outcome.fieldValue_new drains separate admitted legible pieceMem] at keyed
      exact Piece.skItem_of_keyed keyed
  · by_cases owned : schema item = some typeDef
    · rcases outcome.unchanged_or_visited drains separate admitted legible owned with
        kept | ⟨entry, rfl, found, touched⟩
      · right
        simp only [Database.skListing, Set.mem_ofPred_eq, Database.fieldValue, Database.valueOf,
          kept]
      · have pieceMem := mem_pieces_index drains found touched indexed
        have old := outcome.fieldValue_old drains separate admitted legible pieceMem field
        have new := outcome.fieldValue_new drains separate admitted legible pieceMem field
        by_cases differs : changed (Piece.old ⟨item, entry, .index (.sk field unique)⟩ field)
            (Piece.new ⟨item, entry, .index (.sk field unique)⟩ field) = true
        · left
          refine ⟨_, List.mem_map_of_mem pieceMem, ?_, ?_⟩
          · intro before
            rw [Piece.skChange_of_changed rfl differs]
            exact Piece.skItem_of_keyed (old ▸ before.2)
          · intro after
            rw [Piece.skChange_of_changed rfl differs]
            exact Piece.skItem_of_keyed (new ▸ after.2)
        · right
          have keys := (outcome.keys_eq drains separate admitted legible steady pieceMem rfl
            (Bool.eq_false_iff.mpr differs)).1
          refine and_congr_right fun _ => ?_
          rw [old, new, bind_skKey, bind_skKey]
          exact iff_of_eq (congrArg (fun bytes => Option.map _ bytes = some key) keys)
    · right
      constructor
      · exact fun before => absurd before.1 owned
      · exact fun after => absurd after.1 owned

theorem rkSettles {pkId : DatumId} {typeDef : DatumTypeDef} {field : String}
    (typed : schema pkId = some typeDef) (indexed : .rk field ∈ typeDef.indexes)
    (item : Bytes × DatumId) :
    Settles ((pieces env tracked).map (Piece.rkChange typeDef.name field)) item
      (item ∈ database.rkListing schema typeDef field)
      (item ∈ next.rkListing schema typeDef field) := by
  have owner : ∀ piece ∈ pieces env tracked, piece.tracked.typeDef.name = typeDef.name →
      piece.tracked.typeDef = typeDef := by
    intro piece pieceMem named
    have turns := outcome.turns_of_mem drains separate admitted legible pieceMem
    exact separate.names _ _ _ _ turns.typed typed named
  refine ⟨?_, ?_, ?_⟩
  · intro change changeMem comes
    rcases List.mem_map.mp changeMem with ⟨piece, pieceMem, rfl⟩
    have turns := outcome.turns_of_mem drains separate admitted legible pieceMem
    rcases Piece.rkChange_cases typeDef.name field piece with none | ⟨isRk, named, differs⟩
    · rw [none] at comes
      cases comes
    · rw [Piece.rkChange_of_changed isRk named differs] at comes
      rcases Piece.rkItem_eq_some.mp comes with ⟨isPk, ranks⟩
      have same := owner piece pieceMem named
      subst same
      have value := outcome.fieldValue_new drains separate admitted legible pieceMem field
      rw [isPk] at value
      refine ⟨isPk ▸ turns.typed, ?_⟩
      rw [value]
      exact ranks
  · intro change changeMem goes after
    rcases List.mem_map.mp changeMem with ⟨piece, pieceMem, rfl⟩
    rcases Piece.rkChange_cases typeDef.name field piece with none | ⟨isRk, named, differs⟩
    · rw [none] at goes
      cases goes
    · rw [Piece.rkChange_of_changed isRk named differs] at goes ⊢
      rcases Piece.rkItem_eq_some.mp goes with ⟨isPk, _⟩
      have same := owner piece pieceMem named
      subst same
      have value := outcome.fieldValue_new drains separate admitted legible pieceMem field
      rw [isPk] at value
      exact Piece.rkItem_eq_some.mpr ⟨isPk, value ▸ after.2⟩
  · by_cases owned : schema item.2 = some typeDef
    · rcases outcome.unchanged_or_visited drains separate admitted legible owned with
        kept | ⟨entry, rfl, found, touched⟩
      · right
        simp only [Database.rkListing, Set.mem_ofPred_eq, Database.fieldValue, Database.valueOf,
          kept]
      · have pieceMem := mem_pieces_index drains found touched indexed
        have old := outcome.fieldValue_old drains separate admitted legible pieceMem field
        have new := outcome.fieldValue_new drains separate admitted legible pieceMem field
        by_cases differs : changed (Piece.old ⟨item.2, entry, .index (.rk field)⟩ field)
            (Piece.new ⟨item.2, entry, .index (.rk field)⟩ field) = true
        · left
          refine ⟨_, List.mem_map_of_mem pieceMem, ?_, ?_⟩
          · intro before
            rw [Piece.rkChange_of_changed rfl rfl differs]
            exact Piece.rkItem_eq_some.mpr ⟨rfl, old ▸ before.2⟩
          · intro after
            rw [Piece.rkChange_of_changed rfl rfl differs]
            exact Piece.rkItem_eq_some.mpr ⟨rfl, new ▸ after.2⟩
        · right
          have keys := (outcome.keys_eq drains separate admitted legible steady pieceMem rfl
            (Bool.eq_false_iff.mpr differs)).2
          refine and_congr_right fun _ => ?_
          rw [old, new]
          exact iff_of_eq (congrArg (· = some item.1) keys)
    · right
      constructor
      · exact fun before => absurd before.1 owned
      · exact fun after => absurd after.1 owned

end Settles

section Kept

variable (outcome : op.Outcome env (Slot.typedKinds query execute) schema database next
    tracked ctx later) (drains : ∀ entries, (env.drainOrder entries).Perm entries)
  (separate : schema.Separate env.fromName occurring)
  (admitted : op.Admitted env schema occurring database)
  (legible : Legible schema occurring database)

include outcome drains separate admitted legible

theorem extentSettles {pkId : DatumId} {typeDef : DatumTypeDef}
    (typed : schema pkId = some typeDef) (tracks : typeDef.trackExtent = true) (item : DatumId) :
    Settles ((pieces env tracked).map (Piece.extentChange typeDef.name)) item
      (item ∈ database.extentListing schema typeDef) (item ∈ next.extentListing schema typeDef) := by
  refine ⟨?_, ?_, ?_⟩
  · intro change changeMem comes
    rcases List.mem_map.mp changeMem with ⟨piece, pieceMem, rfl⟩
    have turns := outcome.turns_of_mem drains separate admitted legible pieceMem
    rcases Piece.extentChange_cases typeDef.name piece with none | ⟨isExtent, named, tracks⟩
    · rw [none] at comes
      cases comes
    · rw [Piece.extentChange_of_tracks piece isExtent named tracks] at comes
      rcases Option.ite_none_right_eq_some.mp comes with ⟨⟨_, isThere⟩, same⟩
      have isPk : piece.pkId = item := Option.some.inj same
      subst isPk
      refine ⟨separate.names _ _ _ _ turns.typed typed named ▸ turns.typed, ?_⟩
      rw [decodeStored_isSome turns.after]
      exact isThere
  · intro change changeMem goes after
    rcases List.mem_map.mp changeMem with ⟨piece, pieceMem, rfl⟩
    have turns := outcome.turns_of_mem drains separate admitted legible pieceMem
    rcases Piece.extentChange_cases typeDef.name piece with none | ⟨isExtent, named, tracks⟩
    · rw [none] at goes
      cases goes
    · rw [Piece.extentChange_of_tracks piece isExtent named tracks] at goes
      rcases Option.ite_none_right_eq_some.mp goes with ⟨⟨gone, _⟩, same⟩
      have isPk : piece.pkId = item := Option.some.inj same
      subst isPk
      have isThere := after.2
      rw [decodeStored_isSome turns.after, gone] at isThere
      cases isThere
  · by_cases owned : schema item = some typeDef
    · rcases outcome.unchanged_or_visited drains separate admitted legible owned with
        kept | ⟨entry, rfl, found, touched⟩
      · right
        simp only [Database.extentListing, Set.mem_ofPred_eq, kept]
      · have pieceMem := mem_pieces_extent drains found touched
        have turns := outcome.turns drains separate admitted legible found touched
        have before := decodeStored_isSome turns.before
        have after := decodeStored_isSome turns.after
        by_cases stays : entry.before.isSome = entry.after.isSome
        · right
          simp only [Database.extentListing, Set.mem_ofPred_eq, before, after, stays]
        · left
          refine ⟨_, List.mem_map_of_mem pieceMem, ?_, ?_⟩
          · intro listed
            have was := listed.2
            rw [before] at was
            rw [was] at stays
            have gone : entry.after = none := by
              simpa using Ne.symm stays
            rw [Piece.extentChange_of_tracks ⟨item, entry, .extent⟩ rfl rfl tracks]
            exact if_pos ⟨gone, was⟩
          · intro listed
            have isThere := listed.2
            rw [after] at isThere
            rw [isThere] at stays
            have new : entry.before = none := by
              simpa using stays
            rw [Piece.extentChange_of_tracks ⟨item, entry, .extent⟩ rfl rfl tracks]
            exact if_pos ⟨new, isThere⟩
    · right
      constructor
      · exact fun before => absurd before.1 owned
      · exact fun after => absurd after.1 owned

/-- The datums stay legible. -/
theorem legible_next : Legible schema occurring next := by
  intro pkId typeDef typed
  rcases outcome.unchanged_or_visited drains separate admitted legible typed with
    kept | ⟨entry, rfl, found, touched⟩
  · rw [kept]
    exact legible pkId typeDef typed
  · have turns := outcome.turns drains separate admitted legible found touched
    refine ⟨entry.after, turns.after, ?_⟩
    intro values isValues
    have reflects := outcome.entries pkId entry found
    have written : op.writes env database pkId = some (some values) := by
      rw [reflects.after, if_pos touched, isValues]
    exact admitted.occurs written

end Kept

end Outcome

end TypedOp

variable {query : TreeResident → Bytes → Except String Bytes}
  {execute : TreeResident → Bytes → TreeResident × Except String Bytes} {env : TypedEnv}
  {schema : Schema} {occurring : Set Bytes} {op : TypedOp}
  {database next : Database (TypedResident TreeResident)}

/-! ## Runs -/

/-- A committed op that swaps no zeros keeps the indexes exact. -/
theorem Exact.commit (exact_ : Exact query execute schema env.fromName occurring database)
    (legible : Legible schema occurring database)
    (drains : ∀ entries, (env.drainOrder entries).Perm entries)
    (separate : schema.Separate env.fromName occurring)
    (admitted : op.Admitted env schema occurring database)
    (steady : ¬op.SwapsZeros env schema database)
    (commits : op.commit env (Slot.typedKinds query execute) database = some next) :
    Exact query execute schema env.fromName occurring next ∧ Legible schema occurring next := by
  rcases TypedOp.exists_outcome separate admitted commits with ⟨tracked, ctx, later, outcome⟩
  have declared : ∀ piece ∈ TypedOp.pieces env tracked, piece.Declared schema occurring :=
    fun piece pieceMem => outcome.declared drains admitted legible pieceMem
  refine ⟨⟨?_, ?_, ?_⟩, outcome.legible_next drains separate admitted legible⟩
  · intro pkId typeDef field unique typed indexed bytes occurs key
    have derives : schema.Derives occurring (.sk typeDef.name field bytes) :=
      .sk typed indexed occurs
    rcases outcome.served drains separate derives (by decide : "sk" ≠ "fk_pending") with
      ⟨slot, accepted⟩
    have kept : (next key).SkLists query execute key
        (applyAll (database.skListing schema env.fromName typeDef field key)
          ((TypedOp.pieces env tracked).map (Piece.skChange env.fromName key))) := by
      rw [slot]
      exact serveAll_flatMap (Slot.SkLists query execute key)
        (fun piece pieceMem _ _ lists => Piece.skLists_tasksAt separate (declared piece pieceMem)
          derives rfl lists) (exact_.sk pkId typeDef field unique typed indexed bytes occurs) accepted
    have settled := outcome.skSettles drains separate admitted legible steady typed indexed occurs
    rwa [Set.ext fun item => (settled item).mem_applyAll_iff Iff.rfl] at kept
  · intro pkId typeDef field typed indexed key
    have derives : schema.Derives occurring (.rk typeDef.name field) := .rk typed indexed
    rcases outcome.served drains separate derives (by decide : "rk" ≠ "fk_pending") with
      ⟨slot, accepted⟩
    have kept : (next key).RkLists query execute key
        (applyAll (database.rkListing schema typeDef field)
          ((TypedOp.pieces env tracked).map (Piece.rkChange typeDef.name field))) := by
      rw [show next key = _ from slot]
      exact serveAll_flatMap (Slot.RkLists query execute key)
        (fun piece pieceMem _ _ lists _ => Piece.rkLists_tasksAt separate (declared piece pieceMem)
          derives lists) (exact_.rk pkId typeDef field typed indexed) accepted
    have settled := outcome.rkSettles drains separate admitted legible steady typed indexed
    rwa [Set.ext fun item => (settled item).mem_applyAll_iff Iff.rfl] at kept
  · intro pkId typeDef typed tracks key
    have derives : schema.Derives occurring (.partition typeDef.name "all") := .extent typed tracks
    rcases outcome.served drains separate derives (by decide : "partition" ≠ "fk_pending") with
      ⟨slot, accepted⟩
    have kept : (next key).PartitionLists query execute key
        (applyAll (database.extentListing schema typeDef)
          ((TypedOp.pieces env tracked).map (Piece.extentChange typeDef.name))) := by
      rw [show next key = _ from slot]
      exact serveAll_flatMap (Slot.PartitionLists query execute key)
        (fun piece pieceMem _ _ lists _ => Piece.partitionLists_tasksAt separate
          (declared piece pieceMem) derives lists) (exact_.extent pkId typeDef typed tracks) accepted
    have settled := outcome.extentSettles drains separate admitted legible typed tracks
    rwa [Set.ext fun item => (settled item).mem_applyAll_iff Iff.rfl] at kept

/-- Typed ops one after another, from an empty database. -/
def typedSystem (env : TypedEnv) (kinds : IndexKinds (TypedResident TreeResident)) :
    System (Database (TypedResident TreeResident)) TypedOp where
  init := (· = Database.empty)
  step := fun database op => op.commit env kinds database

theorem fieldValue_empty (typeDef : DatumTypeDef) (field : String) (pkId : DatumId) :
    (Database.empty : Database (TypedResident TreeResident)).fieldValue typeDef field pkId =
      none := by
  unfold Database.fieldValue
  cases typeDef.fieldIdx field <;> rfl

theorem exact_empty (schema : Schema) (fromName : Bytes → DatumId) (occurring : Set Bytes) :
    Exact query execute schema fromName occurring Database.empty := by
  refine ⟨?_, ?_, ?_⟩
  · intro pkId typeDef field unique _ _ bytes _ key
    have nothing : (Database.empty : Database (TypedResident TreeResident)).skListing schema
        fromName typeDef field key = ∅ := by
      refine Set.eq_empty_of_forall_notMem fun item listed => ?_
      have keyed := listed.2
      rw [fieldValue_empty] at keyed
      cases keyed
    rw [nothing]
    exact Slot.skLists_empty
  · intro pkId typeDef field _ _ key
    have nothing : (Database.empty : Database (TypedResident TreeResident)).rkListing schema
        typeDef field = ∅ := by
      refine Set.eq_empty_of_forall_notMem fun item listed => ?_
      have ranks := listed.2
      rw [fieldValue_empty] at ranks
      cases ranks
    rw [nothing]
    exact Slot.rkLists_empty
  · intro pkId typeDef _ _ key
    have nothing : (Database.empty : Database (TypedResident TreeResident)).extentListing schema
        typeDef = ∅ := by
      refine Set.eq_empty_of_forall_notMem fun item listed => ?_
      cases listed.2
    rw [nothing]
    exact Slot.partitionLists_empty

theorem legible_empty (schema : Schema) (occurring : Set Bytes) :
    Legible schema occurring Database.empty := by
  intro pkId typeDef _
  exact ⟨none, rfl, nofun⟩

/-- In every run of typed ops none of which turns one zero of an indexed field into the other, the
indexes are exact between the ops. -/
theorem indexes_exact (query : TreeResident → Bytes → Except String Bytes)
    (execute : TreeResident → Bytes → TreeResident × Except String Bytes) (env : TypedEnv)
    (schema : Schema) (occurring : Set Bytes)
    (drains : ∀ entries, (env.drainOrder entries).Perm entries)
    (separate : schema.Separate env.fromName occurring)
    {database : Database (TypedResident TreeResident)}
    (reached : (typedSystem env (Slot.typedKinds query execute)).ReachableVia
      (fun before op => op.Admitted env schema occurring before ∧
        ¬op.SwapsZeros env schema before) database) :
    Exact query execute schema env.fromName occurring database := by
  have both : Exact query execute schema env.fromName occurring database ∧
      Legible schema occurring database := by
    apply reached.induction
    · rintro _ rfl
      exact ⟨exact_empty schema env.fromName occurring, legible_empty schema occurring⟩
    · intro before op after holds meets steps
      exact holds.1.commit holds.2 drains separate meets.1 meets.2 steps
  exact both.1

/-! ## Two zeros -/

/-- A datum id of version 7. -/
def readingId : DatumId := 0x70 * 2 ^ 72

def readingType : DatumTypeDef :=
  { DatumTypeDef.new "reading" with fields := [("level", .f64)], indexes := [.sk "level" none] }

def readingSchema : Schema := fun pkId => if pkId = readingId then some readingType else none

/-- Sets the level, which takes a number of index updates. -/
def setLevel (level : F64) (updates : ℕ) : TypedOp where
  prog := .set readingId readingType [.f64 level] fun _ => .done []
  cache := Cache.empty
  choices := List.replicate updates (.serve 0) ++ List.replicate updates (.hear 0)

def levelBytes (level : F64) : Bytes := ByteString.leBytes 8 level.bits.toNat

def positiveZero : F64 := ⟨0⟩

def negativeZero : F64 := ⟨0x8000000000000000⟩

/-- An id for every level. -/
def lastEight (name : Bytes) : DatumId := DatumId.fromBytes (name.drop (name.length - 8))

def readingEnv : TypedEnv := ⟨lastEight, id⟩

def noQuery (_ : TreeResident) (_ : Bytes) : Except String Bytes := .ok []

def noExecute (resident : TreeResident) (_ : Bytes) : TreeResident × Except String Bytes :=
  (resident, .ok [])

def readings : System (Database (TypedResident TreeResident)) TypedOp :=
  typedSystem readingEnv (Slot.typedKinds noQuery noExecute)

def levelKey (level : F64) : DatumId :=
  (DerivedKey.sk "reading" "level" (levelBytes level)).id lastEight

/-- The pks that an open list has. -/
def openList (slot : Slot (TypedResident TreeResident)) : Option (List DatumId) :=
  match slot.resident with
  | some (.sk entries) => some (entries.map Prod.fst)
  | _ => none

theorem exists_entries {slot : Slot (TypedResident TreeResident)} {pks : List DatumId}
    (isOpen : openList slot = some pks) :
    ∃ entries, slot.resident = some (.sk entries) ∧ entries.map Prod.fst = pks := by
  unfold openList at isOpen
  split at isOpen
  · rename_i entries resident
    exact ⟨entries, resident, Option.some.inj isOpen⟩
  · cases isOpen

/-- The pks under a key, and the key of the reading's own level. -/
def observed (key : DatumId) (database : Database (TypedResident TreeResident)) :
    Option (List DatumId) × Option DatumId :=
  (openList (database key),
    (database.fieldValue readingType "level" readingId).bind (skKey lastEight "reading" "level"))

theorem readingSchema_typed {pkId : DatumId} {typeDef : DatumTypeDef}
    (typed : readingSchema pkId = some typeDef) : pkId = readingId ∧ typeDef = readingType := by
  unfold readingSchema at typed
  split at typed
  · rename_i same
    exact ⟨same, (Option.some.inj typed).symm⟩
  · cases typed

theorem separate_readings {first second : F64} (differ : levelKey first ≠ levelKey second)
    (notReading : ∀ level, level = first ∨ level = second → levelKey level ≠ readingId) :
    readingSchema.Separate lastEight {levelBytes first, levelBytes second} := by
  have derived : ∀ key, readingSchema.Derives {levelBytes first, levelBytes second} key →
      ∃ level, (level = first ∨ level = second) ∧
        key = .sk "reading" "level" (levelBytes level) := by
    intro key derives
    cases derives with
    | sk declared indexed occurs =>
        rcases readingSchema_typed declared with ⟨rfl, rfl⟩
        cases List.mem_singleton.mp indexed
        rcases occurs with rfl | rfl
        · exact ⟨first, Or.inl rfl, rfl⟩
        · exact ⟨second, Or.inr rfl, rfl⟩
    | rk declared indexed =>
        rcases readingSchema_typed declared with ⟨rfl, rfl⟩
        cases List.mem_singleton.mp indexed
    | extent declared tracks =>
        rcases readingSchema_typed declared with ⟨rfl, rfl⟩
        cases tracks
    | pending declared constrained =>
        rcases readingSchema_typed declared with ⟨rfl, rfl⟩
        cases constrained
    | deleted declared guarded =>
        rcases readingSchema_typed declared with ⟨rfl, rfl⟩
        cases guarded
  refine ⟨?_, ?_, ?_, ?_⟩
  · intro pkId typeDef declared
    rcases readingSchema_typed declared with ⟨rfl, rfl⟩
    decide
  · intro one other typeDef otherDef declared otherDeclared _
    rw [(readingSchema_typed declared).2, (readingSchema_typed otherDeclared).2]
  · intro one other oneDerives otherDerives sameId
    rcases derived one oneDerives with ⟨level, isLevel, rfl⟩
    rcases derived other otherDerives with ⟨otherLevel, isOther, rfl⟩
    rcases isLevel with rfl | rfl
    · rcases isOther with rfl | rfl
      · rfl
      · exact absurd sameId differ
    · rcases isOther with rfl | rfl
      · exact absurd sameId.symm differ
      · rfl
  · intro key derives
    rcases derived key derives with ⟨level, isLevel, rfl⟩
    exact if_neg (notReading level isLevel)

theorem accesses_set (fromName : Bytes → DatumId) (store : Store) (pkId : DatumId)
    (typeDef : DatumTypeDef) (values : List FieldValue) (result : Bytes) :
    ∀ access ∈ ((TypedProg.set pkId typeDef values fun _ => .done result).interpret fromName store
        Overlay.empty).1,
      access.pkId = pkId ∧ access.typeDef = typeDef ∧
        ∀ written, access.written = some (some written) → written = values := by
  intro access accessMem
  simp only [TypedProg.interpret] at accessMem
  split at accessMem
  · cases accessMem
  · split at accessMem
    · cases List.mem_singleton.mp accessMem
      exact ⟨rfl, rfl, by rintro written ⟨⟩⟩
    · cases List.mem_singleton.mp accessMem
      exact ⟨rfl, rfl, fun written isWritten =>
        (Option.some.inj (Option.some.inj isWritten)).symm⟩

theorem accesses_setLevel (level : F64) (updates : ℕ) (store : Store) :
    ∀ access ∈ ((setLevel level updates).prog.interpret lastEight store Overlay.empty).1,
      access.pkId = readingId ∧ access.typeDef = readingType ∧
        ∀ values, access.written = some (some values) → values = [.f64 level] :=
  accesses_set lastEight store readingId readingType [.f64 level] []

theorem admitted_setLevel {level : F64} {updates : ℕ} {occurring : Set Bytes}
    (occurs : levelBytes level ∈ occurring) (database : Database (TypedResident TreeResident)) :
    (setLevel level updates).Admitted readingEnv readingSchema occurring database := by
  refine ⟨fun _ _ impossible => ?_, ?_⟩
  · cases impossible
  · intro access accessMem
    rcases accesses_setLevel level updates database.store access accessMem with ⟨isId, isType, isValue⟩
    refine ⟨⟨by rw [isId, isType]; exact if_pos rfl, ?_⟩, ?_⟩
    · intro values written value valueMem
      rw [isValue values written] at valueMem
      cases List.mem_singleton.mp valueMem
      trivial
    · intro values written value valueMem bytes hasBytes
      rw [isValue values written] at valueMem
      cases List.mem_singleton.mp valueMem
      cases hasBytes
      exact occurs

theorem steady_setLevel {level : F64} {updates : ℕ} (nonzero : level.isZero = false)
    (database : Database (TypedResident TreeResident)) :
    ¬(setLevel level updates).SwapsZeros readingEnv readingSchema database := by
  rintro ⟨pkId, typeDef, index, values, first, second, typed, indexed, written, _, isValue, _, zero,
    _⟩
  rcases readingSchema_typed typed with ⟨rfl, rfl⟩
  cases List.mem_singleton.mp indexed
  have isLevel : values = [.f64 level] := by
    unfold TypedOp.writes at written
    cases interpreted : ((setLevel level updates).prog.interpret readingEnv.fromName database.store
        Overlay.empty).2 with
    | none =>
        rw [interpreted] at written
        cases written
    | some outcome =>
        rw [interpreted] at written
        rcases TypedProg.exists_access _ interpreted written with
          before | ⟨access, accessMem, writes⟩
        · cases before
        · exact (accesses_setLevel level updates database.store access accessMem).2.2 values writes
  rw [isLevel] at isValue
  cases isValue
  rw [nonzero] at zero
  cases zero

theorem indexes_exact_reading : ∃ database,
    readings.exec Database.empty [setLevel positiveZero 1, setLevel ⟨1⟩ 2] = some database ∧
    Exact noQuery noExecute readingSchema lastEight {levelBytes positiveZero, levelBytes ⟨1⟩}
      database := by
  have separate : readingSchema.Separate lastEight {levelBytes positiveZero, levelBytes ⟨1⟩} := by
    refine separate_readings (by decide +kernel) ?_
    rintro level (rfl | rfl) <;> decide +kernel
  have runs : (readings.exec Database.empty
      [setLevel positiveZero 1, setLevel ⟨1⟩ 2]).isSome = true := by decide +kernel
  rcases Option.isSome_iff_exists.mp runs with ⟨database, executed⟩
  refine ⟨database, executed, ?_⟩
  rcases Option.bind_eq_some_iff.mp executed with ⟨middle, first, rest⟩
  rcases Option.bind_eq_some_iff.mp rest with ⟨last, second, same⟩
  cases same
  have start : ¬(setLevel positiveZero 1).SwapsZeros readingEnv readingSchema Database.empty := by
    rintro ⟨pkId, typeDef, index, _, _, _, _, _, _, isZero, _⟩
    rw [fieldValue_empty] at isZero
    cases isZero
  refine indexes_exact noQuery noExecute readingEnv readingSchema _ (fun _ => .refl _) separate
    ⟨Database.empty, rfl, .tail (setLevel ⟨1⟩ 2) (.tail (setLevel positiveZero 1) (.refl _) ?_ first) ?_
      second⟩
  · exact ⟨admitted_setLevel (Or.inl rfl) _, start⟩
  · exact ⟨admitted_setLevel (Or.inr rfl) _, steady_setLevel rfl _⟩

/-- A reading goes from one zero to the other, and stays listed under the key of the first. -/
theorem zero_listed_under_old_key :
    readingSchema.Separate lastEight {levelBytes positiveZero, levelBytes negativeZero} ∧
    ¬∀ database, readings.ReachableVia
      (fun before op => op.Admitted readingEnv readingSchema
        {levelBytes positiveZero, levelBytes negativeZero} before) database →
      Exact noQuery noExecute readingSchema lastEight
        {levelBytes positiveZero, levelBytes negativeZero} database := by
  refine ⟨separate_readings (by decide +kernel)
    (by rintro level (rfl | rfl) <;> decide +kernel), ?_⟩
  intro exact_
  have run : (readings.exec Database.empty [setLevel positiveZero 1, setLevel negativeZero 0]).map
      (observed (levelKey positiveZero)) =
        some (some [readingId], some (levelKey negativeZero)) := by
    decide +kernel
  rcases Option.map_eq_some_iff.mp run with ⟨database, executed, looks⟩
  rcases Option.bind_eq_some_iff.mp executed with ⟨middle, first, rest⟩
  rcases Option.bind_eq_some_iff.mp rest with ⟨last, second, same⟩
  cases same
  have lists := (exact_ database ⟨Database.empty, rfl, .tail (setLevel negativeZero 0)
    (.tail (setLevel positiveZero 1) (.refl _) (admitted_setLevel (Or.inl rfl) _) first)
    (admitted_setLevel (Or.inr rfl) _) second⟩).sk readingId readingType "level" none
      (if_pos rfl) (List.mem_singleton_self _) (levelBytes positiveZero) (Or.inl rfl)
  rcases lists with ⟨entries, opened, listed⟩
  rw [observed, Prod.mk.injEq] at looks
  rcases exists_entries looks.1 with ⟨others, resident, pks⟩
  have isOpen := opened.symm.trans (Slot.openFor_resident resident)
  cases isOpen
  have there := (listed readingId).mp (by rw [pks]; exact List.mem_singleton_self _)
  have moved := there.2
  have other := looks.2
  have same : levelKey negativeZero = levelKey positiveZero :=
    Option.some.inj (other.symm.trans moved)
  exact absurd same (by decide +kernel)

end Seisin
