import Seisin.Types.Maintenance

/-!
# What a committed op leaves at each home

A typed op that commits has left every datum it wrote as it wrote it and all others as they were, and
has had the updates of its pieces served at the homes of the indexes, in the order in which the code
visits the pieces.
-/

namespace Seisin

open Upkeep

/-! ## The values of datums -/

namespace Database

variable {Resident : Type}

/-- The value of a datum, if it exists and can be read. -/
def valueOf (database : Database Resident) (typeDef : DatumTypeDef) (pkId : DatumId) :
    Option (List FieldValue) :=
  (TypedEnv.decodeStored typeDef pkId (database.store pkId)).toOption.join

theorem valueOf_eq {database : Database Resident} {typeDef : DatumTypeDef} {pkId : DatumId}
    {value : Option (List FieldValue)}
    (decoded : TypedEnv.decodeStored typeDef pkId (database.store pkId) = .ok value) :
    database.valueOf typeDef pkId = value := by
  rw [valueOf, decoded]
  rfl

def fieldValue (database : Database Resident) (typeDef : DatumTypeDef) (field : String)
    (pkId : DatumId) : Option FieldValue :=
  (typeDef.fieldIdx field).bind (fieldOf (database.valueOf typeDef pkId))

end Database

/-- Every datum can be read, and the bytes that its values are keyed by occur. -/
def Legible (schema : Schema) (occurring : Set Bytes)
    (database : Database (TypedResident TreeResident)) : Prop :=
  ∀ pkId typeDef, schema pkId = some typeDef →
    ∃ value, TypedEnv.decodeStored typeDef pkId (database.store pkId) = .ok value ∧
      ∀ values, value = some values → ∀ one ∈ values, ∀ bytes, skValueBytes one = some bytes →
        bytes ∈ occurring

/-! ## Typed ops -/

/-- A typed op with what its thread had cached and the order in which its requests are served. -/
structure TypedOp where
  prog : TypedProg
  cache : Cache
  choices : List Dispatch.Choice

namespace TypedOp

/-- Runs the op, if it commits. -/
def commit (env : TypedEnv) (kinds : IndexKinds (TypedResident TreeResident))
    (database : Database (TypedResident TreeResident)) (op : TypedOp) :
    Option (Database (TypedResident TreeResident)) :=
  match transact env kinds op.prog op.cache op.choices database with
  | some (.committed _, next) => some next
  | _ => none

/-- The datums that the op leaves written. -/
def writes (env : TypedEnv) (database : Database (TypedResident TreeResident)) (op : TypedOp) :
    Overlay :=
  ((op.prog.interpret env.fromName database.store Overlay.empty).2.map Prod.snd).getD Overlay.empty

/-- The op uses each datum with its own type, and the bytes that written values are keyed by occur. -/
structure Admitted (env : TypedEnv) (schema : Schema) (occurring : Set Bytes)
    (database : Database (TypedResident TreeResident)) (op : TypedOp) : Prop where
  current : op.cache.Copies database.store
  accesses : ∀ access ∈ (op.prog.interpret env.fromName database.store Overlay.empty).1,
    access.Admitted schema ∧ ∀ values, access.written = some (some values) →
      ∀ one ∈ values, ∀ bytes, skValueBytes one = some bytes → bytes ∈ occurring

end TypedOp

/-- What a committed op has run, scheduled and left behind. -/
structure TypedOp.Outcome (env : TypedEnv) (kinds : IndexKinds (TypedResident TreeResident))
    (schema : Schema) (database next : Database (TypedResident TreeResident)) (op : TypedOp)
    (tracked : Tracked) (ctx : OpContext) (later : List PendingIndexUpdate) : Prop where
  staged : ∀ pkId, (op.writes env database).StagedAs schema pkId
    ((ctx.staged.lookup pkId).map Prod.fst)
  untracked : ∀ pkId, tracked.lookup pkId = none → op.writes env database pkId = none
  entries : ∀ pkId entry, tracked.lookup pkId = some entry →
    entry.Reflects schema database.store (op.writes env database) pkId
  updates : ctx.pendingIndexUpdates =
    ((env.drainOrder (tracked.entries.map fun entry => (entry.1, entry.2))).flatMap
      fun entry => Piece.ofTracked entry.1 entry.2).flatMap (Piece.updates env.fromName)
  checks : ctx.pendingExistsChecks =
    ((env.drainOrder (tracked.entries.map fun entry => (entry.1, entry.2))).flatMap
      fun entry => dropCalls env.fromName entry.1 entry.2).filterMap Scheduled.asCheck
  leaves : ctx.LeavesBehind kinds later database next

theorem TypedOp.exists_outcome {env : TypedEnv} {kinds : IndexKinds (TypedResident TreeResident)}
    {schema : Schema} {occurring : Set Bytes} {op : TypedOp}
    {database next : Database (TypedResident TreeResident)}
    (separate : schema.Separate env.fromName occurring)
    (admitted : op.Admitted env schema occurring database)
    (commits : op.commit env kinds database = some next) :
    ∃ tracked ctx later, op.Outcome env kinds schema database next tracked ctx later := by
  unfold commit at commits
  split at commits
  · rename_i result left transacts
    cases commits
    rcases OpContext.leavesBehind_of_transact transacts with ⟨ctx, opResult, later, ran, leaves⟩
    have compiled := TypedEnv.run_compile separate.versions op.prog
      (InStep.init op.cache admitted.current) fun access accessMem =>
        (admitted.accesses access accessMem).1
    have written : op.writes env database =
      ((op.prog.interpret env.fromName database.store Overlay.empty).2.map Prod.snd).getD
        Overlay.empty := rfl
    cases interpreted : (op.prog.interpret env.fromName database.store Overlay.empty).2 with
    | none =>
        rw [interpreted] at compiled
        rw [ran] at compiled
        cases compiled
    | some outcome =>
        rcases outcome with ⟨returned, final⟩
        rw [interpreted] at compiled written
        rcases compiled with ⟨reached, tracked, inStep, compiled⟩
        rw [Option.map_some, Option.getD_some] at written
        rw [compiled, TypedEnv.drop, TypedEnv.run_runScheduled, OpProg.run, Prod.mk.injEq,
          inStep.noUpdates, inStep.noChecks] at ran
        rcases ran with ⟨rfl, _⟩
        refine ⟨tracked, _, later, ?_, ?_, ?_, ?_, ?_, leaves⟩
        · rw [written]
          exact inStep.staged
        · rw [written]
          exact inStep.untracked
        · rw [written]
          exact inStep.entries
        · rw [List.nil_append, List.filterMap_flatMap, List.flatMap_assoc]
          exact congrArg₂ List.flatMap (funext fun entry => updates_dropCalls _ _ _) rfl
        · rfl
  · cases commits

/-! ## What an op leaves at each home -/

/-- Existence checks leave a home as it is. -/
theorem serveAll_checks {kinds : IndexKinds (TypedResident TreeResident)}
    (slot : Slot (TypedResident TreeResident)) {tasks : List IndexTask}
    (checks : ∀ task ∈ tasks, ∃ target, task = .check target) :
    ((indexProtocol kinds).serveAll slot tasks).1 = slot := by
  induction tasks with
  | nil => rfl
  | cons task tasks ih =>
      rcases checks task List.mem_cons_self with ⟨target, rfl⟩
      exact ih fun other otherMem => checks other (List.mem_cons_of_mem _ otherMem)

theorem decodeStored_isSome {typeDef : DatumTypeDef} {pkId : DatumId} {stored : Option Bytes}
    {value : Option (List FieldValue)}
    (decoded : TypedEnv.decodeStored typeDef pkId stored = .ok value) :
    stored.isSome = value.isSome := by
  cases stored with
  | none =>
      cases decoded
      rfl
  | some bytes =>
      unfold TypedEnv.decodeStored at decoded
      split at decoded
      · rename_i impossible
        cases impossible
      · split at decoded
        · cases decoded
        · cases decoded
          rfl

/-- A missing tracked reference is entered under the pending key of its field. -/
theorem pending_of_tracked {schema : Schema} (occurring : Set Bytes) {fromName : Bytes → DatumId}
    {pkId : DatumId} {tracked : TrackedDatum} (typed : schema pkId = some tracked.typeDef)
    {check : PendingExistsCheck} (scheduled : .check check ∈ dropCalls fromName pkId tracked)
    {update : PendingIndexUpdate} (entered : check.expect.tracked = some update) :
    ∃ key, schema.Derives occurring key ∧ key.word = "fk_pending" ∧
      update.target = key.id fromName := by
  unfold dropCalls at scheduled
  split at scheduled
  · rcases List.mem_append.mp scheduled with updates | checks
    · rcases List.mem_append.mp updates with indexes | extents
      · rcases List.mem_flatMap.mp indexes with ⟨index, _, ofIndex⟩
        rcases List.mem_map.mp ofIndex with ⟨_, _, impossible⟩
        cases impossible
      · rcases List.mem_map.mp extents with ⟨_, _, impossible⟩
        cases impossible
    · split at checks
      · split at checks
        · rcases List.mem_flatMap.mp checks with ⟨guard, _, ofGuard⟩
          unfold guardCalls at ofGuard
          split at ofGuard
          · cases ofGuard
          · split at ofGuard
            · cases List.mem_singleton.mp ofGuard
              cases entered
            · cases List.mem_singleton.mp ofGuard
        · cases checks
      · rcases List.mem_flatMap.mp checks with ⟨constraint, constraintMem, ofConstraint⟩
        refine ⟨.fkPending tracked.typeDef.name constraint.field, .pending typed constraintMem, rfl,
          ?_⟩
        unfold constraintCalls at ofConstraint
        split at ofConstraint
        · cases ofConstraint
        · split at ofConstraint
          · cases ofConstraint
          · split at ofConstraint
            · split at ofConstraint
              · cases ofConstraint
              · cases List.mem_singleton.mp ofConstraint
                cases resolution : constraint.resolution with
                | none =>
                    rw [resolution] at entered
                    cases entered
                | some conflictOp =>
                    rw [resolution] at entered
                    cases entered
                    rfl
            · cases ofConstraint
  · cases scheduled

theorem mem_filterMap_asCheck {calls : List Scheduled} {check : PendingExistsCheck} :
    check ∈ calls.filterMap Scheduled.asCheck ↔ .check check ∈ calls := by
  rw [List.mem_filterMap]
  constructor
  · rintro ⟨call, callMem, isCheck⟩
    cases call with
    | update update => cases isCheck
    | check other =>
        cases isCheck
        exact callMem
  · exact fun checkMem => ⟨_, checkMem, rfl⟩

namespace TypedOp

variable {query : TreeResident → Bytes → Except String Bytes}
  {execute : TreeResident → Bytes → TreeResident × Except String Bytes} {env : TypedEnv}
  {schema : Schema} {occurring : Set Bytes} {op : TypedOp}
  {database next : Database (TypedResident TreeResident)} {tracked : Tracked} {ctx : OpContext}
  {later : List PendingIndexUpdate}

/-- The parts of the declarations of everything the op wrote. -/
def pieces (env : TypedEnv) (tracked : Tracked) : List Piece :=
  (env.drainOrder (tracked.entries.map fun entry => (entry.1, entry.2))).flatMap
    fun entry => Piece.ofTracked entry.1 entry.2

theorem mem_drained (drains : ∀ entries, (env.drainOrder entries).Perm entries)
    {entry : DatumId × TrackedDatum} :
    entry ∈ env.drainOrder (tracked.entries.map fun entry => (entry.1, entry.2)) ↔
      tracked.lookup entry.1 = some entry.2 := by
  rw [(drains _).mem_iff, List.mem_map, ← Option.mem_def, AList.mem_lookup_iff]
  constructor
  · rintro ⟨⟨pkId, datum⟩, entryMem, rfl⟩
    exact entryMem
  · exact fun entryMem => ⟨⟨entry.1, entry.2⟩, entryMem, rfl⟩

theorem mem_pieces (drains : ∀ entries, (env.drainOrder entries).Perm entries) {piece : Piece} :
    piece ∈ pieces env tracked ↔ tracked.lookup piece.pkId = some piece.tracked ∧
      piece ∈ Piece.ofTracked piece.pkId piece.tracked := by
  unfold pieces
  rw [List.mem_flatMap]
  constructor
  · rintro ⟨⟨pkId, datum⟩, entryMem, pieceMem⟩
    have owner : piece.pkId = pkId ∧ piece.tracked = datum := by
      unfold Piece.ofTracked at pieceMem
      split at pieceMem
      · simp only [List.mem_append, List.mem_map, List.mem_singleton] at pieceMem
        rcases pieceMem with (⟨_, _, rfl⟩ | rfl) | rest
        · exact ⟨rfl, rfl⟩
        · exact ⟨rfl, rfl⟩
        · split at rest
          · rcases List.mem_map.mp rest with ⟨_, _, rfl⟩
            exact ⟨rfl, rfl⟩
          · cases rest
      · cases pieceMem
    rcases owner with ⟨rfl, rfl⟩
    exact ⟨(mem_drained drains).mp entryMem, pieceMem⟩
  · rintro ⟨found, pieceMem⟩
    exact ⟨(piece.pkId, piece.tracked), (mem_drained drains).mpr found, pieceMem⟩

theorem touched_of_mem_ofTracked {pkId : DatumId} {entry : TrackedDatum} {piece : Piece}
    (pieceMem : piece ∈ Piece.ofTracked pkId entry) : entry.touched = true := by
  unfold Piece.ofTracked at pieceMem
  split at pieceMem
  · assumption
  · cases pieceMem

/-- The bytes that a written value is keyed by occur. -/
theorem Admitted.occurs (admitted : op.Admitted env schema occurring database) {pkId : DatumId}
    {values : List FieldValue} (written : op.writes env database pkId = some (some values)) :
    ∀ one ∈ values, ∀ bytes, skValueBytes one = some bytes → bytes ∈ occurring := by
  unfold writes at written
  cases interpreted : (op.prog.interpret env.fromName database.store Overlay.empty).2 with
  | none =>
      rw [interpreted] at written
      cases written
  | some outcome =>
      rw [interpreted] at written
      rcases TypedProg.exists_access op.prog interpreted written with
        before | ⟨access, accessMem, writes⟩
      · cases before
      · exact (admitted.accesses access accessMem).2 values writes

/-- What a tracked datum that was written is before and after the op. -/
structure Turns (schema : Schema) (database next : Database (TypedResident TreeResident))
    (pkId : DatumId) (entry : TrackedDatum) : Prop where
  typed : schema pkId = some entry.typeDef
  before : TypedEnv.decodeStored entry.typeDef pkId (database.store pkId) = .ok entry.before
  after : TypedEnv.decodeStored entry.typeDef pkId (next.store pkId) = .ok entry.after

namespace Outcome

theorem declared (outcome : op.Outcome env (Slot.typedKinds query execute) schema database next
      tracked ctx later) (drains : ∀ entries, (env.drainOrder entries).Perm entries)
    (admitted : op.Admitted env schema occurring database)
    (legible : Legible schema occurring database) {piece : Piece}
    (pieceMem : piece ∈ pieces env tracked) : piece.Declared schema occurring := by
  rcases (mem_pieces drains).mp pieceMem with ⟨found, ofTracked⟩
  have reflects := outcome.entries piece.pkId piece.tracked found
  have touched := touched_of_mem_ofTracked ofTracked
  refine ⟨reflects.typed, ?_, ?_, ?_⟩
  · unfold Piece.ofTracked at ofTracked
    rw [if_pos touched] at ofTracked
    simp only [List.mem_append, List.mem_map, List.mem_singleton] at ofTracked
    rcases ofTracked with (⟨index, indexMem, same⟩ | same) | rest
    · rw [← same]
      exact indexMem
    · rw [same]
      trivial
    · split at rest
      · rcases List.mem_map.mp rest with ⟨guard, guardMem, same⟩
        rw [← same]
        exact guardMem
      · cases rest
  · intro idx value bytes isValue hasBytes
    rcases legible piece.pkId piece.tracked.typeDef reflects.typed with ⟨stored, decoded, occurs⟩
    rw [reflects.before] at decoded
    cases decoded
    rcases Option.bind_eq_some_iff.mp isValue with ⟨values, isValues, found⟩
    exact occurs values isValues value (List.mem_of_getElem? found) bytes hasBytes
  · intro idx value bytes isValue hasBytes
    rcases Option.bind_eq_some_iff.mp isValue with ⟨values, isValues, found⟩
    have written : op.writes env database piece.pkId = some (some values) := by
      rw [reflects.after, if_pos touched, isValues]
    exact admitted.occurs written value (List.mem_of_getElem? found) bytes hasBytes

/-- An index update is not sent to a datum, so that a datum changes by what was staged. -/
theorem stored (outcome : op.Outcome env (Slot.typedKinds query execute) schema database next
      tracked ctx later) (drains : ∀ entries, (env.drainOrder entries).Perm entries)
    (separate : schema.Separate env.fromName occurring)
    (admitted : op.Admitted env schema occurring database)
    (legible : Legible schema occurring database) {pkId : DatumId} {typeDef : DatumTypeDef}
    (typed : schema pkId = some typeDef) :
    next.store pkId =
      ((ctx.staged.lookup pkId).map Prod.fst).getD (database.store pkId) := by
  have elsewhere : ∀ key, schema.Derives occurring key → key.id env.fromName ≠ pkId := by
    rintro key derives rfl
    rw [separate.datums key derives] at typed
    cases typed
  have checks : ∀ task ∈ ctx.tasksFor (Slot.typedKinds query execute) later pkId,
      ∃ target, task = .check target := by
    intro task taskMem
    unfold OpContext.tasksFor Dispatch.Protocol.forKey at taskMem
    rcases List.mem_filter.mp taskMem with ⟨sent, toPk⟩
    have toPk : task.target = pkId := of_decide_eq_true toPk
    rcases List.mem_append.mp sent with first | tracks
    · rcases List.mem_append.mp first with updates | checks
      · rcases List.mem_map.mp updates with ⟨update, updateMem, rfl⟩
        rw [outcome.updates] at updateMem
        rcases List.mem_flatMap.mp updateMem with ⟨piece, pieceMem, ofPiece⟩
        have declared := outcome.declared drains admitted legible pieceMem
        rcases Piece.aims_of_mem_updates declared ofPiece with ⟨key, _, derives, target⟩
        exact absurd (target.symm.trans toPk) (elsewhere key derives)
      · rcases List.mem_map.mp checks with ⟨check, _, rfl⟩
        exact ⟨check.target, rfl⟩
    · rcases List.mem_map.mp tracks with ⟨update, updateMem, rfl⟩
      rcases outcome.leaves.tracked update updateMem with ⟨check, checkMem, entered⟩
      rw [outcome.checks, mem_filterMap_asCheck] at checkMem
      rcases List.mem_flatMap.mp checkMem with ⟨entry, entryMem, ofEntry⟩
      have reflects := outcome.entries entry.1 entry.2 ((mem_drained drains).mp entryMem)
      rcases pending_of_tracked occurring reflects.typed ofEntry entered with
        ⟨key, derives, _, target⟩
      exact absurd (target.symm.trans toPk) (elsewhere key derives)
  have left := outcome.leaves.slots pkId
  rw [serveAll_checks _ checks] at left
  unfold Database.store
  rw [left]

theorem unchanged (outcome : op.Outcome env (Slot.typedKinds query execute) schema database next
      tracked ctx later) (drains : ∀ entries, (env.drainOrder entries).Perm entries)
    (separate : schema.Separate env.fromName occurring)
    (admitted : op.Admitted env schema occurring database)
    (legible : Legible schema occurring database) {pkId : DatumId} {typeDef : DatumTypeDef}
    (typed : schema pkId = some typeDef) (unwritten : op.writes env database pkId = none) :
    next.store pkId = database.store pkId := by
  have staged := outcome.staged pkId
  unfold Overlay.StagedAs at staged
  rw [unwritten] at staged
  rw [outcome.stored drains separate admitted legible typed, staged]
  rfl

theorem turns (outcome : op.Outcome env (Slot.typedKinds query execute) schema database next
      tracked ctx later) (drains : ∀ entries, (env.drainOrder entries).Perm entries)
    (separate : schema.Separate env.fromName occurring)
    (admitted : op.Admitted env schema occurring database)
    (legible : Legible schema occurring database) {pkId : DatumId} {entry : TrackedDatum}
    (found : tracked.lookup pkId = some entry) (touched : entry.touched = true) :
    Turns schema database next pkId entry := by
  have reflects := outcome.entries pkId entry found
  have written : op.writes env database pkId = some entry.after := by
    rw [reflects.after, if_pos touched]
  have stored := outcome.stored drains separate admitted legible reflects.typed
  have staged := outcome.staged pkId
  unfold Overlay.StagedAs at staged
  rw [written] at staged
  refine ⟨reflects.typed, reflects.before, ?_⟩
  cases after : entry.after with
  | none =>
      rw [after] at staged
      rw [stored, staged]
      rfl
  | some values =>
      rw [after] at staged
      rcases staged with ⟨typeDef, bytes, typed, encoded, isStaged, sized⟩
      rw [reflects.typed, Option.some.injEq] at typed
      subst typed
      rw [stored, isStaged]
      simp only [Option.getD_some, TypedEnv.decodeStored, decodeDatum_encodeDatum
        (separate.versions pkId entry.typeDef reflects.typed) sized encoded]

/-- What an index's home has done for a committed op. -/
theorem served (outcome : op.Outcome env (Slot.typedKinds query execute) schema database next
      tracked ctx later) (drains : ∀ entries, (env.drainOrder entries).Perm entries)
    (separate : schema.Separate env.fromName occurring) {key : DerivedKey}
    (derives : schema.Derives occurring key) (indexed : key.word ≠ "fk_pending") :
    let tasks := (pieces env tracked).flatMap
      (Piece.tasksAt query execute env.fromName (key.id env.fromName))
    next (key.id env.fromName) = ((indexProtocol (Slot.typedKinds query execute)).serveAll
        (database (key.id env.fromName)) tasks).1 ∧
      ∀ answered ∈ ((indexProtocol (Slot.typedKinds query execute)).serveAll
        (database (key.id env.fromName)) tasks).2, answered.2.Accepts := by
  intro tasks
  have updates : (indexProtocol (Slot.typedKinds query execute)).forKey (key.id env.fromName)
      (ctx.pendingIndexUpdates.map .update) = tasks := by
    rw [outcome.updates, List.map_flatMap]
    exact List.filter_flatMap
  have entered : (indexProtocol (Slot.typedKinds query execute)).forKey (key.id env.fromName)
      (later.map .update) = [] := by
    unfold Dispatch.Protocol.forKey
    rw [List.filter_eq_nil_iff]
    intro task taskMem toKey
    rcases List.mem_map.mp taskMem with ⟨update, updateMem, rfl⟩
    rcases outcome.leaves.tracked update updateMem with ⟨check, checkMem, entered⟩
    rw [outcome.checks, mem_filterMap_asCheck] at checkMem
    rcases List.mem_flatMap.mp checkMem with ⟨entry, entryMem, ofEntry⟩
    have reflects := outcome.entries entry.1 entry.2 ((mem_drained drains).mp entryMem)
    rcases pending_of_tracked occurring reflects.typed ofEntry entered with
      ⟨other, otherDerives, pending, target⟩
    have same := separate.keys other key otherDerives derives
      (target.symm.trans (of_decide_eq_true toKey))
    rw [same] at pending
    exact indexed pending
  have unstaged : (ctx.staged.lookup (key.id env.fromName)).map Prod.fst = none := by
    have unwritten : op.writes env database (key.id env.fromName) = none := by
      apply outcome.untracked
      by_contra isTracked
      rcases Option.ne_none_iff_exists'.mp isTracked with ⟨entry, found⟩
      have typed := (outcome.entries _ entry found).typed
      rw [separate.datums key derives] at typed
      cases typed
    have staged := outcome.staged (key.id env.fromName)
    unfold Overlay.StagedAs at staged
    rwa [unwritten] at staged
  have slots := outcome.leaves.slots (key.id env.fromName)
  have accepted := outcome.leaves.accepted (key.id env.fromName)
  rw [OpContext.tasksFor, Dispatch.Protocol.forKey_append, Dispatch.Protocol.forKey_append,
    updates, entered, List.append_nil, Dispatch.Protocol.serveAll_append] at slots accepted
  rw [unstaged, Option.getD_none, serveAll_checks] at slots
  · exact ⟨slots, fun answered answeredMem => accepted answered
      (List.mem_append_left _ answeredMem)⟩
  · intro task taskMem
    rcases List.mem_map.mp (List.mem_of_mem_filter taskMem) with ⟨check, _, rfl⟩
    exact ⟨check.target, rfl⟩

end Outcome

end TypedOp

end Seisin
