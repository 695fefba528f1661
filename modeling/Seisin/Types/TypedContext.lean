import Seisin.Types.Indexes

/-!
# Typed access

A typed handler reads, sets and deletes datums through a `TypedOpContext`, which remembers what each
datum was before the op; when the context is dropped, the difference to what it is now becomes index
updates and existence checks.  A typed handler is embedded as the tree of its typed calls and
translated into the byte-level calls they make.
-/

namespace Seisin

structure TrackedDatum where
  typeDef : DatumTypeDef
  before : Option (List FieldValue)
  after : Option (List FieldValue)
  touched : Bool

abbrev Tracked := AList (fun _ : DatumId => TrackedDatum)

/-- A call a dropped context makes on the underlying context. -/
inductive Scheduled where
  | update (update : PendingIndexUpdate)
  | check (check : PendingExistsCheck)

section Drop

variable (fromName : Bytes → DatumId)

/-- The value a snapshot has for a field. -/
def fieldOf (snapshot : Option (List FieldValue)) (idx : ℕ) : Option FieldValue :=
  snapshot.bind fun values => values[idx]?

/-- Whether two optional values differ, as the derived comparison sees it. -/
def changed : Option FieldValue → Option FieldValue → Bool
  | none, none => false
  | some first, some second => !(first == second)
  | _, _ => true

/-- The updates a changed indexed field gives rise to. -/
def indexUpdates (pkId : DatumId) (tracked : TrackedDatum) (index : IndexDef) :
    List PendingIndexUpdate :=
  match index with
  | .sk field unique =>
      match tracked.typeDef.fieldIdx field with
      | none => []
      | some idx =>
          let oldValue := fieldOf tracked.before idx
          let newValue := fieldOf tracked.after idx
          if changed oldValue newValue then
            ((oldValue.bind (skKey fromName tracked.typeDef.name field)).toList.map fun key =>
              ⟨key, "sk", encodeSkIndexOp (.remove pkId)⟩) ++
            ((newValue.bind (skKey fromName tracked.typeDef.name field)).toList.map fun key =>
              ⟨key, "sk", encodeSkIndexOp (.insert pkId (unique.map ConflictOp.name))⟩)
          else []
  | .rk field =>
      match tracked.typeDef.fieldIdx field with
      | none => []
      | some idx =>
          let oldValue := fieldOf tracked.before idx
          let newValue := fieldOf tracked.after idx
          if changed oldValue newValue then
            let oldRankKey := oldValue.bind encodeRankKey
            let newRankKey := newValue.bind encodeRankKey
            if oldRankKey.isNone && newRankKey.isNone then []
            else
              [⟨rkKey fromName tracked.typeDef.name field, "rk",
                encodeRkIndexOp ⟨pkId, oldRankKey, newRankKey⟩⟩]
          else []

/-- Creates join the extent of a tracked type and deletes leave it. -/
def extentUpdates (pkId : DatumId) (tracked : TrackedDatum) : List PendingIndexUpdate :=
  if tracked.typeDef.trackExtent then
    let target := extentKey fromName tracked.typeDef.name
    match tracked.before, tracked.after with
    | none, some _ => [⟨target, "partition", encodeExtentOp (.insert pkId)⟩]
    | some _, none => [⟨target, "partition", encodeExtentOp (.remove pkId)⟩]
    | _, _ => []
  else []

/-- What deleting a guarded datum probes or marks. -/
def guardCalls (pkId : DatumId) (guard : GuardRef) : List Scheduled :=
  match skKey fromName guard.typeName guard.field (.bytes pkId.asBytes) with
  | none => []
  | some probe =>
      match guard.onDelete with
      | .restrict =>
          [.check ⟨probe, .absent ("delete restricted: " ++ guard.typeName ++ "." ++ guard.field ++
            " still references " ++ pkId.debug)⟩]
      | .track =>
          [.update ⟨fkDeletedKey fromName guard.typeName guard.field, "fk_pending",
            encodeFkPendingOp (.insert pkId probe)⟩]

/-- The datum a constrained value references, where there is one to check at run time. -/
def referencedDatum (references : FkTarget) (value : FieldValue) : Option DatumId :=
  match references, value with
  | .pkUuid _, .bytes bytes => if bytes.length = 16 then some (DatumId.fromBytes bytes) else none
  | .skUnique typeName field, value => skKey fromName typeName field value
  | _, _ => none

/-- The existence check a new or changed reference gives rise to. -/
def constraintCalls (pkId : DatumId) (tracked : TrackedDatum) (values : List FieldValue)
    (constraint : RelationalConstraintDef) : List Scheduled :=
  match tracked.typeDef.fieldIdx constraint.field with
  | none => []
  | some idx =>
      match values[idx]? with
      | none => []
      | some value =>
          if changed (fieldOf tracked.before idx) (some value) then
            match referencedDatum fromName constraint.references value with
            | none => []
            | some target =>
                let onMissing : FkMissingPolicy :=
                  match constraint.resolution with
                  | none => .reject
                  | some _ =>
                      .track (fkPendingKey fromName tracked.typeDef.name constraint.field)
                        "fk_pending" (encodeFkPendingOp (.insert pkId target))
                [.check ⟨target, .present onMissing⟩]
          else []

/-- Everything a dropped context schedules for one datum. -/
def dropCalls (pkId : DatumId) (tracked : TrackedDatum) : List Scheduled :=
  if tracked.touched then
    (tracked.typeDef.indexes.flatMap fun index =>
      (indexUpdates fromName pkId tracked index).map .update) ++
    (extentUpdates fromName pkId tracked).map .update ++
    (match tracked.after with
      | none =>
          if tracked.before.isSome then tracked.typeDef.guards.flatMap (guardCalls fromName pkId)
          else []
      | some values =>
          tracked.typeDef.constraints.flatMap (constraintCalls fromName pkId tracked values))
  else []

end Drop

/-- The typed calls of a handler, in order. -/
inductive TypedProg where
  | done (result : Bytes)
  | panic
  | get (pkId : DatumId) (typeDef : DatumTypeDef)
      (next : Except TypedError (Option (List FieldValue)) → TypedProg)
  | set (pkId : DatumId) (typeDef : DatumTypeDef) (values : List FieldValue)
      (next : Except TypedError Unit → TypedProg)
  | delete (pkId : DatumId) (typeDef : DatumTypeDef) (next : Except TypedError Unit → TypedProg)

/-- How names derive ids, and the order in which a dropped context visits its datums: the map's
iteration order, which nothing fixes. -/
structure TypedEnv where
  fromName : Bytes → DatumId
  drainOrder : List (DatumId × TrackedDatum) → List (DatumId × TrackedDatum)

namespace TypedEnv

variable (env : TypedEnv)

/-- What the stored bytes of a datum decode to. -/
def decodeStored (typeDef : DatumTypeDef) (pkId : DatumId) :
    Option Bytes → Except TypedError (Option (List FieldValue))
  | none => .ok none
  | some bytes =>
      match decodeDatum typeDef bytes with
      | .error message => .error (.undecodable pkId message)
      | .ok values => .ok (some values)

def runScheduled (calls : List Scheduled) (next : OpProg) : OpProg :=
  calls.foldr
    (fun call rest =>
      match call with
      | .update update => .scheduleIndexUpdate update rest
      | .check check => .scheduleExistsCheck check rest)
    next

/-- Dropping the context. -/
def drop (tracked : Tracked) (next : OpProg) : OpProg :=
  runScheduled
    ((env.drainOrder (tracked.entries.map fun entry => (entry.1, entry.2))).flatMap
      fun entry => dropCalls env.fromName entry.1 entry.2)
    next

/-- Tracks a datum about to be written, then continues with the context it leaves. -/
def ensureTracked (tracked : Tracked) (pkId : DatumId) (typeDef : DatumTypeDef)
    (next : Except TypedError Tracked → OpProg) : OpProg :=
  if pkId ∈ tracked then next (.ok tracked)
  else
    .get pkId typeDef.replicationFactor fun stored =>
      match decodeStored typeDef pkId stored with
      | .error failure => next (.error failure)
      | .ok before => next (.ok (tracked.insert pkId ⟨typeDef, before, none, false⟩))

/-- Records the new value of a tracked datum. -/
def touch (tracked : Tracked) (pkId : DatumId) (after : Option (List FieldValue)) : Tracked :=
  match tracked.lookup pkId with
  | none => tracked
  | some entry => tracked.insert pkId { entry with after := after, touched := true }

/-- The byte-level calls of a typed handler that has tracked some datums already. -/
def compile : TypedProg → Tracked → OpProg
  | .done result, tracked => env.drop tracked (.done result)
  | .panic, _ => .panic
  | .get pkId typeDef next, tracked =>
      .get pkId typeDef.replicationFactor fun stored =>
        match decodeStored typeDef pkId stored with
        | .error failure => compile (next (.error failure)) tracked
        | .ok values =>
            compile (next (.ok values))
              (if pkId ∈ tracked then tracked
                else tracked.insert pkId ⟨typeDef, values, values, false⟩)
  | .set pkId typeDef values next, tracked =>
      let checked : Except TypedError Bytes := do
        checkPk env.fromName pkId typeDef
        runFieldChecks typeDef values
        encodeDatum typeDef values
      match checked with
      | .error failure => compile (next (.error failure)) tracked
      | .ok bytes =>
          ensureTracked tracked pkId typeDef fun ensured =>
            match ensured with
            | .error failure => compile (next (.error failure)) tracked
            | .ok ready =>
                .put pkId bytes typeDef.replicationFactor
                  (compile (next (.ok ())) (touch ready pkId (some values)))
  | .delete pkId typeDef next, tracked =>
      match checkPk env.fromName pkId typeDef with
      | .error failure => compile (next (.error failure)) tracked
      | .ok () =>
          ensureTracked tracked pkId typeDef fun ensured =>
            match ensured with
            | .error failure => compile (next (.error failure)) tracked
            | .ok ready =>
                .delete pkId typeDef.replicationFactor
                  (compile (next (.ok ())) (touch ready pkId none))

/-- A typed handler as a byte-level one. -/
def handler (typed : List DatumId → Bytes → TypedProg) : OpHandler :=
  fun datumIds payload => env.compile (typed datumIds payload) ∅

/-- The registry of typed handlers. -/
def ops (typed : String → Option (List DatumId → Bytes → TypedProg)) : OpRegistry :=
  fun name => (typed name).map env.handler

end TypedEnv

end Seisin
