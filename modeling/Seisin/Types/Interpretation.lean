import Seisin.Types.Codec
import Seisin.Types.Transaction

/-!
# What a typed handler does

The handler's calls read against the stored datums and the values it has written itself: `interpret`
says what it accesses and how it leaves the datums, without staging, tracking or caching.  Running
the compiled handler ends with exactly these writes staged, and with every written datum tracked
beside the value it had before.
-/

namespace Seisin

/-- An access to a datum; a read or a failed write writes nothing, a delete writes no value. -/
structure TypedAccess where
  pkId : DatumId
  typeDef : DatumTypeDef
  written : Option (Option (List FieldValue))

/-- The datums a handler has written, with the value it gave them or none where it deleted. -/
abbrev Overlay := DatumId → Option (Option (List FieldValue))

namespace Overlay

def empty : Overlay := fun _ => none

def write (overlay : Overlay) (pkId : DatumId) (value : Option (List FieldValue)) : Overlay :=
  Function.update overlay pkId (some value)

/-- What the handler sees: its own write or else the stored datum. -/
def read (overlay : Overlay) (store : Store) (typeDef : DatumTypeDef) (pkId : DatumId) :
    Except TypedError (Option (List FieldValue)) :=
  match overlay pkId with
  | some value => .ok value
  | none => TypedEnv.decodeStored typeDef pkId (store pkId)

end Overlay

namespace TypedProg

variable (fromName : Bytes → DatumId) (store : Store)

/-- The checks a write passes before anything is staged. -/
def checkWrite (pkId : DatumId) (typeDef : DatumTypeDef) (values : List FieldValue) :
    Except TypedError Bytes := do
  checkPk fromName pkId typeDef
  runFieldChecks typeDef values
  encodeDatum typeDef values

/-- The accesses of a handler in order, and its result with the datums as it leaves them. -/
def interpret : TypedProg → Overlay → List TypedAccess × Option (Bytes × Overlay)
  | .done result, overlay => ([], some (result, overlay))
  | .panic, _ => ([], none)
  | .get pkId typeDef next, overlay =>
      let (accesses, outcome) := interpret (next (overlay.read store typeDef pkId)) overlay
      (⟨pkId, typeDef, none⟩ :: accesses, outcome)
  | .set pkId typeDef values next, overlay =>
      match checkWrite fromName pkId typeDef values with
      | .error failure => interpret (next (.error failure)) overlay
      | .ok _ =>
          match overlay.read store typeDef pkId with
          | .error failure =>
              let (accesses, outcome) := interpret (next (.error failure)) overlay
              (⟨pkId, typeDef, none⟩ :: accesses, outcome)
          | .ok _ =>
              let (accesses, outcome) :=
                interpret (next (.ok ())) (overlay.write pkId (some values))
              (⟨pkId, typeDef, some (some values)⟩ :: accesses, outcome)
  | .delete pkId typeDef next, overlay =>
      match checkPk fromName pkId typeDef with
      | .error failure => interpret (next (.error failure)) overlay
      | .ok () =>
          match overlay.read store typeDef pkId with
          | .error failure =>
              let (accesses, outcome) := interpret (next (.error failure)) overlay
              (⟨pkId, typeDef, none⟩ :: accesses, outcome)
          | .ok _ =>
              let (accesses, outcome) := interpret (next (.ok ())) (overlay.write pkId none)
              (⟨pkId, typeDef, some none⟩ :: accesses, outcome)

variable {fromName store}

/-- What a handler leaves written it has written, or found written. -/
theorem exists_access (prog : TypedProg) {overlay final : Overlay} {result : Bytes}
    (interpreted : (prog.interpret fromName store overlay).2 = some (result, final))
    {pkId : DatumId} {value : Option (List FieldValue)} (written : final pkId = some value) :
    overlay pkId = some value ∨
      ∃ access ∈ (prog.interpret fromName store overlay).1, access.written = some value := by
  induction prog generalizing overlay with
  | done result =>
      simp only [interpret, Option.some.injEq, Prod.mk.injEq] at interpreted
      rw [interpreted.2]
      exact Or.inl written
  | panic => cases interpreted
  | get other typeDef next ih =>
      rcases ih _ interpreted with before | ⟨access, accessMem, writes⟩
      · exact Or.inl before
      · exact Or.inr ⟨access, List.mem_cons_of_mem _ accessMem, writes⟩
  | set other typeDef values next ih =>
      simp only [interpret] at interpreted ⊢
      cases checked : checkWrite fromName other typeDef values with
      | error failure =>
          rw [checked] at interpreted
          exact ih _ interpreted
      | ok bytes =>
          rw [checked] at interpreted
          dsimp only at interpreted ⊢
          cases decoded : overlay.read store typeDef other with
          | error failure =>
              rw [decoded] at interpreted
              rcases ih _ interpreted with before | ⟨access, accessMem, writes⟩
              · exact Or.inl before
              · exact Or.inr ⟨access, List.mem_cons_of_mem _ accessMem, writes⟩
          | ok found =>
              rw [decoded] at interpreted
              rcases ih _ interpreted with before | ⟨access, accessMem, writes⟩
              · rcases eq_or_ne pkId other with rfl | differ
                · rw [Overlay.write, Function.update_self] at before
                  exact Or.inr ⟨_, List.mem_cons_self, before⟩
                · rw [Overlay.write, Function.update_of_ne differ] at before
                  exact Or.inl before
              · exact Or.inr ⟨access, List.mem_cons_of_mem _ accessMem, writes⟩
  | delete other typeDef next ih =>
      simp only [interpret] at interpreted ⊢
      cases checked : checkPk fromName other typeDef with
      | error failure =>
          rw [checked] at interpreted
          exact ih _ interpreted
      | ok done =>
          rw [checked] at interpreted
          dsimp only at interpreted ⊢
          cases decoded : overlay.read store typeDef other with
          | error failure =>
              rw [decoded] at interpreted
              rcases ih _ interpreted with before | ⟨access, accessMem, writes⟩
              · exact Or.inl before
              · exact Or.inr ⟨access, List.mem_cons_of_mem _ accessMem, writes⟩
          | ok found =>
              rw [decoded] at interpreted
              rcases ih _ interpreted with before | ⟨access, accessMem, writes⟩
              · rcases eq_or_ne pkId other with rfl | differ
                · rw [Overlay.write, Function.update_self] at before
                  exact Or.inr ⟨_, List.mem_cons_self, before⟩
                · rw [Overlay.write, Function.update_of_ne differ] at before
                  exact Or.inl before
              · exact Or.inr ⟨access, List.mem_cons_of_mem _ accessMem, writes⟩

end TypedProg

/-- The type of each datum that handlers access; the ids of indexes have none. -/
abbrev Schema := DatumId → Option DatumTypeDef

/-- The access uses the datum's own type, and a value it writes has lengths that fit their
encoding. -/
structure TypedAccess.Admitted (schema : Schema) (access : TypedAccess) : Prop where
  typed : schema access.pkId = some access.typeDef
  sized : ∀ values, access.written = some (some values) → ∀ value ∈ values, value.Sized

/-- What is staged for a datum is the encoding of what was written. -/
def Overlay.StagedAs (overlay : Overlay) (schema : Schema) (pkId : DatumId)
    (staged : Option (Option Bytes)) : Prop :=
  match overlay pkId with
  | none => staged = none
  | some none => staged = some none
  | some (some values) =>
      ∃ typeDef bytes, schema pkId = some typeDef ∧ encodeDatum typeDef values = .ok bytes ∧
        staged = some (some bytes) ∧ ∀ value ∈ values, value.Sized

/-- A tracked datum has its own type, its stored value before the op and what the op wrote. -/
structure TrackedDatum.Reflects (entry : TrackedDatum) (schema : Schema) (store : Store)
    (overlay : Overlay) (pkId : DatumId) : Prop where
  typed : schema pkId = some entry.typeDef
  before : TypedEnv.decodeStored entry.typeDef pkId (store pkId) = .ok entry.before
  after : overlay pkId = if entry.touched then some entry.after else none

/-- The running context agrees with the interpretation so far. -/
structure InStep (schema : Schema) (store : Store) (overlay : Overlay) (ctx : OpContext)
    (tracked : Tracked) : Prop where
  current : ctx.cache.Copies store
  staged : ∀ pkId, overlay.StagedAs schema pkId ((ctx.staged.lookup pkId).map Prod.fst)
  untracked : ∀ pkId, tracked.lookup pkId = none → overlay pkId = none
  entries : ∀ pkId entry, tracked.lookup pkId = some entry →
    entry.Reflects schema store overlay pkId
  noUpdates : ctx.pendingIndexUpdates = []
  noChecks : ctx.pendingExistsChecks = []

namespace InStep

variable {schema : Schema} {store : Store} {overlay : Overlay} {ctx : OpContext}
  {tracked : Tracked} {typeDef : DatumTypeDef} {pkId : DatumId}

theorem init (cache : Cache) (current : cache.Copies store) :
    InStep schema store Overlay.empty (OpContext.new cache) ∅ where
  current := current
  staged := fun _ => rfl
  untracked := fun _ _ => rfl
  entries := fun _ _ isTracked => by simp at isTracked
  noUpdates := rfl
  noChecks := rfl

/-- A read through the context sees what the interpretation sees. -/
theorem read (inStep : InStep schema store overlay ctx tracked)
    (version : typeDef.version < 2 ^ 16) (typed : schema pkId = some typeDef) (n : ℕ) :
    TypedEnv.decodeStored typeDef pkId (ctx.getReplicated store pkId n).1 =
      overlay.read store typeDef pkId := by
  have staged := inStep.staged pkId
  unfold Overlay.StagedAs at staged
  unfold Overlay.read OpContext.getReplicated
  cases written : overlay pkId with
  | none =>
      simp only [written, Option.map_eq_none_iff] at staged
      simp only [staged, inStep.current.read]
  | some value =>
      cases value with
      | none =>
          simp only [written, Option.map_eq_some_iff] at staged
          rcases staged with ⟨⟨content, factor⟩, found, rfl⟩
          simp only [found, TypedEnv.decodeStored]
      | some values =>
          simp only [written] at staged
          rcases staged with ⟨other, bytes, same, encoded, isStaged, sized⟩
          rw [typed, Option.some.injEq] at same
          subst same
          rcases Option.map_eq_some_iff.mp isStaged with ⟨⟨content, factor⟩, found, rfl⟩
          simp only [found, TypedEnv.decodeStored, decodeDatum_encodeDatum version sized encoded]

/-- A read leaves the agreement. -/
theorem getReplicated (inStep : InStep schema store overlay ctx tracked) (pkId : DatumId)
    (n : ℕ) : InStep schema store overlay (ctx.getReplicated store pkId n).2 tracked := by
  unfold OpContext.getReplicated
  split
  · exact inStep
  · exact { inStep with current := inStep.current.getReplicated pkId n }

/-- Tracking a datum that was read but not written. -/
theorem track (inStep : InStep schema store overlay ctx tracked)
    (typed : schema pkId = some typeDef) (fresh : pkId ∉ tracked)
    {before : Option (List FieldValue)}
    (decoded : TypedEnv.decodeStored typeDef pkId (store pkId) = .ok before)
    (after : Option (List FieldValue)) :
    InStep schema store overlay ctx (tracked.insert pkId ⟨typeDef, before, after, false⟩) := by
  have unwritten := inStep.untracked pkId (AList.lookup_eq_none.mpr fresh)
  refine { inStep with untracked := ?_, entries := ?_ }
  · intro other isUntracked
    rcases eq_or_ne other pkId with rfl | differ
    · exact unwritten
    · rw [AList.lookup_insert_ne differ] at isUntracked
      exact inStep.untracked other isUntracked
  · intro other entry isTracked
    rcases eq_or_ne other pkId with rfl | differ
    · rw [AList.lookup_insert, Option.some.injEq] at isTracked
      subst isTracked
      exact ⟨typed, decoded, unwritten⟩
    · rw [AList.lookup_insert_ne differ] at isTracked
      exact inStep.entries other entry isTracked

/-- Staging a write of a tracked datum. -/
theorem write (inStep : InStep schema store overlay ctx tracked) (isTracked : pkId ∈ tracked)
    {value : Option (List FieldValue)} {written : OpContext} {content : Option Bytes} {n : ℕ}
    (stages : written = { ctx with staged := ctx.staged.insert pkId (content, n) })
    (encodes : (overlay.write pkId value).StagedAs schema pkId (some content)) :
    InStep schema store (overlay.write pkId value) written
      (TypedEnv.touch tracked pkId value) := by
  subst stages
  rcases Option.isSome_iff_exists.mp (AList.lookup_isSome.mpr isTracked) with ⟨entry, found⟩
  have touches : TypedEnv.touch tracked pkId value =
      tracked.insert pkId { entry with after := value, touched := true } := by
    simp only [TypedEnv.touch, found]
  rw [touches]
  refine { inStep with staged := ?_, untracked := ?_, entries := ?_ }
  · intro other
    rcases eq_or_ne other pkId with rfl | differ
    · simpa using encodes
    · have kept := inStep.staged other
      simpa [Overlay.StagedAs, Overlay.write, differ] using kept
  · intro other isUntracked
    rcases eq_or_ne other pkId with rfl | differ
    · simp at isUntracked
    · rw [AList.lookup_insert_ne differ] at isUntracked
      simpa [Overlay.write, differ] using inStep.untracked other isUntracked
  · intro other otherEntry isOther
    rcases eq_or_ne other pkId with rfl | differ
    · rw [AList.lookup_insert, Option.some.injEq] at isOther
      subst isOther
      have reflects := inStep.entries other entry found
      exact ⟨reflects.typed, reflects.before, by simp [Overlay.write]⟩
    · rw [AList.lookup_insert_ne differ] at isOther
      have reflects := inStep.entries other otherEntry isOther
      exact ⟨reflects.typed, reflects.before,
        by simpa [Overlay.write, differ] using reflects.after⟩

/-- A tracked datum could be read, and an untracked one was not written. -/
theorem read_of_mem (inStep : InStep schema store overlay ctx tracked)
    (typed : schema pkId = some typeDef) (isTracked : pkId ∈ tracked) :
    ∃ value, overlay.read store typeDef pkId = .ok value := by
  rcases Option.isSome_iff_exists.mp (AList.lookup_isSome.mpr isTracked) with ⟨entry, found⟩
  have reflects := inStep.entries pkId entry found
  have same := reflects.typed
  rw [typed, Option.some.injEq] at same
  subst same
  unfold Overlay.read
  rw [reflects.after, reflects.before]
  cases entry.touched with
  | true => exact ⟨_, rfl⟩
  | false => exact ⟨_, rfl⟩

theorem read_of_not_mem (inStep : InStep schema store overlay ctx tracked)
    (isUntracked : pkId ∉ tracked) :
    overlay.read store typeDef pkId = TypedEnv.decodeStored typeDef pkId (store pkId) := by
  unfold Overlay.read
  rw [inStep.untracked pkId (AList.lookup_eq_none.mpr isUntracked)]

/-- Making sure that a datum is tracked comes to reading it. -/
theorem ensureTracked (inStep : InStep schema store overlay ctx tracked)
    (version : typeDef.version < 2 ^ 16) (typed : schema pkId = some typeDef)
    (next : Except TypedError Tracked → OpProg) :
    (∃ failure reached, overlay.read store typeDef pkId = .error failure ∧
      InStep schema store overlay reached tracked ∧
      (TypedEnv.ensureTracked tracked pkId typeDef next).run store ctx =
        (next (.error failure)).run store reached) ∨
    (∃ value reached ready, overlay.read store typeDef pkId = .ok value ∧
      InStep schema store overlay reached ready ∧ pkId ∈ ready ∧
      (TypedEnv.ensureTracked tracked pkId typeDef next).run store ctx =
        (next (.ok ready)).run store reached) := by
  unfold TypedEnv.ensureTracked
  by_cases isTracked : pkId ∈ tracked
  · right
    rcases inStep.read_of_mem typed isTracked with ⟨value, isRead⟩
    exact ⟨value, ctx, tracked, isRead, inStep, isTracked, by rw [if_pos isTracked]⟩
  · have reads := inStep.read version typed typeDef.replicationFactor
    have reached := inStep.getReplicated pkId typeDef.replicationFactor
    rw [if_neg isTracked]
    simp only [OpProg.run]
    cases decoded : overlay.read store typeDef pkId with
    | error failure =>
        left
        rw [reads, decoded]
        exact ⟨failure, _, rfl, reached, rfl⟩
    | ok value =>
        right
        rw [reads, decoded]
        have fromStore := (inStep.read_of_not_mem isTracked).symm.trans decoded
        exact ⟨value, _, _, rfl, reached.track typed isTracked fromStore none, by simp, rfl⟩

end InStep

namespace TypedEnv

variable {env : TypedEnv} {schema : Schema} {store : Store}

/-- The compiled handler reaches the drop of its context with the writes it was interpreted to
make, or panics as it does. -/
theorem run_compile (version : ∀ pkId typeDef, schema pkId = some typeDef →
      typeDef.version < 2 ^ 16) (prog : TypedProg)
    {overlay : Overlay} {ctx : OpContext} {tracked : Tracked}
    (inStep : InStep schema store overlay ctx tracked)
    (admitted : ∀ access ∈ (prog.interpret env.fromName store overlay).1,
      access.Admitted schema) :
    match (prog.interpret env.fromName store overlay).2 with
    | none => ((env.compile prog tracked).run store ctx).2 = none
    | some (result, final) =>
        ∃ reached last, InStep schema store final reached last ∧
          (env.compile prog tracked).run store ctx =
            (env.drop last (.done result)).run store reached := by
  induction prog generalizing overlay ctx tracked with
  | done result => exact ⟨ctx, tracked, inStep, rfl⟩
  | panic => rfl
  | get pkId typeDef next ih =>
      have typed : schema pkId = some typeDef := (admitted _ List.mem_cons_self).typed
      have reads := inStep.read (version pkId typeDef typed) typed typeDef.replicationFactor
      have reached := inStep.getReplicated pkId typeDef.replicationFactor
      have later := fun access accessMem => admitted access (List.mem_cons_of_mem _ accessMem)
      simp only [TypedProg.interpret] at later ⊢
      simp only [compile, OpProg.run, reads]
      cases decoded : overlay.read store typeDef pkId with
      | error failure =>
          rw [decoded] at later
          exact ih _ reached later
      | ok value =>
          rw [decoded] at later
          by_cases isTracked : pkId ∈ tracked
          · simp only [if_pos isTracked]
            exact ih _ reached later
          · have fromStore := (inStep.read_of_not_mem isTracked).symm.trans decoded
            simp only [if_neg isTracked]
            exact ih _ (reached.track typed isTracked fromStore value) later
  | set pkId typeDef values next ih =>
      simp only [TypedProg.interpret, compile] at admitted ⊢
      unfold TypedProg.checkWrite at admitted ⊢
      cases checked : (do
          checkPk env.fromName pkId typeDef
          runFieldChecks typeDef values
          encodeDatum typeDef values : Except TypedError Bytes) with
      | error failure =>
          rw [checked] at admitted
          exact ih _ inStep admitted
      | ok bytes =>
          simp only [checked] at admitted
          have typed : schema pkId = some typeDef := by
            cases decoded : overlay.read store typeDef pkId with
            | error failure =>
                rw [decoded] at admitted
                exact (admitted _ List.mem_cons_self).typed
            | ok value =>
                rw [decoded] at admitted
                exact (admitted _ List.mem_cons_self).typed
          dsimp only
          rcases inStep.ensureTracked (version pkId typeDef typed) typed _ with
            ⟨failure, reached, unread, agrees, runs⟩ |
              ⟨value, reached, ready, isRead, agrees, isTracked, runs⟩
          · rw [unread] at admitted ⊢
            rw [runs]
            exact ih _ agrees fun access accessMem =>
              admitted access (List.mem_cons_of_mem _ accessMem)
          · rw [isRead] at admitted ⊢
            rw [runs]
            have sized := (admitted _ List.mem_cons_self).sized values rfl
            have encodes : (overlay.write pkId (some values)).StagedAs schema pkId
                (some (some bytes)) := by
              have encoded : encodeDatum typeDef values = .ok bytes := by
                revert checked
                cases checkPk env.fromName pkId typeDef with
                | error failure => intro impossible; cases impossible
                | ok _ =>
                    cases runFieldChecks typeDef values with
                    | error failure => intro impossible; cases impossible
                    | ok _ => exact id
              unfold Overlay.StagedAs Overlay.write
              rw [Function.update_self]
              exact ⟨typeDef, bytes, typed, encoded, rfl, sized⟩
            exact ih _ (agrees.write isTracked rfl encodes) fun access accessMem =>
              admitted access (List.mem_cons_of_mem _ accessMem)
  | delete pkId typeDef next ih =>
      simp only [TypedProg.interpret, compile] at admitted ⊢
      cases checked : checkPk env.fromName pkId typeDef with
      | error failure =>
          rw [checked] at admitted
          exact ih _ inStep admitted
      | ok done =>
          simp only [checked] at admitted
          have typed : schema pkId = some typeDef := by
            cases decoded : overlay.read store typeDef pkId with
            | error failure =>
                rw [decoded] at admitted
                exact (admitted _ List.mem_cons_self).typed
            | ok value =>
                rw [decoded] at admitted
                exact (admitted _ List.mem_cons_self).typed
          dsimp only
          rcases inStep.ensureTracked (version pkId typeDef typed) typed _ with
            ⟨failure, reached, unread, agrees, runs⟩ |
              ⟨value, reached, ready, isRead, agrees, isTracked, runs⟩
          · rw [unread] at admitted ⊢
            rw [runs]
            exact ih _ agrees fun access accessMem =>
              admitted access (List.mem_cons_of_mem _ accessMem)
          · rw [isRead] at admitted ⊢
            rw [runs]
            have encodes : (overlay.write pkId none).StagedAs schema pkId (some none) := by
              unfold Overlay.StagedAs Overlay.write
              rw [Function.update_self]
            exact ih _ (agrees.write isTracked rfl encodes) fun access accessMem =>
              admitted access (List.mem_cons_of_mem _ accessMem)

end TypedEnv

end Seisin
