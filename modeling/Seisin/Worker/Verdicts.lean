import Mathlib
import Seisin.Worker
import Seisin.Lib.Transition

/-!
# The verdict of an op's existence checks

An op that has run waits for the answers to the checks and index updates it scheduled.  What a check
expects is kept under its target, the last check scheduled for a target winning, and the first answer
for the target consumes it.  The op is answered once nothing is outstanding.
-/

namespace Seisin

namespace Expectation

/-- Whether the answer fails the op. -/
def violatedBy : Expectation → Bool → Bool
  | .present .reject, found => !found
  | .present (.track _ _ _), _ => false
  | .absent _, found => found

/-- The entry that records a missing target. -/
def tracked : Expectation → Option PendingIndexUpdate
  | .present (.track pendingDatum indexKind entry) => some ⟨pendingDatum, indexKind, entry⟩
  | _ => none

end Expectation

/-- What is expected of a target: the last check scheduled for it wins. -/
def deciding (checks : List PendingExistsCheck) (target : DatumId) : Option Expectation :=
  (checks.filter fun check => check.target = target).getLast?.map PendingExistsCheck.expect

/-- The answer that consumes the expectation. -/
def firstAnswer (answers : List (DatumId × Bool)) (target : DatumId) : Option Bool :=
  (answers.find? fun answer => answer.1 = target).map Prod.snd

/-- The first answer for a target fails the op by what the last check expects of it. -/
def Violated (checks : List PendingExistsCheck) (answers : List (DatumId × Bool)) : Prop :=
  ∃ target expect found, deciding checks target = some expect ∧
    firstAnswer answers target = some found ∧ expect.violatedBy found = true

/-- A target that was answered before is answered missing. -/
def MissingAgain (answers : List (DatumId × Bool)) : Prop :=
  ∃ front target back, answers = front ++ (target, false) :: back ∧
    target ∈ front.map Prod.fst

/-! ## Expectations and answers -/

section Answers

variable {checks : List PendingExistsCheck} {answers : List (DatumId × Bool)}
  {target : DatumId} {found : Bool}

/-- The code's map of expectations has the deciding ones. -/
theorem lookup_expectations (checks : List PendingExistsCheck) (target : DatumId) :
    (checks.foldl (fun expectations check => expectations.insert check.target check.expect)
      (∅ : AList (fun _ : DatumId => Expectation))).lookup target = deciding checks target := by
  induction checks using List.reverseRecOn with
  | nil => rfl
  | append_singleton checks check ih =>
      rw [List.foldl_append, List.foldl_cons, List.foldl_nil, deciding, List.filter_append]
      rcases eq_or_ne target check.target with rfl | differ
      · rw [AList.lookup_insert]
        simp
      · rw [AList.lookup_insert_ne differ, ih, deciding]
        simp [differ.symm]

theorem deciding_isSome (scheduled : target ∈ checks.map PendingExistsCheck.target) :
    ∃ expect, deciding checks target = some expect := by
  rcases List.mem_map.mp scheduled with ⟨check, inside, rfl⟩
  have kept : check ∈ checks.filter fun other => other.target = check.target :=
    List.mem_filter.mpr ⟨inside, decide_eq_true rfl⟩
  rw [deciding, List.getLast?_eq_some_getLast (List.ne_nil_of_mem kept)]
  exact ⟨_, rfl⟩

theorem firstAnswer_eq_none : firstAnswer answers target = none ↔
    target ∉ answers.map Prod.fst := by
  rw [firstAnswer, Option.map_eq_none_iff, List.find?_eq_none]
  constructor
  · intro differs answered
    rcases List.mem_map.mp answered with ⟨answer, inside, same⟩
    exact differs answer inside (decide_eq_true same)
  · intro unanswered answer inside same
    exact unanswered (List.mem_map.mpr ⟨answer, inside, of_decide_eq_true same⟩)

theorem firstAnswer_append (other : DatumId) :
    firstAnswer (answers ++ [(target, found)]) other =
      (firstAnswer answers other).or (if other = target then some found else none) := by
  rw [firstAnswer, List.find?_append, firstAnswer]
  cases earlier : answers.find? fun answer => answer.1 = other with
  | some answer => rfl
  | none =>
      rcases eq_or_ne other target with rfl | differ
      · simp
      · simp [differ, differ.symm]

theorem missingAgain_append : MissingAgain (answers ++ [(target, found)]) ↔
    MissingAgain answers ∨ (found = false ∧ target ∈ answers.map Prod.fst) := by
  constructor
  · rintro ⟨front, again, back, split, earlier⟩
    rcases List.eq_nil_or_concat back with rfl | ⟨rest, last, rfl⟩
    · rcases List.append_inj' split rfl with ⟨rfl, same⟩
      cases same
      exact Or.inr ⟨rfl, earlier⟩
    · left
      rw [List.concat_eq_append, ← List.cons_append, ← List.append_assoc] at split
      exact ⟨front, again, rest, (List.append_inj' split rfl).1, earlier⟩
  · rintro (⟨front, again, back, rfl, earlier⟩ | ⟨rfl, earlier⟩)
    · exact ⟨front, again, back ++ [(target, found)], by simp, earlier⟩
    · exact ⟨answers, target, [], rfl, earlier⟩

/-- An answer adds a violation only if it is the first for its target. -/
theorem violated_append : Violated checks (answers ++ [(target, found)]) ↔
    Violated checks answers ∨ (target ∉ answers.map Prod.fst ∧
      ∃ expect, deciding checks target = some expect ∧ expect.violatedBy found = true) := by
  constructor
  · rintro ⟨other, expect, answer, decides, first, fails⟩
    rw [firstAnswer_append] at first
    cases earlier : firstAnswer answers other with
    | some before =>
        rw [earlier, Option.some_or] at first
        cases first
        exact Or.inl ⟨other, expect, answer, decides, earlier, fails⟩
    | none =>
        rw [earlier, Option.none_or, Option.ite_none_right_eq_some, Option.some.injEq] at first
        rcases first with ⟨rfl, rfl⟩
        exact Or.inr ⟨firstAnswer_eq_none.mp earlier, expect, decides, fails⟩
  · rintro (⟨other, expect, answer, decides, first, fails⟩ | ⟨isFirst, expect, decides, fails⟩)
    · refine ⟨other, expect, answer, decides, ?_, fails⟩
      rw [firstAnswer_append, first, Option.some_or]
    · refine ⟨target, expect, found, decides, ?_, fails⟩
      rw [firstAnswer_append, firstAnswer_eq_none.mpr isFirst, if_pos rfl, Option.none_or]

end Answers

/-! ## What an answer does to the op's state -/

namespace IndexUpdateState

variable (state : IndexUpdateState) (target : DatumId) (found : Bool)

/-- A missing target is tracked if the expectation says so. -/
def trackedBy : Option PendingIndexUpdate :=
  if found then none else (state.existsExpectations.lookup target).bind Expectation.tracked

/-- Why an answer fails the op; without an expectation a missing target is taken for a dangling
reference. -/
def refusal : Option String :=
  match state.existsExpectations.lookup target, found with
  | some (.absent message), true => some message
  | some (.present .reject), false | none, false =>
      some ("dangling reference: " ++ target.debug ++ " does not exist")
  | _, _ => none

theorem onExistsCheckReplied_eq : state.onExistsCheckReplied target found =
    ({ state with
        pending := state.pending - 1 + (state.trackedBy target found).toList.length
        existsExpectations := state.existsExpectations.erase target
        violation := state.violation.or (state.refusal target found) },
      state.trackedBy target found) := by
  unfold onExistsCheckReplied trackedBy refusal
  cases found <;> cases state.existsExpectations.lookup target with
  | none => simp
  | some expect =>
      rcases expect with (_ | _) | _ <;> simp [Expectation.tracked]

theorem refusal_isSome : (state.refusal target found).isSome ↔
    (state.existsExpectations.lookup target).elim (!found) (·.violatedBy found) = true := by
  unfold refusal
  cases found <;> cases state.existsExpectations.lookup target with
  | none => simp
  | some expect =>
      rcases expect with (_ | _) | _ <;> simp [Expectation.violatedBy]

end IndexUpdateState

/-! ## An op that waits -/

variable {Resident : Type}

/-- What an op that has run waits for. -/
def Worker.phase (worker : Worker Resident) (opId : DatumId) : Option IndexUpdateState :=
  (worker.opRecords.lookup opId).bind OpRecord.indexUpdateState

/-- The thread of an op, with the checks and index updates that are outstanding for it.  `answers`
and `results` keep what was answered, and `effects` what the thread did about it. -/
structure Awaiting (Resident : Type) where
  worker : Worker Resident
  store : Store
  checks : List DatumId
  updates : List PendingIndexUpdate
  answers : List (DatumId × Bool)
  results : List (PendingIndexUpdate × Option String)
  effects : List Effect

/-- An outstanding check or index update is answered; between the answers the thread takes other
messages, which may change anything but what the op waits for. -/
inductive AwaitingStep (Resident : Type) where
  | check (index : ℕ) (found : Bool)
  | update (index : ℕ) (violation : Option String)
  | other (worker : Worker Resident) (store : Store) (record : OpRecord)

namespace Awaiting

section Steps

variable (env : Env Resident) (thread : ThreadId) (hint opId : DatumId)

def onCheck (awaiting : Awaiting Resident) (index : ℕ) (target : DatumId) (found : Bool) :
    Awaiting Resident :=
  let turn := env.handle thread hint (.existsCheckReplied opId target found) awaiting.worker
    awaiting.store
  let dispatched := (awaiting.worker.phase opId).bind fun state =>
    (state.onExistsCheckReplied target found).2
  { awaiting with
    worker := turn.worker
    store := turn.store
    checks := awaiting.checks.eraseIdx index
    updates := awaiting.updates ++ dispatched.toList
    answers := awaiting.answers ++ [(target, found)]
    effects := awaiting.effects ++ turn.effects }

def onUpdate (awaiting : Awaiting Resident) (index : ℕ) (update : PendingIndexUpdate)
    (violation : Option String) : Awaiting Resident :=
  let turn := env.handle thread hint (.indexUpdateReplied opId update.target violation)
    awaiting.worker awaiting.store
  { awaiting with
    worker := turn.worker
    store := turn.store
    updates := awaiting.updates.eraseIdx index
    results := awaiting.results ++ [(update, violation)]
    effects := awaiting.effects ++ turn.effects }

def step (awaiting : Awaiting Resident) : AwaitingStep Resident → Option (Awaiting Resident)
  | .check index found =>
      awaiting.checks[index]?.map fun target =>
        awaiting.onCheck env thread hint opId index target found
  | .update index violation =>
      awaiting.updates[index]?.map fun update =>
        awaiting.onUpdate env thread hint opId index update violation
  | .other worker store record =>
      (awaiting.worker.phase opId).map fun state =>
        { awaiting with
          worker := { worker with
            opRecords := worker.opRecords.insert opId { record with indexUpdateState := some state } }
          store := store }

/-- The op has acquired all it needs, and the thread runs its handler, which schedules existence
checks. -/
structure Begins (ctx : OpContext) (opResult : Bytes) (start : Awaiting Resident) : Prop where
  schedules : ctx.pendingExistsChecks ≠ []
  ran : ∃ worker store record, worker.opRecords.lookup opId = some record ∧
    record.stillNeeded = [] ∧ record.indexUpdateState = none ∧
    env.ops.invoke store record.opName (OpContext.new worker.cache) record.datumIds
      record.payload = (ctx, .ok opResult) ∧
    start =
      ⟨(env.tryRunIfReady thread opId worker store).worker,
        (env.tryRunIfReady thread opId worker store).store,
        ctx.pendingExistsChecks.map PendingExistsCheck.target, ctx.pendingIndexUpdates, [], [],
        (env.tryRunIfReady thread opId worker store).effects⟩

def system (ctx : OpContext) (opResult : Bytes) :
    Transition.System (Awaiting Resident) (AwaitingStep Resident) where
  init := Begins env thread opId ctx opResult
  step := step env thread hint opId

end Steps

end Awaiting

/-! ## How the op is answered -/

namespace Effect

/-- The op is neither answered nor committed. -/
def Undecided (opId : DatumId) (effects : List Effect) : Prop :=
  ∀ effect ∈ effects, (∀ result, effect ≠ .reply opId result) ∧
    ∀ datumIds writes, effect ≠ .committed opId datumIds writes

/-- The op is answered with an error, and nothing is committed for it. -/
def Fails (opId : DatumId) (effects : List Effect) : Prop :=
  (∃ message, .reply opId (.error message) ∈ effects) ∧
    (∀ result, .reply opId (.ok result) ∉ effects) ∧
    ∀ datumIds writes, .committed opId datumIds writes ∉ effects

/-- The op's writes are committed, and it is answered with its result. -/
def Commits (opId : DatumId) (writes : List StagedWrite) (opResult : Bytes)
    (effects : List Effect) : Prop :=
  (∃ datumIds, .committed opId datumIds writes ∈ effects) ∧
    .reply opId (.ok opResult) ∈ effects ∧ ∀ message, .reply opId (.error message) ∉ effects

variable {opId : DatumId} {before effects : List Effect} {writes : List StagedWrite}
  {opResult : Bytes}

theorem Undecided.append (undecided : Undecided opId before) (also : Undecided opId effects) :
    Undecided opId (before ++ effects) := by
  intro effect inside
  rcases List.mem_append.mp inside with first | second
  · exact undecided effect first
  · exact also effect second

theorem Undecided.fails (undecided : Undecided opId before) (fails : Fails opId effects) :
    Fails opId (before ++ effects) := by
  rcases fails with ⟨⟨message, answered⟩, noResult, noCommit⟩
  refine ⟨⟨message, List.mem_append_right _ answered⟩, ?_, ?_⟩
  · intro result inside
    rcases List.mem_append.mp inside with first | second
    · exact (undecided _ first).1 _ rfl
    · exact noResult result second
  · intro datumIds writes inside
    rcases List.mem_append.mp inside with first | second
    · exact (undecided _ first).2 _ _ rfl
    · exact noCommit datumIds writes second

theorem Undecided.commits (undecided : Undecided opId before)
    (commits : Commits opId writes opResult effects) :
    Commits opId writes opResult (before ++ effects) := by
  rcases commits with ⟨⟨datumIds, committed⟩, answered, noError⟩
  refine ⟨⟨datumIds, List.mem_append_right _ committed⟩, List.mem_append_right _ answered, ?_⟩
  intro message inside
  rcases List.mem_append.mp inside with first | second
  · exact (undecided _ first).1 _ rfl
  · exact noError message second

end Effect

namespace Env

open Effect

variable (env : Env Resident) (thread : ThreadId) (opId : DatumId)

theorem undecided_dispatchIndexUpdate (other : DatumId) (updates : List PendingIndexUpdate) :
    Undecided opId (updates.map (env.dispatchIndexUpdate thread other)) := by
  intro effect inside
  rcases List.mem_map.mp inside with ⟨update, _, rfl⟩
  unfold dispatchIndexUpdate
  simp only
  split
  · simp
  · split <;> simp

theorem undecided_dispatchExistsCheck (checks : List PendingExistsCheck) :
    Undecided opId
      (checks.map fun check => env.dispatchExistsCheck thread opId check.target) := by
  intro effect inside
  rcases List.mem_map.mp inside with ⟨check, _, rfl⟩
  unfold dispatchExistsCheck
  simp only
  split
  · simp
  · split <;> simp

theorem undecided_releaseDatums (datumIds : List DatumId) (cache : Cache) :
    Undecided opId (env.releaseDatums datumIds cache).2 := by
  intro effect inside
  rcases List.mem_flatMap.mp inside with ⟨datumId, _, released⟩
  unfold releaseDatum at released
  simp only at released
  split at released
  · rw [List.mem_singleton.mp released]
    simp
  · split at released
    · rw [List.mem_singleton.mp released]
      simp
    · cases released

variable {env opId}

/-- A record whose state was just replaced is answered if nothing is outstanding. -/
theorem finishOpIfSettled_replaced (worker : Worker Resident) (store : Store) (record : OpRecord)
    (state : IndexUpdateState) {turn : Turn Resident}
    (isTurn : turn = env.finishOpIfSettled opId
      { worker with
        opRecords := worker.opRecords.insert opId { record with indexUpdateState := some state } }
      store) :
    (state.pending ≠ 0 → turn.worker.phase opId = some state ∧ Undecided opId turn.effects) ∧
      (state.pending = 0 → turn.worker.phase opId = none ∧
        (state.violation.isSome → Fails opId turn.effects) ∧
        (state.violation = none →
          Commits opId state.stagedWrites state.opResult turn.effects)) := by
  subst isTurn
  unfold finishOpIfSettled Worker.phase
  simp only [AList.lookup_insert]
  constructor
  · intro unsettled
    rw [if_neg unsettled]
    refine ⟨by simp, ?_⟩
    intro effect inside
    cases inside
  · intro settled
    rw [if_pos settled]
    cases violated : state.violation with
    | some message =>
        have released := undecided_releaseDatums env opId record.acquired worker.cache
        refine ⟨by simp, fun _ => ⟨⟨message, List.mem_cons_self⟩, ?_, ?_⟩, by simp⟩
        · intro result inside
          rcases List.mem_cons.mp inside with same | later
          · cases same
          · exact (released _ later).1 _ rfl
        · intro datumIds writes inside
          rcases List.mem_cons.mp inside with same | later
          · cases same
          · exact (released _ later).2 _ _ rfl
    | none =>
        refine ⟨by simp, by simp, fun _ => ⟨⟨record.datumIds, List.mem_cons_self⟩,
          List.mem_cons_of_mem _ List.mem_cons_self, ?_⟩⟩
        intro message inside
        rcases List.mem_cons.mp inside with same | later
        · cases same
        · rcases List.mem_cons.mp later with same | released
          · cases same
          · exact (undecided_releaseDatums env opId record.acquired _ _ released).1 _ rfl

end Env

/-! ## What is outstanding, answered and decided -/

namespace Awaiting

open Effect

variable {env : Env Resident} {thread : ThreadId} {hint opId : DatumId} {ctx : OpContext}
  {opResult : Bytes} {start awaiting next : Awaiting Resident}

/-- What fails the op: an index update that was refused, an expectation that was violated, or a
target that was answered before and is answered missing. -/
def Refused (ctx : OpContext) (awaiting : Awaiting Resident) : Prop :=
  (∃ result ∈ awaiting.results, result.2.isSome) ∨
    Violated ctx.pendingExistsChecks awaiting.answers ∨ MissingAgain awaiting.answers

/-- Every check is outstanding or answered, and every tracked entry was dispatched. -/
structure Tallies (ctx : OpContext) (awaiting : Awaiting Resident) : Prop where
  answered : (awaiting.answers.map Prod.fst ++ awaiting.checks).Perm
    (ctx.pendingExistsChecks.map PendingExistsCheck.target)
  tracked : ∀ target expect entry, deciding ctx.pendingExistsChecks target = some expect →
    firstAnswer awaiting.answers target = some false → expect.tracked = some entry →
      entry ∈ awaiting.updates ∨ ∃ violation, (entry, violation) ∈ awaiting.results

/-- The state of the op says what is outstanding, expected and decided. -/
structure Matches (ctx : OpContext) (opResult : Bytes) (awaiting : Awaiting Resident)
    (state : IndexUpdateState) : Prop where
  pending : state.pending = awaiting.checks.length + awaiting.updates.length
  expectations : ∀ target, state.existsExpectations.lookup target =
    if target ∈ awaiting.answers.map Prod.fst then none
    else deciding ctx.pendingExistsChecks target
  violation : state.violation.isSome ↔ Refused ctx awaiting
  opResult : state.opResult = opResult
  stagedWrites : state.stagedWrites = ctx.takeStagedWrites

/-- The op is undecided as long as anything is outstanding, and decided from then on. -/
inductive Decided (opId : DatumId) (ctx : OpContext) (opResult : Bytes)
    (awaiting : Awaiting Resident) : Prop where
  | waits (state : IndexUpdateState) (phase : awaiting.worker.phase opId = some state)
      (outstanding : awaiting.checks ≠ [] ∨ awaiting.updates ≠ [])
      (matching : Matches ctx opResult awaiting state)
      (undecided : Undecided opId awaiting.effects)
  | settled (noChecks : awaiting.checks = []) (noUpdates : awaiting.updates = [])
      (phase : awaiting.worker.phase opId = none)
      (fails : Refused ctx awaiting → Fails opId awaiting.effects)
      (commits : ¬Refused ctx awaiting →
        Commits opId ctx.takeStagedWrites opResult awaiting.effects)

/-- Once the answer is recorded the op is decided if it was the last. -/
theorem Matches.decided {state : IndexUpdateState} {before : List Effect} {turn : Turn Resident}
    (matching : Matches ctx opResult awaiting state) (env : Env Resident)
    (worker : Worker Resident) (store : Store) (record : OpRecord)
    (undecided : Undecided opId before)
    (isTurn : turn = env.finishOpIfSettled opId
      { worker with
        opRecords := worker.opRecords.insert opId { record with indexUpdateState := some state } }
      store)
    (sameWorker : awaiting.worker = turn.worker)
    (sameEffects : awaiting.effects = before ++ turn.effects) :
    Decided opId ctx opResult awaiting := by
  rcases env.finishOpIfSettled_replaced worker store record state isTurn with ⟨waiting, settled⟩
  by_cases isSettled : state.pending = 0
  · rcases settled isSettled with ⟨phase, fails, commits⟩
    have nothing := matching.pending
    rw [isSettled, eq_comm, Nat.add_eq_zero_iff, List.length_eq_zero_iff,
      List.length_eq_zero_iff] at nothing
    refine .settled nothing.1 nothing.2 (by rw [sameWorker, phase]) ?_ ?_
    · intro refused
      rw [sameEffects]
      exact undecided.fails (fails (matching.violation.mpr refused))
    · intro accepted
      rw [sameEffects, ← matching.opResult, ← matching.stagedWrites]
      apply undecided.commits
      apply commits
      rw [← Option.not_isSome_iff_eq_none, matching.violation]
      exact accepted
  · rcases waiting isSettled with ⟨phase, silent⟩
    refine .waits state (by rw [sameWorker, phase]) ?_ matching ?_
    · by_contra nothing
      push Not at nothing
      apply isSettled
      rw [matching.pending, nothing.1, nothing.2]
      rfl
    · rw [sameEffects]
      exact undecided.append silent

theorem exists_record {state : IndexUpdateState}
    (phase : awaiting.worker.phase opId = some state) :
    ∃ record, awaiting.worker.opRecords.lookup opId = some record ∧
      record.indexUpdateState = some state :=
  Option.bind_eq_some_iff.mp phase

/-- The answer to a check, as the state sees it. -/
theorem Matches.onCheck {state : IndexUpdateState} (matching : Matches ctx opResult awaiting state)
    (tallies : Tallies ctx awaiting) {index : ℕ} {target : DatumId}
    (outstanding : awaiting.checks[index]? = some target) (found : Bool)
    (phase : awaiting.worker.phase opId = some state) :
    Matches ctx opResult (awaiting.onCheck env thread hint opId index target found)
      (state.onExistsCheckReplied target found).1 where
  pending := by
    have inside := (List.getElem?_eq_some_iff.mp outstanding).1
    have removed := List.length_eraseIdx_add_one inside
    have pending := matching.pending
    simp only [Awaiting.onCheck, phase, Option.bind_some, state.onExistsCheckReplied_eq,
      List.length_append]
    omega
  expectations := by
    intro other
    simp only [Awaiting.onCheck, state.onExistsCheckReplied_eq, List.map_append, List.map_cons,
      List.map_nil, List.mem_append, List.mem_singleton]
    rcases eq_or_ne other target with rfl | differ
    · simp
    · simp only [differ, or_false, AList.lookup_erase_ne differ, matching.expectations]
  violation := by
    have violated := state.refusal_isSome target found
    rw [matching.expectations] at violated
    have checked : target ∈ ctx.pendingExistsChecks.map PendingExistsCheck.target :=
      tallies.answered.mem_iff.mp (List.mem_append_right _ (List.mem_of_getElem? outstanding))
    rcases deciding_isSome checked with ⟨expect, decides⟩
    simp only [state.onExistsCheckReplied_eq, Option.isSome_or, Bool.or_eq_true,
      matching.violation, violated, Refused, Awaiting.onCheck, violated_append,
      missingAgain_append]
    by_cases answered : target ∈ awaiting.answers.map Prod.fst
    · simp only [answered, if_true, Option.elim_none, not_true, false_and, or_false, and_true]
      cases found <;> simp
    · simp only [answered, if_false, decides, Option.elim_some, not_false_eq_true, true_and,
        and_false, or_false, Option.some.injEq, exists_eq_left']
      rw [or_assoc, or_assoc, or_assoc, or_comm (a := MissingAgain _)]
  opResult := by rw [state.onExistsCheckReplied_eq]; exact matching.opResult
  stagedWrites := by rw [state.onExistsCheckReplied_eq]; exact matching.stagedWrites

theorem Matches.onUpdate {state : IndexUpdateState}
    (matching : Matches ctx opResult awaiting state) {index : ℕ} {update : PendingIndexUpdate}
    (outstanding : awaiting.updates[index]? = some update) (violation : Option String) :
    Matches ctx opResult (awaiting.onUpdate env thread hint opId index update violation)
      (state.onIndexUpdateReplied violation) where
  pending := by
    have inside := (List.getElem?_eq_some_iff.mp outstanding).1
    have removed := List.length_eraseIdx_add_one inside
    have pending := matching.pending
    simp only [Awaiting.onUpdate, IndexUpdateState.onIndexUpdateReplied]
    omega
  expectations := matching.expectations
  violation := by
    simp only [IndexUpdateState.onIndexUpdateReplied, Option.isSome_or, Bool.or_eq_true,
      matching.violation, Refused, Awaiting.onUpdate, List.mem_append, List.mem_singleton,
      or_and_right, exists_or, exists_eq_left]
    rw [or_right_comm]
  opResult := matching.opResult
  stagedWrites := matching.stagedWrites

theorem Tallies.onCheck (tallies : Tallies ctx awaiting) {state : IndexUpdateState}
    (matching : Matches ctx opResult awaiting state) {index : ℕ} {target : DatumId}
    (outstanding : awaiting.checks[index]? = some target) (found : Bool)
    (phase : awaiting.worker.phase opId = some state) :
    Tallies ctx (awaiting.onCheck env thread hint opId index target found) where
  answered := by
    refine List.Perm.trans ?_ tallies.answered
    rcases List.getElem?_eq_some_iff.mp outstanding with ⟨inside, same⟩
    simp only [Awaiting.onCheck, List.map_append, List.map_cons, List.map_nil, List.append_assoc]
    refine List.Perm.append_left _ ?_
    rw [← same]
    exact List.getElem_cons_eraseIdx_perm inside
  tracked := by
    intro other expect entry decides first tracks
    simp only [Awaiting.onCheck, phase, Option.bind_some, List.mem_append, Option.mem_toList]
    simp only [Awaiting.onCheck, firstAnswer_append] at first
    cases earlier : firstAnswer awaiting.answers other with
    | some answer =>
        rw [earlier, Option.some_or] at first
        cases first
        rcases tallies.tracked other expect entry decides earlier tracks with under | replied
        · exact Or.inl (Or.inl under)
        · exact Or.inr replied
    | none =>
        rw [earlier, Option.none_or, Option.ite_none_right_eq_some, Option.some.injEq] at first
        rcases first with ⟨rfl, rfl⟩
        refine Or.inl (Or.inr ?_)
        have unanswered := firstAnswer_eq_none.mp earlier
        rw [state.onExistsCheckReplied_eq]
        simp only [IndexUpdateState.trackedBy, matching.expectations, unanswered, if_false, decides,
          Bool.false_eq_true, Option.bind_some, tracks]

theorem Tallies.onUpdate (tallies : Tallies ctx awaiting) {index : ℕ}
    {update : PendingIndexUpdate} (outstanding : awaiting.updates[index]? = some update)
    (violation : Option String) :
    Tallies ctx (awaiting.onUpdate env thread hint opId index update violation) where
  answered := tallies.answered
  tracked := by
    intro target expect entry decides first tracks
    simp only [Awaiting.onUpdate, List.mem_append, List.mem_singleton]
    rcases tallies.tracked target expect entry decides first tracks with under | ⟨reply, replied⟩
    · rcases List.getElem?_eq_some_iff.mp outstanding with ⟨inside, same⟩
      have split := (List.getElem_cons_eraseIdx_perm inside).mem_iff.mpr under
      rw [same] at split
      rcases List.mem_cons.mp split with rfl | rest
      · exact Or.inr ⟨violation, Or.inr rfl⟩
      · exact Or.inl rest
    · exact Or.inr ⟨reply, Or.inl replied⟩

/-- The run keeps the tallies, and leaves the op undecided until everything is answered. -/
theorem decided_step (tallies : Tallies ctx awaiting) (decided : Decided opId ctx opResult awaiting)
    {label : AwaitingStep Resident}
    (stepped : awaiting.step env thread hint opId label = some next) :
    Tallies ctx next ∧ Decided opId ctx opResult next := by
  cases decided with
  | settled noChecks noUpdates phase fails commits =>
      cases label with
      | check index found => simp [Awaiting.step, noChecks] at stepped
      | update index violation => simp [Awaiting.step, noUpdates] at stepped
      | other worker store record => simp [Awaiting.step, phase] at stepped
  | waits state phase outstanding matching undecided =>
      rcases exists_record phase with ⟨record, found, entered⟩
      cases label with
      | check index answer =>
          rcases Option.map_eq_some_iff.mp stepped with ⟨target, isCheck, rfl⟩
          refine ⟨tallies.onCheck matching isCheck answer phase, ?_⟩
          have dispatched := env.undecided_dispatchIndexUpdate thread opId opId
            (state.onExistsCheckReplied target answer).2.toList
          refine (matching.onCheck tallies isCheck answer phase).decided env awaiting.worker
            awaiting.store record (undecided.append dispatched) rfl ?_ ?_
          · simp only [Awaiting.onCheck, Env.handle, Env.handleExistsCheckReplied, found, entered,
              Turn.andThen]
          · simp only [Awaiting.onCheck, Env.handle, Env.handleExistsCheckReplied, found, entered,
              Turn.andThen, List.append_assoc]
      | update index violation =>
          rcases Option.map_eq_some_iff.mp stepped with ⟨update, isUpdate, rfl⟩
          refine ⟨tallies.onUpdate isUpdate violation, ?_⟩
          refine (matching.onUpdate isUpdate violation).decided env awaiting.worker
            awaiting.store record undecided rfl ?_ ?_
          · simp only [Awaiting.onUpdate, Env.handle, Env.handleIndexUpdateReplied, found, entered,
              Option.map_some]
          · simp only [Awaiting.onUpdate, Env.handle, Env.handleIndexUpdateReplied, found, entered,
              Option.map_some]
      | other worker store otherRecord =>
          rcases Option.map_eq_some_iff.mp stepped with ⟨same, isPhase, rfl⟩
          rw [phase] at isPhase
          cases isPhase
          refine ⟨⟨tallies.answered, tallies.tracked⟩, .waits state ?_ outstanding
            ⟨matching.pending, matching.expectations, matching.violation, matching.opResult,
              matching.stagedWrites⟩ undecided⟩
          simp [Worker.phase]

/-- The handler has run, and all it scheduled is outstanding. -/
theorem Begins.decided (begins : start.Begins env thread opId ctx opResult) :
    Tallies ctx start ∧ Decided opId ctx opResult start := by
  rcases begins.ran with ⟨worker, store, record, found, nothingNeeded, notRun, invoked, rfl⟩
  have notEmpty : ¬(ctx.pendingIndexUpdates = [] ∧ ctx.pendingExistsChecks = []) :=
    fun both => begins.schedules both.2
  constructor
  · refine ⟨by simp, ?_⟩
    intro target expect entry _ first
    cases first
  · let state : IndexUpdateState :=
      { stagedWrites := ctx.takeStagedWrites
        opResult := opResult
        pending := ctx.pendingIndexUpdates.length + ctx.pendingExistsChecks.length
        violation := none
        existsExpectations := ctx.pendingExistsChecks.foldl
          (fun expectations check => expectations.insert check.target check.expect) ∅ }
    refine .waits state ?_ ?_ ⟨?_, ?_, ?_, rfl, rfl⟩ ?_
    · simp [Env.tryRunIfReady, found, nothingNeeded, notRun, invoked, notEmpty, Worker.phase,
        state]
    · exact Or.inl (by simpa using begins.schedules)
    · simp [state, Nat.add_comm]
    · intro target
      simp only [List.map_nil, List.not_mem_nil, if_false]
      exact lookup_expectations ctx.pendingExistsChecks target
    · simp [state, Refused, Violated, firstAnswer, MissingAgain]
    · have updates := env.undecided_dispatchIndexUpdate thread opId opId ctx.pendingIndexUpdates
      have checks := env.undecided_dispatchExistsCheck thread opId ctx.pendingExistsChecks
      have invocation : Undecided opId [.invoked opId] := by
        intro effect inside
        rw [List.mem_singleton.mp inside]
        simp
      simpa [Env.tryRunIfReady, found, nothingNeeded, notRun, invoked, notEmpty] using
        invocation.append (updates.append checks)

theorem Begins.decided_of_exec {last : Awaiting Resident} {labels : List (AwaitingStep Resident)}
    (begins : start.Begins env thread opId ctx opResult)
    (executed : (system env thread hint opId ctx opResult).exec start labels = some last) :
    Tallies ctx last ∧ Decided opId ctx opResult last := by
  have preserved : ∀ awaiting label next,
      (Tallies ctx awaiting ∧ Decided opId ctx opResult awaiting) → True →
        (system env thread hint opId ctx opResult).step awaiting label = some next →
          Tallies ctx next ∧ Decided opId ctx opResult next :=
    fun awaiting label next holds _ stepped => decided_step holds.1 holds.2 stepped
  exact (Transition.System.run_of_exec executed).induction preserved begins.decided

/-- An op with existence checks is answered when everything outstanding is answered, in whatever
order and whatever its thread does in between.  What counts for a target is the last check
scheduled for it and the first answer: the op fails if that check rejects the answer; it commits
unless one does, an index update is refused or a target is found missing after it was answered; and
when it commits every tracked reference that was missing has been recorded. -/
theorem existence_verdict {last : Awaiting Resident} {labels : List (AwaitingStep Resident)}
    (begins : start.Begins env thread opId ctx opResult)
    (executed : (system env thread hint opId ctx opResult).exec start labels = some last) :
    ((last.checks ≠ [] ∨ last.updates ≠ []) → Undecided opId last.effects) ∧
    (last.checks = [] → last.updates = [] →
      (last.answers.map Prod.fst).Perm
        (ctx.pendingExistsChecks.map PendingExistsCheck.target) ∧
      (Violated ctx.pendingExistsChecks last.answers → Fails opId last.effects) ∧
      (¬Violated ctx.pendingExistsChecks last.answers →
        (∀ result ∈ last.results, result.2 = none) → ¬MissingAgain last.answers →
          Commits opId ctx.takeStagedWrites opResult last.effects)) ∧
    ∀ datumIds writes, .committed opId datumIds writes ∈ last.effects →
      ∀ target expect entry, deciding ctx.pendingExistsChecks target = some expect →
        firstAnswer last.answers target = some false → expect.tracked = some entry →
          (entry, none) ∈ last.results := by
  rcases begins.decided_of_exec executed with ⟨tallies, decided⟩
  cases decided with
  | waits state phase outstanding matching undecided =>
      refine ⟨fun _ => undecided, ?_, ?_⟩
      · intro noChecks noUpdates
        rcases outstanding with checks | updates
        · exact absurd noChecks checks
        · exact absurd noUpdates updates
      · intro datumIds writes committed
        exact absurd rfl ((undecided _ committed).2 datumIds writes)
  | settled noChecks noUpdates phase fails commits =>
      have accepted : ¬Refused ctx last → ∀ result ∈ last.results, result.2 = none := by
        intro notRefused result isResult
        rw [← Option.not_isSome_iff_eq_none]
        exact fun refused => notRefused (Or.inl ⟨result, isResult, refused⟩)
      refine ⟨?_, ?_, ?_⟩
      · rintro (checks | updates)
        · exact absurd noChecks checks
        · exact absurd noUpdates updates
      · intro _ _
        refine ⟨?_, fun violated => fails (Or.inr (Or.inl violated)), ?_⟩
        · have answered := tallies.answered
          rwa [noChecks, List.append_nil] at answered
        · intro notViolated allAccepted notAgain
          apply commits
          rintro (⟨result, isResult, refused⟩ | violated | again)
          · rw [allAccepted result isResult] at refused
            cases refused
          · exact notViolated violated
          · exact notAgain again
      · intro datumIds writes committed target expect entry decides first tracks
        have notRefused : ¬Refused ctx last := fun refused =>
          (fails refused).2.2 datumIds writes committed
        rcases tallies.tracked target expect entry decides first tracks with under | replied
        · rw [noUpdates] at under
          cases under
        · rcases replied with ⟨violation, isResult⟩
          have isAccepted : violation = none := accepted notRefused _ isResult
          rwa [isAccepted] at isResult

/-! ## An op that schedules given checks -/

def scheduling : List PendingExistsCheck → OpProg
  | [] => .done []
  | check :: checks => .scheduleExistsCheck check (scheduling checks)

/-- A node of one thread whose only op schedules the checks. -/
def checkingEnv (checks : List PendingExistsCheck) : Env Unit where
  selfNodeId := 0
  native := fun _ => (0, 0)
  linked := fun _ => false
  ops := fun _ => some fun _ _ => scheduling checks
  indexKinds := ⟨fun _ => none, fun resident _ => (resident, ⟨none, .none⟩), fun _ _ => .ok [],
    fun resident _ => (resident, .ok [])⟩

/-- Op 1 needs nothing and is about to run. -/
def ready : Worker Unit :=
  { Worker.new with
    opRecords := (∅ : AList (fun _ : DatumId => OpRecord)).insert 1 ⟨"save", [], [], [], [], none⟩ }

def scheduled (checks : List PendingExistsCheck) : OpContext :=
  ((checkingEnv checks).ops.invoke (fun _ => none) "save" (OpContext.new ready.cache) [] []).1

def checking (checks : List PendingExistsCheck) : Awaiting Unit where
  worker := ((checkingEnv checks).tryRunIfReady 0 1 ready fun _ => none).worker
  store := ((checkingEnv checks).tryRunIfReady 0 1 ready fun _ => none).store
  checks := (scheduled checks).pendingExistsChecks.map PendingExistsCheck.target
  updates := (scheduled checks).pendingIndexUpdates
  answers := []
  results := []
  effects := ((checkingEnv checks).tryRunIfReady 0 1 ready fun _ => none).effects

/-- A reference that may be missing and is then recorded under datum 9. -/
def mayBeMissing : List PendingExistsCheck := [⟨5, .present (.track 9 "pending" [1])⟩]

theorem mayBeMissing_begins : (checking mayBeMissing).Begins (checkingEnv mayBeMissing) 0 1
    (scheduled mayBeMissing) [] where
  schedules := by decide
  ran := ⟨ready, fun _ => none, _, rfl, rfl, rfl, rfl, rfl⟩

/-- The target is missing, and the entry is recorded before the op commits. -/
theorem existence_verdict_tracked :
    ∃ last, (system (checkingEnv mayBeMissing) 0 0 1 (scheduled mayBeMissing) []).exec
        (checking mayBeMissing) [.check 0 false, .update 0 none] = some last ∧
      Commits 1 [] [] last.effects ∧ (⟨9, "pending", [1]⟩, none) ∈ last.results := by
  have executed : ((system (checkingEnv mayBeMissing) 0 0 1 (scheduled mayBeMissing) []).exec
      (checking mayBeMissing) [.check 0 false, .update 0 none]).map (fun last =>
        decide (last.checks = [] ∧ last.updates = [] ∧ last.answers = [(5, false)] ∧
          last.results = [(⟨9, "pending", [1]⟩, none)])) = some true := by decide +kernel
  rcases Option.map_eq_some_iff.mp executed with ⟨last, ran, observed⟩
  rcases of_decide_eq_true observed with ⟨noChecks, noUpdates, answers, results⟩
  have verdict := (existence_verdict mayBeMissing_begins ran).2.1 noChecks noUpdates
  refine ⟨last, ran, ?_, by rw [results]; exact List.mem_singleton_self _⟩
  refine verdict.2.2 ?_ ?_ ?_
  · rintro ⟨target, expect, found, decides, first, fails⟩
    have isTrack : expect = .present (.track 9 "pending" [1]) := by
      change deciding mayBeMissing target = some expect at decides
      by_cases same : (5 : DatumId) = target
      · simpa [deciding, mayBeMissing, same, eq_comm] using decides
      · simp [deciding, mayBeMissing, same] at decides
    rw [isTrack] at fails
    cases fails
  · intro result isResult
    rw [results, List.mem_singleton] at isResult
    rw [isResult]
  · rintro ⟨front, target, back, split, earlier⟩
    rw [answers] at split
    rcases List.singleton_eq_append_iff.mp split with ⟨rfl, _⟩ | ⟨_, nothing⟩
    · cases earlier
    · cases nothing

/-- Datum 5 must be gone, and it must be there. -/
def contradictory : List PendingExistsCheck :=
  [⟨5, .absent "still referenced"⟩, ⟨5, .present .reject⟩]

theorem contradictory_begins : (checking contradictory).Begins (checkingEnv contradictory) 0 1
    (scheduled contradictory) [] where
  schedules := by decide
  ran := ⟨ready, fun _ => none, _, rfl, rfl, rfl, rfl, rfl⟩

/-- Datum 5 is there: the first check is violated, the last one is not, and the op commits. -/
theorem earlier_check_dropped :
    (checking contradictory).Begins (checkingEnv contradictory) 0 1 (scheduled contradictory) [] ∧
    ∃ last, (system (checkingEnv contradictory) 0 0 1 (scheduled contradictory) []).exec
        (checking contradictory) [.check 0 true, .check 0 true] = some last ∧
      last.checks = [] ∧ last.updates = [] ∧ last.answers = [(5, true), (5, true)] ∧
      ⟨5, .absent "still referenced"⟩ ∈ (scheduled contradictory).pendingExistsChecks ∧
      (Expectation.absent "still referenced").violatedBy true = true ∧
      Commits 1 [] [] last.effects := by
  have executed : ((system (checkingEnv contradictory) 0 0 1 (scheduled contradictory) []).exec
      (checking contradictory) [.check 0 true, .check 0 true]).map (fun last =>
        decide (last.checks = [] ∧ last.updates = [] ∧ last.answers = [(5, true), (5, true)] ∧
          last.results = [])) = some true := by decide +kernel
  rcases Option.map_eq_some_iff.mp executed with ⟨last, ran, observed⟩
  rcases of_decide_eq_true observed with ⟨noChecks, noUpdates, answers, results⟩
  refine ⟨contradictory_begins, last, ran, noChecks, noUpdates, answers, by decide, rfl, ?_⟩
  cases (contradictory_begins.decided_of_exec ran).2 with
  | waits state phase outstanding matching undecided =>
      rcases outstanding with checks | updates
      · exact absurd noChecks checks
      · exact absurd noUpdates updates
  | settled _ _ phase fails commits =>
      apply commits
      rintro (⟨result, isResult, _⟩ | violated | ⟨front, target, back, split, _⟩)
      · rw [results] at isResult
        cases isResult
      · rcases violated with ⟨target, expect, found, decides, first, violates⟩
        rw [answers] at first
        change deciding contradictory target = some expect at decides
        by_cases same : (5 : DatumId) = target
        · simp only [firstAnswer, same, decide_true, List.find?_cons_of_pos, Option.map_some,
            Option.some.injEq] at first
          simp [deciding, contradictory, same] at decides
          subst first decides
          cases violates
        · simp [firstAnswer, same] at first
      · have inside : (target, false) ∈ last.answers := by
          rw [split]
          simp
        rw [answers] at inside
        simp at inside

end Awaiting

end Seisin
