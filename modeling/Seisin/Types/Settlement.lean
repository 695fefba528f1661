import Seisin.Types.Transaction
import Seisin.Worker.Stored
import Seisin.Worker.Verdicts

/-!
# What a committed op leaves behind

An op that schedules index updates is answered once every reply is in.  If it commits, each home has
served, without a refusal, the updates that the op sent it in the order in which the op scheduled
them, and the writes staged by the handler are stored.
-/

namespace Seisin

variable {Resident : Type}

/-! ## What a dropped context schedules -/

namespace Scheduled

def asUpdate : Scheduled → Option PendingIndexUpdate
  | update request => some request
  | check _ => none

def asCheck : Scheduled → Option PendingExistsCheck
  | update _ => none
  | check request => some request

end Scheduled

namespace TypedEnv

theorem run_runScheduled (calls : List Scheduled) (next : OpProg) (store : Store)
    (ctx : OpContext) :
    (runScheduled calls next).run store ctx = next.run store
      { ctx with
        pendingIndexUpdates := ctx.pendingIndexUpdates ++ calls.filterMap Scheduled.asUpdate
        pendingExistsChecks := ctx.pendingExistsChecks ++ calls.filterMap Scheduled.asCheck } := by
  induction calls generalizing ctx with
  | nil => simp [runScheduled]
  | cons call calls ih =>
      cases call with
      | update update =>
          have first : (runScheduled (.update update :: calls) next).run store ctx =
              (runScheduled calls next).run store (ctx.scheduleIndexUpdate update) := rfl
          rw [first, ih]
          simp only [OpContext.scheduleIndexUpdate, List.append_assoc, List.singleton_append]
          rfl
      | check check =>
          have first : (runScheduled (.check check :: calls) next).run store ctx =
              (runScheduled calls next).run store (ctx.scheduleExistsCheck check) := rfl
          rw [first, ih]
          simp only [OpContext.scheduleExistsCheck, List.append_assoc, List.singleton_append]
          rfl

end TypedEnv

/-! ## The end of an index phase -/

namespace IndexAnswer

/-- The answer refuses nothing by itself. -/
def Accepts : IndexAnswer → Prop
  | .updated violation => violation = none
  | .found _ => True

end IndexAnswer

section Heard

variable {kinds : IndexKinds Resident} {client : IndexUpdateState} {task : IndexTask}

@[simp]
theorem hear_updated (violation : Option String) :
    (indexProtocol kinds).hear client task (.updated violation) =
      (client.onIndexUpdateReplied violation, []) := rfl

@[simp]
theorem hear_found (exists_ : Bool) :
    (indexProtocol kinds).hear client task (.found exists_) =
      ((client.onExistsCheckReplied task.target exists_).1,
        (client.onExistsCheckReplied task.target exists_).2.toList.map .update) := rfl

end Heard

namespace Phase

variable {kinds : IndexKinds Resident}

/-- The count of outstanding replies. -/
def Counts (phase : Phase Resident) : Prop :=
  phase.client.pending = phase.waiting.length + phase.replies.length

theorem Counts.step {phase next : Phase Resident} (counts : phase.Counts) {choice : Dispatch.Choice}
    (stepped : (indexProtocol kinds).step phase choice = some next) : next.Counts := by
  unfold Counts at *
  cases choice with
  | serve index =>
      simp only [Dispatch.Protocol.step, Dispatch.Protocol.serveAt] at stepped
      cases isReady : (indexProtocol kinds).ready phase.waiting index with
      | none => simp [isReady] at stepped
      | some task =>
          simp only [isReady, Option.some.injEq] at stepped
          subst stepped
          rcases Dispatch.Protocol.ready_spec isReady with ⟨before, after, waits, rest, _⟩
          have left := congrArg List.length rest
          rw [waits] at counts
          simp only [List.length_append, List.length_cons, List.length_nil] at counts left ⊢
          omega
  | hear index =>
      simp only [Dispatch.Protocol.step, Dispatch.Protocol.hearAt] at stepped
      cases found : phase.replies[index]? with
      | none => simp [found] at stepped
      | some answered =>
          rcases answered with ⟨task, answer⟩
          have inside := (List.getElem?_eq_some_iff.mp found).1
          have removed := List.length_eraseIdx_add_one inside
          simp only [found, Option.some.injEq] at stepped
          subst stepped
          cases answer with
          | updated violation =>
              simp only [hear_updated, IndexUpdateState.onIndexUpdateReplied, List.append_nil]
              omega
          | found exists_ =>
              simp only [hear_found, IndexUpdateState.onExistsCheckReplied_eq,
                List.length_append, List.length_map]
              omega

theorem counts_of_exec {first last : Phase Resident} {choices : List Dispatch.Choice}
    (counts : first.Counts) (executed : (indexProtocol kinds).system.exec first choices = some last) :
    last.Counts := by
  have run := Transition.System.run_of_exec executed
  exact run.induction (fun _ _ _ before _ stepped => before.step stepped) counts

end Phase

/-- A client that is left without a violation has heard of none. -/
theorem accepts_of_hearAll {kinds : IndexKinds Resident} {client : IndexUpdateState}
    {heard : List (IndexTask × IndexAnswer)}
    (unviolated : ((indexProtocol kinds).hearAll client heard).1.violation = none) :
    client.violation = none ∧ ∀ answered ∈ heard, answered.2.Accepts := by
  induction heard generalizing client with
  | nil => exact ⟨unviolated, fun answered impossible => by cases impossible⟩
  | cons answered heard ih =>
      rcases answered with ⟨task, answer⟩
      simp only [Dispatch.Protocol.hearAll] at unviolated
      rcases ih unviolated with ⟨next, rest⟩
      cases answer with
      | updated violation =>
          simp only [hear_updated, IndexUpdateState.onIndexUpdateReplied,
            Option.or_eq_none_iff] at next
          exact ⟨next.1, List.forall_mem_cons.mpr ⟨next.2, rest⟩⟩
      | found exists_ =>
          simp only [hear_found, IndexUpdateState.onExistsCheckReplied_eq,
            Option.or_eq_none_iff] at next
          exact ⟨next.1, List.forall_mem_cons.mpr ⟨trivial, rest⟩⟩

/-- What the client sends on hearing answers are the entries of missing tracked references. -/
theorem tracked_of_mem_hearAll {kinds : IndexKinds Resident} {client : IndexUpdateState}
    {heard : List (IndexTask × IndexAnswer)} {task : IndexTask}
    (sent : task ∈ ((indexProtocol kinds).hearAll client heard).2) :
    ∃ target expect update, client.existsExpectations.lookup target = some expect ∧
      expect.tracked = some update ∧ task = .update update := by
  induction heard generalizing client with
  | nil => cases sent
  | cons answered heard ih =>
      rcases answered with ⟨asked, answer⟩
      simp only [Dispatch.Protocol.hearAll, List.mem_append] at sent
      cases answer with
      | updated violation =>
          rcases sent with now | later
          · cases now
          · rcases ih later with ⟨target, expect, update, expected, isTracked, rfl⟩
            exact ⟨target, expect, update, expected, isTracked, rfl⟩
      | found exists_ =>
          rcases sent with now | later
          · simp only [hear_found, IndexUpdateState.onExistsCheckReplied_eq] at now
            rcases List.mem_map.mp now with ⟨update, tracked, rfl⟩
            rw [Option.mem_toList] at tracked
            unfold IndexUpdateState.trackedBy at tracked
            split at tracked
            · cases tracked
            · rcases Option.bind_eq_some_iff.mp tracked with ⟨expect, expected, isTracked⟩
              exact ⟨asked.target, expect, update, expected, isTracked, rfl⟩
          · rcases ih later with ⟨target, expect, update, expected, isTracked, rfl⟩
            simp only [hear_found, IndexUpdateState.onExistsCheckReplied_eq] at expected
            have differ : target ≠ asked.target := by
              rintro rfl
              rw [AList.lookup_erase] at expected
              cases expected
            rw [AList.lookup_erase_ne differ] at expected
            exact ⟨target, expect, update, expected, isTracked, rfl⟩

/-- Answers do not change what is staged. -/
theorem stagedWrites_hearAll {kinds : IndexKinds Resident} (client : IndexUpdateState)
    (heard : List (IndexTask × IndexAnswer)) :
    ((indexProtocol kinds).hearAll client heard).1.stagedWrites = client.stagedWrites := by
  induction heard generalizing client with
  | nil => rfl
  | cons answered heard ih =>
      rcases answered with ⟨task, answer⟩
      simp only [Dispatch.Protocol.hearAll, ih]
      cases answer with
      | updated violation => rfl
      | found exists_ => simp only [hear_found, IndexUpdateState.onExistsCheckReplied_eq]

/-! ## What is committed -/

theorem committedContent_entries {entries : List (Sigma fun _ : DatumId => Option Bytes × ℕ)}
    (distinct : entries.NodupKeys) (datumId : DatumId) :
    committedContent (entries.map fun entry => ⟨entry.1, entry.2.1, entry.2.2⟩) datumId =
      (entries.dlookup datumId).map Prod.fst := by
  induction entries with
  | nil => rfl
  | cons entry entries ih =>
      rcases entry with ⟨id, content, n⟩
      rw [List.nodupKeys_cons] at distinct
      rw [List.map_cons, committedContent_cons, ih distinct.2]
      by_cases same : id = datumId
      · subst same
        rw [List.dlookup_cons_eq, List.dlookup_eq_none.mpr distinct.1, if_pos rfl]
        rfl
      · rw [List.dlookup_cons_ne _ _ (Ne.symm same), if_neg same, Option.or_none]

/-- What a commit leaves stored. -/
theorem Database.commit_staged (ctx : OpContext) (database : Database Resident)
    (datumId : DatumId) :
    database.commit ctx.takeStagedWrites datumId =
      { database datumId with
        stored := ((ctx.staged.lookup datumId).map Prod.fst).getD (database datumId).stored } := by
  unfold Database.commit
  rw [commitWrites_content]
  unfold OpContext.takeStagedWrites
  rw [committedContent_entries ctx.staged.nodupKeys]
  rfl

namespace OpContext

variable {kinds : IndexKinds Resident} {ctx : OpContext} {opResult : Bytes}
  {database : Database Resident}

/-- The requests that an op sends to one home, with the entries `later` that it sends because of
missing references. -/
def tasksFor (kinds : IndexKinds Resident) (ctx : OpContext) (later : List PendingIndexUpdate)
    (key : DatumId) : List IndexTask :=
  (indexProtocol kinds).forKey key
    (ctx.pendingIndexUpdates.map .update ++
      (ctx.pendingExistsChecks.map fun check => .check check.target) ++ later.map .update)

/-- Each home has served its requests without a refusal, and the staged writes are stored. -/
structure LeavesBehind (kinds : IndexKinds Resident) (ctx : OpContext)
    (later : List PendingIndexUpdate) (before after : Database Resident) : Prop where
  tracked : ∀ update ∈ later, ∃ check ∈ ctx.pendingExistsChecks,
    check.expect.tracked = some update
  accepted : ∀ key, ∀ answered ∈
    ((indexProtocol kinds).serveAll (before key) (ctx.tasksFor kinds later key)).2,
      answered.2.Accepts
  slots : ∀ key, after key =
    { ((indexProtocol kinds).serveAll (before key) (ctx.tasksFor kinds later key)).1 with
      stored := ((ctx.staged.lookup key).map Prod.fst).getD
        ((indexProtocol kinds).serveAll (before key) (ctx.tasksFor kinds later key)).1.stored }

theorem leavesBehind_of_nothing (noUpdates : ctx.pendingIndexUpdates = [])
    (noChecks : ctx.pendingExistsChecks = []) :
    ctx.LeavesBehind kinds [] database (database.commit ctx.takeStagedWrites) := by
  have nothing : ∀ key, ctx.tasksFor kinds [] key = [] := by
    intro key
    rw [tasksFor, noUpdates, noChecks]
    rfl
  refine ⟨?_, ?_, ?_⟩
  · intro update updateMem
    cases updateMem
  · intro key answered answeredMem
    rw [nothing] at answeredMem
    cases answeredMem
  · intro key
    rw [nothing]
    exact Database.commit_staged ctx database key

theorem leavesBehind_of_settle {last : Phase Resident} {choices : List Dispatch.Choice}
    {result : Bytes} {next : Database Resident}
    (executed : (indexProtocol kinds).system.exec (ctx.phase opResult database) choices = some last)
    (settles : last.settle = some (.committed result, next)) :
    ∃ later, ctx.LeavesBehind kinds later database next := by
  have begins : (ctx.phase opResult database).Counts := by
    simp [Phase.Counts, phase, indexUpdateState]
  have counts := Phase.counts_of_exec begins executed
  rcases Dispatch.Protocol.tally_of_exec rfl executed with ⟨heard, tally⟩
  unfold Phase.settle at settles
  split at settles
  · rename_i done
    unfold Phase.Counts at counts
    rw [done] at counts
    have nothingWaits : last.waiting = [] := List.length_eq_zero_iff.mp (by omega)
    have noReplies : last.replies = [] := List.length_eq_zero_iff.mp (by omega)
    split at settles
    · cases settles
    · rename_i unviolated
      rw [tally.client] at unviolated
      have accepted := (accepts_of_hearAll unviolated).2
      have sent : ∃ later : List PendingIndexUpdate, later.map IndexTask.update =
          ((indexProtocol kinds).hearAll (ctx.phase opResult database).client heard).2 := by
        rw [← Set.mem_range, Set.range_list_map]
        intro task taskMem
        rcases tracked_of_mem_hearAll taskMem with ⟨_, _, update, _, _, rfl⟩
        exact ⟨update, rfl⟩
      rcases sent with ⟨later, isLater⟩
      have settled := tally.settled nothingWaits noReplies
      rw [← isLater] at settled
      refine ⟨later, ?_, ?_, ?_⟩
      · intro update updateMem
        have taskMem := List.mem_map_of_mem (f := IndexTask.update) updateMem
        rw [isLater] at taskMem
        rcases tracked_of_mem_hearAll taskMem with ⟨target, expect, _, expected, tracked, same⟩
        cases same
        have decides : deciding ctx.pendingExistsChecks target = some expect :=
          (lookup_expectations ctx.pendingExistsChecks target).symm.trans expected
        rcases Option.map_eq_some_iff.mp decides with ⟨check, lastOne, rfl⟩
        exact ⟨check, List.mem_of_mem_filter (List.mem_of_getLast? lastOne), tracked⟩
      · intro key answered answeredMem
        have heardMem := (settled key).2.mem_iff.mpr answeredMem
        exact accepted answered (List.mem_of_mem_filter heardMem)
      · intro key
        have staged : last.client.stagedWrites = ctx.takeStagedWrites := by
          rw [tally.client, stagedWrites_hearAll]
          rfl
        have served : last.servers key =
            ((indexProtocol kinds).serveAll (database key) (ctx.tasksFor kinds later key)).1 :=
          (settled key).1.symm
        simp only [Option.some.injEq, Prod.mk.injEq] at settles
        rw [← settles.2, staged, Database.commit_staged, served]
  · cases settles

/-- A typed op that commits has run its handler and leaves behind what the handler scheduled. -/
theorem leavesBehind_of_transact {env : TypedEnv} {prog : TypedProg} {cache : Cache}
    {choices : List Dispatch.Choice} {result : Bytes} {next : Database Resident}
    (transacts : transact env kinds prog cache choices database = some (.committed result, next)) :
    ∃ ctx opResult later, (env.compile prog ∅).run database.store (OpContext.new cache) =
        (ctx, some opResult) ∧ ctx.LeavesBehind kinds later database next := by
  unfold transact at transacts
  split at transacts
  · cases transacts
  · rename_i ctx opResult ran
    split at transacts
    · rename_i nothing
      simp only [Option.some.injEq, Prod.mk.injEq] at transacts
      rw [← transacts.2]
      exact ⟨ctx, opResult, [], ran, leavesBehind_of_nothing nothing.1 nothing.2⟩
    · rcases Option.bind_eq_some_iff.mp transacts with ⟨last, executed, settles⟩
      rcases leavesBehind_of_settle executed settles with ⟨later, leaves⟩
      exact ⟨ctx, opResult, later, ran, leaves⟩

end OpContext

end Seisin
