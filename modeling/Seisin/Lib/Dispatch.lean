import Mathlib
import Seisin.Lib.Transition

/-!
# Dispatched tasks

A client sends tasks to servers and hears their answers; the task names its server by a key.  A
server takes its tasks in the order in which they were sent, but nothing orders the servers among
each other, nor the answers on their way back.  A client that hears an answer may send more tasks.

Whatever the order, each server has done its own tasks one after another when everything is
settled, and the client has heard exactly the answers this gives.
-/

namespace Dispatch

universe u v w x y

variable {Key : Type u} {Task : Type v} {Answer : Type w} {Server : Type x} {Client : Type y}

/-- How servers serve and how the client reacts to an answer, by its new state and what it sends. -/
structure Protocol (Key : Type u) (Task : Type v) (Answer : Type w) (Server : Type x)
    (Client : Type y) where
  key : Task → Key
  serve : Task → Server → Server × Answer
  hear : Client → Task → Answer → Client × List Task

structure State (Key : Type u) (Task : Type v) (Answer : Type w) (Server : Type x)
    (Client : Type y) where
  servers : Key → Server
  waiting : List Task
  replies : List (Task × Answer)
  client : Client

/-- The scheduler's choice: which waiting task is served, or which reply is heard. -/
inductive Choice where
  | serve (index : ℕ)
  | hear (index : ℕ)
  deriving DecidableEq

namespace Protocol

section Runs

variable (protocol : Protocol Key Task Answer Server Client)

/-- One server's work on its tasks, with the answers it gives. -/
def serveAll : Server → List Task → Server × List (Task × Answer)
  | server, [] => (server, [])
  | server, task :: tasks =>
      let (next, answer) := protocol.serve task server
      let (last, answers) := serveAll next tasks
      (last, (task, answer) :: answers)

/-- The client after some answers, with everything it has sent on hearing them. -/
def hearAll : Client → List (Task × Answer) → Client × List Task
  | client, [] => (client, [])
  | client, (task, answer) :: heard =>
      let (next, sent) := protocol.hear client task answer
      let (last, more) := hearAll next heard
      (last, sent ++ more)

variable {protocol}

theorem serveAll_append (server : Server) (left right : List Task) :
    protocol.serveAll server (left ++ right) =
      ((protocol.serveAll (protocol.serveAll server left).1 right).1,
        (protocol.serveAll server left).2 ++
          (protocol.serveAll (protocol.serveAll server left).1 right).2) := by
  induction left generalizing server with
  | nil => simp [serveAll]
  | cons task tasks ih => simp only [List.cons_append, serveAll, ih]

theorem hearAll_append (client : Client) (left right : List (Task × Answer)) :
    protocol.hearAll client (left ++ right) =
      ((protocol.hearAll (protocol.hearAll client left).1 right).1,
        (protocol.hearAll client left).2 ++
          (protocol.hearAll (protocol.hearAll client left).1 right).2) := by
  induction left generalizing client with
  | nil => simp [hearAll]
  | cons answered heard ih =>
      rcases answered with ⟨task, answer⟩
      simp only [List.cons_append, hearAll, ih, List.append_assoc]

end Runs

variable [DecidableEq Key] (protocol : Protocol Key Task Answer Server Client)

/-- The tasks for one server. -/
def forKey (key : Key) (tasks : List Task) : List Task :=
  tasks.filter fun task => protocol.key task = key

/-- The task at a position, unless an earlier one waits for the same server. -/
def ready (tasks : List Task) (index : ℕ) : Option Task :=
  match tasks[index]? with
  | none => none
  | some task =>
      if protocol.forKey (protocol.key task) (tasks.take index) = [] then some task else none

def serveAt (state : State Key Task Answer Server Client) (index : ℕ) :
    Option (State Key Task Answer Server Client) :=
  match protocol.ready state.waiting index with
  | none => none
  | some task =>
      let (server, answer) := protocol.serve task (state.servers (protocol.key task))
      some { state with
        servers := Function.update state.servers (protocol.key task) server
        waiting := state.waiting.eraseIdx index
        replies := state.replies ++ [(task, answer)] }

def hearAt (state : State Key Task Answer Server Client) (index : ℕ) :
    Option (State Key Task Answer Server Client) :=
  match state.replies[index]? with
  | none => none
  | some (task, answer) =>
      let (client, sent) := protocol.hear state.client task answer
      some { state with
        waiting := state.waiting ++ sent
        replies := state.replies.eraseIdx index
        client := client }

def step (state : State Key Task Answer Server Client) :
    Choice → Option (State Key Task Answer Server Client)
  | .serve index => protocol.serveAt state index
  | .hear index => protocol.hearAt state index

/-- Any state may be the first; the tasks sent so far are waiting in it. -/
def system : Transition.System (State Key Task Answer Server Client) Choice where
  init := fun state => state.replies = []
  step := protocol.step

/-! ## What the order cannot change -/

def answersFor (key : Key) (answers : List (Task × Answer)) : List (Task × Answer) :=
  answers.filter fun answered => protocol.key answered.1 = key

variable {protocol}

@[simp]
theorem forKey_append (key : Key) (left right : List Task) :
    protocol.forKey key (left ++ right) =
      protocol.forKey key left ++ protocol.forKey key right :=
  List.filter_append _ _

@[simp]
theorem answersFor_append (key : Key) (left right : List (Task × Answer)) :
    protocol.answersFor key (left ++ right) =
      protocol.answersFor key left ++ protocol.answersFor key right :=
  List.filter_append _ _

theorem ready_spec {tasks : List Task} {index : ℕ} {task : Task}
    (isReady : protocol.ready tasks index = some task) :
    ∃ before after, tasks = before ++ task :: after ∧ tasks.eraseIdx index = before ++ after ∧
      protocol.forKey (protocol.key task) before = [] := by
  unfold ready at isReady
  cases found : tasks[index]? with
  | none => simp [found] at isReady
  | some other =>
      simp only [found] at isReady
      split at isReady
      · rename_i first
        rcases isReady
        rcases List.getElem?_eq_some_iff.mp found with ⟨within, isTask⟩
        refine ⟨tasks.take index, tasks.drop (index + 1), ?_, ?_, first⟩
        · rw [← isTask, ← List.drop_eq_getElem_cons within, List.take_append_drop]
        · exact List.eraseIdx_eq_take_drop_succ tasks index
      · cases isReady

/-- Everything that was sent is accounted for: the servers have done what no longer waits, and the
answers to it have been heard or are on their way. -/
structure Tally (protocol : Protocol Key Task Answer Server Client)
    (first : State Key Task Answer Server Client) (heard : List (Task × Answer))
    (state : State Key Task Answer Server Client) : Prop where
  client : state.client = (protocol.hearAll first.client heard).1
  served : ∀ key, ∃ done,
    done ++ protocol.forKey key state.waiting =
      protocol.forKey key (first.waiting ++ (protocol.hearAll first.client heard).2) ∧
    (protocol.serveAll (first.servers key) done).1 = state.servers key ∧
    (protocol.answersFor key (heard ++ state.replies)).Perm
      (protocol.serveAll (first.servers key) done).2

theorem Tally.init {first : State Key Task Answer Server Client} (fresh : first.replies = []) :
    protocol.Tally first [] first := by
  refine ⟨rfl, fun key => ⟨[], ?_, rfl, ?_⟩⟩
  · simp [hearAll]
  · simp [fresh, serveAll, answersFor]

theorem Tally.serveAt {first state next : State Key Task Answer Server Client}
    {heard : List (Task × Answer)} (tally : protocol.Tally first heard state) {index : ℕ}
    (stepped : protocol.serveAt state index = some next) : protocol.Tally first heard next := by
  unfold Protocol.serveAt at stepped
  cases isReady : protocol.ready state.waiting index with
  | none => simp [isReady] at stepped
  | some task =>
      simp only [isReady, Option.some.injEq] at stepped
      subst stepped
      rcases ready_spec isReady with ⟨before, after, waits, rest, earlier⟩
      refine ⟨tally.client, fun key => ?_⟩
      rcases tally.served key with ⟨done, sent, server, answers⟩
      by_cases same : protocol.key task = key
      · subst same
        -- the task is the first that waits for its server, so it comes right after what is done
        refine ⟨done ++ [task], ?_, ?_, ?_⟩
        · rw [← sent, rest, waits]
          simp only [forKey_append, earlier, List.nil_append, List.append_assoc]
          simp [forKey]
        · simp only [serveAll_append, server, serveAll, Function.update_self]
        · rw [← List.append_assoc, answersFor_append, serveAll_append, server]
          simp only [serveAll]
          exact answers.append (by simp [answersFor])
      · refine ⟨done, ?_, ?_, ?_⟩
        · rw [← sent, rest, waits]
          simp [forKey, same]
        · simp only [Function.update_of_ne (Ne.symm same), server]
        · rw [← List.append_assoc, answersFor_append]
          simpa [answersFor, same] using answers

theorem Tally.hearAt {first state next : State Key Task Answer Server Client}
    {heard : List (Task × Answer)} (tally : protocol.Tally first heard state) {index : ℕ}
    (stepped : protocol.hearAt state index = some next) :
    ∃ answered, protocol.Tally first (heard ++ [answered]) next := by
  unfold Protocol.hearAt at stepped
  cases found : state.replies[index]? with
  | none => simp [found] at stepped
  | some answered =>
      rcases answered with ⟨task, answer⟩
      simp only [found, Option.some.injEq] at stepped
      subst stepped
      refine ⟨(task, answer), ?_, fun key => ?_⟩
      · simp only [hearAll_append, ← tally.client, hearAll]
      · rcases tally.served key with ⟨done, sent, server, answers⟩
        refine ⟨done, ?_, server, ?_⟩
        · rw [forKey_append, ← List.append_assoc, sent, hearAll_append, ← tally.client]
          simp only [hearAll, List.append_nil, forKey_append, List.append_assoc]
        · rcases List.getElem?_eq_some_iff.mp found with ⟨within, isAnswer⟩
          have moved : (heard ++ [(task, answer)] ++ state.replies.eraseIdx index).Perm
              (heard ++ state.replies) := by
            rw [List.append_assoc, List.singleton_append, ← isAnswer]
            exact (List.getElem_cons_eraseIdx_perm within).append_left heard
          exact (moved.filter _).trans answers

/-- What a run of the system amounts to. -/
theorem tally_of_exec {first last : State Key Task Answer Server Client} {choices : List Choice}
    (fresh : first.replies = []) (executed : protocol.system.exec first choices = some last) :
    ∃ heard, protocol.Tally first heard last := by
  have preserved : ∀ state choice next, (∃ heard, protocol.Tally first heard state) → True →
      protocol.system.step state choice = some next →
        ∃ heard, protocol.Tally first heard next := by
    rintro state choice next ⟨heard, tally⟩ _ stepped
    cases choice with
    | serve index => exact ⟨heard, tally.serveAt stepped⟩
    | hear index =>
        rcases tally.hearAt stepped with ⟨answered, longer⟩
        exact ⟨_, longer⟩
  exact (Transition.System.run_of_exec executed).induction preserved ⟨[], Tally.init fresh⟩

/-- When nothing waits and no answer is on its way, each server has done all its tasks in the order
sent, and the client has heard the answers in some order. -/
theorem Tally.settled {first last : State Key Task Answer Server Client}
    {heard : List (Task × Answer)} (tally : protocol.Tally first heard last)
    (nothingWaits : last.waiting = []) (noReplies : last.replies = []) (key : Key) :
    (protocol.serveAll (first.servers key)
      (protocol.forKey key (first.waiting ++ (protocol.hearAll first.client heard).2))).1 =
        last.servers key ∧
    (protocol.answersFor key heard).Perm
      (protocol.serveAll (first.servers key)
        (protocol.forKey key (first.waiting ++ (protocol.hearAll first.client heard).2))).2 := by
  rcases tally.served key with ⟨done, sent, server, answers⟩
  rw [nothingWaits] at sent
  rw [noReplies, List.append_nil] at answers
  simp only [forKey, List.filter_nil, List.append_nil] at sent
  rw [forKey, ← sent]
  exact ⟨server, answers⟩

end Protocol

end Dispatch
