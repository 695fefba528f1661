import Seisin.Core
import Seisin.Lib.Transition
import Mathlib

/-!
# The serving gate of a node

Every client connection has a handler thread.  For a request that is not administrative it takes the
pool's op guard, consults the serving gate, serves or refuses the request and drops the guard; the
gate is two flags, read one after the other.  Pausing sets the reason and then the flag and drains: it
takes the write side of the lock whose read side the guards are, which waits for every guard to be
dropped.  The steps of different handlers interleave in any order.
-/

namespace Seisin

/-- The serving gate, as `HaltState` keeps it. -/
structure HaltState where
  halted : Bool
  reason : Option String
  paused : Bool
  pauseReason : Option String

namespace HaltState

def new : HaltState := ⟨false, none, false, none⟩

/-- The first reason wins. -/
def halt (state : HaltState) (reason : String) : HaltState :=
  { state with halted := true, reason := state.reason.or (some reason) }

def haltMessage (state : HaltState) : String := state.reason.getD "cluster halted"

def pauseMessage (state : HaltState) : String :=
  "cluster paused: " ++ state.pauseReason.getD ""

/-- The answer of the gate when nothing changes while it is asked. -/
def gate (state : HaltState) : Option String :=
  if state.halted then some state.haltMessage
  else if state.paused then some state.pauseMessage
  else none

end HaltState

/-- The requests of a client that are served by the worker threads. -/
inductive ClientRequest where
  | op (opId : DatumId) (opName : String) (datumIds : List DatumId) (payload : Bytes)
  | indexQuery (target : DatumId) (indexKind : String) (query : Bytes)
  | indexExecute (target : DatumId) (indexKind : String) (payload : Bytes)
  | existsCheck (datumId : DatumId)
  deriving DecidableEq

/-- Where a handler stands with the request it read. -/
inductive Handler where
  | reading
  | guarded (request : ClientRequest)
  | spared (request : ClientRequest)
  | halted
  | paused
  | refused (message : String)
  | admitted (request : ClientRequest)
  | running (opId : Option DatumId)
  | answered
  | pausing
  | draining
  | drained
  | resuming
  | resumed
  | clearing
  | cleared

/-- What a handler does next. -/
inductive Action where
  | guard (request : ClientRequest)
  | loadHalted
  | loadPaused
  | readReason
  | refuse
  | dispatch (opId : Option DatumId)
  | redirect
  | answer (opId : Option DatumId)
  | finish
  | pause (reason : String)
  | storePaused
  | drain
  | ackPause
  | resume
  | forgetPause
  | ackResume
  | clearHalt
  | forgetHalt
  | ackClearHalt
  deriving DecidableEq

/-- The gate of a node, its connection handlers, and those of them that hold the op guard. -/
structure Site where
  halt : HaltState
  handlers : ℕ → Handler
  guards : Finset ℕ

namespace Handler

/-- The handler holds the op guard. -/
def Guards : Handler → Prop
  | .guarded _ | .spared _ | .halted | .paused | .refused _ | .admitted _ | .running _
  | .answered => True
  | _ => False

/-- The handler is between a passed gate and the completion of its request. -/
def Serves : Handler → Prop
  | .admitted _ | .running _ | .answered => True
  | _ => False

theorem Serves.guards {handler : Handler} (serves : handler.Serves) : handler.Guards := by
  cases handler <;> first | exact serves | exact serves.elim

end Handler

namespace Site

def new : Site := ⟨HaltState.new, fun _ => .reading, ∅⟩

def become (site : Site) (handler : ℕ) (state : Handler) : Site :=
  { site with handlers := Function.update site.handlers handler state }

/-- One step of a handler; the two loads of the gate, and the stores and locks of the
administrative requests, are steps of their own. -/
def act (site : Site) (handler : ℕ) (action : Action) : Option Site :=
  match site.handlers handler, action with
  | .reading, .guard request =>
      some { site.become handler (.guarded request) with guards := insert handler site.guards }
  | .guarded request, .loadHalted =>
      some (site.become handler (if site.halt.halted then .halted else .spared request))
  | .spared request, .loadPaused =>
      some (site.become handler (if site.halt.paused then .paused else .admitted request))
  | .halted, .readReason => some (site.become handler (.refused site.halt.haltMessage))
  | .paused, .readReason => some (site.become handler (.refused site.halt.pauseMessage))
  | .refused _, .refuse =>
      some { site.become handler .reading with guards := site.guards.erase handler }
  | .admitted _, .dispatch opId => some (site.become handler (.running opId))
  | .admitted _, .redirect => some (site.become handler .answered)
  | .running awaited, .answer opId =>
      if opId = awaited then some (site.become handler .answered) else none
  | .answered, .finish =>
      some { site.become handler .reading with guards := site.guards.erase handler }
  | .reading, .pause reason =>
      some { site.become handler .pausing with
        halt := { site.halt with pauseReason := some reason } }
  | .pausing, .storePaused =>
      some { site.become handler .draining with halt := { site.halt with paused := true } }
  | .draining, .drain => if site.guards = ∅ then some (site.become handler .drained) else none
  | .drained, .ackPause => some (site.become handler .reading)
  | .reading, .resume =>
      some { site.become handler .resuming with halt := { site.halt with paused := false } }
  | .resuming, .forgetPause =>
      some { site.become handler .resumed with halt := { site.halt with pauseReason := none } }
  | .resumed, .ackResume => some (site.become handler .reading)
  | .reading, .clearHalt =>
      some { site.become handler .clearing with halt := { site.halt with halted := false } }
  | .clearing, .forgetHalt =>
      some { site.become handler .cleared with halt := { site.halt with reason := none } }
  | .cleared, .ackClearHalt => some (site.become handler .reading)
  | _, _ => none

/-- Every handler that holds the guard is counted. -/
def Counted (site : Site) : Prop :=
  ∀ handler, (site.handlers handler).Guards → handler ∈ site.guards

/-- The node is paused and serves no request. -/
def Barred (site : Site) : Prop :=
  site.halt.paused = true ∧ ∀ handler, ¬(site.handlers handler).Serves

/-- The node is paused, and serves no request or still has to be drained by a handler. -/
def Barring (site : Site) (drainer : ℕ) : Prop :=
  site.halt.paused = true ∧ (site.handlers drainer = .draining ∨ site.Barred)

variable {site next : Site} {handler : ℕ} {action : Action}

theorem handlers_become (site : Site) (handler : ℕ) (state : Handler) :
    (site.become handler state).handlers = Function.update site.handlers handler state := rfl

/-- What a step of a handler does to the guards and the pause, and when it starts to serve. -/
structure Stepped (site : Site) (handler : ℕ) (action : Action) (state : Handler)
    (next : Site) : Prop where
  handlers : next.handlers = Function.update site.handlers handler state
  guarded : state.Guards → handler ∈ next.guards ∨ (site.handlers handler).Guards ∧
    next.guards = site.guards
  others : ∀ other ∈ site.guards, other = handler ∨ other ∈ next.guards
  paused : site.halt.paused = true → action = .resume ∨ next.halt.paused = true
  admitted : state.Serves → (site.handlers handler).Serves ∨ site.halt.paused = false
  drained : site.handlers handler = .draining → site.guards = ∅ ∧ next.guards = ∅

theorem act_spec (stepped : site.act handler action = some next) :
    ∃ state, Stepped site handler action state next := by
  unfold act at stepped
  split at stepped
  case h_2 request found =>
    cases stepped
    refine ⟨_, rfl, fun _ => Or.inr ⟨by rw [found]; trivial, rfl⟩, fun _ => Or.inr, Or.inr, ?_, ?_⟩
    · split <;> exact False.elim
    · simp [found]
  case h_3 request found =>
    cases stepped
    refine ⟨_, rfl, fun _ => Or.inr ⟨by rw [found]; trivial, rfl⟩, fun _ => Or.inr, Or.inr, ?_, ?_⟩
    · split
      · exact False.elim
      · rename_i unpaused
        exact fun _ => Or.inr (Bool.eq_false_of_not_eq_true unpaused)
    · simp [found]
  case h_9 awaited opId found =>
    split at stepped
    · cases stepped
      exact ⟨_, rfl, fun _ => Or.inr ⟨by rw [found]; trivial, rfl⟩, fun _ => Or.inr, Or.inr,
        fun _ => Or.inl (by rw [found]; trivial), by simp [found]⟩
    · cases stepped
  case h_13 =>
    split at stepped
    · rename_i drains unguarded
      cases stepped
      exact ⟨_, rfl, False.elim, fun _ => Or.inr, Or.inr, False.elim, fun _ => ⟨unguarded, unguarded⟩⟩
    · cases stepped
  case h_21 => cases stepped
  all_goals
    rename_i found
    cases stepped
    refine ⟨_, rfl, ?_, ?_, ?_, ?_, ?_⟩
  all_goals simp +contextual [become, found, Handler.Guards, Handler.Serves, em]

theorem act_dispatch {opId : Option DatumId} {request : ClientRequest}
    (admitted : site.handlers handler = .admitted request)
    (stepped : site.act handler (.dispatch opId) = some next) :
    next.handlers handler = .running opId := by
  unfold act at stepped
  rw [admitted] at stepped
  cases stepped
  exact Function.update_self handler _ _

/-- A handler that waits for a worker goes on only with its answer. -/
theorem act_running {other : ℕ} {opId : Option DatumId}
    (stepped : site.act handler action = some next)
    (runs : site.handlers other = .running opId) :
    next.handlers other = .running opId ∨ other = handler ∧ action = .answer opId := by
  rcases act_spec stepped with ⟨state, spec⟩
  by_cases same : other = handler
  · right
    refine ⟨same, ?_⟩
    rw [same] at runs
    unfold act at stepped
    rw [runs] at stepped
    cases action with
    | answer answered =>
        dsimp only at stepped
        split at stepped
        · rename_i agrees
          rw [agrees]
        · cases stepped
    | _ => cases stepped
  · left
    rw [spec.handlers, Function.update_of_ne same, runs]

/-! ## What steps preserve -/

theorem counted_act (counted : site.Counted) (stepped : site.act handler action = some next) :
    next.Counted := by
  rcases act_spec stepped with ⟨state, spec⟩
  intro other guards
  rw [spec.handlers] at guards
  by_cases same : other = handler
  · rw [same, Function.update_self] at guards
    rw [same]
    rcases spec.guarded guards with counts | ⟨guarded, unchanged⟩
    · exact counts
    · rw [unchanged]
      exact counted handler guarded
  · rw [Function.update_of_ne same] at guards
    exact (spec.others other (counted other guards)).resolve_left same

theorem paused_act (paused : site.halt.paused = true) (steady : action ≠ .resume)
    (stepped : site.act handler action = some next) : next.halt.paused = true := by
  rcases act_spec stepped with ⟨state, spec⟩
  exact (spec.paused paused).resolve_left steady

/-- A node that is paused and serves nothing serves nothing until it resumes. -/
theorem barred_act (barred : site.Barred) (steady : action ≠ .resume)
    (stepped : site.act handler action = some next) : next.Barred := by
  refine ⟨paused_act barred.1 steady stepped, ?_⟩
  rcases act_spec stepped with ⟨state, spec⟩
  intro other
  rw [spec.handlers]
  by_cases same : other = handler
  · rw [same, Function.update_self]
    intro serves
    rcases spec.admitted serves with served | unpaused
    · exact barred.2 handler served
    · rw [barred.1] at unpaused
      cases unpaused
  · rw [Function.update_of_ne same]
    exact barred.2 other

/-- A drain leaves nothing that is served: the guards are held until a request is completed. -/
theorem barring_act {drainer : ℕ} (counted : site.Counted) (barring : site.Barring drainer)
    (steady : action ≠ .resume) (stepped : site.act handler action = some next) :
    next.Barring drainer := by
  have paused := paused_act barring.1 steady stepped
  refine ⟨paused, ?_⟩
  rcases barring.2 with draining | barred
  · rcases act_spec stepped with ⟨state, spec⟩
    by_cases same : drainer = handler
    · right
      rw [same] at draining
      refine ⟨paused, fun other serves => ?_⟩
      have counts := counted_act counted stepped other serves.guards
      rw [(spec.drained draining).2] at counts
      cases counts
    · left
      rw [spec.handlers, Function.update_of_ne same]
      exact draining
  · exact Or.inr (barred_act barred steady stepped)

/-! ## Pausing -/

/-- A handler that stores the flag goes on to drain. -/
theorem barring_storePaused (stepped : site.act handler .storePaused = some next) :
    next.Barring handler := by
  unfold act at stepped
  cases found : site.handlers handler with
  | pausing =>
      rw [found] at stepped
      cases stepped
      exact ⟨rfl, Or.inl (Function.update_self handler _ _)⟩
  | _ =>
      rw [found] at stepped
      cases stepped

/-- A pause is acknowledged only after the drain. -/
theorem barred_ackPause (barring : site.Barring handler)
    (stepped : site.act handler .ackPause = some next) : next.Barred := by
  rcases barring.2 with draining | barred
  · unfold act at stepped
    rw [draining] at stepped
    cases stepped
  · exact barred_act barred (by simp) stepped

end Site

end Seisin
