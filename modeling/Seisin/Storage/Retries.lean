import Seisin.Lib.Service
import Seisin.Lib.Transition
import Seisin.Storage.Server

/-!
# Requests that are sent twice

A worker makes one call after another, and sends a request a second time on a new connection if the
first connection breaks.  The storage node serves every connection on a thread of its own, so a
frame the worker has given up may be served at any later time, or never.  As long as that happens
before the worker's next call on the same datum, the node holds what was acknowledged last.
-/

namespace Seisin

open Transition

/-- A call of the store that changes a datum. -/
inductive StoreCall where
  | put (id : DatumId) (content : Bytes) (n : ℕ)
  | putWithPrevious (id : DatumId) (content previous : Bytes) (n : ℕ)
  | delete (id : DatumId)

/-- A request on its way, with the number of its frame and of the call it is made for. -/
structure WireFrame where
  serial : ℕ
  call : ℕ
  request : StoreRequest Bytes Delta

/-- The attempt a worker waits for, and the reply to it if there is one. -/
structure Attempt where
  op : StoreCall
  request : StoreRequest Bytes Delta
  serial : ℕ
  retried : Bool
  reply : Option (StoreResponse Bytes)

/-- A worker whose call has failed takes the node for stale and does not call it again. -/
inductive WorkerState where
  | idle
  | calling (attempt : Attempt)
  | failed (id : DatumId)

/-- A storage node and a worker.  `latest` is the state of each datum by the last call that was
acknowledged, and `lastCall` the number of the last call that was begun. -/
structure Wire where
  log : DatumLog
  inFlight : List WireFrame
  worker : WorkerState
  serials : ℕ
  calls : ℕ
  lastCall : DatumId → ℕ
  latest : DatumId → Option (Bytes × ℕ)

inductive WireLabel where
  | begin (op : StoreCall)
  | serve (index : ℕ)
  | refuse (index : ℕ)
  | lose (index : ℕ)
  | receive
  | abandon

namespace StoreCall

def target : StoreCall → DatumId
  | .put id _ _ | .putWithPrevious id _ _ _ | .delete id => id

/-- What the call is to leave for its datum. -/
def goal : StoreCall → Option (Bytes × ℕ)
  | .put _ content n | .putWithPrevious _ content _ n => some (content, n)
  | .delete _ => none

/-- The first request of the call, a delta where one is worth sending. -/
def request : StoreCall → StoreRequest Bytes Delta
  | .put id content n => .put id content n
  | .putWithPrevious id content previous n =>
      match logTier.worthwhile previous content with
      | some delta => .patch id delta n
      | none => .put id content n
  | .delete id => .delete id

/-- The request with the whole value. -/
def full : StoreCall → StoreRequest Bytes Delta
  | .put id content n | .putWithPrevious id content _ n => .put id content n
  | .delete id => .delete id

end StoreCall

namespace WorkerState

/-- The reply to a frame reaches the worker that waits for it. -/
def hear (worker : WorkerState) (serial : ℕ) (response : Option (StoreResponse Bytes)) :
    WorkerState :=
  match worker with
  | .calling attempt =>
      if attempt.serial = serial then .calling { attempt with reply := response } else worker
  | _ => worker

/-- A call on the datum is under way or has failed. -/
def Busy (worker : WorkerState) (id : DatumId) : Prop :=
  match worker with
  | .idle => False
  | .calling attempt => attempt.op.target = id
  | .failed failedId => failedId = id

end WorkerState

namespace Wire

/-- Sends a request on a connection and waits for the reply. -/
def send (wire : Wire) (op : StoreCall) (request : StoreRequest Bytes Delta) (retried : Bool) :
    Wire :=
  { wire with
    inFlight := wire.inFlight ++ [⟨wire.serials, wire.lastCall op.target, request⟩]
    worker := .calling ⟨op, request, wire.serials, retried, none⟩
    serials := wire.serials + 1 }

def begin (wire : Wire) (op : StoreCall) : Option Wire :=
  match wire.worker with
  | .idle =>
      some ({ wire with
        calls := wire.calls + 1
        lastCall := Function.update wire.lastCall op.target (wire.calls + 1) }.send op op.request
          false)
  | _ => none

/-- The thread of a connection serves the frame on it. -/
def serve (wire : Wire) (index : ℕ) : Option Wire :=
  match wire.inFlight[index]? with
  | none => none
  | some frame =>
      let (log, response) := logTier.serve wire.log frame.request
      some { wire with
        log := log
        inFlight := wire.inFlight.eraseIdx index
        worker := wire.worker.hear frame.serial response }

/-- A self-halted node answers with an error. -/
def refuse (wire : Wire) (index : ℕ) : Option Wire :=
  match wire.inFlight[index]? with
  | none => none
  | some frame =>
      some { wire with
        inFlight := wire.inFlight.eraseIdx index
        worker := wire.worker.hear frame.serial
          (some (.error "self-halted: no gossip contact")) }

def lose (wire : Wire) (index : ℕ) : Option Wire :=
  if index < wire.inFlight.length then
    some { wire with inFlight := wire.inFlight.eraseIdx index }
  else none

/-- The worker reads the reply. -/
def receive (wire : Wire) : Option Wire :=
  match wire.worker with
  | .calling attempt =>
      match attempt.reply, attempt.request with
      | none, _ => none
      | some .ack, _ =>
          some { wire with
            worker := .idle
            latest := Function.update wire.latest attempt.op.target attempt.op.goal }
      | some .needFull, .patch _ _ _ => some (wire.send attempt.op attempt.op.full false)
      | some _, _ => some { wire with worker := .failed attempt.op.target }
  | _ => none

/-- The connection breaks; the worker tries once more. -/
def abandon (wire : Wire) : Option Wire :=
  match wire.worker with
  | .calling attempt =>
      if attempt.retried then some { wire with worker := .failed attempt.op.target }
      else some (wire.send attempt.op attempt.request true)
  | _ => none

def step (wire : Wire) : WireLabel → Option Wire
  | .begin op => wire.begin op
  | .serve index => wire.serve index
  | .refuse index => wire.refuse index
  | .lose index => wire.lose index
  | .receive => wire.receive
  | .abandon => wire.abandon

/-- Nothing is under way, and the log holds the latest states. -/
structure Starts (wire : Wire) : Prop where
  closed : wire.log.Closed
  holds : ∀ id, wire.log.Holds id (wire.latest id)
  numbered : ∀ id, wire.lastCall id ≤ wire.calls
  inFlight : wire.inFlight = []
  worker : wire.worker = .idle

def system : System Wire WireLabel where
  init := Starts
  step := step

/-- Frames are served before the next call on their datum begins.  A call has a value that fits a
record, and a previous value, if it comes with one, that was the last to be acknowledged. -/
def Timely (wire : Wire) : WireLabel → Prop
  | .serve index => ∀ frame, wire.inFlight[index]? = some frame →
      frame.call = wire.lastCall frame.request.target
  | .begin (.put _ content _) => DatumLog.Fits content
  | .begin (.putWithPrevious id content previous _) => DatumLog.Fits content ∧
      ∀ held ∈ wire.latest id, held.1 = previous
  | _ => True

end Wire

/-! ## What a request brings about -/

/-- A request that makes `goal` of a datum in state `before`, except that a delta has no effect on
an absent one. -/
inductive Brings : Option (Bytes × ℕ) → StoreRequest Bytes Delta → Option (Bytes × ℕ) → Prop where
  | put {before : Option (Bytes × ℕ)} {content : Bytes} (id : DatumId) (n : ℕ)
      (fits : DatumLog.Fits content) : Brings before (.put id content n) (some (content, n))
  | delete {before : Option (Bytes × ℕ)} (id : DatumId) : Brings before (.delete id) none
  | patch {before : Option (Bytes × ℕ)} {old new : Bytes} {delta : Delta} (id : DatumId) (n : ℕ)
      (fits : DatumLog.Fits new) (worthwhile : logTier.worthwhile old new = some delta)
      (known : ∀ held ∈ before, held.1 = old ∨ held.1 = new) :
      Brings before (.patch id delta n) (some (new, n))

namespace Brings

variable {before goal : Option (Bytes × ℕ)} {request : StoreRequest Bytes Delta} {log : DatumLog}

/-- Whatever a request brings about it brings about once more. -/
theorem again (brings : Brings before request goal) : Brings goal request goal := by
  cases brings with
  | put id n fits => exact .put id n fits
  | delete id => exact .delete id
  | patch id n fits worthwhile known =>
      refine .patch id n fits worthwhile ?_
      rintro held ⟨⟩
      exact Or.inr rfl

/-- Serving it brings it about, or tells that the whole value is needed. -/
theorem serve (brings : Brings before request goal) (closed : log.Closed)
    (held : log.Holds request.target before) :
    (logTier.serve log request).1.Holds request.target goal ∨
      (before = none ∧ goal ≠ none ∧ (logTier.serve log request).1 = log ∧
        (logTier.serve log request).2 ≠ some .ack) := by
  cases brings with
  | put id n fits => exact Or.inl (logTier_lawful.putFull closed fits id n)
  | delete id => exact Or.inl (logTier_lawful.delete closed id)
  | @patch old new delta id n fits worthwhile known =>
      cases before with
      | none =>
          right
          have absent : log.index.lookup id = none := held.absent rfl
          have needFull : logTier.putDelta log id delta n = .ok (.needFull, log) := by
            change log.putDelta id delta n = _
            simp only [DatumLog.putDelta, absent]
          simp [Tier.serve, needFull]
      | some payload =>
          left
          have patched : ∃ next, logTier.putDelta log id delta n = .ok (.applied, next) ∧
              next.Holds id (some (new, n)) := by
            rcases payload with ⟨value, factor⟩
            rcases known _ rfl with isOld | isNew
            · cases isOld
              exact logTier_lawful.putDelta closed held fits worthwhile n
            · cases isNew
              exact logTier_lawful.putDeltaAgain closed held fits worthwhile n
          rcases patched with ⟨next, applied, holds⟩
          simp only [Tier.serve, applied]
          exact holds

/-- The target of a request that a call makes. -/
theorem of_request {op : StoreCall} {wire : Wire} (timely : wire.Timely (.begin op)) :
    op.request.target = op.target ∧ Brings (wire.latest op.target) op.request op.goal := by
  cases op with
  | put id content n => exact ⟨rfl, .put id n timely⟩
  | delete id => exact ⟨rfl, .delete id⟩
  | putWithPrevious id content previous n =>
      rcases timely with ⟨fits, known⟩
      simp only [StoreCall.request]
      split
      · rename_i delta worthwhile
        exact ⟨rfl, .patch id n fits worthwhile fun held isHeld => Or.inl (known held isHeld)⟩
      · exact ⟨rfl, .put id n fits⟩

theorem fits {content : Bytes} {n : ℕ} (brings : Brings before request (some (content, n))) :
    DatumLog.Fits content := by
  cases brings with
  | put id m fits => exact fits
  | patch id m fits worthwhile known => exact fits

/-- A request that may need the whole value can be followed by one that has it. -/
theorem full {op : StoreCall} (brings : Brings before request op.goal) :
    op.full.target = op.target ∧ Brings before op.full op.goal := by
  cases op with
  | delete id => exact ⟨rfl, .delete id⟩
  | put id content n => exact ⟨rfl, .put id n brings.fits⟩
  | putWithPrevious id content previous n => exact ⟨rfl, .put id n brings.fits⟩

end Brings

/-! ## What a run keeps -/

namespace Wire

variable {wire next : Wire}

/-- Datums without a call under way are as acknowledged, and the frames of their last calls leave
them so. -/
structure Quiet (wire : Wire) (busy : DatumId → Prop) : Prop where
  closed : wire.log.Closed
  numbered : ∀ frame ∈ wire.inFlight, frame.serial < wire.serials ∧ frame.call ≤ wire.calls
  lastCall : ∀ id, wire.lastCall id ≤ wire.calls
  holds : ∀ id, ¬busy id → wire.log.Holds id (wire.latest id)
  frames : ∀ frame ∈ wire.inFlight, ¬busy frame.request.target →
    frame.call = wire.lastCall frame.request.target →
      Brings (wire.latest frame.request.target) frame.request (wire.latest frame.request.target)

/-- The datum of a call is as it was or as it is to be, and every frame of the call brings about the
latter. -/
structure Aiming (wire : Wire) (op : StoreCall) : Prop where
  frames : ∀ frame ∈ wire.inFlight, frame.request.target = op.target →
    frame.call = wire.lastCall op.target → Brings (wire.latest op.target) frame.request op.goal
  holds : wire.log.Holds op.target (wire.latest op.target) ∨ wire.log.Holds op.target op.goal

/-- The attempt the worker waits for. -/
structure Underway (wire : Wire) (attempt : Attempt) : Prop where
  aiming : wire.Aiming attempt.op
  fresh : attempt.serial < wire.serials
  target : attempt.request.target = attempt.op.target
  brings : Brings (wire.latest attempt.op.target) attempt.request attempt.op.goal
  awaited : ∀ frame ∈ wire.inFlight, frame.serial = attempt.serial →
    frame.request = attempt.request
  acked : attempt.reply = some .ack → wire.log.Holds attempt.op.target attempt.op.goal

structure Kept (wire : Wire) : Prop where
  quiet : wire.Quiet wire.worker.Busy
  underway : ∀ attempt, wire.worker = .calling attempt → wire.Underway attempt

theorem Starts.kept (starts : wire.Starts) : wire.Kept where
  quiet :=
    { closed := starts.closed
      numbered := by
        rw [starts.inFlight]
        nofun
      lastCall := starts.numbered
      holds := fun id _ => starts.holds id
      frames := by
        rw [starts.inFlight]
        nofun }
  underway := by
    rw [starts.worker]
    nofun

theorem kept_send {op : StoreCall} {request : StoreRequest Bytes Delta} {retried : Bool}
    (quiet : wire.Quiet fun id => op.target = id) (aiming : wire.Aiming op)
    (target : request.target = op.target) (brings : Brings (wire.latest op.target) request op.goal) :
    (wire.send op request retried).Kept where
  quiet :=
    { closed := quiet.closed
      numbered := by
        intro frame sent
        rcases List.mem_append.mp sent with before | now
        · exact ⟨(quiet.numbered frame before).1.trans (Nat.lt_succ_self _),
            (quiet.numbered frame before).2⟩
        · rw [List.mem_singleton] at now
          subst now
          exact ⟨Nat.lt_succ_self _, quiet.lastCall op.target⟩
      lastCall := quiet.lastCall
      holds := quiet.holds
      frames := by
        intro frame sent free last
        rcases List.mem_append.mp sent with before | now
        · exact quiet.frames frame before free last
        · rw [List.mem_singleton] at now
          subst now
          exact absurd target.symm free }
  underway := by
    rintro attempt ⟨⟩
    refine ⟨⟨?_, aiming.holds⟩, Nat.lt_succ_self _, target, brings, ?_, nofun⟩
    · intro frame sent sameTarget last
      rcases List.mem_append.mp sent with before | now
      · exact aiming.frames frame before sameTarget last
      · rw [List.mem_singleton] at now
        subst now
        exact brings
    · intro frame sent sameSerial
      rcases List.mem_append.mp sent with before | now
      · exact absurd sameSerial (quiet.numbered frame before).1.ne
      · rw [List.mem_singleton] at now
        subst now
        rfl

theorem Kept.begin (kept : wire.Kept) {op : StoreCall} (timely : wire.Timely (.begin op))
    (stepped : wire.begin op = some next) : next.Kept := by
  unfold Wire.begin at stepped
  split at stepped
  · rename_i idle
    cases stepped
    rcases Brings.of_request timely with ⟨target, brings⟩
    have free : ∀ id, ¬wire.worker.Busy id := by
      rw [idle]
      exact fun _ => id
    refine kept_send ?_ ?_ target brings
    · refine ⟨kept.quiet.closed, ?_, ?_, fun id _ => kept.quiet.holds id (free id), ?_⟩
      · intro frame sent
        have numbered := kept.quiet.numbered frame sent
        exact ⟨numbered.1, numbered.2.trans (Nat.le_succ _)⟩
      · intro id
        simp only [Function.update_apply]
        split
        · exact le_refl _
        · exact (kept.quiet.lastCall id).trans (Nat.le_succ _)
      · intro frame sent other last
        simp only [Function.update_of_ne (fun same => other (Eq.symm same))] at last
        exact kept.quiet.frames frame sent (free _) last
    · refine ⟨?_, Or.inl (kept.quiet.holds _ (free _))⟩
      intro frame sent _ last
      simp only [Function.update_self] at last
      have earlier := (kept.quiet.numbered frame sent).2
      omega
  · cases stepped

/-- A call that has failed leaves its datum open. -/
theorem Quiet.fail {id : DatumId} (quiet : wire.Quiet fun other => id = other) :
    { wire with worker := .failed id }.Quiet (WorkerState.failed id).Busy :=
  ⟨quiet.closed, quiet.numbered, quiet.lastCall, quiet.holds, quiet.frames⟩

theorem Kept.abandon (kept : wire.Kept) (stepped : wire.abandon = some next) : next.Kept := by
  unfold Wire.abandon at stepped
  split at stepped
  · rename_i attempt calling
    have underway := kept.underway attempt calling
    have quiet := kept.quiet
    rw [calling] at quiet
    split at stepped
    · cases stepped
      exact ⟨quiet.fail, nofun⟩
    · cases stepped
      exact kept_send quiet underway.aiming underway.target underway.brings
  · cases stepped

theorem Kept.receive (kept : wire.Kept) (stepped : wire.receive = some next) : next.Kept := by
  unfold Wire.receive at stepped
  split at stepped
  · rename_i attempt calling
    have underway := kept.underway attempt calling
    have quiet := kept.quiet
    rw [calling] at quiet
    split at stepped
    · cases stepped
    · rename_i request acked
      cases stepped
      refine ⟨⟨quiet.closed, quiet.numbered, quiet.lastCall, ?_, ?_⟩, nofun⟩
      · intro id _
        simp only [Function.update_apply]
        split
        · rename_i same
          subst same
          exact underway.acked acked
        · rename_i differ
          exact quiet.holds id fun same => differ same.symm
      · intro frame sent _ last
        simp only [Function.update_apply]
        split
        · rename_i same
          rw [same] at last
          exact (underway.aiming.frames frame sent same last).again
        · rename_i differ
          exact quiet.frames frame sent (fun same => differ same.symm) last
    · cases stepped
      rcases Brings.full underway.brings with ⟨target, brings⟩
      exact kept_send quiet underway.aiming target brings
    · cases stepped
      exact ⟨quiet.fail, nofun⟩
  · cases stepped

/-- A frame leaves the wire, and the worker may hear the reply to it. -/
theorem Kept.erase (kept : wire.Kept) {log : DatumLog} {worker : WorkerState} (index : ℕ)
    (closed : log.Closed) (busy : ∀ id, worker.Busy id ↔ wire.worker.Busy id)
    (holds : ∀ id, ¬wire.worker.Busy id → log.Holds id (wire.latest id))
    (heard : ∀ attempt, worker = .calling attempt → ∃ before reply,
      wire.worker = .calling before ∧ attempt = { before with reply := reply } ∧
        (log.Holds before.op.target (wire.latest before.op.target) ∨
          log.Holds before.op.target before.op.goal) ∧
        (reply = some .ack → log.Holds before.op.target before.op.goal)) :
    { wire with
      log := log
      inFlight := wire.inFlight.eraseIdx index
      worker := worker }.Kept := by
  have fewer : ∀ frame ∈ wire.inFlight.eraseIdx index, frame ∈ wire.inFlight :=
    fun frame => List.mem_of_mem_eraseIdx
  refine ⟨⟨closed, ?_, kept.quiet.lastCall, ?_, ?_⟩, ?_⟩
  · exact fun frame left => kept.quiet.numbered frame (fewer frame left)
  · exact fun id free => holds id (fun before => free ((busy id).mpr before))
  · intro frame left free last
    exact kept.quiet.frames frame (fewer frame left) (fun before => free ((busy _).mpr before)) last
  · intro attempt calling
    rcases heard attempt calling with ⟨before, reply, was, rfl, either, acked⟩
    have underway := kept.underway before was
    refine ⟨⟨?_, either⟩, underway.fresh, underway.target, underway.brings, ?_, acked⟩
    · exact fun frame left => underway.aiming.frames frame (fewer frame left)
    · exact fun frame left => underway.awaited frame (fewer frame left)

theorem busy_hear (worker : WorkerState) (serial : ℕ) (response : Option (StoreResponse Bytes))
    (id : DatumId) : (worker.hear serial response).Busy id ↔ worker.Busy id := by
  cases worker with
  | idle => rfl
  | failed failedId => rfl
  | calling attempt =>
      simp only [WorkerState.hear]
      split <;> rfl

/-- What the worker waits for after it heard of a frame. -/
theorem hear_cases {worker : WorkerState} {serial : ℕ} {response : Option (StoreResponse Bytes)}
    {attempt : Attempt} (calling : worker.hear serial response = .calling attempt) :
    ∃ before, worker = .calling before ∧
      ((before.serial = serial ∧ attempt = { before with reply := response }) ∨
        (before.serial ≠ serial ∧ attempt = before)) := by
  cases worker with
  | idle => cases calling
  | failed failedId => cases calling
  | calling before =>
      refine ⟨before, rfl, ?_⟩
      simp only [WorkerState.hear] at calling
      split at calling
      · rename_i same
        cases calling
        exact Or.inl ⟨same, rfl⟩
      · rename_i differ
        cases calling
        exact Or.inr ⟨differ, rfl⟩

theorem Kept.lose (kept : wire.Kept) {index : ℕ} (stepped : wire.lose index = some next) :
    next.Kept := by
  unfold Wire.lose at stepped
  split at stepped
  · cases stepped
    refine kept.erase index kept.quiet.closed (fun _ => Iff.rfl) kept.quiet.holds ?_
    intro attempt calling
    have underway := kept.underway attempt calling
    exact ⟨attempt, attempt.reply, calling, rfl, underway.aiming.holds, underway.acked⟩
  · cases stepped

theorem Kept.refuse (kept : wire.Kept) {index : ℕ} (stepped : wire.refuse index = some next) :
    next.Kept := by
  unfold Wire.refuse at stepped
  split at stepped
  · cases stepped
  · rename_i frame found
    cases stepped
    refine kept.erase index kept.quiet.closed (busy_hear _ _ _) kept.quiet.holds ?_
    intro attempt calling
    rcases hear_cases calling with ⟨before, was, heard⟩
    have underway := kept.underway before was
    rcases heard with ⟨_, rfl⟩ | ⟨_, rfl⟩
    · exact ⟨before, _, was, rfl, underway.aiming.holds, nofun⟩
    · exact ⟨attempt, attempt.reply, was, rfl, underway.aiming.holds, underway.acked⟩

/-- Serving a frame of the last call on its datum leaves datums without a call as they are. -/
theorem Quiet.serve {busy : DatumId → Prop} (quiet : wire.Quiet busy) {frame : WireFrame}
    (sent : frame ∈ wire.inFlight) (timely : frame.call = wire.lastCall frame.request.target)
    {id : DatumId} (free : ¬busy id) :
    (logTier.serve wire.log frame.request).1.Holds id (wire.latest id) := by
  rcases eq_or_ne id frame.request.target with rfl | differ
  · have held := quiet.holds _ free
    rcases (quiet.frames frame sent free timely).serve quiet.closed held with brought | needsFull
    · exact brought
    · exact absurd needsFull.1 needsFull.2.1
  · exact logTier_lawful.serve_other quiet.closed differ (quiet.holds id free)

/-- Serving a frame of the call under way, or one for another datum. -/
theorem Aiming.serve {op : StoreCall} (aiming : wire.Aiming op) (closed : wire.log.Closed)
    {frame : WireFrame} (sent : frame ∈ wire.inFlight)
    (timely : frame.call = wire.lastCall frame.request.target) :
    ((logTier.serve wire.log frame.request).1.Holds op.target (wire.latest op.target) ∨
        (logTier.serve wire.log frame.request).1.Holds op.target op.goal) ∧
      (wire.log.Holds op.target op.goal →
        (logTier.serve wire.log frame.request).1.Holds op.target op.goal) ∧
      (frame.request.target = op.target →
        (logTier.serve wire.log frame.request).2 = some .ack →
          (logTier.serve wire.log frame.request).1.Holds op.target op.goal) := by
  by_cases same : frame.request.target = op.target
  · have brings := aiming.frames frame sent same (same ▸ timely)
    have fromGoal : wire.log.Holds op.target op.goal →
        (logTier.serve wire.log frame.request).1.Holds op.target op.goal := by
      intro held
      rw [← same] at held ⊢
      rcases brings.again.serve closed held with brought | needsFull
      · exact brought
      · exact absurd needsFull.1 needsFull.2.1
    rcases aiming.holds with asBefore | asGoal
    · rw [← same] at asBefore
      rcases brings.serve closed (same ▸ asBefore) with brought | ⟨_, _, unchanged, notAcked⟩
      · rw [same] at brought
        exact ⟨Or.inr brought, fromGoal, fun _ _ => brought⟩
      · rw [same] at asBefore
        exact ⟨Or.inl (unchanged.symm ▸ asBefore), fromGoal, fun _ acked => absurd acked notAcked⟩
    · exact ⟨Or.inr (fromGoal asGoal), fromGoal, fun _ _ => fromGoal asGoal⟩
  · have others : ∀ state, wire.log.Holds op.target state →
        (logTier.serve wire.log frame.request).1.Holds op.target state :=
      fun state => logTier_lawful.serve_other closed (fun isTarget => same isTarget.symm)
    exact ⟨aiming.holds.imp (others _) (others _), others _, fun isTarget => absurd isTarget same⟩

theorem Kept.serve (kept : wire.Kept) {index : ℕ} (timely : wire.Timely (.serve index))
    (stepped : wire.serve index = some next) : next.Kept := by
  unfold Wire.serve at stepped
  split at stepped
  · cases stepped
  · rename_i frame found
    cases stepped
    have sent : frame ∈ wire.inFlight := List.mem_of_getElem? found
    have last := timely frame found
    refine kept.erase index (logTier_lawful.sound_serve kept.quiet.closed _) (busy_hear _ _ _)
      (fun id free => kept.quiet.serve sent last free) ?_
    intro attempt calling
    rcases hear_cases calling with ⟨before, was, heard⟩
    have underway := kept.underway before was
    rcases underway.aiming.serve kept.quiet.closed sent last with ⟨either, kept, acked⟩
    rcases heard with ⟨awaited, rfl⟩ | ⟨_, rfl⟩
    · have same := underway.awaited frame sent awaited.symm
      exact ⟨before, _, was, rfl, either, acked (by rw [same, underway.target])⟩
    · exact ⟨attempt, attempt.reply, was, rfl, either, fun isAcked => kept (underway.acked isAcked)⟩

theorem Kept.step (kept : wire.Kept) {label : WireLabel} (timely : wire.Timely label)
    (stepped : wire.step label = some next) : next.Kept := by
  cases label with
  | begin op => exact kept.begin timely stepped
  | serve index => exact kept.serve timely stepped
  | refuse index => exact kept.refuse stepped
  | lose index => exact kept.lose stepped
  | receive => exact kept.receive stepped
  | abandon => exact kept.abandon stepped

/-- As long as no frame outlives the last call on its datum, the node holds what was acknowledged
last, for every datum without a call under way. -/
theorem holds_latest (reached : system.ReachableVia Timely wire) {id : DatumId}
    (free : ¬wire.worker.Busy id) : wire.log.Holds id (wire.latest id) := by
  have kept : wire.Kept := by
    refine System.ReachableVia.induction ?_ ?_ reached
    · exact fun state starts => starts.kept
    · exact fun state label next holds timely stepped => holds.step timely stepped
  exact kept.quiet.holds id free

/-- An empty node. -/
def empty : Wire where
  log := DatumLog.create (List.replicate 16 0)
  inFlight := []
  worker := .idle
  serials := 0
  calls := 0
  lastCall := fun _ => 0
  latest := fun _ => none

theorem empty_starts : empty.Starts where
  closed := by
    unfold DatumLog.Closed
    decide +kernel
  holds := fun _ => ⟨fun _ => rfl, nofun⟩
  numbered := fun _ => le_refl _
  inFlight := rfl
  worker := rfl

/-- A put whose first attempt is given up and whose second is acknowledged. -/
def retriedPut : List WireLabel :=
  [.begin (.put 1 [10] 1), .abandon, .serve 1, .receive]

/-- `Timely` as a check, for puts. -/
def timely (wire : Wire) : WireLabel → Bool
  | .serve index => (wire.inFlight[index]?).all fun frame =>
      frame.call = wire.lastCall frame.request.target
  | .begin (.put _ content _) => 19 + content.length < 2 ^ 32
  | .begin (.putWithPrevious _ _ _ _) => false
  | _ => true

theorem timely_sound (wire : Wire) (label : WireLabel) (checked : wire.timely label = true) :
    wire.Timely label := by
  cases label with
  | serve index =>
      intro frame found
      simpa [timely, found] using checked
  | begin op =>
      cases op with
      | put id content n => simpa [timely, Timely, DatumLog.Fits] using checked
      | putWithPrevious id content previous n => cases checked
      | delete id => trivial
  | refuse index => trivial
  | lose index => trivial
  | receive => trivial
  | abandon => trivial

/-- The first attempt is served late, but before the next call. -/
theorem holds_latest_retried :
    ∃ wire, system.ReachableVia Timely wire ∧ wire.latest 1 = some ([20], 1) ∧
      wire.log.Holds 1 (wire.latest 1) := by
  have executed : (system.execVia timely empty (retriedPut ++
      [.serve 0, .begin (.put 1 [20] 1), .serve 0, .receive])).any
      (fun wire => wire.latest 1 == some ([20], 1) &&
        match wire.worker with
        | .idle => true
        | _ => false) = true := by decide +kernel
  rcases (Option.any_eq_true _ _).mp executed with ⟨wire, ran, shown⟩
  have reached : system.ReachableVia Timely wire :=
    System.reachableVia_of_execVia timely_sound empty_starts ran
  simp only [Bool.and_eq_true, beq_iff_eq] at shown
  refine ⟨wire, reached, shown.1, holds_latest reached ?_⟩
  intro busy
  cases worker : wire.worker with
  | idle =>
      rw [worker] at busy
      exact busy
  | calling attempt => simp [worker] at shown
  | failed id => simp [worker] at shown

/-- The first attempt is served after the next call, and undoes it. -/
theorem undone :
    ∃ wire, system.Reachable wire ∧ wire.worker = .idle ∧ wire.latest 1 = some ([20], 1) ∧
      wire.log.get 1 = .ok (some [10]) := by
  have executed : (system.exec empty (retriedPut ++
      [.begin (.put 1 [20] 1), .serve 1, .receive, .serve 0])).any
      (fun wire => wire.latest 1 == some ([20], 1) &&
        (wire.log.get 1).toOption == some (some [10]) &&
        match wire.worker with
        | .idle => true
        | _ => false) = true := by decide +kernel
  rcases (Option.any_eq_true _ _).mp executed with ⟨wire, ran, shown⟩
  simp only [Bool.and_eq_true, beq_iff_eq] at shown
  refine ⟨wire, System.reachable_of_exec empty_starts ran, ?_, shown.1.1, ?_⟩
  · cases worker : wire.worker with
    | idle => rfl
    | calling attempt => simp [worker] at shown
    | failed id => simp [worker] at shown
  · exact Service.eq_ok_of_toOption shown.1.2

end Wire

end Seisin
