import Seisin.Node.Tier

/-!
# What is on its way for an op

Whatever is in flight for an op, its record waits for: the updates and checks sent for it and the
answers to them are as many as the replies its record counts, on all nodes together.  So as long as
anything is under way for an op, the op has a record, and as long as it has a record or is on its way
to its thread, the handler of its client waits.
-/

namespace Seisin

variable {Resident : Type}

/-! ## Attribution of what is in flight -/

/-- What was called for under a correlation id. -/
def filedBy (calls : List Call) (call : ℕ) : Option PeerRequest :=
  calls[call]?.map Call.request

theorem filedBy_append {calls more : List Call} {call : ℕ} {request : PeerRequest}
    (found : filedBy calls call = some request) : filedBy (calls ++ more) call = some request := by
  rcases Option.map_eq_some_iff.mp found with ⟨filed, lookedUp, same⟩
  have inside : call < calls.length := (List.getElem?_eq_some_iff.mp lookedUp).1
  rw [filedBy, List.getElem?_append_left inside, lookedUp, Option.map_some, same]

namespace Transit

/-- The op an item settles a part of. -/
def owes (filed : ℕ → Option PeerRequest) : Transit → Option DatumId
  | .message _ body _ => body.owes filed
  | .request _ _ asked => asked.owes
  | .response call _ => (filed call).bind PeerRequest.owes

/-- The op an item starts. -/
def starts : Transit → Option DatumId
  | .message _ body _ => body.starts
  | _ => none

/-- Threads and peer links send it, for no handler. -/
def Internal : Transit → Prop
  | .message _ body origin => body.Internal ∧ origin = none
  | _ => True

theorem Internal.starts {item : Transit} (internal : item.Internal) : item.starts = none := by
  cases item with
  | message receiver body origin => exact WorkerMessage.Internal.starts internal.1
  | _ => rfl

def Sound (filed : ℕ → Option PeerRequest) (runs : DatumId → NodeId × ThreadId → Prop) :
    Transit → Prop
  | .message receiver body _ => body.Sound filed runs receiver
  | .request call _ asked => filed call = some asked
  | .response call answer =>
      ∃ asked, filed call = some asked ∧ (asked.Acquires → answer = .granted)

end Transit

section Growth

variable {filed later : ℕ → Option PeerRequest}
  {runs laterRuns : DatumId → NodeId × ThreadId → Prop}

theorem WorkerMessage.Sound.mono {message : WorkerMessage} {receiver : NodeId × ThreadId}
    (sound : message.Sound filed runs receiver)
    (grows : ∀ call request, filed call = some request → later call = some request)
    (runsGrows : ∀ opId thread, runs opId thread → laterRuns opId thread) :
    message.Sound later laterRuns receiver ∧ message.owes later = message.owes filed := by
  cases message with
  | runOp opId opName datumIds payload => exact ⟨runsGrows _ _ sound, rfl⟩
  | acquire opId datumId requesterNode requesterThread reply =>
      cases reply with
      | «local» inbox => exact ⟨trivial, rfl⟩
      | remote link correlationId =>
          rcases sound with ⟨request, found, acquires⟩
          exact ⟨⟨request, grows _ _ found, acquires⟩, rfl⟩
  | acquireFailed opId datumId retriesLeft => exact sound.elim
  | «recall» datumId reply =>
      cases reply with
      | «local» inbox => exact ⟨trivial, rfl⟩
      | remote link correlationId =>
          rcases sound with ⟨recalled, found⟩
          exact ⟨⟨recalled, grows _ _ found⟩, rfl⟩
  | indexUpdate target opId indexKind payload reply =>
      cases reply with
      | «local» inbox => exact ⟨runsGrows _ _ sound, rfl⟩
      | remote link correlationId =>
          rcases sound with ⟨request, found, owes⟩
          refine ⟨⟨request, grows _ _ found, owes⟩, ?_⟩
          simp only [WorkerMessage.owes, found, grows _ _ found]
  | existsCheck datumId opId reply =>
      cases reply with
      | «local» inbox => exact ⟨runsGrows _ _ sound, rfl⟩
      | remote link correlationId =>
          rcases sound with ⟨request, checked, found, owes⟩
          refine ⟨⟨request, checked, grows _ _ found, owes⟩, ?_⟩
          simp only [WorkerMessage.owes, found, grows _ _ found]
      | sync => exact ⟨trivial, rfl⟩
  | indexUpdateReplied opId target violation => exact ⟨runsGrows _ _ sound, rfl⟩
  | existsCheckReplied opId target found => exact ⟨runsGrows _ _ sound, rfl⟩
  | _ => exact ⟨trivial, rfl⟩

theorem Transit.Sound.mono {item : Transit} (sound : item.Sound filed runs)
    (grows : ∀ call request, filed call = some request → later call = some request)
    (runsGrows : ∀ opId thread, runs opId thread → laterRuns opId thread) :
    item.Sound later laterRuns ∧ item.owes later = item.owes filed := by
  cases item with
  | message receiver message origin => exact WorkerMessage.Sound.mono sound grows runsGrows
  | request call receiver request => exact ⟨grows _ _ sound, rfl⟩
  | response call response =>
      rcases sound with ⟨request, found, granted⟩
      refine ⟨⟨request, grows _ _ found, granted⟩, ?_⟩
      simp only [Transit.owes, found, grows _ _ found]

theorem NativeLock.Sound.mono {lock : NativeLock Grant} (sound : lock.Sound filed)
    (grows : ∀ call request, filed call = some request → later call = some request) :
    lock.Sound later := by
  intro waiter waiterMem
  have waiterSound := sound waiter waiterMem
  unfold Grant.Sound at waiterSound ⊢
  cases replies : waiter.onGranted.reply with
  | «local» inbox => trivial
  | remote link correlationId =>
      rw [replies] at waiterSound
      rcases waiterSound with ⟨request, found, acquires⟩
      exact ⟨request, grows _ _ found, acquires⟩

theorem Effect.Sound.mono {effect : Effect} {sender : NodeId × ThreadId}
    (sound : effect.Sound filed runs sender)
    (grows : ∀ call request, filed call = some request → later call = some request)
    (runsGrows : ∀ opId thread, runs opId thread → laterRuns opId thread) :
    effect.Sound later laterRuns sender ∧ effect.owes later = effect.owes filed := by
  cases effect with
  | send receiver message =>
      have grown := WorkerMessage.Sound.mono sound.1 grows runsGrows
      exact ⟨⟨grown.1, sound.2⟩, grown.2⟩
  | call node thread request => exact ⟨fun opId owes => runsGrows _ _ (sound opId owes), rfl⟩
  | respond link call response =>
      rcases sound with ⟨request, found, granted⟩
      refine ⟨⟨request, grows _ _ found, granted⟩, ?_⟩
      simp only [Effect.owes, found, grows _ _ found]
  | reply opId result => exact ⟨runsGrows _ _ sound, rfl⟩
  | _ => exact ⟨trivial, rfl⟩

end Growth

/-! ## What the effects of a turn do -/

namespace ComputeTier

def filed (tier : ComputeTier Resident) : ℕ → Option PeerRequest := filedBy tier.calls

/-- The op is assigned to the thread. -/
def Runs (tier : ComputeTier Resident) (opId : DatumId) (thread : NodeId × ThreadId) : Prop :=
  ∃ handler, tier.assigned opId = some (thread, handler)

/-- How much is on its way for an op. -/
def due (tier : ComputeTier Resident) (opId : DatumId) : ℕ :=
  tier.inFlight.countP fun item => item.owes tier.filed = some opId

def starting (tier : ComputeTier Resident) (opId : DatumId) : ℕ :=
  tier.inFlight.countP fun item => item.starts = some opId

def awaits (tier : ComputeTier Resident) (thread : NodeId × ThreadId) (opId : DatumId) :
    Option (Option ℕ) :=
  (tier.workers thread.1 thread.2).awaits opId

def recorded (tier : ComputeTier Resident) (thread : NodeId × ThreadId) (opId : DatumId) : ℕ :=
  if tier.awaits thread opId = none then 0 else 1

/-- What effects leave: new items in flight, one for each part of an op that is owed, new calls, and
handlers that have their answers. -/
structure Performed (receiver : NodeId × ThreadId) (origin : Option ℕ) (effects : List Effect)
    (before after : ComputeTier Resident) : Prop where
  workers : after.workers = before.workers
  assigned : after.assigned = before.assigned
  grows : ∀ call request, before.filed call = some request → after.filed call = some request
  called : ∀ call ∈ after.calls, call ∈ before.calls ∨
    ∀ opId, call.request.owes = some opId → before.Runs opId call.caller
  posted : ∃ items, after.inFlight = before.inFlight ++ items ∧
    (∀ item ∈ items, item.Sound after.filed before.Runs ∧ item.Internal) ∧
    ∀ opId, (items.countP fun item => item.owes after.filed = some opId) =
      owed before.filed opId effects
  sites : ∀ node (property : Site → Prop),
    (∀ site next handler opId, property site → site.act handler (.answer opId) = some next →
      property next) → property (before.sites node) → property (after.sites node)
  running : ∀ node handler opId,
    (before.sites node).handlers handler = .running opId →
      (after.sites node).handlers handler = .running opId ∨ node = receiver.1 ∧
        opId.elim (origin = some handler) fun waiting => ∃ result, .reply waiting result ∈ effects

variable {tier : ComputeTier Resident} {receiver : NodeId × ThreadId} {origin : Option ℕ}
  {effects : List Effect}

theorem answer_frame (tier : ComputeTier Resident) (node : NodeId) (handler : ℕ)
    (opId : Option DatumId) :
    (tier.answer node handler opId).workers = tier.workers ∧
      (tier.answer node handler opId).assigned = tier.assigned ∧
      (tier.answer node handler opId).calls = tier.calls ∧
      (tier.answer node handler opId).inFlight = tier.inFlight := by
  unfold answer
  split <;> exact ⟨rfl, rfl, rfl, rfl⟩

theorem answer_sites (tier : ComputeTier Resident) (node : NodeId) (handler : ℕ)
    (opId : Option DatumId) (other : NodeId) (property : Site → Prop)
    (kept : ∀ site next handler opId, property site → site.act handler (.answer opId) = some next →
      property next) (holds : property (tier.sites other)) :
    property ((tier.answer node handler opId).sites other) := by
  unfold answer
  split
  · rename_i site acted
    by_cases same : other = node
    · rw [same, sites_setSite_self]
      rw [same] at holds
      exact kept _ _ _ _ holds acted
    · rw [sites_setSite_ne _ _ same]
      exact holds
  · exact holds

theorem answer_running (tier : ComputeTier Resident) (node : NodeId) (handler : ℕ)
    (answered : Option DatumId) {other : NodeId} {waiting : ℕ} {opId : Option DatumId}
    (runs : (tier.sites other).handlers waiting = .running opId) :
    ((tier.answer node handler answered).sites other).handlers waiting = .running opId ∨
      other = node ∧ waiting = handler ∧ opId = answered := by
  unfold answer
  split
  · rename_i site acted
    by_cases same : other = node
    · rw [same] at runs
      rw [same, sites_setSite_self]
      rcases Site.act_running acted runs with still | ⟨here, answers⟩
      · exact Or.inl still
      · cases answers
        exact Or.inr ⟨rfl, here, rfl⟩
    · left
      rw [sites_setSite_ne _ _ same]
      exact runs
  · exact Or.inl runs

theorem performed_answer (tier : ComputeTier Resident) (effect : Effect) (handler : ℕ)
    (opId : Option DatumId) (unowed : effect.owes tier.filed = none)
    (answers : opId.elim (origin = some handler)
      fun waiting => ∃ result, effect = .reply waiting result) :
    Performed receiver origin [effect] tier (tier.answer receiver.1 handler opId) := by
  rcases tier.answer_frame receiver.1 handler opId with ⟨workers, assigned, calls, inFlight⟩
  have filed : (tier.answer receiver.1 handler opId).filed = tier.filed := by
    rw [ComputeTier.filed, calls]
    rfl
  refine ⟨workers, assigned, ?_, ?_, ⟨[], ?_, ?_, ?_⟩, ?_, ?_⟩
  · rw [filed]
    exact fun _ _ => id
  · rw [calls]
    exact fun _ => Or.inl
  · rw [inFlight, List.append_nil]
  · simp
  · intro owner
    rw [owed_cons, unowed]
    rfl
  · exact fun other => tier.answer_sites receiver.1 handler opId other
  · intro node waiting owner runs
    rcases tier.answer_running receiver.1 handler opId runs with still | ⟨same, here, answered⟩
    · exact Or.inl still
    · refine Or.inr ⟨same, ?_⟩
      rw [here, answered]
      cases opId with
      | none => exact answers
      | some waited =>
          rcases answers with ⟨result, rfl⟩
          exact ⟨result, List.mem_singleton_self _⟩

/-- Effects one after the other. -/
theorem Performed.cons {effect : Effect} {before middle after : ComputeTier Resident}
    (sound : ∀ effect ∈ effects, effect.Sound before.filed before.Runs receiver)
    (first : Performed receiver origin [effect] before middle)
    (rest : Performed receiver origin effects middle after) :
    Performed receiver origin (effect :: effects) before after := by
  have runs : middle.Runs = before.Runs := by
    funext opId thread
    rw [Runs, first.assigned, Runs]
  have owedRest : ∀ opId, owed middle.filed opId effects = owed before.filed opId effects := by
    intro opId
    unfold owed
    apply List.countP_congr
    intro other otherMem
    rw [((sound other otherMem).mono first.grows fun _ _ => id).2]
  rcases first.posted with ⟨items, inFlight, itemsSound, itemsOwe⟩
  rcases rest.posted with ⟨others, inFlightRest, othersSound, othersOwe⟩
  refine ⟨rest.workers.trans first.workers, rest.assigned.trans first.assigned,
    fun call request found => rest.grows call request (first.grows call request found), ?_,
    ⟨items ++ others, ?_, ?_, ?_⟩, ?_, ?_⟩
  · intro call callMem
    rcases rest.called call callMem with earlier | attributed
    · exact first.called call earlier
    · rw [runs] at attributed
      exact Or.inr attributed
  · rw [inFlightRest, inFlight, List.append_assoc]
  · intro item itemMem
    rcases List.mem_append.mp itemMem with itemMem | itemMem
    · exact ⟨((itemsSound item itemMem).1.mono rest.grows fun _ _ => id).1,
        (itemsSound item itemMem).2⟩
    · rw [runs] at othersSound
      exact othersSound item itemMem
  · intro opId
    have kept : (items.countP fun item => item.owes after.filed = some opId) =
        items.countP fun item => item.owes middle.filed = some opId := by
      apply List.countP_congr
      intro item itemMem
      rw [((itemsSound item itemMem).1.mono rest.grows fun _ _ => id).2]
    rw [List.countP_append, kept, itemsOwe, othersOwe, owedRest, owed_cons, owed_cons]
    simp only [owed_nil]
    omega
  · intro node property kept holds
    exact rest.sites node property kept (first.sites node property kept holds)
  · intro node handler opId waits
    rcases first.running node handler opId waits with still | ⟨same, answers⟩
    · rcases rest.running node handler opId still with still | ⟨same, answers⟩
      · exact Or.inl still
      · refine Or.inr ⟨same, ?_⟩
        cases opId with
        | none => exact answers
        | some waiting =>
            rcases answers with ⟨result, replies⟩
            exact ⟨result, List.mem_cons_of_mem _ replies⟩
    · refine Or.inr ⟨same, ?_⟩
      cases opId with
      | none => exact answers
      | some waiting =>
          rcases answers with ⟨result, replies⟩
          cases List.mem_singleton.mp replies
          exact ⟨result, List.mem_cons_self⟩

/-- Posting one item for an effect. -/
theorem performed_post {effect : Effect} {item : Transit}
    (sound : item.Sound tier.filed tier.Runs) (internal : item.Internal)
    (owes : item.owes tier.filed = effect.owes tier.filed) :
    Performed receiver origin [effect] tier (tier.post [item]) where
  workers := rfl
  assigned := rfl
  grows := fun _ _ => id
  called := fun _ => Or.inl
  posted := by
    refine ⟨[item], rfl, ?_, ?_⟩
    · intro other otherMem
      cases List.mem_singleton.mp otherMem
      exact ⟨sound, internal⟩
    · intro opId
      have same : (tier.post [item]).filed = tier.filed := rfl
      rw [owed_cons, same, ← owes, List.countP_singleton]
      simp
  sites := fun _ _ _ => id
  running := fun _ _ _ => Or.inl

theorem performed_call {node : NodeId} {thread : ThreadId} {request : PeerRequest}
    (sound : ∀ opId, request.owes = some opId → tier.Runs opId receiver) :
    Performed receiver origin [.call node thread request] tier
      { tier.post [.request tier.calls.length (node, thread) request] with
        calls := tier.calls ++ [⟨receiver, request⟩] } where
  workers := rfl
  assigned := rfl
  grows := fun _ _ => filedBy_append
  called := by
    intro call callMem
    rcases List.mem_append.mp callMem with earlier | isNew
    · exact Or.inl earlier
    · cases List.mem_singleton.mp isNew
      exact Or.inr sound
  posted := by
    refine ⟨[_], rfl, ?_, ?_⟩
    · intro item itemMem
      cases List.mem_singleton.mp itemMem
      refine ⟨?_, trivial⟩
      simp [Transit.Sound, filed, filedBy]
    · intro opId
      rw [owed_cons, List.countP_singleton]
      by_cases owes : request.owes = some opId <;> simp [Transit.owes, Effect.owes, owes]
  sites := fun _ _ _ => id
  running := fun _ _ _ => Or.inl

theorem performed_silent {effect : Effect} (unowed : effect.owes tier.filed = none) :
    Performed receiver origin [effect] tier tier where
  workers := rfl
  assigned := rfl
  grows := fun _ _ => id
  called := fun _ => Or.inl
  posted := by
    refine ⟨[], (List.append_nil _).symm, by simp, ?_⟩
    intro opId
    rw [owed_cons, unowed]
    rfl
  sites := fun _ _ _ => id
  running := fun _ _ _ => Or.inl

theorem performed_nil (tier : ComputeTier Resident) : Performed receiver origin [] tier tier where
  workers := rfl
  assigned := rfl
  grows := fun _ _ => id
  called := fun _ => Or.inl
  posted := ⟨[], (List.append_nil _).symm, by simp, fun _ => rfl⟩
  sites := fun _ _ _ => id
  running := fun _ _ _ => Or.inl

theorem performed_one {effect : Effect} (sound : effect.Sound tier.filed tier.Runs receiver) :
    Performed receiver origin [effect] tier (perform receiver origin tier effect) := by
  cases effect with
  | send thread message => exact performed_post sound.1 ⟨sound.2, rfl⟩ rfl
  | call node thread request => exact performed_call sound
  | respond link call response => exact performed_post sound trivial rfl
  | reply opId result =>
      rcases sound with ⟨handler, isAssigned⟩
      simp only [perform, isAssigned]
      exact performed_answer tier _ handler (some opId) rfl ⟨result, rfl⟩
  | answer result =>
      simp only [perform]
      cases origin with
      | none => exact performed_silent rfl
      | some handler => exact performed_answer tier _ handler none rfl rfl
  | answerExists found =>
      simp only [perform]
      cases origin with
      | none => exact performed_silent rfl
      | some handler => exact performed_answer tier _ handler none rfl rfl
  | invoked opId => exact performed_silent rfl
  | committed opId ids writes => exact performed_silent rfl

/-- What a whole turn leaves. -/
theorem performed_all (effects : List Effect) (tier : ComputeTier Resident)
    (sound : ∀ effect ∈ effects, effect.Sound tier.filed tier.Runs receiver) :
    Performed receiver origin effects tier (effects.foldl (perform receiver origin) tier) := by
  induction effects generalizing tier with
  | nil => exact performed_nil tier
  | cons effect effects ih =>
      rw [List.forall_mem_cons] at sound
      have first : Performed receiver origin [effect] tier (perform receiver origin tier effect) :=
        performed_one sound.1
      refine .cons sound.2 first (ih _ ?_)
      intro other otherMem
      refine ((sound.2 other otherMem).mono first.grows ?_).1
      rintro opId thread ⟨handler, isAssigned⟩
      exact ⟨handler, first.assigned ▸ isAssigned⟩

/-! ## The books -/

/-- What is on its way for the ops of the tier is what their records wait for. -/
structure Ledger (tier : ComputeTier Resident) : Prop where
  counted : ∀ node, (tier.sites node).Counted
  sound : ∀ item ∈ tier.inFlight, item.Sound tier.filed tier.Runs
  called : ∀ call ∈ tier.calls, ∀ opId, call.request.owes = some opId → tier.Runs opId call.caller
  locks : ∀ (thread : NodeId × ThreadId) datumId,
    ((tier.workers thread.1 thread.2).lock datumId).Sound tier.filed
  placed : ∀ thread opId, tier.awaits thread opId ≠ none → tier.Runs opId thread
  unsettled : ∀ thread opId, tier.awaits thread opId ≠ some (some 0)
  balanced : ∀ opId, tier.due opId =
    (tier.assigned opId).elim 0 fun place => outstanding (tier.awaits place.1 opId)
  single : ∀ opId thread handler, tier.assigned opId = some (thread, handler) →
    tier.starting opId + tier.recorded thread opId ≤ 1
  live : ∀ opId thread handler, tier.assigned opId = some (thread, handler) →
    0 < tier.starting opId + tier.recorded thread opId →
      (tier.sites thread.1).handlers handler = .running (some opId)

theorem ledger_new (native : NodeId → DatumId → NodeId × ThreadId) (store : Store) :
    (new native store : ComputeTier Resident).Ledger where
  counted := by
    intro node handler guards
    cases guards
  sound := fun _ itemMem => nomatch itemMem
  called := fun _ callMem => nomatch callMem
  locks := fun _ _ _ waiterMem => nomatch waiterMem
  placed := fun _ _ recorded => absurd rfl recorded
  unsettled := fun _ _ settled => nomatch settled
  balanced := fun _ => rfl
  single := fun _ _ _ impossible => nomatch impossible
  live := fun _ _ _ impossible => nomatch impossible

/-- Steps that leave the threads and the calls alone, and as much in flight for every op. -/
theorem Ledger.of_same {after : ComputeTier Resident} (ledger : tier.Ledger)
    (workers : after.workers = tier.workers) (calls : after.calls = tier.calls)
    (assigned : after.assigned = tier.assigned)
    (sound : ∀ item ∈ after.inFlight, item.Sound tier.filed tier.Runs)
    (due : after.due = tier.due) (starting : after.starting = tier.starting)
    (counted : ∀ node, (after.sites node).Counted)
    (running : ∀ node handler opId, (tier.sites node).handlers handler = .running (some opId) →
      (after.sites node).handlers handler = .running (some opId)) : after.Ledger := by
  have filed : after.filed = tier.filed := by rw [ComputeTier.filed, calls, ComputeTier.filed]
  have runs : after.Runs = tier.Runs := by
    funext opId thread
    rw [Runs, assigned, Runs]
  have awaits : after.awaits = tier.awaits := by
    funext thread opId
    rw [ComputeTier.awaits, workers, ComputeTier.awaits]
  have recorded : after.recorded = tier.recorded := by
    funext thread opId
    rw [ComputeTier.recorded, awaits, ComputeTier.recorded]
  refine ⟨counted, ?_, ?_, ?_, ?_, ?_, ?_, ?_, ?_⟩
  · rw [filed, runs]
    exact sound
  · rw [calls, runs]
    exact ledger.called
  · rw [workers, filed]
    exact ledger.locks
  · rw [awaits, runs]
    exact ledger.placed
  · rw [awaits]
    exact ledger.unsettled
  · rw [due, assigned, awaits]
    exact ledger.balanced
  · rw [assigned, starting, recorded]
    exact ledger.single
  · intro opId thread handler isAssigned
    rw [assigned] at isAssigned
    rw [starting, recorded]
    exact fun live => running _ _ _ (ledger.live opId thread handler isAssigned live)

/-- Items that start nothing take the place of others that owe as much. -/
theorem Ledger.of_items (ledger : tier.Ledger) (gone : List Transit) {kept items : List Transit}
    (inFlight : tier.inFlight.Perm (gone ++ kept)) (goneStarts : ∀ item ∈ gone, item.starts = none)
    (sound : ∀ item ∈ items, item.Sound tier.filed tier.Runs ∧ item.starts = none)
    (owes : ∀ opId, (items.countP fun item => item.owes tier.filed = some opId) =
      gone.countP fun item => item.owes tier.filed = some opId) :
    ({ tier with inFlight := kept ++ items } : ComputeTier Resident).Ledger := by
  have unstarted : ∀ (list : List Transit), (∀ item ∈ list, item.starts = none) → ∀ opId,
      (list.countP fun item => item.starts = some opId) = 0 := by
    intro list starts opId
    rw [List.countP_eq_zero]
    intro item itemMem
    simp [starts item itemMem]
  refine ledger.of_same rfl rfl rfl ?_ ?_ ?_ ledger.counted fun _ _ _ => id
  · intro item itemMem
    rcases List.mem_append.mp itemMem with isKept | isNew
    · exact ledger.sound item (inFlight.mem_iff.mpr (List.mem_append_right _ isKept))
    · exact (sound item isNew).1
  · funext opId
    rw [due, due, inFlight.countP_eq, List.countP_append, List.countP_append, Nat.add_comm]
    congr 1
    exact owes opId
  · funext opId
    rw [starting, starting, inFlight.countP_eq, List.countP_append, List.countP_append,
      unstarted items (fun item itemMem => (sound item itemMem).2), unstarted gone goneStarts,
      Nat.add_comm]

/-- Messages of gossip. -/
theorem Ledger.of_gossip (ledger : tier.Ledger) {message : WorkerMessage}
    (sound : message.Sound tier.filed tier.Runs receiver) (starts : message.starts = none)
    (owes : message.owes tier.filed = none) :
    (tier.post [.message receiver message none]).Ledger := by
  refine ledger.of_items [] (.refl _) (by simp) ?_ ?_
  · intro item itemMem
    cases List.mem_singleton.mp itemMem
    exact ⟨sound, starts⟩
  · intro opId
    rw [List.countP_singleton]
    simp [Transit.owes, owes]

/-! ## Peer links -/

theorem starts_toMessage (request : PeerRequest) (link : NodeId) (call : ℕ) :
    (request.toMessage link call).starts = none := by
  cases request <;> rfl

theorem owes_toMessage {filed : ℕ → Option PeerRequest} {request : PeerRequest} {call : ℕ}
    (found : filed call = some request) (link : NodeId) :
    (request.toMessage link call).owes filed = request.owes := by
  cases request with
  | indexUpdate target opId indexKind payload =>
      simp [PeerRequest.toMessage, WorkerMessage.owes, found]
  | existsCheck datumId opId => simp [PeerRequest.toMessage, WorkerMessage.owes, found]
  | _ => rfl

theorem sound_toMessage {filed : ℕ → Option PeerRequest}
    {runs : DatumId → NodeId × ThreadId → Prop} {request : PeerRequest} {call : ℕ}
    (found : filed call = some request) (link : NodeId) (receiver : NodeId × ThreadId) :
    (request.toMessage link call).Sound filed runs receiver := by
  cases request with
  | acquire opId datumId requesterNode requesterThread retriesLeft => exact ⟨_, found, trivial⟩
  | «recall» datumId => exact ⟨datumId, found⟩
  | release datumId => trivial
  | indexUpdate target opId indexKind payload => exact ⟨_, found, rfl⟩
  | existsCheck datumId opId => exact ⟨_, opId, found, rfl⟩

/-- A request becomes a message that owes as much. -/
theorem Ledger.of_request (ledger : tier.Ledger) {kept : List Transit} {call : ℕ}
    {thread : NodeId × ThreadId} {request : PeerRequest}
    (inFlight : tier.inFlight.Perm (.request call thread request :: kept)) (link : NodeId) :
    ({ tier with
      inFlight := kept ++ (request.acknowledged call ++
        [.message thread (request.toMessage link call) none]) } : ComputeTier Resident).Ledger := by
  have found : tier.filed call = some request :=
    ledger.sound (.request call thread request) (inFlight.mem_iff.mpr List.mem_cons_self)
  refine ledger.of_items [.request call thread request] inFlight (by simp [Transit.starts]) ?_ ?_
  · intro item itemMem
    rcases List.mem_append.mp itemMem with acknowledged | isMessage
    · cases request with
      | release datumId =>
          cases List.mem_singleton.mp acknowledged
          exact ⟨⟨_, found, False.elim⟩, rfl⟩
      | _ => cases acknowledged
    · cases List.mem_singleton.mp isMessage
      exact ⟨sound_toMessage found link thread, starts_toMessage request link call⟩
  · intro opId
    have silent : (request.acknowledged call).countP
        (fun item => item.owes tier.filed = some opId) = 0 := by
      cases request with
      | release datumId => simp [PeerRequest.acknowledged, Transit.owes, found, PeerRequest.owes]
      | _ => rfl
    rw [List.countP_append, silent, List.countP_singleton, List.countP_singleton]
    by_cases owes : request.owes = some opId <;>
      simp [Transit.owes, owes_toMessage found link, owes]

theorem owes_callback {filed : ℕ → Option PeerRequest} {request : PeerRequest}
    {response : PeerResponse} {message : WorkerMessage}
    (posts : request.callback response = some message) :
    message.owes filed = request.owes := by
  cases request <;> cases response <;> cases posts <;> rfl

theorem starts_callback {request : PeerRequest} {response : PeerResponse} {message : WorkerMessage}
    (posts : request.callback response = some message) : message.starts = none := by
  cases request <;> cases response <;> cases posts <;> rfl

theorem owes_of_silent {request : PeerRequest} {response : PeerResponse}
    (silent : request.callback response = none) : request.owes = none := by
  cases request <;> cases response <;> first | rfl | cases silent

theorem sound_callback {filed : ℕ → Option PeerRequest}
    {runs : DatumId → NodeId × ThreadId → Prop} {request : PeerRequest}
    {response : PeerResponse} {message : WorkerMessage} {caller : NodeId × ThreadId}
    (posts : request.callback response = some message)
    (granted : request.Acquires → response = .granted)
    (runsHere : ∀ opId, request.owes = some opId → runs opId caller) :
    message.Sound filed runs caller := by
  cases request with
  | acquire opId datumId requesterNode requesterThread retriesLeft =>
      rw [granted trivial] at posts
      cases posts
      trivial
  | «recall» datumId =>
      cases posts
      trivial
  | release datumId => cases posts
  | indexUpdate target opId indexKind payload =>
      cases response <;> cases posts <;> exact runsHere opId rfl
  | existsCheck datumId opId =>
      cases response <;> cases posts <;> exact runsHere opId rfl

/-- A response becomes a message of the callback, to the caller, that owes as much. -/
theorem Ledger.of_response (ledger : tier.Ledger) {kept : List Transit} {call : ℕ}
    {response : PeerResponse} {filed : Call}
    (inFlight : tier.inFlight.Perm (.response call response :: kept))
    (isFiled : tier.calls[call]? = some filed) :
    ({ tier with
      inFlight := kept ++ ((filed.request.callback response).toList.map fun message =>
        .message filed.caller message none) } : ComputeTier Resident).Ledger := by
  have found : tier.filed call = some filed.request := by
    rw [ComputeTier.filed, filedBy, isFiled, Option.map_some]
  have granted : filed.request.Acquires → response = .granted := by
    rcases ledger.sound (.response call response)
      (inFlight.mem_iff.mpr List.mem_cons_self) with ⟨request, lookedUp, granted⟩
    cases found.symm.trans lookedUp
    exact granted
  have runsHere := ledger.called filed (List.mem_of_getElem? isFiled)
  refine ledger.of_items [.response call response] inFlight (by simp [Transit.starts]) ?_ ?_
  · intro item itemMem
    rcases List.mem_map.mp itemMem with ⟨message, posts, rfl⟩
    have posts := Option.mem_toList.mp posts
    exact ⟨sound_callback posts granted runsHere, starts_callback posts⟩
  · intro opId
    rw [List.countP_singleton]
    cases posts : filed.request.callback response with
    | none => simp [Transit.owes, found, owes_of_silent posts]
    | some message =>
        have owes : message.owes tier.filed = filed.request.owes := owes_callback posts
        simp [Transit.owes, found, owes]

/-! ## Handlers -/

theorem Ledger.of_act (ledger : tier.Ledger) {node : NodeId} {handler : ℕ} {action : Action}
    {site : Site} (own : action.Own) (acted : (tier.sites node).act handler action = some site) :
    (tier.setSite node site).Ledger := by
  refine ledger.of_same rfl rfl rfl ledger.sound rfl rfl ?_ ?_
  · intro other
    by_cases same : other = node
    · rw [same, sites_setSite_self]
      exact Site.counted_act (ledger.counted node) acted
    · rw [sites_setSite_ne _ _ same]
      exact ledger.counted other
  · intro other waiting opId runs
    by_cases same : other = node
    · rw [same] at runs
      rw [same, sites_setSite_self]
      rcases Site.act_running acted runs with still | ⟨_, rfl⟩
      · exact still
      · exact own.elim
    · rw [sites_setSite_ne _ _ same]
      exact runs

theorem Ledger.of_halt (ledger : tier.Ledger) (node : NodeId) (halt : HaltState) :
    (tier.setSite node { tier.sites node with halt := halt }).Ledger := by
  refine ledger.of_same rfl rfl rfl ledger.sound rfl rfl ?_ ?_
  · intro other
    by_cases same : other = node
    · rw [same, sites_setSite_self]
      exact ledger.counted node
    · rw [sites_setSite_ne _ _ same]
      exact ledger.counted other
  · intro other waiting opId runs
    by_cases same : other = node
    · rw [same] at runs
      rw [same, sites_setSite_self]
      exact runs
    · rw [sites_setSite_ne _ _ same]
      exact runs

/-- Nothing is known of an op that has not been assigned. -/
theorem Ledger.unassigned (ledger : tier.Ledger) {opId : DatumId}
    (fresh : tier.assigned opId = none) :
    tier.due opId = 0 ∧ tier.starting opId = 0 ∧ ∀ thread, tier.awaits thread opId = none := by
  have never : ∀ thread, ¬tier.Runs opId thread := by
    rintro thread ⟨handler, isAssigned⟩
    rw [fresh] at isAssigned
    cases isAssigned
  refine ⟨?_, ?_, ?_⟩
  · rw [ledger.balanced, fresh, Option.elim_none]
  · rw [starting, List.countP_eq_zero]
    intro item itemMem starts
    have sound := ledger.sound item itemMem
    cases item with
    | message receiver message origin =>
        cases message with
        | runOp started opName datumIds payload =>
            cases of_decide_eq_true starts
            exact never receiver sound
        | _ => cases of_decide_eq_true starts
    | _ => cases of_decide_eq_true starts
  · intro thread
    by_contra recorded
    exact never thread (ledger.placed thread opId recorded)

theorem starts_request (request : ClientRequest) : request.message.starts = request.opId := by
  cases request <;> rfl

theorem owes_request (filed : ℕ → Option PeerRequest) (request : ClientRequest) :
    request.message.owes filed = none := by
  cases request <;> rfl

theorem sound_request {filed : ℕ → Option PeerRequest} {runs : DatumId → NodeId × ThreadId → Prop}
    {request : ClientRequest} {thread : NodeId × ThreadId}
    (runsHere : ∀ opId, request.opId = some opId → runs opId thread) :
    request.message.Sound filed runs thread := by
  cases request with
  | op opId opName datumIds payload => exact runsHere opId rfl
  | _ => trivial

/-- A handler passes its request on to a thread, an op under a new id. -/
theorem Ledger.of_dispatch (ledger : tier.Ledger) {node : NodeId} {handler : ℕ}
    {thread : ThreadId} {request : ClientRequest} {site : Site}
    (admitted : (tier.sites node).handlers handler = .admitted request)
    (fresh : ∀ opId, request.opId = some opId → tier.assigned opId = none)
    (acted : (tier.sites node).act handler (.dispatch request.opId) = some site) :
    ({ (tier.setSite node site).post
        [.message (node, thread) request.message (some handler)] with
      assigned := fun opId =>
        if request.opId = some opId then some ((node, thread), handler)
        else tier.assigned opId } : ComputeTier Resident).Ledger := by
  generalize isAfter : ({ (tier.setSite node site).post
        [.message (node, thread) request.message (some handler)] with
      assigned := fun opId =>
        if request.opId = some opId then some ((node, thread), handler)
        else tier.assigned opId } : ComputeTier Resident) = after
  have inFlight : after.inFlight =
      tier.inFlight ++ [.message (node, thread) request.message (some handler)] := by
    rw [← isAfter]
    rfl
  have filed : after.filed = tier.filed := by
    rw [← isAfter]
    rfl
  have awaits : after.awaits = tier.awaits := by
    rw [← isAfter]
    rfl
  have assignedNew : ∀ opId, request.opId = some opId →
      after.assigned opId = some ((node, thread), handler) := by
    intro opId isOp
    rw [← isAfter]
    exact if_pos isOp
  have assignedOld : ∀ opId, request.opId ≠ some opId →
      after.assigned opId = tier.assigned opId := by
    intro opId isOther
    rw [← isAfter]
    exact if_neg isOther
  have grows : ∀ opId thread, tier.Runs opId thread → after.Runs opId thread := by
    rintro opId thread ⟨other, isAssigned⟩
    refine ⟨other, ?_⟩
    rw [assignedOld opId, isAssigned]
    intro isOp
    rw [fresh opId isOp] at isAssigned
    cases isAssigned
  have due : ∀ opId, after.due opId = tier.due opId := by
    intro opId
    rw [ComputeTier.due, inFlight, filed, List.countP_append, List.countP_singleton]
    simp [Transit.owes, owes_request, ComputeTier.due]
  have starting : ∀ opId, after.starting opId =
      tier.starting opId + if request.opId = some opId then 1 else 0 := by
    intro opId
    rw [ComputeTier.starting, inFlight, List.countP_append, List.countP_singleton]
    by_cases isOp : request.opId = some opId <;>
      simp [Transit.starts, starts_request, ComputeTier.starting, isOp]
  have recorded : after.recorded = tier.recorded := by
    funext thread opId
    rw [ComputeTier.recorded, awaits, ComputeTier.recorded]
  have siteAt : after.sites node = site := by
    rw [← isAfter]
    exact sites_setSite_self tier node site
  have siteOf : ∀ other, other ≠ node → after.sites other = tier.sites other := by
    intro other differ
    rw [← isAfter]
    exact sites_setSite_ne tier site differ
  refine ⟨?_, ?_, ?_, ?_, ?_, ?_, ?_, ?_, ?_⟩
  · intro other
    by_cases same : other = node
    · rw [same, siteAt]
      exact Site.counted_act (ledger.counted node) acted
    · rw [siteOf other same]
      exact ledger.counted other
  · intro item itemMem
    rw [inFlight] at itemMem
    rw [filed]
    rcases List.mem_append.mp itemMem with earlier | isNew
    · exact ((ledger.sound item earlier).mono (fun _ _ => id) grows).1
    · cases List.mem_singleton.mp isNew
      exact sound_request fun opId isOp => ⟨handler, assignedNew opId isOp⟩
  · rw [← isAfter]
    intro call callMem opId owes
    have runs := grows _ _ (ledger.called call callMem opId owes)
    rw [← isAfter] at runs
    exact runs
  · rw [← isAfter]
    exact ledger.locks
  · rw [awaits]
    exact fun place opId recorded => grows _ _ (ledger.placed place opId recorded)
  · rw [awaits]
    exact ledger.unsettled
  · intro opId
    rw [due, awaits]
    by_cases isOp : request.opId = some opId
    · rcases ledger.unassigned (fresh opId isOp) with ⟨none_, _, unrecorded⟩
      rw [assignedNew opId isOp, none_, Option.elim_some, unrecorded]
      rfl
    · rw [assignedOld opId isOp]
      exact ledger.balanced opId
  · intro opId place other isAssigned
    rw [starting, recorded]
    by_cases isOp : request.opId = some opId
    · rcases ledger.unassigned (fresh opId isOp) with ⟨_, unstarted, unrecorded⟩
      rw [unstarted, if_pos isOp, ComputeTier.recorded, if_pos (unrecorded place)]
    · rw [assignedOld opId isOp] at isAssigned
      rw [if_neg isOp]
      exact ledger.single opId place other isAssigned
  · intro opId place other isAssigned pending
    by_cases isOp : request.opId = some opId
    · rw [assignedNew opId isOp] at isAssigned
      cases isAssigned
      rw [siteAt, Site.act_dispatch admitted acted, isOp]
    · rw [assignedOld opId isOp] at isAssigned
      rw [starting, recorded, if_neg isOp] at pending
      have waits := ledger.live opId place other isAssigned pending
      by_cases same : place.1 = node
      · rw [same] at waits
        rw [same, siteAt]
        rcases Site.act_running acted waits with still | ⟨_, impossible⟩
        · exact still
        · cases impossible
      · rw [siteOf _ same]
        exact waits

/-! ## A thread takes a message -/

section Take

variable {kept : List Transit} {message : WorkerMessage}

/-- An op is started where it has no record yet. -/
theorem Ledger.fresh (ledger : tier.Ledger)
    (inFlight : tier.inFlight.Perm (.message receiver message origin :: kept)) {opId : DatumId}
    (starts : message.starts = some opId) :
    tier.Runs opId receiver ∧ tier.awaits receiver opId = none ∧
      (kept.countP fun item => item.starts = some opId) = 0 := by
  have sound := ledger.sound (.message receiver message origin)
    (inFlight.mem_iff.mpr List.mem_cons_self)
  have runs : tier.Runs opId receiver := by
    cases message with
    | runOp started opName datumIds payload =>
        cases starts
        exact sound
    | _ => cases starts
  rcases runs with ⟨handler, isAssigned⟩
  have single := ledger.single opId receiver handler isAssigned
  rw [starting, inFlight.countP_eq, List.countP_cons_of_pos (by simp [Transit.starts, starts]),
    recorded] at single
  refine ⟨⟨handler, isAssigned⟩, ?_, by omega⟩
  by_contra isRecorded
  rw [if_neg isRecorded] at single
  omega

/-- An answer comes to the thread that waits for it. -/
theorem Ledger.expected (ledger : tier.Ledger)
    (inFlight : tier.inFlight.Perm (.message receiver message origin :: kept)) {opId : DatumId}
    (settles : message.settles = some opId) : 0 < outstanding (tier.awaits receiver opId) := by
  have sound := ledger.sound (.message receiver message origin)
    (inFlight.mem_iff.mpr List.mem_cons_self)
  have runs : tier.Runs opId receiver := by
    cases message with
    | indexUpdateReplied answered target violation =>
        cases settles
        exact sound
    | existsCheckReplied answered target found =>
        cases settles
        exact sound
    | _ => cases settles
  rcases runs with ⟨handler, isAssigned⟩
  have balanced := ledger.balanced opId
  have owes : message.owes tier.filed = some opId := WorkerMessage.owes_of_settles settles
  rw [due, inFlight.countP_eq, List.countP_cons_of_pos (by simp [Transit.owes, owes]), isAssigned,
    Option.elim_some] at balanced
  dsimp only at balanced
  omega

/-- What a turn leaves of the books, given the accounts of the thread. -/
theorem Ledger.of_accounts {middle after : ComputeTier Resident} (ledger : tier.Ledger)
    (inFlight : tier.inFlight.Perm (.message receiver message origin :: kept))
    (accounts : Accounts tier.filed receiver.2 (tier.awaits receiver) message
      (middle.awaits receiver) effects)
    (locks : ∀ (thread : NodeId × ThreadId) datumId,
      ((middle.workers thread.1 thread.2).lock datumId).Sound tier.filed)
    (elsewhere : ∀ thread, thread ≠ receiver → middle.awaits thread = tier.awaits thread)
    (sites : middle.sites = tier.sites) (calls : middle.calls = tier.calls)
    (assigned : middle.assigned = tier.assigned) (keeps : middle.inFlight = kept)
    (performed : Performed receiver origin effects middle after) : after.Ledger := by
  have filed : middle.filed = tier.filed := by rw [ComputeTier.filed, calls, ComputeTier.filed]
  have runs : middle.Runs = tier.Runs := by
    funext opId thread
    rw [Runs, assigned, Runs]
  have afterAwaits : after.awaits = middle.awaits := by
    funext thread opId
    rw [awaits, performed.workers, awaits]
  have afterRuns : after.Runs = tier.Runs := by
    funext opId thread
    rw [Runs, performed.assigned, assigned, Runs]
  have assignedEq : after.assigned = tier.assigned := performed.assigned.trans assigned
  have grows : ∀ call request, tier.filed call = some request → after.filed call = some request := by
    rw [← filed]
    exact performed.grows
  rcases performed.posted with ⟨items, afterFlight, itemsSound, itemsOwe⟩
  rw [keeps] at afterFlight
  rw [runs] at itemsSound
  have keptSound : ∀ item ∈ kept, item.Sound tier.filed tier.Runs := fun item itemMem =>
    ledger.sound item (inFlight.mem_iff.mpr (List.mem_cons_of_mem _ itemMem))
  have due : ∀ opId, after.due opId + (if message.owes tier.filed = some opId then 1 else 0) =
      tier.due opId + owed tier.filed opId effects := by
    intro opId
    have keptOwes : (kept.countP fun item => item.owes after.filed = some opId) =
        kept.countP fun item => item.owes tier.filed = some opId := by
      apply List.countP_congr
      intro item itemMem
      rw [((keptSound item itemMem).mono grows fun _ _ => id).2]
    rw [ComputeTier.due, afterFlight, List.countP_append, keptOwes, itemsOwe, filed,
      ComputeTier.due, inFlight.countP_eq]
    by_cases owes : message.owes tier.filed = some opId
    · rw [List.countP_cons_of_pos (by simp [Transit.owes, owes]), if_pos owes]
      omega
    · rw [List.countP_cons_of_neg (by simp [Transit.owes, owes]), if_neg owes]
      omega
  have starting : ∀ opId, after.starting opId + (if message.starts = some opId then 1 else 0) =
      tier.starting opId := by
    intro opId
    have unstarted : (items.countP fun item => item.starts = some opId) = 0 := by
      rw [List.countP_eq_zero]
      intro item itemMem
      simp [(itemsSound item itemMem).2.starts]
    rw [ComputeTier.starting, afterFlight, List.countP_append, unstarted, ComputeTier.starting,
      inFlight.countP_eq]
    by_cases starts : message.starts = some opId
    · rw [List.countP_cons_of_pos (by simp [Transit.starts, starts]), if_pos starts]
    · rw [List.countP_cons_of_neg (by simp [Transit.starts, starts]), if_neg starts]
      omega
  have started : ∀ opId, message.starts = some opId → tier.Runs opId receiver ∧
      tier.awaits receiver opId = none := fun opId starts =>
    ⟨(ledger.fresh inFlight starts).1, (ledger.fresh inFlight starts).2.1⟩
  have runsHere : ∀ opId, tier.awaits receiver opId ≠ none ∨ message.starts = some opId →
      tier.Runs opId receiver := by
    rintro opId (recorded | starts)
    · exact ledger.placed receiver opId recorded
    · exact (started opId starts).1
  have balance := accounts.balance (fun opId starts => (started opId starts).2)
    fun opId => ledger.expected inFlight
  -- No op takes up more than before: one that is started was on its way.
  have shrinks : ∀ opId thread, after.starting opId + after.recorded thread opId ≤
      tier.starting opId + tier.recorded thread opId := by
    intro opId thread
    have less := starting opId
    rw [recorded, recorded, afterAwaits]
    by_cases here : thread = receiver
    · rw [here]
      by_cases isRecorded : middle.awaits receiver opId = none
      · rw [if_pos isRecorded]
        omega
      · rcases accounts.started isRecorded with before | starts
        · rw [if_neg before, if_neg isRecorded]
          omega
        · rw [if_pos starts] at less
          rw [if_neg isRecorded]
          omega
    · rw [elsewhere thread here]
      omega
  refine ⟨?_, ?_, ?_, ?_, ?_, ?_, ?_, ?_, ?_⟩
  · intro other
    apply performed.sites other Site.Counted
    · exact fun site next handler opId counted acted => Site.counted_act counted acted
    · rw [sites]
      exact ledger.counted other
  · intro item itemMem
    rw [afterRuns]
    rw [afterFlight] at itemMem
    rcases List.mem_append.mp itemMem with isKept | isNew
    · exact ((keptSound item isKept).mono grows fun _ _ => id).1
    · exact (itemsSound item isNew).1
  · rw [afterRuns]
    intro call callMem
    rcases performed.called call callMem with earlier | attributed
    · rw [calls] at earlier
      exact ledger.called call earlier
    · rw [runs] at attributed
      exact attributed
  · intro place datumId
    rw [performed.workers]
    exact (locks place datumId).mono grows
  · intro place opId isRecorded
    rw [afterRuns]
    rw [afterAwaits] at isRecorded
    by_cases here : place = receiver
    · rw [here] at isRecorded ⊢
      exact runsHere opId (accounts.started isRecorded)
    · rw [elsewhere place here] at isRecorded
      exact ledger.placed place opId isRecorded
  · intro place opId
    rw [afterAwaits]
    by_cases here : place = receiver
    · rw [here]
      exact accounts.unsettled (ledger.unsettled receiver) opId
    · rw [elsewhere place here]
      exact ledger.unsettled place opId
  · intro opId
    rw [assignedEq, afterAwaits]
    have balancedBefore := ledger.balanced opId
    have dueAfter := due opId
    have balanceOp := balance opId
    by_cases here : tier.Runs opId receiver
    · rcases here with ⟨handler, isAssigned⟩
      rw [isAssigned, Option.elim_some] at balancedBefore ⊢
      dsimp only at balancedBefore ⊢
      omega
    · -- the turn neither takes nor sends anything for an op of another thread
      have before : tier.awaits receiver opId = none := by
        by_contra isRecorded
        exact here (ledger.placed receiver opId isRecorded)
      have afterNone : middle.awaits receiver opId = none := by
        by_contra isRecorded
        exact here (runsHere opId (accounts.started isRecorded))
      rw [before, afterNone] at balanceOp
      have same : after.due opId = tier.due opId := by omega
      rw [same, balancedBefore]
      cases isAssigned : tier.assigned opId with
      | none => rfl
      | some place =>
          have differ : place.1 ≠ receiver := by
            intro eq
            exact here ⟨place.2, by rw [isAssigned, ← eq]⟩
          rw [Option.elim_some, Option.elim_some, elsewhere _ differ]
  · intro opId place handler isAssigned
    rw [assignedEq] at isAssigned
    exact (shrinks opId place).trans (ledger.single opId place handler isAssigned)
  · intro opId place handler isAssigned pending
    rw [assignedEq] at isAssigned
    have waits := ledger.live opId place handler isAssigned
      (Nat.lt_of_lt_of_le pending (shrinks opId place))
    rw [← sites] at waits
    rcases performed.running place.1 handler (some opId) waits with still | ⟨_, result, replies⟩
    · exact still
    · -- an op that is answered leaves no record, and was not on its way any more
      exfalso
      rcases accounts.replied_op replies with ⟨ended, wasHere⟩
      rcases runsHere opId wasHere with ⟨other, assignedHere⟩
      cases isAssigned.symm.trans assignedHere
      have single := ledger.single opId receiver handler isAssigned
      have less := starting opId
      rw [recorded, afterAwaits, if_pos ended] at pending
      rcases wasHere with isRecorded | starts
      · rw [recorded, if_neg isRecorded] at single
        omega
      · rw [if_pos starts] at less
        omega

/-- A thread takes a message: the accounts of the turn, and what its effects leave. -/
theorem Ledger.turned (ledger : tier.Ledger) (spawn : Spawn Resident)
    (inFlight : tier.inFlight.Perm (.message receiver message origin :: kept)) (hint : DatumId) :
    Accounts tier.filed receiver.2 (tier.awaits receiver) message
        (tier.turn spawn receiver hint message).worker.awaits
        (tier.turn spawn receiver hint message).effects ∧
      (∀ datumId, ((tier.turn spawn receiver hint message).worker.lock datumId).Sound tier.filed) ∧
      Performed receiver origin (tier.turn spawn receiver hint message).effects
        { setWorker { tier with inFlight := kept } receiver
            (tier.turn spawn receiver hint message).worker with
          store := (tier.turn spawn receiver hint message).store }
        (take spawn { tier with inFlight := kept } receiver hint message origin) := by
  have sound := ledger.sound (.message receiver message origin)
    (inFlight.mem_iff.mpr List.mem_cons_self)
  have linked : (tier.env spawn receiver.1).Linked := fun _ => rfl
  have handled := Env.handle_accounts linked receiver.2 hint sound tier.store
    (ledger.locks receiver) (ledger.unsettled receiver)
  have effectsSound := handled.1.sound sound fun opId => ledger.placed receiver opId
  exact ⟨handled.1, handled.2, performed_all _ _ effectsSound⟩

/-- A thread takes a message, with all that follows from it. -/
theorem Ledger.of_take {spawn : Spawn Resident} (ledger : tier.Ledger)
    (inFlight : tier.inFlight.Perm (.message receiver message origin :: kept)) (hint : DatumId) :
    (take spawn { tier with inFlight := kept } receiver hint message origin).Ledger := by
  rcases ledger.turned spawn inFlight hint with ⟨handled, handledLocks, performed⟩
  generalize tier.turn spawn receiver hint message = turned at handled handledLocks performed
  let middle : ComputeTier Resident :=
    { setWorker { tier with inFlight := kept } receiver turned.worker with store := turned.store }
  have workerHere : middle.workers receiver.1 receiver.2 = turned.worker :=
    workers_setWorker_self { tier with inFlight := kept } receiver turned.worker
  have workerElse : ∀ thread, thread ≠ receiver →
      middle.workers thread.1 thread.2 = tier.workers thread.1 thread.2 := fun thread differ =>
    workers_setWorker_ne { tier with inFlight := kept } turned.worker differ
  have accounts : Accounts tier.filed receiver.2 (tier.awaits receiver) message
      (middle.awaits receiver) turned.effects := by
    have awaitsHere : middle.awaits receiver = turned.worker.awaits := by
      funext opId
      rw [awaits, workerHere]
    rw [awaitsHere]
    exact handled
  refine ledger.of_accounts inFlight accounts ?_ ?_ rfl rfl rfl rfl performed
  · intro thread datumId
    by_cases here : thread = receiver
    · rw [here, workerHere]
      exact handledLocks datumId
    · rw [workerElse thread here]
      exact ledger.locks thread datumId
  · intro thread differ
    funext opId
    rw [awaits, workerElse thread differ, awaits]

end Take

/-! ## Runs -/

theorem perm_eraseIdx {items : List Transit} {index : ℕ} {item : Transit}
    (found : items[index]? = some item) : items.Perm (item :: items.eraseIdx index) := by
  rcases List.getElem?_eq_some_iff.mp found with ⟨inside, rfl⟩
  exact (List.getElem_cons_eraseIdx_perm inside).symm

theorem ledger_step {spawn : Spawn Resident} {next : ComputeTier Resident} {label : TierLabel}
    (ledger : tier.Ledger) (stepped : step spawn tier label = some next) : next.Ledger := by
  cases label with
  | act node handler action =>
      simp only [step] at stepped
      split at stepped
      · rename_i allowed
        rcases Option.map_eq_some_iff.mp stepped with ⟨site, acted, rfl⟩
        exact ledger.of_act allowed.2 acted
      · cases stepped
  | dispatch node handler thread =>
      simp only [step] at stepped
      split at stepped
      · rename_i request admitted
        split at stepped
        · rename_i allowed
          rcases Option.map_eq_some_iff.mp stepped with ⟨site, acted, rfl⟩
          refine ledger.of_dispatch admitted ?_ acted
          intro opId isOp
          have fresh := allowed.2.2
          rw [isOp, Option.all_some] at fresh
          exact Option.isNone_iff_eq_none.mp fresh
        · cases stepped
      · cases stepped
  | deliver index hint =>
      rcases Option.map_eq_some_iff.mp stepped with ⟨item, found, rfl⟩
      have inFlight := perm_eraseIdx found
      cases item with
      | message receiver message origin => exact ledger.of_take inFlight hint
      | request call receiver request =>
          have isCalled := ledger.sound _ (inFlight.mem_iff.mpr List.mem_cons_self)
          rcases Option.map_eq_some_iff.mp isCalled with ⟨filed, isFiled, _⟩
          simp only [arrive, isFiled]
          exact ledger.of_request inFlight filed.caller.1
      | response call response =>
          rcases ledger.sound _ (inFlight.mem_iff.mpr List.mem_cons_self) with ⟨asked, isCalled, _⟩
          rcases Option.map_eq_some_iff.mp isCalled with ⟨filed, isFiled, _⟩
          simp only [arrive, isFiled]
          exact ledger.of_response inFlight isFiled
  | reroute node native =>
      cases stepped
      exact ledger.of_same rfl rfl rfl ledger.sound rfl rfl ledger.counted fun _ _ _ => id
  | halt node reason =>
      cases stepped
      exact ledger.of_halt node _
  | evict receiver isNative =>
      cases stepped
      exact ledger.of_gossip trivial rfl rfl
  | bury receiver dead =>
      cases stepped
      exact ledger.of_gossip trivial rfl rfl

theorem ledger_of_reachable {spawn : Spawn Resident} (reached : (system spawn).Reachable tier) :
    tier.Ledger := by
  refine reached.induction ?_ ?_
  · rintro start ⟨native, store, rfl⟩
    exact ledger_new native store
  · intro before label after ledger _ stepped
    have stepped : step spawn before label = some after := stepped
    exact ledger_step ledger stepped

/-- An op with one index update, on a node of two threads. -/
def noteSpawn : Spawn Unit where
  members := [0]
  ops := fun _ => some fun _ _ => .scheduleIndexUpdate ⟨9, "kind", []⟩ (.done [])
  indexKinds :=
    { kinds := fun _ => some fun _ _ => .ok ()
      apply := fun _ _ => ((), ⟨none, .none⟩)
      query := fun _ _ => .ok []
      execute := fun _ _ => ((), .ok []) }

/-- The op has run on thread 1, and its update has been applied on thread 0. -/
def notingRun : List TierLabel :=
  [.act 0 2 (.guard (.op 5 "note" [] [])), .act 0 2 .loadHalted, .act 0 2 .loadPaused,
    .dispatch 0 2 1, .deliver 0 0, .deliver 0 0]

end ComputeTier

end Seisin
