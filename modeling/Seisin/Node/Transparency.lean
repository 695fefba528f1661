import Seisin.Node.Joint
import Seisin.Node.Unordered

/-!
# A tier behaves like one node

While the ring stays as it is and every node agrees on it, the joint node follows the tier: a
delivery to a thread is a delivery to its joint thread, a request handed to a thread is a request of
the joint node's client, and the steps of peer links and of connection handlers do not show.  Both
are asked for the same ops and give the same answers.
-/

namespace Seisin

open Transition

variable {Resident : Type}

/-! ## What is on its way -/

def Transit.Filed (calls : List Call) : Transit → Prop
  | .message receiver body _ => body.Filed calls receiver.1
  | .request call _ asked => ∃ caller, calls[call]? = some ⟨caller, asked⟩ ∧ asked.From caller
  | .response call answer =>
      ∃ filed, calls[call]? = some filed ∧ (filed.request.Acquires → answer = .granted)

namespace Joint

/-- The messages of the joint node that an item stands for. -/
def items (calls : List Call) : Transit → List (ThreadId × WorkerMessage)
  | .message receiver body _ => [(thread receiver, message calls receiver.1 body)]
  | .request call receiver asked =>
      (calls[call]?.map fun filed => (thread receiver, request filed.caller asked)).toList
  | .response call answer => (response calls call answer).toList

def content (packet : Packet) : ThreadId × WorkerMessage := (packet.receiver, packet.message)

/-- The messages among the effects of a turn. -/
def sent (done : List Effect) : List (ThreadId × WorkerMessage) :=
  done.filterMap fun
    | .send receiver posted => some (receiver, posted)
    | _ => none

theorem content_toPacket (place : ThreadId) (done : List Effect) :
    (done.filterMap (Effect.toPacket place)).map content = sent done := by
  rw [List.map_filterMap, sent]
  congr 1
  funext effect
  cases effect <;> rfl

/-! ## Later calls change nothing -/

section Growth

variable {calls : List Call} {node : NodeId} (more : List Call)

theorem filed_append {call : ℕ} {filed : Call} (found : calls[call]? = some filed) :
    (calls ++ more)[call]? = some filed := by
  rw [List.getElem?_append_left (List.getElem?_eq_some_iff.mp found).1, found]

theorem reaches_append {opId datumId : DatumId} {place : NodeId × ThreadId} {reply : AcquireReply}
    (reaches : reply.Reaches calls node opId datumId place) :
    reply.Reaches (calls ++ more) node opId datumId place := by
  cases reply with
  | «local» inbox => exact reaches
  | remote link call =>
      rcases reaches with ⟨retries, found⟩
      exact ⟨retries, filed_append more found⟩

theorem Locks.append {alone joint : AList fun _ : DatumId => NativeLock Grant}
    (joined : Locks calls node alone joint) : Locks (calls ++ more) node alone joint where
  lookup := joined.lookup
  filed := by
    intro datumId found lookedUp waiter waiterMem
    rcases joined.filed datumId found lookedUp waiter waiterMem with ⟨sameOp, sameDatum, reaches⟩
    exact ⟨sameOp, sameDatum, reaches_append more reaches⟩

theorem message_append {body : WorkerMessage} (filed : body.Filed calls node) :
    body.Filed (calls ++ more) node ∧
      message (calls ++ more) node body = message calls node body := by
  cases body with
  | acquire opId datumId requesterNode requesterThread reply =>
      exact ⟨reaches_append more filed, rfl⟩
  | «recall» datumId reply =>
      cases reply with
      | «local» inbox => exact ⟨trivial, rfl⟩
      | remote link call =>
          rcases filed with ⟨asking, found⟩
          have later := filed_append more found
          exact ⟨⟨asking, later⟩, by simp only [message, caller, found, later]⟩
  | indexUpdate target opId indexKind payload reply =>
      cases reply with
      | «local» inbox => exact ⟨trivial, rfl⟩
      | remote link call =>
          rcases filed with ⟨asking, found⟩
          have later := filed_append more found
          exact ⟨⟨asking, later⟩, by simp only [message, caller, found, later]⟩
  | existsCheck datumId opId reply =>
      cases reply with
      | «local» inbox => exact ⟨trivial, rfl⟩
      | sync => exact ⟨trivial, rfl⟩
      | remote link call =>
          rcases filed with ⟨asking, askedOp, found⟩
          have later := filed_append more found
          exact ⟨⟨asking, askedOp, later⟩, by simp only [message, caller, checkedFor, found, later]⟩
  | acquireFailed opId datumId retriesLeft => exact filed.elim
  | evictNonNative isNative => exact filed.elim
  | releaseLocksHeldBy dead => exact filed.elim
  | _ => exact ⟨trivial, rfl⟩

theorem response_append {call : ℕ} {filed : Call} (found : calls[call]? = some filed)
    (answer : PeerResponse) :
    response (calls ++ more) call answer = response calls call answer := by
  rw [response, response, found, filed_append more found]

theorem items_append {item : Transit} (filed : item.Filed calls) :
    item.Filed (calls ++ more) ∧ items (calls ++ more) item = items calls item := by
  cases item with
  | message receiver body origin =>
      have grown := message_append more filed
      exact ⟨grown.1, by rw [items, items, grown.2]⟩
  | request call receiver asked =>
      rcases filed with ⟨asking, found, isFrom⟩
      have later := filed_append more found
      exact ⟨⟨asking, later, isFrom⟩, by rw [items, items, found, later]⟩
  | response call answer =>
      rcases filed with ⟨asked, found, granted⟩
      exact ⟨⟨asked, filed_append more found, granted⟩, by
        rw [items, items, response_append more found]⟩

theorem effect_append {sender : NodeId × ThreadId} {done : Effect}
    (filed : done.Filed calls sender) :
    done.Filed (calls ++ more) sender ∧
      effect (calls ++ more) sender done = effect calls sender done := by
  cases done with
  | send receiver body =>
      have grown := message_append more filed
      exact ⟨grown.1, by rw [effect, effect, grown.2]⟩
  | respond link call answer =>
      rcases filed with ⟨asked, found, granted⟩
      exact ⟨⟨asked, filed_append more found, granted⟩, by
        rw [effect, effect, response_append more found]⟩
  | _ => exact ⟨filed, rfl⟩

theorem items_flatMap_append {inFlight : List Transit}
    (filed : ∀ item ∈ inFlight, item.Filed calls) :
    inFlight.flatMap (items (calls ++ more)) = inFlight.flatMap (items calls) :=
  List.flatMap_congr fun item itemMem => (items_append more (filed item itemMem)).2

end Growth

/-! ## Performing the effects of a turn -/

/-- What the effects of a turn leave in flight is what they are on the joint node. -/
structure Performs (sender : NodeId × ThreadId) (done : List Effect)
    (before after : ComputeTier Resident) : Prop where
  frame : after.workers = before.workers ∧ after.store = before.store ∧
    after.native = before.native ∧ after.assigned = before.assigned
  posted : ∃ more new, after.calls = before.calls ++ more ∧
    after.inFlight = before.inFlight ++ new ∧ (∀ item ∈ new, item.Filed after.calls) ∧
    new.flatMap (items after.calls) = sent (effects before.calls sender done)

theorem answer_frame (tier : ComputeTier Resident) (node : NodeId) (handler : ℕ)
    (opId : Option DatumId) :
    ∃ sites, tier.answer node handler opId = { tier with sites := sites } := by
  unfold ComputeTier.answer
  split
  · exact ⟨_, rfl⟩
  · exact ⟨tier.sites, rfl⟩

theorem performs_silent {sender : NodeId × ThreadId} {done : Effect} (tier : ComputeTier Resident)
    (sites : NodeId → Site) (silent : sent (effects tier.calls sender [done]) = []) :
    Performs sender [done] tier { tier with sites := sites } :=
  ⟨⟨rfl, rfl, rfl, rfl⟩, [], [], (List.append_nil _).symm, (List.append_nil _).symm, by simp,
    silent.symm⟩

theorem performs_one (sender : NodeId × ThreadId) (origin : Option ℕ) {done : Effect}
    (tier : ComputeTier Resident) (filed : done.Filed tier.calls sender) :
    Performs sender [done] tier (tier.perform sender origin done) := by
  cases done with
  | send receiver body =>
      refine ⟨⟨rfl, rfl, rfl, rfl⟩, [], _, (List.append_nil _).symm, rfl, ?_, rfl⟩
      intro item itemMem
      rw [List.mem_singleton.mp itemMem]
      exact filed
  | call node receiver asked =>
      have found : (tier.calls ++ [⟨sender, asked⟩])[tier.calls.length]? =
          some ⟨sender, asked⟩ := by simp
      refine ⟨⟨rfl, rfl, rfl, rfl⟩, [⟨sender, asked⟩], _, rfl, rfl, ?_, ?_⟩
      · intro item itemMem
        rw [List.mem_singleton.mp itemMem]
        exact ⟨sender, found, filed⟩
      · simp only [List.flatMap_cons, List.flatMap_nil, List.append_nil, items, ComputeTier.perform]
        rw [found]
        rfl
  | respond link call answer =>
      refine ⟨⟨rfl, rfl, rfl, rfl⟩, [], _, (List.append_nil _).symm, rfl, ?_, ?_⟩
      · intro item itemMem
        rw [List.mem_singleton.mp itemMem]
        exact filed
      · simp only [List.flatMap_cons, List.flatMap_nil, List.append_nil, items, ComputeTier.perform,
          ComputeTier.post, effects, effect, List.filterMap_cons, List.filterMap_nil]
        cases response tier.calls call answer <;> rfl
  | reply opId result =>
      simp only [ComputeTier.perform]
      split
      · rcases answer_frame tier sender.1 _ (some opId) with ⟨sites, answered⟩
        rw [answered]
        exact performs_silent tier sites rfl
      · exact performs_silent tier tier.sites rfl
  | answer result =>
      simp only [ComputeTier.perform]
      split
      · rcases answer_frame tier sender.1 _ none with ⟨sites, answered⟩
        rw [answered]
        exact performs_silent tier sites rfl
      · exact performs_silent tier tier.sites rfl
  | answerExists found =>
      simp only [ComputeTier.perform]
      split
      · rcases answer_frame tier sender.1 _ none with ⟨sites, answered⟩
        rw [answered]
        exact performs_silent tier sites rfl
      · exact performs_silent tier tier.sites rfl
  | invoked opId => exact performs_silent tier tier.sites rfl
  | committed opId datumIds writes => exact performs_silent tier tier.sites rfl

theorem Performs.trans {sender : NodeId × ThreadId} {done : Effect} {rest : List Effect}
    {before middle after : ComputeTier Resident} (first : Performs sender [done] before middle)
    (filed : ∀ effect ∈ rest, effect.Filed before.calls sender)
    (second : Performs sender rest middle after) : Performs sender (done :: rest) before after := by
  rcases first with ⟨frame, more, new, calls, inFlight, newFiled, stands⟩
  rcases second with
    ⟨laterFrame, laterMore, laterNew, laterCalls, laterInFlight, laterFiled, laterStands⟩
  have sameEffects : effects middle.calls sender rest = effects before.calls sender rest := by
    rw [calls]
    exact List.filterMap_congr fun effect effectMem =>
      (effect_append more (filed effect effectMem)).2
  refine ⟨⟨laterFrame.1.trans frame.1, laterFrame.2.1.trans frame.2.1,
    laterFrame.2.2.1.trans frame.2.2.1, laterFrame.2.2.2.trans frame.2.2.2⟩,
    more ++ laterMore, new ++ laterNew, ?_, ?_, ?_, ?_⟩
  · rw [laterCalls, calls, List.append_assoc]
  · rw [laterInFlight, inFlight, List.append_assoc]
  · intro item itemMem
    rcases List.mem_append.mp itemMem with early | late
    · rw [laterCalls]
      exact (items_append laterMore (newFiled item early)).1
    · exact laterFiled item late
  · rw [List.flatMap_append, laterStands, sameEffects, laterCalls,
      items_flatMap_append laterMore newFiled, stands]
    simp only [sent, effects, ← List.filterMap_append]
    rfl

theorem performs (sender : NodeId × ThreadId) (origin : Option ℕ) {done : List Effect}
    (tier : ComputeTier Resident) (filed : ∀ effect ∈ done, effect.Filed tier.calls sender) :
    Performs sender done tier (done.foldl (ComputeTier.perform sender origin) tier) := by
  induction done generalizing tier with
  | nil =>
      exact ⟨⟨rfl, rfl, rfl, rfl⟩, [], [], (List.append_nil _).symm, (List.append_nil _).symm,
        by simp, rfl⟩
  | cons effect rest ih =>
      rw [List.forall_mem_cons] at filed
      have first := performs_one sender origin tier filed.1
      refine first.trans filed.2 (ih _ ?_)
      rcases first.posted with ⟨more, _, calls, _⟩
      intro later laterMem
      rw [calls]
      exact (effect_append more (filed.2 later laterMem)).1

end Joint

/-! ## Events and conditions of the tier -/

/-- The ring stays as it is. -/
def TierLabel.Steady : TierLabel → Prop
  | .reroute _ _ | .evict _ _ | .bury _ _ => False
  | _ => True

namespace ComputeTier

/-- Ops that are handed to a thread, and the answers of a turn. -/
def events (spawn : Spawn Resident) (tier : ComputeTier Resident) : TierLabel → List OpEvent
  | .dispatch node handler _ =>
      match (tier.sites node).handlers handler with
      | .admitted (.op opId opName datumIds payload) => [.asked opId ⟨opName, datumIds, payload⟩]
      | _ => []
  | .deliver index hint =>
      match tier.inFlight[index]? with
      | some (.message receiver body _) =>
          OpEvent.answers (tier.turn spawn receiver hint body).effects
      | _ => []
  | _ => []

/-- A recall that a thread takes finds an op that holds the datum and has not run yet. -/
def RecallFindsCollating (tier : ComputeTier Resident) (label : TierLabel) : Prop :=
  ∀ index hint receiver datumId reply origin, label = .deliver index hint →
    tier.inFlight[index]? = some (.message receiver (.recall datumId reply) origin) →
    ∃ opId record, (tier.workers receiver.1 receiver.2).record opId = some record ∧
      datumId ∈ record.acquired ∧ record.indexUpdateState = none

/-- The ring stays as it is, and a recall finds an op that has not run yet. -/
def Orderly (tier : ComputeTier Resident) (label : TierLabel) : Prop :=
  label.Steady ∧ tier.RecallFindsCollating label

end ComputeTier

namespace Joint

/-- The tier and the joint node, whose messages may be in another order. -/
structure Joined (native : DatumId → NodeId × ThreadId) (tier : ComputeTier Resident)
    (node : Node Resident) : Prop where
  native : tier.native = fun _ => native
  store : node.store = tier.store
  workers : ∀ place : NodeId × ThreadId, node.workers (thread place) =
    worker (tier.workers place.1 place.2) (node.workers (thread place)).nativeLocks
  locks : ∀ place : NodeId × ThreadId, Locks tier.calls place.1
    (tier.workers place.1 place.2).nativeLocks (node.workers (thread place)).nativeLocks
  filed : ∀ item ∈ tier.inFlight, item.Filed tier.calls
  inFlight : (node.inFlight.map content).Perm (tier.inFlight.flatMap (items tier.calls))
  submitted : ∀ opId ∈ node.submitted, tier.assigned opId ≠ none

variable {spawn : Spawn Resident} {native : DatumId → NodeId × ThreadId}
  {tier next : ComputeTier Resident} {node : Node Resident}

theorem joined_new (native : DatumId → NodeId × ThreadId) (store : Store) :
    Joined native (ComputeTier.new (fun _ => native) store : ComputeTier Resident)
      (Node.new store) where
  native := rfl
  store := rfl
  workers := fun _ => rfl
  locks := fun _ => ⟨fun _ => rfl, by simp [ComputeTier.new, Worker.new]⟩
  filed := by simp [ComputeTier.new]
  inFlight := by simp [ComputeTier.new, Node.new]
  submitted := by simp [Node.new]

/-- A tier that differs in its handlers only. -/
theorem Joined.sites (joined : Joined native tier node) (sites : NodeId → Site) :
    Joined native { tier with sites := sites } node :=
  ⟨joined.native, joined.store, joined.workers, joined.locks, joined.filed, joined.inFlight,
    joined.submitted⟩

/-- Items in flight that stand for the same messages. -/
theorem Joined.relayed (joined : Joined native tier node) {inFlight : List Transit}
    (filed : ∀ item ∈ inFlight, item.Filed tier.calls)
    (stands : (tier.inFlight.flatMap (items tier.calls)).Perm
      (inFlight.flatMap (items tier.calls))) :
    Joined native { tier with inFlight := inFlight } node :=
  ⟨joined.native, joined.store, joined.workers, joined.locks, filed, joined.inFlight.trans stands,
    joined.submitted⟩

/-- A client's message comes in on both sides. -/
theorem Joined.posted (joined : Joined native tier node) {place : NodeId × ThreadId}
    {body : WorkerMessage} (origin : Option ℕ) {packet : Packet} {submitted : List DatumId}
    {assigned : DatumId → Option ((NodeId × ThreadId) × ℕ)} (sites : NodeId → Site)
    (filed : body.Filed tier.calls place.1)
    (isPacket : content packet = (thread place, message tier.calls place.1 body))
    (known : ∀ opId ∈ submitted, assigned opId ≠ none) :
    Joined native
      { tier with
        sites := sites
        inFlight := tier.inFlight ++ [.message place body origin]
        assigned := assigned }
      { node.post packet with submitted := submitted } where
  native := joined.native
  store := joined.store
  workers := joined.workers
  locks := joined.locks
  filed := by
    intro item itemMem
    rcases List.mem_append.mp itemMem with earlier | isLast
    · exact joined.filed item earlier
    · rw [List.mem_singleton.mp isLast]
      exact filed
  inFlight := by
    simp only [Node.post, List.map_append, List.map_singleton, List.flatMap_append,
      List.flatMap_singleton, items, isPacket]
    exact joined.inFlight.append_right _
  submitted := known

theorem front_length (node : Node Resident) : node.front node.inFlight.length = node := by
  simp [Node.front]

/-! ## Steps that do not show -/

/-- An item in flight becomes others that stand for the same messages. -/
theorem Joined.replaced (joined : Joined native tier node) {index : ℕ} {item : Transit}
    (found : tier.inFlight[index]? = some item) {new : List Transit}
    (filed : ∀ item ∈ new, item.Filed tier.calls)
    (stands : new.flatMap (items tier.calls) = items tier.calls item) :
    Joined native { tier with inFlight := tier.inFlight.eraseIdx index ++ new } node := by
  rcases List.getElem?_eq_some_iff.mp found with ⟨inside, rfl⟩
  have perm := (List.getElem_cons_eraseIdx_perm inside).symm
  refine joined.relayed ?_ ?_
  · intro other otherMem
    rcases List.mem_append.mp otherMem with isKept | isNew
    · exact joined.filed other (List.mem_of_mem_eraseIdx isKept)
    · exact filed other isNew
  · refine (perm.flatMap_right _).trans ?_
    rw [List.flatMap_append, stands, List.flatMap_cons]
    exact List.perm_append_comm

theorem items_toMessage (receiver : NodeId × ThreadId) {call : ℕ} {filed : Call}
    {asked : PeerRequest} {calls : List Call} (found : calls[call]? = some filed)
    (same : filed.request = asked) (isFrom : asked.From filed.caller) :
    (∀ item ∈ asked.acknowledged call ++
        [.message receiver (asked.toMessage filed.caller.1 call) none], item.Filed calls) ∧
      (asked.acknowledged call ++ [Transit.message receiver
        (asked.toMessage filed.caller.1 call) none]).flatMap (items calls) =
        [(thread receiver, request filed.caller asked)] := by
  rcases filed with ⟨asking, requested⟩
  dsimp only at same isFrom
  subst same
  cases requested with
  | acquire opId datumId requesterNode requesterThread retriesLeft =>
      have isAsking : (requesterNode, requesterThread) = asking := isFrom
      subst isAsking
      refine ⟨?_, rfl⟩
      intro item itemMem
      rw [List.mem_singleton.mp itemMem]
      exact ⟨retriesLeft, found⟩
  | «recall» datumId =>
      refine ⟨?_, ?_⟩
      · intro item itemMem
        rw [List.mem_singleton.mp itemMem]
        exact ⟨asking, found⟩
      · simp [PeerRequest.acknowledged, PeerRequest.toMessage, items, message, caller, found,
          request]
  | release datumId =>
      refine ⟨?_, ?_⟩
      · intro item itemMem
        rcases List.mem_pair.mp itemMem with rfl | rfl
        · exact ⟨_, found, fun acquires => acquires.elim⟩
        · trivial
      · simp [PeerRequest.acknowledged, PeerRequest.toMessage, items, response, found,
          PeerRequest.callback, message, request]
  | indexUpdate target opId indexKind payload =>
      refine ⟨?_, ?_⟩
      · intro item itemMem
        rw [List.mem_singleton.mp itemMem]
        exact ⟨asking, found⟩
      · simp [PeerRequest.acknowledged, PeerRequest.toMessage, items, message, caller, found,
          request]
  | existsCheck datumId opId =>
      refine ⟨?_, ?_⟩
      · intro item itemMem
        rw [List.mem_singleton.mp itemMem]
        exact ⟨asking, opId, found⟩
      · simp [PeerRequest.acknowledged, PeerRequest.toMessage, items, message, caller, checkedFor,
          found, request]

theorem items_callback {call : ℕ} {filed : Call} {answer : PeerResponse} {calls : List Call}
    (found : calls[call]? = some filed)
    (granted : filed.request.Acquires → answer = .granted) :
    (∀ item ∈ (filed.request.callback answer).toList.map fun posted =>
        Transit.message filed.caller posted none, item.Filed calls) ∧
      ((filed.request.callback answer).toList.map fun posted =>
        Transit.message filed.caller posted none).flatMap (items calls) =
        (response calls call answer).toList := by
  have posted : ∀ body ∈ filed.request.callback answer, body.Filed calls filed.caller.1 ∧
      message calls filed.caller.1 body = body := by
    rcases filed with ⟨asking, requested⟩
    intro body bodyMem
    cases requested with
    | acquire opId datumId requesterNode requesterThread retriesLeft =>
        rw [granted trivial] at bodyMem
        cases bodyMem
        exact ⟨trivial, rfl⟩
    | release datumId => cases bodyMem
    | _ => cases answer <;> cases bodyMem <;> exact ⟨trivial, rfl⟩
  rw [response, found, Option.bind_some]
  cases posts : filed.request.callback answer with
  | none => exact ⟨by simp, rfl⟩
  | some body =>
      rcases posted body posts with ⟨bodyFiled, same⟩
      refine ⟨?_, ?_⟩
      · intro item itemMem
        simp only [Option.toList_some, List.map_singleton, List.mem_singleton] at itemMem
        rw [itemMem]
        exact bodyFiled
      · simp [items, same]

/-! ## Steps that show -/

theorem answers_effects (calls : List Call) (sender : NodeId × ThreadId) (done : List Effect) :
    OpEvent.answers (effects calls sender done) = OpEvent.answers done := by
  rw [OpEvent.answers, OpEvent.answers, effects, List.filterMap_filterMap]
  congr 2
  funext single
  cases single with
  | respond link call answer =>
      simp only [effect, Option.bind_map]
      cases response calls call answer <;> rfl
  | _ => rfl

/-- A message on its way to a thread can come to the front of the joint node. -/
theorem Joined.fronts (joined : Joined native tier node) {index : ℕ}
    {receiver : NodeId × ThreadId} {body : WorkerMessage} {origin : Option ℕ}
    (found : tier.inFlight[index]? = some (.message receiver body origin)) :
    ∃ position packet rest, content packet = (thread receiver, message tier.calls receiver.1 body) ∧
      node.front position = { node with inFlight := packet :: rest } ∧
      (rest.map content).Perm ((tier.inFlight.eraseIdx index).flatMap (items tier.calls)) := by
  rcases List.getElem?_eq_some_iff.mp found with ⟨inside, isItem⟩
  have first : (node.inFlight.map content).Perm
      ((thread receiver, message tier.calls receiver.1 body) ::
        (tier.inFlight.eraseIdx index).flatMap (items tier.calls)) := by
    have perm := (List.getElem_cons_eraseIdx_perm inside).symm
    rw [isItem] at perm
    exact joined.inFlight.trans (perm.flatMap_right _)
  have contentMem := first.mem_iff.mpr List.mem_cons_self
  rcases List.mem_map.mp contentMem with ⟨packet, packetMem, isContent⟩
  rcases List.getElem_of_mem packetMem with ⟨position, within, isPacket⟩
  refine ⟨position, packet, node.inFlight.eraseIdx position, isContent, ?_, ?_⟩
  · simp only [Node.front, List.getElem?_eq_getElem within, isPacket]
  · have moved := ((List.getElem_cons_eraseIdx_perm within).map content).trans first
    rw [isPacket, List.map_cons, isContent] at moved
    exact moved.cons_inv

theorem Joined.turns (joined : Joined native tier node) (spawn : Spawn Resident)
    {receiver : NodeId × ThreadId} {body : WorkerMessage} (hint : DatumId)
    (filed : body.Filed tier.calls receiver.1) :
    Turns tier.calls receiver (tier.turn spawn receiver hint body)
      ((env spawn native).handle (thread receiver) hint (message tier.calls receiver.1 body)
        (node.workers (thread receiver)) node.store) := by
  have agree : tier.env spawn receiver.1 = siteEnv spawn native receiver.1 := by
    simp only [ComputeTier.env, siteEnv, joined.native]
  rw [ComputeTier.turn, agree, joined.workers receiver, joined.store]
  exact turns_handle (joined.locks receiver) hint filed

/-- The message that came to the front is taken. -/
theorem deliver_content (spawn : Spawn Resident) (native : DatumId → NodeId × ThreadId)
    {receiver : NodeId × ThreadId} {body : WorkerMessage} {position : ℕ} {packet : Packet}
    {rest : List Packet} (fronted : node.front position = { node with inFlight := packet :: rest })
    (isContent : content packet = (thread receiver, message tier.calls receiver.1 body))
    (hint : DatumId) :
    let turn := (env spawn native).handle (thread receiver) hint
      (message tier.calls receiver.1 body) (node.workers (thread receiver)) node.store
    (Node.unordered (env spawn native)).step node
        (position, .deliver packet.sender (thread receiver) hint) =
        some (node.afterTurn (thread receiver) rest turn) ∧
      (node.front position).effects (env spawn native)
        (.deliver packet.sender (thread receiver) hint) = turn.effects := by
  have isReceiver : packet.receiver = thread receiver := congrArg Prod.fst isContent
  have isMessage : packet.message = message tier.calls receiver.1 body :=
    congrArg Prod.snd isContent
  rw [← isReceiver, ← isMessage]
  exact Node.deliver_front fronted hint

/-- What a turn does to the tier and to the joint node. -/
theorem Joined.take (joined : Joined native tier node) {receiver : NodeId × ThreadId}
    {body : WorkerMessage} {origin : Option ℕ} {hint : DatumId} {inFlight : List Transit}
    {rest : List Packet} {turn : Turn Resident}
    (turns : Turns tier.calls receiver (tier.turn spawn receiver hint body) turn)
    (filed : ∀ item ∈ inFlight, item.Filed tier.calls)
    (stands : (rest.map content).Perm (inFlight.flatMap (items tier.calls))) :
    Joined native (({ tier with inFlight := inFlight }).take spawn receiver hint body origin)
      (node.afterTurn (thread receiver) rest turn) := by
  let left := { ({ tier with inFlight := inFlight }).setWorker receiver
    (tier.turn spawn receiver hint body).worker with
    store := (tier.turn spawn receiver hint body).store }
  have performed := performs receiver origin left turns.filed
  rcases performed.frame with ⟨workers, store, sameNative, assigned⟩
  rcases performed.posted with ⟨more, new, calls, posted, newFiled, newStands⟩
  change Joined native
    ((tier.turn spawn receiver hint body).effects.foldl (ComputeTier.perform receiver origin) left)
    (node.afterTurn (thread receiver) rest turn)
  have isWorker : ∀ place : NodeId × ThreadId, left.workers place.1 place.2 =
      if place = receiver then (tier.turn spawn receiver hint body).worker
      else tier.workers place.1 place.2 := by
    intro place
    split
    · rename_i same
      subst same
      exact ComputeTier.workers_setWorker_self _ place _
    · rename_i differ
      exact ComputeTier.workers_setWorker_ne _ _ differ
  have isJoint : ∀ place : NodeId × ThreadId,
      (node.afterTurn (thread receiver) rest turn).workers (thread place) =
        if place = receiver then turn.worker else node.workers (thread place) := by
    intro place
    simp only [Node.afterTurn, Function.update_apply, thread_inj]
  refine ⟨sameNative.trans joined.native, turns.store.trans store.symm, ?_, ?_, ?_, ?_, ?_⟩
  · intro place
    rw [workers, isWorker, isJoint]
    split
    · exact turns.worker
    · exact joined.workers place
  · intro place
    rw [workers, isWorker, isJoint, calls]
    split
    · rename_i same
      subst same
      exact turns.locks.append more
    · exact (joined.locks place).append more
  · intro item itemMem
    rw [posted] at itemMem
    rcases List.mem_append.mp itemMem with isKept | isNew
    · rw [calls]
      exact (items_append more (filed item isKept)).1
    · exact newFiled item isNew
  · rw [posted, List.flatMap_append, newStands, calls]
    have kept : left.inFlight.flatMap (items (left.calls ++ more)) =
        inFlight.flatMap (items tier.calls) := items_flatMap_append more filed
    rw [kept, Node.afterTurn, List.map_append, content_toPacket, turns.effects]
    exact stands.append_right _
  · intro opId submitted
    rw [assigned]
    exact joined.submitted opId submitted

/-- What the joint node does for a step of the tier. -/
structure Matches (spawn : Spawn Resident) (native : DatumId → NodeId × ThreadId)
    (tier : ComputeTier Resident) (label : TierLabel) (next : ComputeTier Resident)
    (node : Node Resident) (move : ℕ × NodeLabel) (after : Node Resident) : Prop where
  stepped : (Node.unordered (env spawn native)).step node move = some after
  events : node.events (env spawn native) move = tier.events spawn label
  joined : Joined native next after
  finds : tier.RecallFindsCollating label → node.Finding move

theorem finding_of_client {position : ℕ} {label : NodeLabel}
    (fromClient : ∀ sender receiver hint, label ≠ .deliver sender receiver hint) :
    node.Finding (position, label) :=
  fun sender receiver hint _ _ delivers => absurd delivers (fromClient sender receiver hint)

/-- A question of a client comes in. -/
theorem Joined.asks (joined : Joined native tier node) {place : NodeId × ThreadId}
    {assigned : DatumId → Option ((NodeId × ThreadId) × ℕ)} {body : WorkerMessage}
    {label : NodeLabel}
    (asked : Node.step (env spawn native) node label =
      some (node.post ⟨.client, thread place, body⟩)) (handler : ℕ) (sites : NodeId → Site)
    (filed : body.Filed tier.calls place.1) (same : message tier.calls place.1 body = body)
    (known : assigned = tier.assigned) :
    (Node.unordered (env spawn native)).step node (node.inFlight.length, label) =
        some (node.post ⟨.client, thread place, body⟩) ∧
      Joined native
        { tier with
          sites := sites
          inFlight := tier.inFlight ++ [.message place body (some handler)]
          assigned := assigned } (node.post ⟨.client, thread place, body⟩) := by
  refine ⟨?_, ?_⟩
  · simp only [Node.unordered, front_length, asked]
  · have isPacket : content ⟨.client, thread place, body⟩ =
        (thread place, message tier.calls place.1 body) := by rw [content, same]
    exact joined.posted (some handler) sites filed isPacket (known ▸ joined.submitted)

/-- A request that a handler passes on comes in at the joint node. -/
theorem Joined.dispatch (joined : Joined native tier node) {home : NodeId} {handler : ℕ}
    {self : ThreadId} (stepped : tier.step spawn (.dispatch home handler self) = some next) :
    ∃ move after, Matches spawn native tier (.dispatch home handler self) next node move after := by
  simp only [ComputeTier.step] at stepped
  split at stepped
  case h_2 => cases stepped
  rename_i asked admitted
  split at stepped
  case isFalse => cases stepped
  rename_i admissible
  rcases admissible with ⟨-, served, fresh⟩
  rcases Option.map_eq_some_iff.mp stepped with ⟨site, -, rfl⟩
  rw [joined.native] at served
  cases asked with
  | op opId opName datumIds payload =>
      have isFresh : tier.assigned opId = none := by
        simpa [ClientRequest.opId] using fresh
      have unsubmitted : opId ∉ node.submitted := fun submitted =>
        joined.submitted opId submitted isFresh
      let after : Node Resident :=
        { node.post ⟨.client, thread (home, self), .runOp opId opName datumIds payload⟩ with
          submitted := opId :: node.submitted }
      refine ⟨(node.inFlight.length, .submit (thread (home, self)) opId opName datumIds payload),
        after, ?_, ?_, ?_, fun _ => finding_of_client (by simp)⟩
      · simp only [Node.unordered, front_length, Node.step, unsubmitted, if_false]
        rfl
      · simp only [Node.events, ComputeTier.events, admitted]
      · refine joined.posted (some handler) _ trivial rfl ?_
        intro other submitted
        rcases List.mem_cons.mp submitted with rfl | earlier
        · simp [ClientRequest.opId]
        · split
          · exact Option.some_ne_none _
          · exact joined.submitted other earlier
  | indexQuery target indexKind query =>
      have asked : Node.step (env spawn native) node (.indexQuery target indexKind query) =
          some (node.post ⟨.client, thread (home, self), .indexQuery target indexKind query⟩) := by
        rw [← served]
        rfl
      rcases joined.asks asked handler (tier.setSite home site).sites trivial rfl rfl with
        ⟨moved, kept⟩
      exact ⟨_, _, moved, by simp only [ComputeTier.events, admitted]; rfl, kept,
        fun _ => finding_of_client (by simp)⟩
  | indexExecute target indexKind payload =>
      have asked : Node.step (env spawn native) node (.indexExecute target indexKind payload) =
          some (node.post
            ⟨.client, thread (home, self), .indexExecute target indexKind payload⟩) := by
        rw [← served]
        rfl
      rcases joined.asks asked handler (tier.setSite home site).sites trivial rfl rfl with
        ⟨moved, kept⟩
      exact ⟨_, _, moved, by simp only [ComputeTier.events, admitted]; rfl, kept,
        fun _ => finding_of_client (by simp)⟩
  | existsCheck datumId =>
      have asked : Node.step (env spawn native) node (.existsCheck datumId) =
          some (node.post ⟨.client, thread (home, self), .existsCheck datumId 0 .sync⟩) := by
        rw [← served]
        rfl
      rcases joined.asks asked handler (tier.setSite home site).sites trivial rfl rfl with
        ⟨moved, kept⟩
      exact ⟨_, _, moved, by simp only [ComputeTier.events, admitted]; rfl, kept,
        fun _ => finding_of_client (by simp)⟩

theorem message_recall {calls : List Call} {place : NodeId} {body : WorkerMessage}
    {datumId : DatumId} {reply : RecallReply}
    (isRecall : message calls place body = .recall datumId reply) :
    ∃ alone, body = .recall datumId alone := by
  cases body with
  | «recall» otherDatum alone =>
      cases alone <;> cases isRecall <;> exact ⟨_, rfl⟩
  | indexUpdate target opId indexKind payload alone => cases alone <;> cases isRecall
  | existsCheck otherDatum opId alone => cases alone <;> cases isRecall
  | _ => cases isRecall

/-- A recall that finds its op on the tier finds it on the joint node. -/
theorem Joined.finding (joined : Joined native tier node) {index : ℕ} {hint : DatumId}
    (finds : tier.RecallFindsCollating (.deliver index hint)) {receiver : NodeId × ThreadId}
    {body : WorkerMessage} {origin : Option ℕ}
    (found : tier.inFlight[index]? = some (.message receiver body origin)) {position : ℕ}
    {packet : Packet} {rest : List Packet}
    (isContent : content packet = (thread receiver, message tier.calls receiver.1 body))
    (fronted : node.front position = { node with inFlight := packet :: rest }) :
    node.Finding (position, .deliver packet.sender (thread receiver) hint) := by
  intro sender taker otherHint datumId reply delivers first
  cases delivers
  have isReceiver : packet.receiver = thread receiver := congrArg Prod.fst isContent
  have isFirst : Node.between packet.sender (thread receiver) packet = true := by
    simp [Node.between, isReceiver]
  rw [fronted, List.find?_cons_of_pos isFirst, Option.some.injEq] at first
  have isRecall : message tier.calls receiver.1 body = .recall datumId reply :=
    (congrArg Prod.snd isContent).symm.trans (congrArg Packet.message first)
  rcases message_recall isRecall with ⟨alone, rfl⟩
  have sameRecords : (node.workers (thread receiver)).record =
      (tier.workers receiver.1 receiver.2).record := by
    rw [joined.workers receiver]
    rfl
  rw [fronted]
  simp only [Node.record, sameRecords]
  exact finds index hint receiver datumId alone origin rfl found

/-- A thread takes a message. -/
theorem Joined.deliver (joined : Joined native tier node) {index : ℕ} (hint : DatumId)
    {receiver : NodeId × ThreadId} {body : WorkerMessage} {origin : Option ℕ}
    (found : tier.inFlight[index]? = some (.message receiver body origin)) :
    ∃ move after, Matches spawn native tier (.deliver index hint)
      (({ tier with inFlight := tier.inFlight.eraseIdx index }).take spawn receiver hint body
        origin) node move after := by
  have bodyFiled : body.Filed tier.calls receiver.1 :=
    joined.filed _ (List.mem_of_getElem? found)
  have filed : ∀ item ∈ tier.inFlight.eraseIdx index, item.Filed tier.calls := fun item itemMem =>
    joined.filed item (List.mem_of_mem_eraseIdx itemMem)
  rcases joined.fronts found with ⟨position, packet, rest, isContent, fronted, stands⟩
  rcases deliver_content spawn native fronted isContent hint with ⟨moved, did⟩
  have turns := joined.turns spawn hint bodyFiled
  refine ⟨_, _, moved, ?_, joined.take turns filed stands, ?_⟩
  · simp only [Node.events, ComputeTier.events, found, did]
    rw [turns.effects, answers_effects]
  · intro finds
    exact joined.finding finds found isContent fronted

/-- Every step of the tier, while the ring stays as it is, is one of the joint node or does not
show. -/
theorem Joined.step (joined : Joined native tier node) {label : TierLabel} (steady : label.Steady)
    (stepped : tier.step spawn label = some next) :
    tier.events spawn label = [] ∧ Joined native next node ∨
      ∃ move after, Matches spawn native tier label next node move after := by
  cases label with
  | act home handler action =>
      simp only [ComputeTier.step] at stepped
      split at stepped
      · rcases Option.map_eq_some_iff.mp stepped with ⟨site, -, rfl⟩
        exact Or.inl ⟨rfl, joined.sites _⟩
      · cases stepped
  | dispatch home handler self => exact Or.inr (joined.dispatch stepped)
  | deliver index hint =>
      rcases Option.map_eq_some_iff.mp stepped with ⟨item, found, rfl⟩
      cases item with
      | message receiver body origin => exact Or.inr (joined.deliver hint found)
      | request call receiver asked =>
          rcases joined.filed _ (List.mem_of_getElem? found) with ⟨asking, filed, isFrom⟩
          rcases items_toMessage receiver filed rfl isFrom with ⟨newFiled, stands⟩
          refine Or.inl ⟨by simp only [ComputeTier.events, found], ?_⟩
          simp only [ComputeTier.arrive, filed]
          refine joined.replaced found newFiled (stands.trans ?_)
          rw [items, filed]
          rfl
      | response call answer =>
          rcases joined.filed _ (List.mem_of_getElem? found) with ⟨asked, filed, granted⟩
          rcases items_callback filed granted with ⟨newFiled, stands⟩
          refine Or.inl ⟨by simp only [ComputeTier.events, found], ?_⟩
          simp only [ComputeTier.arrive, filed]
          exact joined.replaced found newFiled stands
  | halt home reason =>
      cases stepped
      exact Or.inl ⟨rfl, joined.sites _⟩
  | reroute home native => exact steady.elim
  | evict receiver isNative => exact steady.elim
  | bury receiver dead => exact steady.elim

/-! ## Runs -/

/-- While the ring stays as it is, the joint node follows the tier. -/
theorem follows_steady (spawn : Spawn Resident) (native : DatumId → NodeId × ThreadId) :
    System.Follows (ComputeTier.system spawn) (fun _ label => label.Steady)
      (ComputeTier.events spawn) (Node.unordered (env spawn native)) (fun _ _ => True)
      (Node.events (env spawn native)) (Joined native) where
  step := by
    intro tier node label next joined steady stepped
    rcases joined.step steady stepped with silent | ⟨move, after, matched⟩
    · exact Or.inl silent
    · exact Or.inr ⟨move, after, trivial, matched.stepped, matched.events, matched.joined⟩

/-- If recalls of the tier find ops that have not run yet, so do those of the joint node. -/
theorem follows_orderly (spawn : Spawn Resident) (native : DatumId → NodeId × ThreadId) :
    System.Follows (ComputeTier.system spawn) ComputeTier.Orderly (ComputeTier.events spawn)
      (Node.unordered (env spawn native)) Node.Finding (Node.events (env spawn native))
      (Joined native) where
  step := by
    intro tier node label next joined orderly stepped
    rcases joined.step orderly.1 stepped with silent | ⟨move, after, matched⟩
    · exact Or.inl silent
    · exact Or.inr ⟨move, after, matched.finds orderly.2, matched.stepped, matched.events,
        matched.joined⟩

end Joint

end Seisin
