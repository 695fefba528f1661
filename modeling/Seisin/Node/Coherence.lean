import Seisin.Node.Exclusion
import Seisin.Worker.Copies

/-!
# Copies are current where they count

A thread other than a datum's native home has a copy of it only while one of its ops has acquired
the datum, and every copy is the stored content, except at the home while the datum is away.  What
an op has staged while it waits for replies is therefore still what it would do alone on the store.
-/

namespace Seisin

open WoundWait Transition

variable {Resident : Type}

namespace Node

/-- An op on another thread than its home has acquired the datum, or its release is on the way. -/
def Away (env : Env Resident) (node : Node Resident) (id : DatumId) : Prop :=
  (∃ thread opId record, thread ≠ env.home id ∧ node.record thread opId = some record ∧
    id ∈ record.acquired) ∨
    ∃ packet ∈ node.inFlight, packet.message = .release id

/-- The copies, the staged writes and the messages of a node, as far as plain datums go. -/
structure Coherent (env : Env Resident) (plain : DatumId → Prop) (node : Node Resident) :
    Prop where
  copies : ∀ thread id, plain id → (node.workers thread).cache id ≠ none →
    thread = env.home id ∨
      ∃ opId record, node.record thread opId = some record ∧ id ∈ record.acquired
  current : ∀ thread id, plain id → (node.workers thread).cache.Current node.store id ∨
    thread = env.home id ∧ node.Away env id
  staged : ∀ thread opId record, node.record thread opId = some record →
    record.Staged env.ops plain node.store
  admissible : ∀ packet ∈ node.inFlight, packet.message.Admissible env plain packet.receiver

variable {env : Env Resident} {plain : DatumId → Prop} {node next : Node Resident}

theorem coherent_new (store : Store) : Coherent env plain (new store : Node Resident) where
  copies := by simp [new, Worker.new, Cache.empty]
  current := fun _ _ _ => Or.inl (Or.inl rfl)
  staged := by simp [new, record, Worker.record, Worker.new]
  admissible := by simp [new]

/-! ## What exclusion says -/

namespace Exclusion

variable (exclusion : Exclusion env node) {thread : ThreadId} {opId id : DatumId}
include exclusion

/-- A datum that an op has acquired is not on its way back. -/
theorem not_released {record : OpRecord} (found : node.record thread opId = some record)
    (acquired : id ∈ record.acquired) :
    ¬∃ packet ∈ node.inFlight, packet.message = .release id := by
  rintro ⟨packet, inFlight, isRelease⟩
  rcases exclusion.exclusive id with ⟨custody, tracks⟩
  have held := tracks.eq_held (view_tickets env found) acquired
  have releasing : Signal.release id ∈ (node.view env).signals :=
    Multiset.mem_coe.mpr (List.mem_filterMap.mpr ⟨packet, inFlight, by
      simp [Packet.signal, isRelease]⟩)
  rw [tracks.eq_released releasing] at held
  cases held

/-- A datum whose grant is on its way is neither acquired nor on its way back. -/
theorem not_away_of_granted {packet : Packet} (inFlight : packet ∈ node.inFlight)
    (isGrant : packet.message = .acquireGranted opId id) : ¬node.Away env id := by
  rcases exclusion.exclusive id with ⟨custody, tracks⟩
  have granting : Signal.grant packet.receiver opId id ∈ (node.view env).signals :=
    Multiset.mem_coe.mpr (List.mem_filterMap.mpr ⟨packet, inFlight, by
      simp [Packet.signal, isGrant]⟩)
  have granted := tracks.eq_granted granting
  rintro (⟨other, otherOp, record, _, found, acquired⟩ | ⟨back, backInFlight, isRelease⟩)
  · rw [tracks.eq_held (view_tickets env found) acquired] at granted
    cases granted
  · have releasing : Signal.release id ∈ (node.view env).signals :=
      Multiset.mem_coe.mpr (List.mem_filterMap.mpr ⟨back, backInFlight, by
        simp [Packet.signal, isRelease]⟩)
    rw [tracks.eq_released releasing] at granted
    cases granted

/-- An op that has yet to start has no record. -/
theorem unrecorded_of_started {packet : Packet} (inFlight : packet ∈ node.inFlight)
    {opName : String} {datumIds : List DatumId} {payload : Bytes}
    (isStart : packet.message = .runOp opId opName datumIds payload) :
    node.record thread opId = none := by
  rcases exclusion.life.phases opId with ⟨phase, inPhase⟩
  have starting : Signal.start opId ∈ (node.view env).signals :=
    Multiset.mem_coe.mpr (List.mem_filterMap.mpr ⟨packet, inFlight, by
      simp [Packet.signal, isStart]⟩)
  have status := inPhase.status thread
  rw [inPhase.eq_queued starting] at status
  simpa [view, Phase.status] using status

end Exclusion

/-- A thread that takes a message finds its records covered and its copies current. -/
theorem Coherent.consistent (coherent : Coherent env plain node)
    (invariant : CommitInvariant env node) {packet : Packet} (inFlight : packet ∈ node.inFlight) :
    Worker.Consistent env plain packet.receiver packet.message (node.workers packet.receiver)
      node.store where
  covered := by
    intro opId record found id wanted
    have ticket : (node.view env).tickets packet.receiver opId = some record.view :=
      view_tickets env found
    rcases invariant.covered _ opId record.view ticket id wanted with acquired | ⟨needed, fresh⟩
    · exact Or.inl acquired
    · exact Or.inr ⟨needed, by simpa [OpRecord.view] using fresh⟩
  staged := fun opId record found => coherent.staged packet.receiver opId record found
  current := by
    intro opId record found id acquired isPlain
    rcases coherent.current packet.receiver id isPlain with current | ⟨atHome, away⟩
    · exact current
    · rcases away with ⟨other, otherOp, otherRecord, apart, otherFound, otherAcquired⟩ | released
      · have same := invariant.exclusion.unique packet.receiver other opId otherOp record
          otherRecord id found otherFound acquired otherAcquired
        exact absurd (same.1.symm.trans atHome) apart
      · exact absurd released (invariant.exclusion.not_released found acquired)
  granted := by
    intro opId id isGrant isPlain
    rcases coherent.current packet.receiver id isPlain with current | ⟨_, away⟩
    · exact current
    · exact absurd away (invariant.exclusion.not_away_of_granted inFlight isGrant)
  started := fun opId opName datumIds payload isStart =>
    invariant.exclusion.unrecorded_of_started inFlight isStart
  recalled := by
    intro id reply isRecall
    have routed := invariant.exclusion.routed.packets packet inFlight
    simpa only [Packet.Routed, isRecall] using routed
  admissible := coherent.admissible packet inFlight
  local_ := (invariant.exclusion.routed.packets packet inFlight).not_remote

/-! ## One step -/

section Delivery

variable {sender : Sender} {receiver : ThreadId} {message : WorkerMessage} {rest : List Packet}
  {turn : Turn Resident}

theorem released_inFlight (node : Node Resident) (receiver : ThreadId) (rest : List Packet)
    {id : DatumId} (released : .send (env.home id) (.release id) ∈ turn.effects) :
    ∃ packet ∈ (node.afterTurn receiver rest turn).inFlight, packet.message = .release id :=
  ⟨⟨.worker receiver, env.home id, .release id⟩, List.mem_append_right _
    (List.mem_filterMap.mpr ⟨_, released, rfl⟩), rfl⟩

theorem record_afterTurn_self (opId : DatumId) :
    (node.afterTurn receiver rest turn).record receiver opId = turn.worker.record opId := by
  rw [record_afterTurn, Function.update_self]

theorem record_afterTurn_other {thread : ThreadId} (other : thread ≠ receiver) (opId : DatumId) :
    (node.afterTurn receiver rest turn).record thread opId = node.record thread opId := by
  rw [record_afterTurn, Function.update_of_ne other]

variable (consumed : node.inFlight.Perm (⟨sender, receiver, message⟩ :: rest))
  (isolates : Turn.Isolates env plain receiver message (node.workers receiver) node.store turn)
include consumed isolates

/-- A datum stays away until its release is taken. -/
theorem Away.afterTurn {id : DatumId} (away : node.Away env id) :
    (node.afterTurn receiver rest turn).Away env id ∨ message = .release id := by
  rcases away with ⟨thread, opId, record, apart, found, acquired⟩ |
    ⟨packet, inFlight, isRelease⟩
  · left
    by_cases same : thread = receiver
    · subst same
      rcases isolates.returned opId record id found acquired with
        ⟨after, afterFound, still⟩ | ⟨_, released⟩
      · exact Or.inl ⟨thread, opId, after, apart,
          (record_afterTurn_self opId).trans afterFound, still⟩
      · exact Or.inr (released_inFlight node thread rest released)
    · exact Or.inl ⟨thread, opId, record, apart,
        (record_afterTurn_other same opId).trans found, acquired⟩
  · rcases List.mem_cons.mp (consumed.mem_iff.mp inFlight) with rfl | stays
    · exact Or.inr isRelease
    · exact Or.inl (Or.inr ⟨packet, List.mem_append_left _ stays, isRelease⟩)

theorem Coherent.copies_afterTurn (coherent : Coherent env plain node) (thread : ThreadId)
    {id : DatumId} (isPlain : plain id)
    (cached : ((node.afterTurn receiver rest turn).workers thread).cache id ≠ none) :
    thread = env.home id ∨ ∃ opId record,
      (node.afterTurn receiver rest turn).record thread opId = some record ∧
        id ∈ record.acquired := by
  by_cases same : thread = receiver
  · subst same
    simp only [afterTurn, Function.update_self] at cached
    cases isolates.copies id isPlain with
    | kept stored kept =>
        rcases kept with kept | dropped
        · rcases coherent.copies thread id isPlain (kept ▸ cached) with
            atHome | ⟨opId, record, found, acquired⟩
          · exact Or.inl atHome
          · rcases isolates.returned opId record id found acquired with
              ⟨after, afterFound, still⟩ | ⟨dropped, _⟩
            · exact Or.inr ⟨opId, after, (record_afterTurn_self opId).trans afterFound, still⟩
            · exact absurd dropped cached
        · exact absurd dropped cached
    | loaded stored loaded entitled =>
        rcases entitled with atHome | ⟨opId, record, found, acquired⟩
        · exact Or.inl atHome.symm
        · exact Or.inr ⟨opId, record, (record_afterTurn_self opId).trans found, acquired⟩
    | returned dropped released => exact absurd dropped cached
  · simp only [afterTurn, Function.update_of_ne same] at cached
    rcases coherent.copies thread id isPlain cached with atHome | ⟨opId, record, found, acquired⟩
    · exact Or.inl atHome
    · exact Or.inr ⟨opId, record, (record_afterTurn_other same opId).trans found, acquired⟩

theorem Coherent.current_afterTurn (coherent : Coherent env plain node)
    (exclusion : Exclusion env (node.afterTurn receiver rest turn)) {id : DatumId}
    (routed : message = .release id → receiver = env.home id) (thread : ThreadId)
    (isPlain : plain id) :
    ((node.afterTurn receiver rest turn).workers thread).cache.Current
        (node.afterTurn receiver rest turn).store id ∨
      thread = env.home id ∧ (node.afterTurn receiver rest turn).Away env id := by
  by_cases same : thread = receiver
  · subst same
    have kept : turn.store id = node.store id →
        turn.worker.cache id = (node.workers thread).cache id →
        turn.worker.cache.Current turn.store id ∨
          thread = env.home id ∧ (node.afterTurn thread rest turn).Away env id := by
      intro stored cached
      rcases coherent.current thread id isPlain with current | ⟨atHome, away⟩
      · left
        unfold Cache.Current
        rw [stored, cached]
        exact current
      · rcases away.afterTurn consumed isolates with still | isRelease
        · exact Or.inr ⟨atHome, still⟩
        · exact Or.inl (Or.inl (isolates.freed id isRelease))
    simp only [afterTurn, Function.update_self] at kept ⊢
    cases isolates.copies id isPlain with
    | kept stored cached =>
        rcases cached with cached | dropped
        · exact kept stored cached
        · exact Or.inl (Or.inl dropped)
    | loaded stored loaded entitled => exact Or.inl (Or.inr (loaded.trans stored.symm))
    | returned dropped released => exact Or.inl (Or.inl dropped)
  · have kept : turn.store id = node.store id →
        (node.workers thread).cache.Current turn.store id ∨
          thread = env.home id ∧ (node.afterTurn receiver rest turn).Away env id := by
      intro stored
      rcases coherent.current thread id isPlain with current | ⟨atHome, away⟩
      · left
        unfold Cache.Current
        rw [stored]
        exact current
      · rcases away.afterTurn consumed isolates with still | isRelease
        · exact Or.inr ⟨atHome, still⟩
        · exact absurd (atHome.trans (routed isRelease).symm) same
    have unchanged : ((node.afterTurn receiver rest turn).workers thread).cache =
        (node.workers thread).cache := by
      simp only [afterTurn, Function.update_of_ne same]
    rw [unchanged]
    cases isolates.copies id isPlain with
    | kept stored cached => exact kept stored
    | loaded stored loaded entitled => exact kept stored
    | returned dropped released =>
        -- The store may have changed: nobody but the home has a copy of the datum.
        by_cases absent : (node.workers thread).cache id = none
        · exact Or.inl (Or.inl absent)
        · have onTheWay := released_inFlight node receiver rest released
          rcases coherent.copies thread id isPlain absent with
            atHome | ⟨opId, record, found, acquired⟩
          · exact Or.inr ⟨atHome, Or.inr onTheWay⟩
          · exact absurd onTheWay (exclusion.not_released
              ((record_afterTurn_other same opId).trans found) acquired)

theorem Coherent.staged_afterTurn (confined : env.ops.Confined plain)
    (coherent : Coherent env plain node)
    (invariant : CommitInvariant env (node.afterTurn receiver rest turn)) {thread : ThreadId}
    {opId : DatumId} {record : OpRecord}
    (found : (node.afterTurn receiver rest turn).record thread opId = some record) :
    record.Staged env.ops plain turn.store := by
  have staged : record.Staged env.ops plain node.store := by
    by_cases same : thread = receiver
    · subst same
      rw [record_afterTurn_self] at found
      exact (isolates.records opId record found).1
    · rw [record_afterTurn_other same] at found
      exact coherent.staged thread opId record found
  apply OpRecord.Staged.congr confined staged
  intro entered id wanted isPlain
  cases isolates.copies id isPlain with
  | kept stored cached => exact stored.symm
  | loaded stored loaded entitled => exact stored.symm
  | returned dropped released =>
      -- A datum just given back is not one of an op that waits for replies.
      have ticket := view_tickets env found
      rcases invariant.covered thread opId record.view ticket id wanted with
        acquired | ⟨_, fresh⟩
      · exact absurd (released_inFlight node receiver rest released)
          (invariant.exclusion.not_released found acquired)
      · exact absurd (by simpa [OpRecord.view] using fresh) entered

theorem Coherent.admissible_afterTurn (coherent : Coherent env plain node) :
    ∀ packet ∈ (node.afterTurn receiver rest turn).inFlight,
      packet.message.Admissible env plain packet.receiver := by
  intro packet packetMem
  rcases List.mem_append.mp packetMem with stays | sent
  · exact coherent.admissible packet (consumed.mem_iff.mpr (List.mem_cons_of_mem _ stays))
  · rcases List.mem_filterMap.mp sent with ⟨effect, effectMem, isPacket⟩
    have admissible := isolates.admissible effect effectMem
    cases effect with
    | send target message =>
        cases isPacket
        cases message with
        | runOp opId opName datumIds payload => exact trivial
        | _ => exact admissible
    | _ => cases isPacket

end Delivery

theorem coherent_post (coherent : Coherent env plain node) {packet : Packet}
    (admissible : packet.message.Admissible env plain packet.receiver) :
    Coherent env plain (node.post packet) where
  copies := coherent.copies
  current := by
    intro thread id isPlain
    rcases coherent.current thread id isPlain with current | ⟨atHome, away⟩
    · exact Or.inl current
    · refine Or.inr ⟨atHome, ?_⟩
      rcases away with held | ⟨back, inFlight, isRelease⟩
      · exact Or.inl held
      · exact Or.inr ⟨back, List.mem_append_left _ inFlight, isRelease⟩
  staged := coherent.staged
  admissible := by
    intro other otherMem
    rcases List.mem_append.mp otherMem with earlier | isPosted
    · exact coherent.admissible other earlier
    · rw [List.mem_singleton.mp isPosted]
      exact admissible

/-- A delivery, with what its turn does to plain datums. -/
theorem deliver_isolates (standalone : env.Standalone) (confined : env.ops.Confined plain)
    (coherent : Coherent env plain node) (invariant : CommitInvariant env node) {sender : Sender}
    {receiver : ThreadId} {hint : DatumId}
    (stepped : step env node (.deliver sender receiver hint) = some next) :
    ∃ message rest turn, node.inFlight.Perm (⟨sender, receiver, message⟩ :: rest) ∧
      next = node.afterTurn receiver rest turn ∧
      Turn.Isolates env plain receiver message (node.workers receiver) node.store turn := by
  rcases step_deliver stepped with ⟨message, rest, consumed, _, isNext⟩
  have inFlight : (⟨sender, receiver, message⟩ : Packet) ∈ node.inFlight :=
    consumed.mem_iff.mpr List.mem_cons_self
  exact ⟨message, rest, _, consumed, isNext, Env.handle_isolates standalone confined hint
    (coherent.consistent invariant inFlight)⟩

theorem coherent_step (standalone : env.Standalone) (confined : env.ops.Confined plain)
    {label : NodeLabel} (coherent : Coherent env plain node) (invariant : CommitInvariant env node)
    (finds : node.RecallFindsCollating label) (stepped : step env node label = some next) :
    Coherent env plain next := by
  have after := commitInvariant_step standalone invariant finds stepped
  cases label with
  | submit thread opId opName datumIds payload =>
      simp only [step] at stepped
      split at stepped
      · cases stepped
      · cases stepped
        have posted : Coherent env plain
            (node.post ⟨.client, thread, .runOp opId opName datumIds payload⟩) :=
          coherent_post coherent trivial
        exact ⟨posted.copies, posted.current, posted.staged, posted.admissible⟩
  | indexQuery target indexKind query =>
      cases stepped
      exact coherent_post coherent rfl
  | indexExecute target indexKind payload =>
      cases stepped
      exact coherent_post coherent rfl
  | existsCheck datumId =>
      cases stepped
      exact coherent_post coherent rfl
  | deliver sender receiver hint =>
      rcases deliver_isolates standalone confined coherent invariant stepped with
        ⟨message, rest, turn, consumed, rfl, isolates⟩
      have inFlight : (⟨sender, receiver, message⟩ : Packet) ∈ node.inFlight :=
        consumed.mem_iff.mpr List.mem_cons_self
      have routed := invariant.exclusion.routed.packets _ inFlight
      exact {
        copies := fun thread id isPlain cached =>
          coherent.copies_afterTurn consumed isolates thread isPlain cached
        current := by
          intro thread id isPlain
          apply coherent.current_afterTurn consumed isolates after.exclusion _ thread isPlain
          rintro rfl
          exact routed
        staged := fun thread opId record found =>
          coherent.staged_afterTurn consumed isolates confined after found
        admissible := coherent.admissible_afterTurn consumed isolates }

end Node

end Seisin
