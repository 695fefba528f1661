import Seisin.Node.Ledger

/-!
# Pausing the tier is a barrier

Once every member has acknowledged a pause, no client's request is between a passed gate and its
completion on any node, until one of them resumes.  With the books of the ops this gives that nothing
is on its way for an op and no thread has a record of one; what still is in flight collates locks that
were given back, and leaves the store and the resident indexes alone.
-/

namespace Seisin

variable {Resident : Type}

/-- The handler's request, on its way to a thread. -/
def Transit.From (node : NodeId) (handler : ℕ) : Transit → Prop
  | .message receiver _ (some origin) => receiver.1 = node ∧ origin = handler
  | _ => False

instance (node : NodeId) (handler : ℕ) : DecidablePred (Transit.From node handler) := fun item => by
  unfold Transit.From
  split <;> infer_instance

theorem Transit.Internal.not_from {item : Transit} (internal : item.Internal) {node : NodeId}
    {handler : ℕ} : ¬item.From node handler := by
  cases item with
  | message receiver body origin =>
      rw [internal.2]
      exact id
  | _ => exact id

/-- A handler of the node resumes it. -/
def TierLabel.Resumes (node : NodeId) : TierLabel → Prop
  | .act acting _ .resume => acting = node
  | _ => False

namespace ComputeTier

variable {tier next : ComputeTier Resident} {receiver : NodeId × ThreadId}
  {message : WorkerMessage} {origin : Option ℕ} {kept : List Transit} {label : TierLabel}

/-! ## Handlers wait for what they asked -/

/-- What comes from a client is awaited by the handler it comes from, on a member of the tier. -/
structure Attended (members : List NodeId) (tier : ComputeTier Resident) : Prop where
  assigned : ∀ opId thread handler, tier.assigned opId = some (thread, handler) →
    thread.1 ∈ members
  internal : ∀ receiver body, .message receiver body none ∈ tier.inFlight → body.Internal
  waiting : ∀ receiver body handler, .message receiver body (some handler) ∈ tier.inFlight →
    receiver.1 ∈ members ∧ (tier.sites receiver.1).handlers handler = .running body.starts
  once : ∀ node handler, (tier.inFlight.countP fun item => item.From node handler) ≤ 1

variable {members : List NodeId}

theorem attended_new (native : NodeId → DatumId → NodeId × ThreadId) (store : Store) :
    (new native store : ComputeTier Resident).Attended members where
  assigned := fun _ _ _ impossible => nomatch impossible
  internal := fun _ _ itemMem => nomatch itemMem
  waiting := fun _ _ _ itemMem => nomatch itemMem
  once := fun _ _ => Nat.zero_le 1

theorem internal_toMessage (request : PeerRequest) (link : NodeId) (call : ℕ) :
    (request.toMessage link call).Internal := by
  cases request <;> exact trivial

theorem internal_acknowledged {request : PeerRequest} {call : ℕ} {item : Transit}
    (itemMem : item ∈ request.acknowledged call) : item.Internal := by
  cases request with
  | release datumId =>
      cases List.mem_singleton.mp itemMem
      trivial
  | _ => cases itemMem

theorem internal_callback {request : PeerRequest} {response : PeerResponse}
    {message : WorkerMessage} (posts : request.callback response = some message) :
    message.Internal := by
  cases request <;> cases response <;> cases posts <;> exact trivial

/-- Items no handler waits for come in the place of others. -/
theorem Attended.of_items {after : ComputeTier Resident} (attended : tier.Attended members)
    (gone items : List Transit) (assigned : after.assigned = tier.assigned)
    (inFlight : tier.inFlight.Perm (gone ++ kept)) (arrived : after.inFlight = kept ++ items)
    (internal : ∀ item ∈ items, item.Internal)
    (waits : ∀ receiver body handler, .message receiver body (some handler) ∈ kept →
      (tier.sites receiver.1).handlers handler = .running body.starts →
        (after.sites receiver.1).handlers handler = .running body.starts) :
    after.Attended members where
  assigned := by
    rw [assigned]
    exact attended.assigned
  internal := by
    intro receiver body itemMem
    rw [arrived] at itemMem
    rcases List.mem_append.mp itemMem with isKept | isNew
    · exact attended.internal receiver body (inFlight.mem_iff.mpr (List.mem_append_right _ isKept))
    · exact (internal _ isNew).1
  waiting := by
    intro receiver body handler itemMem
    rw [arrived] at itemMem
    rcases List.mem_append.mp itemMem with isKept | isNew
    · rcases attended.waiting receiver body handler
        (inFlight.mem_iff.mpr (List.mem_append_right _ isKept)) with ⟨isMember, runs⟩
      exact ⟨isMember, waits receiver body handler isKept runs⟩
    · cases (internal _ isNew).2
  once := by
    intro node handler
    have unasked : (items.countP fun item => item.From node handler) = 0 := by
      rw [List.countP_eq_zero]
      intro item itemMem
      simpa using (internal item itemMem).not_from
    have before := attended.once node handler
    rw [inFlight.countP_eq, List.countP_append] at before
    rw [arrived, List.countP_append, unasked]
    omega

/-- A handler passes its request on. -/
theorem Attended.of_dispatch (attended : tier.Attended members) {node : NodeId} {handler : ℕ}
    {thread : ThreadId} {request : ClientRequest} {site : Site} (isMember : node ∈ members)
    (admitted : (tier.sites node).handlers handler = .admitted request)
    (acted : (tier.sites node).act handler (.dispatch request.opId) = some site) :
    ({ (tier.setSite node site).post
        [.message (node, thread) request.message (some handler)] with
      assigned := fun opId =>
        if request.opId = some opId then some ((node, thread), handler)
        else tier.assigned opId } : ComputeTier Resident).Attended members where
  assigned := by
    intro opId place other isAssigned
    dsimp only at isAssigned
    split at isAssigned
    · cases isAssigned
      exact isMember
    · exact attended.assigned opId place other isAssigned
  internal := by
    intro receiver body itemMem
    rcases List.mem_append.mp itemMem with earlier | isNew
    · exact attended.internal receiver body earlier
    · cases List.mem_singleton.mp isNew
  waiting := by
    intro receiver body other itemMem
    rcases List.mem_append.mp itemMem with earlier | isNew
    · rcases attended.waiting receiver body other earlier with ⟨inside, runs⟩
      refine ⟨inside, ?_⟩
      by_cases same : receiver.1 = node
      · rw [same] at runs
        rw [same]
        rcases Site.act_running acted runs with still | ⟨_, impossible⟩
        · exact (congrArg (fun site => site.handlers other)
            (sites_setSite_self tier node site)).trans still
        · cases impossible
      · exact (congrArg (fun site => site.handlers other)
          (sites_setSite_ne tier site same)).trans runs
    · cases List.mem_singleton.mp isNew
      refine ⟨isMember, ?_⟩
      have runs := Site.act_dispatch admitted acted
      rw [starts_request]
      exact (congrArg (fun site => site.handlers handler)
        (sites_setSite_self tier node site)).trans runs
  once := by
    intro other waiting
    have before := attended.once other waiting
    have posted : ((tier.inFlight ++ [Transit.message (node, thread) request.message
        (some handler)]).countP fun item => item.From other waiting) ≤ 1 := by
      rw [List.countP_append, List.countP_singleton]
      split
      · -- the handler was admitted, so nothing of it was on its way
        rename_i isFrom
        rcases of_decide_eq_true isFrom with ⟨rfl, rfl⟩
        have unasked : (tier.inFlight.countP fun item => item.From node handler) = 0 := by
          rw [List.countP_eq_zero]
          intro item itemMem asked
          rcases item with ⟨receiver, body, _ | from_⟩ | _ | _
          · exact of_decide_eq_true asked
          · rcases of_decide_eq_true asked with ⟨rfl, rfl⟩
            have runs := (attended.waiting receiver body from_ itemMem).2
            rw [admitted] at runs
            cases runs
          · exact of_decide_eq_true asked
          · exact of_decide_eq_true asked
        exact Nat.le_of_eq (congrArg (· + 1) unasked)
      · exact before
    exact posted

/-- A thread takes a message: only the handler it came from, or the one of an op the turn answers,
stops waiting. -/
theorem Attended.of_take {spawn : Spawn Resident} (attended : tier.Attended members)
    (ledger : tier.Ledger)
    (inFlight : tier.inFlight.Perm (.message receiver message origin :: kept)) (hint : DatumId) :
    (take spawn { tier with inFlight := kept } receiver hint message origin).Attended members := by
  rcases ledger.turned spawn inFlight hint with ⟨accounts, _, performed⟩
  rcases performed.posted with ⟨items, arrived, itemsSound, _⟩
  refine attended.of_items [.message receiver message origin] items performed.assigned inFlight
    arrived (fun item itemMem => (itemsSound item itemMem).2) ?_
  intro thread body handler itemMem runs
  rcases performed.running thread.1 handler body.starts runs with still | ⟨here, answers⟩
  · exact still
  · exfalso
    cases starts : body.starts with
    | none =>
        -- two requests of one handler would be on their way
        rw [starts] at answers
        have once := attended.once receiver.1 handler
        have taken : (Transit.message receiver message origin).From receiver.1 handler := by
          rw [answers]
          exact ⟨rfl, rfl⟩
        have another : 0 < kept.countP fun item => item.From receiver.1 handler :=
          List.countP_pos_iff.mpr ⟨_, itemMem, by simp [Transit.From, here]⟩
        rw [inFlight.countP_eq, List.countP_cons_of_pos (by simpa using taken)] at once
        omega
    | some opId =>
        -- an op that is on its way to its thread has no record there, and is not on its way twice
        rw [starts] at answers
        rcases answers with ⟨result, replies⟩
        have another : 0 < kept.countP fun item => item.starts = some opId :=
          List.countP_pos_iff.mpr ⟨_, itemMem, by simp [Transit.starts, starts]⟩
        rcases (accounts.replied_op replies).2 with recorded | isStart
        · rcases ledger.placed receiver opId recorded with ⟨waiting, isAssigned⟩
          have single := ledger.single opId receiver waiting isAssigned
          rw [ComputeTier.recorded, if_neg recorded, starting, inFlight.countP_eq,
            List.countP_cons] at single
          omega
        · have fresh := (ledger.fresh inFlight isStart).2.2
          omega

theorem attended_step {spawn : Spawn Resident} (attended : tier.Attended spawn.members)
    (ledger : tier.Ledger) (stepped : step spawn tier label = some next) :
    next.Attended spawn.members := by
  cases label with
  | act node handler action =>
      simp only [step] at stepped
      split at stepped
      · rename_i allowed
        rcases Option.map_eq_some_iff.mp stepped with ⟨site, acted, rfl⟩
        refine attended.of_items [] [] rfl (.refl _) (List.append_nil _).symm
          (by simp) ?_
        intro receiver body waiting _ runs
        by_cases same : receiver.1 = node
        · rw [same] at runs
          rw [same, sites_setSite_self]
          rcases Site.act_running acted runs with still | ⟨_, rfl⟩
          · exact still
          · exact allowed.2.elim
        · rw [sites_setSite_ne _ _ same]
          exact runs
      · cases stepped
  | dispatch node handler thread =>
      simp only [step] at stepped
      split at stepped
      · rename_i request admitted
        split at stepped
        · rename_i allowed
          rcases Option.map_eq_some_iff.mp stepped with ⟨site, acted, rfl⟩
          exact attended.of_dispatch allowed.1 admitted acted
        · cases stepped
      · cases stepped
  | deliver index hint =>
      rcases Option.map_eq_some_iff.mp stepped with ⟨item, found, rfl⟩
      have inFlight := perm_eraseIdx found
      cases item with
      | message receiver message origin => exact attended.of_take ledger inFlight hint
      | request call receiver request =>
          have isCalled := ledger.sound _ (inFlight.mem_iff.mpr List.mem_cons_self)
          rcases Option.map_eq_some_iff.mp isCalled with ⟨filed, isFiled, _⟩
          simp only [arrive, isFiled]
          refine attended.of_items [_] _ rfl inFlight rfl ?_ fun _ _ _ _ => id
          intro item itemMem
          rcases List.mem_append.mp itemMem with acknowledged | isMessage
          · exact internal_acknowledged acknowledged
          · cases List.mem_singleton.mp isMessage
            exact ⟨internal_toMessage request _ call, rfl⟩
      | response call response =>
          rcases ledger.sound _ (inFlight.mem_iff.mpr List.mem_cons_self) with ⟨asked, isCalled, _⟩
          rcases Option.map_eq_some_iff.mp isCalled with ⟨filed, isFiled, _⟩
          simp only [arrive, isFiled]
          refine attended.of_items [_] _ rfl inFlight rfl ?_ fun _ _ _ _ => id
          intro item itemMem
          rcases List.mem_map.mp itemMem with ⟨message, posts, rfl⟩
          exact ⟨internal_callback (Option.mem_toList.mp posts), rfl⟩
  | reroute node native =>
      cases stepped
      exact attended.of_items [] [] rfl (.refl _) (List.append_nil _).symm
        (by simp) fun _ _ _ _ => id
  | halt node reason =>
      cases stepped
      refine attended.of_items [] [] rfl (.refl _) (List.append_nil _).symm
        (by simp) ?_
      intro receiver body waiting _ runs
      by_cases same : receiver.1 = node
      · rw [same] at runs
        rw [same, sites_setSite_self]
        exact runs
      · rw [sites_setSite_ne _ _ same]
        exact runs
  | evict receiver isNative =>
      cases stepped
      refine attended.of_items [] _ rfl (.refl _) rfl ?_ fun _ _ _ _ => id
      simp [Transit.Internal, WorkerMessage.Internal]
  | bury receiver dead =>
      cases stepped
      refine attended.of_items [] _ rfl (.refl _) rfl ?_ fun _ _ _ _ => id
      simp [Transit.Internal, WorkerMessage.Internal]

/-! ## The gates along a run -/

/-- What handlers keep of a gate until it is resumed, and a halt as well, the tier keeps. -/
theorem site_step {spawn : Spawn Resident} {property : Site → Prop} {node : NodeId}
    (acts : ∀ site next handler action, property site → action ≠ .resume →
      site.act handler action = some next → property next)
    (halts : ∀ site reason, property site →
      property { site with halt := site.halt.halt reason })
    (ledger : tier.Ledger) (steady : ¬label.Resumes node)
    (stepped : step spawn tier label = some next) (holds : property (tier.sites node)) :
    property (next.sites node) := by
  cases label with
  | act acting handler action =>
      simp only [step] at stepped
      split at stepped
      · rcases Option.map_eq_some_iff.mp stepped with ⟨site, acted, rfl⟩
        by_cases same : node = acting
        · rw [same, sites_setSite_self]
          rw [same] at holds
          refine acts _ _ _ _ holds ?_ acted
          rintro rfl
          exact steady same.symm
        · rw [sites_setSite_ne _ _ same]
          exact holds
      · cases stepped
  | dispatch acting handler thread =>
      simp only [step] at stepped
      split at stepped
      · split at stepped
        · rcases Option.map_eq_some_iff.mp stepped with ⟨site, acted, rfl⟩
          have kept : property ((tier.setSite acting site).sites node) := by
            by_cases same : node = acting
            · rw [same, sites_setSite_self]
              rw [same] at holds
              exact acts _ _ _ _ holds (by simp) acted
            · rw [sites_setSite_ne _ _ same]
              exact holds
          exact kept
        · cases stepped
      · cases stepped
  | deliver index hint =>
      rcases Option.map_eq_some_iff.mp stepped with ⟨item, found, rfl⟩
      have inFlight := perm_eraseIdx found
      cases item with
      | message receiver message origin =>
          refine (ledger.turned spawn inFlight hint).2.2.sites node property ?_ holds
          exact fun site next handler opId kept acted => acts _ _ _ _ kept (by simp) acted
      | request call receiver request =>
          simp only [arrive]
          split <;> exact holds
      | response call response =>
          simp only [arrive]
          split <;> exact holds
  | reroute acting native =>
      cases stepped
      exact holds
  | halt acting reason =>
      cases stepped
      by_cases same : node = acting
      · rw [same, sites_setSite_self]
        rw [same] at holds
        exact halts _ _ holds
      · rw [sites_setSite_ne _ _ same]
        exact holds
  | evict receiver isNative =>
      cases stepped
      exact holds
  | bury receiver dead =>
      cases stepped
      exact holds

theorem barred_step {spawn : Spawn Resident} {node : NodeId} (ledger : tier.Ledger)
    (steady : ¬label.Resumes node) (stepped : step spawn tier label = some next)
    (barred : (tier.sites node).Barred) : (next.sites node).Barred :=
  site_step (fun _ _ _ _ => Site.barred_act) (fun _ _ => id) ledger steady stepped barred

theorem barring_step {spawn : Spawn Resident} {node : NodeId} {drainer : ℕ} (ledger : tier.Ledger)
    (steady : ¬label.Resumes node) (stepped : step spawn tier label = some next)
    (barring : (tier.sites node).Barring drainer) : (next.sites node).Barring drainer := by
  have acts : ∀ (site next : Site) handler action, site.Counted ∧ site.Barring drainer →
      action ≠ Action.resume → site.act handler action = some next →
        next.Counted ∧ next.Barring drainer := by
    rintro site next handler action ⟨counted, kept⟩ unresumed acted
    exact ⟨Site.counted_act counted acted, Site.barring_act counted kept unresumed acted⟩
  exact (site_step acts (fun _ _ => id) ledger steady stepped ⟨ledger.counted node, barring⟩).2

/-! ## What a barred tier does -/

/-- Neither the store nor any resident index has changed. -/
structure Unwritten (before after : ComputeTier Resident) : Prop where
  store : after.store = before.store
  residents : ∀ node thread, (after.workers node thread).residentIndexes =
    (before.workers node thread).residentIndexes

theorem Unwritten.refl (tier : ComputeTier Resident) : tier.Unwritten tier :=
  ⟨rfl, fun _ _ => rfl⟩

theorem Unwritten.trans {first second third : ComputeTier Resident}
    (left : first.Unwritten second) (right : second.Unwritten third) : first.Unwritten third :=
  ⟨right.store.trans left.store, fun node thread =>
    (right.residents node thread).trans (left.residents node thread)⟩

/-- No op is on its way to a thread or has a record on one, and nothing is on its way for one. -/
def Idle (tier : ComputeTier Resident) : Prop :=
  ∀ opId, tier.starting opId = 0 ∧ (∀ thread, tier.awaits thread opId = none) ∧ tier.due opId = 0

theorem idle_of_barred (ledger : tier.Ledger) (attended : tier.Attended members)
    (barred : ∀ node ∈ members, (tier.sites node).Barred) : tier.Idle := by
  intro opId
  cases isAssigned : tier.assigned opId with
  | none =>
      rcases ledger.unassigned isAssigned with ⟨due, starting, unrecorded⟩
      exact ⟨starting, unrecorded, due⟩
  | some place =>
      rcases place with ⟨thread, handler⟩
      have isMember := attended.assigned opId thread handler isAssigned
      have nothing : tier.starting opId + tier.recorded thread opId = 0 := by
        by_contra pending
        have runs := ledger.live opId thread handler isAssigned (Nat.pos_of_ne_zero pending)
        apply (barred thread.1 isMember).2 handler
        rw [runs]
        trivial
      have unrecorded : ∀ place, tier.awaits place opId = none := by
        intro place
        by_contra recorded
        rcases ledger.placed place opId recorded with ⟨other, assignedHere⟩
        cases isAssigned.symm.trans assignedHere
        rw [ComputeTier.recorded, if_neg recorded] at nothing
        omega
      refine ⟨by omega, unrecorded, ?_⟩
      rw [ledger.balanced, isAssigned, Option.elim_some, unrecorded]
      rfl

theorem handleReleaseLocksHeldBy_quiet (node : NodeId) (worker : Worker Resident) (store : Store) :
    (Env.handleReleaseLocksHeldBy node worker store).store = store ∧
      (Env.handleReleaseLocksHeldBy node worker store).worker.residentIndexes =
        worker.residentIndexes := by
  unfold Env.handleReleaseLocksHeldBy
  refine List.foldlRecOn worker.nativeLocks.entries _
    (motive := fun (turn : Turn Resident) => turn.store = store ∧
      turn.worker.residentIndexes = worker.residentIndexes) ⟨rfl, rfl⟩ ?_
  intro turn kept entry _
  dsimp only
  split
  · exact kept
  · exact kept

theorem store_performed (effects : List Effect) (tier : ComputeTier Resident) :
    (effects.foldl (perform receiver origin) tier).store = tier.store := by
  have answered : ∀ (tier : ComputeTier Resident) node handler opId,
      (tier.answer node handler opId).store = tier.store := by
    intro tier node handler opId
    unfold answer
    split <;> rfl
  induction effects generalizing tier with
  | nil => rfl
  | cons effect effects ih =>
      rw [List.foldl_cons, ih]
      unfold perform
      split
      case h_4 =>
        split
        · exact answered _ _ _ _
        · rfl
      case h_5 =>
        split
        · exact answered _ _ _ _
        · rfl
      case h_6 =>
        split
        · exact answered _ _ _ _
        · rfl
      all_goals rfl

/-- With no op under way, a message that no client sent changes neither the store nor an index. -/
theorem turn_quiet (spawn : Spawn Resident) (ledger : tier.Ledger) (idle : tier.Idle)
    (inFlight : tier.inFlight.Perm (.message receiver message origin :: kept))
    (internal : message.Internal) (hint : DatumId) :
    (tier.turn spawn receiver hint message).store = tier.store ∧
      (tier.turn spawn receiver hint message).worker.residentIndexes =
        (tier.workers receiver.1 receiver.2).residentIndexes := by
  have isFlying : Transit.message receiver message origin ∈ tier.inFlight :=
    inFlight.mem_iff.mpr List.mem_cons_self
  have sound := ledger.sound _ isFlying
  have undue : ∀ opId, message.owes tier.filed ≠ some opId := by
    intro opId owes
    have due := (idle opId).2.2
    rw [ComputeTier.due, List.countP_eq_zero] at due
    exact due _ isFlying (decide_eq_true owes)
  have unserved : ¬message.ServesIndex := by
    intro serves
    cases message with
    | indexUpdate target opId indexKind payload reply =>
        cases reply with
        | «local» inbox => exact undue opId rfl
        | remote link call =>
            rcases sound with ⟨request, found, owes⟩
            exact undue opId (by simp [WorkerMessage.owes, found, owes])
    | indexQuery target indexKind query => exact internal
    | indexExecute target indexKind payload => exact internal
    | _ => exact serves
  by_cases remote : message.Remote
  · cases message with
    | releaseLocksHeldBy node => exact handleReleaseLocksHeldBy_quiet node _ _
    | acquireFailed opId datumId retriesLeft => exact sound.elim
    | _ => exact remote.elim
  · have outcome := (tier.env spawn receiver.1).handle_outcome receiver.2 hint remote unserved
      (tier.workers receiver.1 receiver.2) tier.store
    cases outcome with
    | quiet stored residents cached => exact ⟨stored, residents⟩
    | answered opId result replies =>
        rcases ((ledger.turned spawn inFlight hint).1.replied_op replies).2 with recorded | starts
        · exact absurd ((idle opId).2.1 receiver) recorded
        · exact absurd ((ledger.fresh inFlight starts).1) (by
            rintro ⟨handler, isAssigned⟩
            have none_ := (idle opId).1
            rw [starting, List.countP_eq_zero] at none_
            exact none_ _ isFlying (decide_eq_true starts))

/-- No step of a barred tier writes. -/
theorem unwritten_step {spawn : Spawn Resident} (ledger : tier.Ledger)
    (attended : tier.Attended spawn.members)
    (barred : ∀ node ∈ spawn.members, (tier.sites node).Barred)
    (stepped : step spawn tier label = some next) : tier.Unwritten next := by
  have idle := idle_of_barred ledger attended barred
  cases label with
  | deliver index hint =>
      rcases Option.map_eq_some_iff.mp stepped with ⟨item, found, rfl⟩
      have inFlight := perm_eraseIdx found
      cases item with
      | message receiver message origin =>
          have isFlying : Transit.message receiver message origin ∈ tier.inFlight :=
            inFlight.mem_iff.mpr List.mem_cons_self
          have internal : message.Internal := by
            cases origin with
            | none => exact attended.internal receiver message isFlying
            | some handler =>
                rcases attended.waiting receiver message handler isFlying with ⟨isMember, runs⟩
                refine absurd ?_ ((barred receiver.1 isMember).2 handler)
                rw [runs]
                trivial
          rcases turn_quiet spawn ledger idle inFlight internal hint with ⟨stored, residents⟩
          have performed := (ledger.turned spawn inFlight hint).2.2
          have storeEq : (take spawn { tier with inFlight := tier.inFlight.eraseIdx index } receiver
              hint message origin).store = (tier.turn spawn receiver hint message).store :=
            store_performed _ _
          refine ⟨storeEq.trans stored, ?_⟩
          intro node thread
          have workers := congrFun (congrFun performed.workers node) thread
          refine (congrArg Worker.residentIndexes workers).trans ?_
          by_cases here : (node, thread) = receiver
          · cases here
            exact (congrArg Worker.residentIndexes (workers_setWorker_self
              { tier with inFlight := tier.inFlight.eraseIdx index } (node, thread)
              (tier.turn spawn (node, thread) hint message).worker)).trans residents
          · exact congrArg Worker.residentIndexes (workers_setWorker_ne
              { tier with inFlight := tier.inFlight.eraseIdx index }
              (tier.turn spawn receiver hint message).worker here)
      | request call receiver request =>
          simp only [arrive]
          split <;> exact ⟨rfl, fun _ _ => rfl⟩
      | response call response =>
          simp only [arrive]
          split <;> exact ⟨rfl, fun _ _ => rfl⟩
  | act node handler action =>
      simp only [step] at stepped
      split at stepped
      · rcases Option.map_eq_some_iff.mp stepped with ⟨site, acted, rfl⟩
        exact ⟨rfl, fun _ _ => rfl⟩
      · cases stepped
  | dispatch node handler thread =>
      simp only [step] at stepped
      split at stepped
      · split at stepped
        · rcases Option.map_eq_some_iff.mp stepped with ⟨site, acted, rfl⟩
          exact ⟨rfl, fun _ _ => rfl⟩
        · cases stepped
      · cases stepped
  | _ =>
      cases stepped
      exact ⟨rfl, fun _ _ => rfl⟩

/-! ## Runs -/

/-- A handler of the node has set the flag and, later, acknowledged the pause, and the node has not
been resumed since the flag was set. -/
def Acknowledged (labels : List TierLabel) (node : NodeId) : Prop :=
  ∃ handler front drains back,
    labels = front ++ .act node handler .storePaused ::
      (drains ++ .act node handler .ackPause :: back) ∧
    ∀ label ∈ drains ++ back, ¬label.Resumes node

theorem books_step {spawn : Spawn Resident}
    (books : tier.Ledger ∧ tier.Attended spawn.members)
    (stepped : (system spawn).step tier label = some next) :
    next.Ledger ∧ next.Attended spawn.members :=
  ⟨ledger_step books.1 stepped, attended_step books.2 books.1 stepped⟩

theorem books_exec {spawn : Spawn Resident} {labels : List TierLabel}
    (books : tier.Ledger ∧ tier.Attended spawn.members)
    (executed : (system spawn).exec tier labels = some next) :
    next.Ledger ∧ next.Attended spawn.members := by
  induction labels generalizing tier with
  | nil =>
      cases executed
      exact books
  | cons label labels ih =>
      rcases Option.bind_eq_some_iff.mp executed with ⟨middle, stepped, rest⟩
      exact ih (books_step books stepped) rest

/-- What the steps of a node that is not resumed keep, its run keeps. -/
theorem site_exec {spawn : Spawn Resident} {labels : List TierLabel} {node : NodeId}
    (property : Site → Prop)
    (kept : ∀ (tier next : ComputeTier Resident) label, tier.Ledger → ¬label.Resumes node →
      step spawn tier label = some next → property (tier.sites node) → property (next.sites node))
    (books : tier.Ledger ∧ tier.Attended spawn.members)
    (steady : ∀ label ∈ labels, ¬label.Resumes node)
    (executed : (system spawn).exec tier labels = some next) (holds : property (tier.sites node)) :
    property (next.sites node) := by
  induction labels generalizing tier with
  | nil =>
      cases executed
      exact holds
  | cons label labels ih =>
      rcases Option.bind_eq_some_iff.mp executed with ⟨middle, stepped, rest⟩
      rw [List.forall_mem_cons] at steady
      exact ih (books_step books stepped) steady.2 rest
        (kept tier middle label books.1 steady.1 stepped holds)

/-- An acknowledged pause bars the node. -/
theorem barred_of_acknowledged {spawn : Spawn Resident} {labels : List TierLabel} {node : NodeId}
    (books : tier.Ledger ∧ tier.Attended spawn.members)
    (executed : (system spawn).exec tier labels = some next)
    (acknowledged : Acknowledged labels node) : (next.sites node).Barred := by
  rcases acknowledged with ⟨handler, front, drains, back, rfl, steady⟩
  rw [Transition.System.exec_append] at executed
  rcases Option.bind_eq_some_iff.mp executed with ⟨pausing, reached, executed⟩
  rcases Option.bind_eq_some_iff.mp executed with ⟨flagged, stored, executed⟩
  rw [Transition.System.exec_append] at executed
  rcases Option.bind_eq_some_iff.mp executed with ⟨drained, waited, executed⟩
  rcases Option.bind_eq_some_iff.mp executed with ⟨acked, acks, executed⟩
  have pausingBooks := books_exec books reached
  have flaggedBooks := books_step pausingBooks stored
  have drainedBooks := books_exec flaggedBooks waited
  have acting : ∀ {before after : ComputeTier Resident} {action : Action},
      (system spawn).step before (.act node handler action) = some after →
        (before.sites node).act handler action = some (after.sites node) := by
    intro before after action stepped
    simp only [system, step] at stepped
    split at stepped
    · rcases Option.map_eq_some_iff.mp stepped with ⟨site, acted, rfl⟩
      rw [acted, sites_setSite_self]
    · cases stepped
  have barring : (drained.sites node).Barring handler := by
    refine site_exec (·.Barring handler) (fun _ _ _ ledger => barring_step ledger) flaggedBooks ?_
      waited (Site.barring_storePaused (acting stored))
    exact fun label isDrain => steady label (List.mem_append_left _ isDrain)
  refine site_exec Site.Barred (fun _ _ _ ledger => barred_step ledger)
    (books_step drainedBooks acks) ?_ executed (Site.barred_ackPause barring (acting acks))
  exact fun label isLater => steady label (List.mem_append_right _ isLater)

/-- Writes `[1]` to every datum of the op. -/
def stampOps : OpRegistry := fun _ => some fun datumIds _ =>
  datumIds.foldr (fun datumId rest => .put datumId [1] 1 rest) (.done [])

/-- Two nodes; neither has an index kind. -/
def pairSpawn : Spawn Unit where
  members := [0, 1]
  ops := stampOps
  indexKinds :=
    { kinds := fun _ => none
      apply := fun _ _ => ((), ⟨none, .none⟩)
      query := fun _ _ => .ok []
      execute := fun _ _ => ((), .ok []) }

/-- Node 1 runs an op on a datum whose home is node 0; then both nodes are paused, with the release
of the datum still on its way. -/
def pausingRun : List TierLabel :=
  [.act 1 0 (.guard (.op 5 "stamp" [7] [])), .act 1 0 .loadHalted, .act 1 0 .loadPaused,
    .dispatch 1 0 0, .deliver 0 0, .deliver 0 0, .deliver 0 0, .deliver 0 0, .deliver 0 0,
    .act 0 1 (.pause "migrate"), .act 0 1 .storePaused, .act 1 1 (.pause "migrate"),
    .act 1 1 .storePaused, .act 0 1 .drain, .act 1 0 .finish, .act 1 1 .drain, .act 0 1 .ackPause,
    .act 1 1 .ackPause]

/-- The release arrives, and the next op is refused. -/
def pausedRun : List TierLabel :=
  [.deliver 0 0, .act 1 0 (.guard (.op 6 "stamp" [7] [])), .deliver 1 0, .act 1 0 .loadHalted,
    .act 1 0 .loadPaused, .deliver 0 0, .act 1 0 .readReason, .act 1 0 .refuse]

end ComputeTier

end Seisin
