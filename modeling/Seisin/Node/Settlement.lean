import Seisin.Node.Barrier
import Seisin.Node.Distributed

/-!
# No client waits for ever

A handler that waits for a thread waits for an op that is assigned and not answered yet, or for a
request that is still on its way.  Together with the progress of the joint node this gives that once
nothing is in flight, no op has a record on any node, every lock is free, every op that was asked for
has been answered once, and no handler waits any more.
-/

namespace Seisin

open Transition

variable {Resident : Type}

/-- The handler an effect answers, with what the handler waits for. -/
def Effect.settles (assigned : DatumId → Option ((NodeId × ThreadId) × ℕ)) (origin : Option ℕ) :
    Effect → Option (ℕ × Option DatumId)
  | .reply opId _ => (assigned opId).map fun place => (place.2, some opId)
  | .answer _ | .answerExists _ => origin.map fun handler => (handler, none)
  | _ => none

theorem OpEvent.mem_answers {effects : List Effect} {opId : DatumId}
    {result : Except String Bytes} :
    .answered opId result ∈ OpEvent.answers effects ↔ .reply opId result ∈ effects := by
  simp only [OpEvent.answers, List.mem_map, List.mem_filterMap]
  constructor
  · rintro ⟨_, ⟨effect, effectMem, isReply⟩, ⟨⟩⟩
    cases effect <;> cases isReply
    exact effectMem
  · exact fun effectMem => ⟨(opId, result), ⟨_, effectMem, rfl⟩, rfl⟩

namespace Site

variable {site next : Site} {handler : ℕ} {action : Action}

/-- A handler comes to wait for a thread by passing its request on. -/
theorem act_waits {other : ℕ} {opId : Option DatumId}
    (stepped : site.act handler action = some next) (waits : next.handlers other = .running opId) :
    site.handlers other = .running opId ∨ other = handler ∧ action = .dispatch opId := by
  rcases act_spec stepped with ⟨state, spec⟩
  by_cases same : other = handler
  · right
    refine ⟨same, ?_⟩
    rw [same] at waits
    unfold act at stepped
    split at stepped
    case h_2 =>
      cases stepped
      rw [handlers_become, Function.update_self] at waits
      split at waits <;> cases waits
    case h_3 =>
      cases stepped
      rw [handlers_become, Function.update_self] at waits
      split at waits <;> cases waits
    case h_7 =>
      cases stepped
      rw [handlers_become, Function.update_self] at waits
      cases waits
      rfl
    case h_9 =>
      split at stepped
      · cases stepped
        simp [become] at waits
      · cases stepped
    case h_13 =>
      split at stepped
      · cases stepped
        simp [become] at waits
      · cases stepped
    case h_21 => cases stepped
    all_goals
      cases stepped
      simp [become] at waits
  · left
    rw [spec.handlers, Function.update_of_ne same] at waits
    exact waits

end Site

namespace ComputeTier

variable {tier next after : ComputeTier Resident} {receiver : NodeId × ThreadId}
  {message : WorkerMessage} {origin : Option ℕ} {seen more : List OpEvent} {label : TierLabel}

/-! ## Answers reach their handlers -/

theorem sites_perform (receiver : NodeId × ThreadId) (origin : Option ℕ)
    (tier : ComputeTier Resident) (effect : Effect) :
    (perform receiver origin tier effect).assigned = tier.assigned ∧
      (perform receiver origin tier effect).sites =
        (effect.settles tier.assigned origin).elim tier.sites fun settled =>
          (tier.answer receiver.1 settled.1 settled.2).sites := by
  cases effect with
  | reply opId result =>
      simp only [perform, Effect.settles]
      cases tier.assigned opId with
      | none => exact ⟨rfl, rfl⟩
      | some place => exact ⟨(answer_frame tier _ _ _).2.1, rfl⟩
  | answer result =>
      cases origin with
      | none => exact ⟨rfl, rfl⟩
      | some handler => exact ⟨(answer_frame tier _ _ _).2.1, rfl⟩
  | answerExists found =>
      cases origin with
      | none => exact ⟨rfl, rfl⟩
      | some handler => exact ⟨(answer_frame tier _ _ _).2.1, rfl⟩
  | _ => exact ⟨rfl, rfl⟩

/-- An answer ends the wait of its handler and begins none. -/
theorem waits_answer {node : NodeId} {handler : ℕ} {answered opId : Option DatumId}
    {other : NodeId} {waiting : ℕ}
    (waits : ((tier.answer node handler answered).sites other).handlers waiting = .running opId) :
    (tier.sites other).handlers waiting = .running opId ∧
      ¬(other = node ∧ waiting = handler ∧ opId = answered) := by
  unfold answer at waits
  split at waits
  · rename_i site acted
    by_cases same : other = node
    · rw [same, sites_setSite_self] at waits
      rcases Site.act_waits acted waits with before | ⟨-, impossible⟩
      · refine ⟨same ▸ before, ?_⟩
        rintro ⟨-, rfl, rfl⟩
        unfold Site.act at acted
        rw [before] at acted
        simp only [if_true, Option.some.injEq] at acted
        rw [← acted] at waits
        simp [Site.become] at waits
      · cases impossible
    · rw [sites_setSite_ne _ _ same] at waits
      exact ⟨waits, fun here => same here.1⟩
  · rename_i stuck
    refine ⟨waits, ?_⟩
    rintro ⟨rfl, rfl, rfl⟩
    unfold Site.act at stuck
    rw [waits] at stuck
    simp at stuck

/-- The effects of a turn begin no wait, and end those of the handlers they answer. -/
theorem waits_foldl {node : NodeId} {handler : ℕ} {opId : Option DatumId} (effects : List Effect)
    (tier : ComputeTier Resident)
    (waits : ((effects.foldl (perform receiver origin) tier).sites node).handlers handler =
      .running opId) :
    (tier.sites node).handlers handler = .running opId ∧
      (node = receiver.1 → ∀ effect ∈ effects,
        effect.settles tier.assigned origin ≠ some (handler, opId)) := by
  induction effects generalizing tier with
  | nil => exact ⟨waits, by simp⟩
  | cons effect effects ih =>
      rcases sites_perform receiver origin tier effect with ⟨assigned, sites⟩
      rcases ih (perform receiver origin tier effect) waits with ⟨before, unsettled⟩
      rw [assigned] at unsettled
      rw [sites] at before
      cases settles : effect.settles tier.assigned origin with
      | none =>
          rw [settles] at before
          refine ⟨before, fun here => List.forall_mem_cons.mpr ⟨?_, unsettled here⟩⟩
          rw [settles]
          exact (Option.some_ne_none _).symm
      | some settled =>
          rw [settles] at before
          rcases waits_answer before with ⟨earlier, differs⟩
          refine ⟨earlier, fun here => List.forall_mem_cons.mpr ⟨?_, unsettled here⟩⟩
          rintro answers
          rw [settles, Option.some.injEq] at answers
          exact differs ⟨here, by rw [answers], by rw [answers]⟩

/-! ## What handlers wait for -/

/-- After the events `seen`, a handler that waits for an op has not been answered, and one that
waits for anything else has its request on the way. -/
structure Waits (tier : ComputeTier Resident) (seen : List OpEvent) : Prop where
  entered : ∀ opId, tier.assigned opId ≠ none → ∃ request, .asked opId request ∈ seen
  known : ∀ opId result, .answered opId result ∈ seen → tier.assigned opId ≠ none
  ops : ∀ node handler opId, (tier.sites node).handlers handler = .running (some opId) →
    (∃ thread, tier.assigned opId = some ((node, thread), handler)) ∧
      ∀ result, .answered opId result ∉ seen
  reads : ∀ node handler, (tier.sites node).handlers handler = .running none →
    ∃ item ∈ tier.inFlight, item.From node handler
  asked : ∀ receiver body handler, .message receiver body (some handler) ∈ tier.inFlight →
    ∃ request : ClientRequest, body = request.message

theorem waits_new (native : NodeId → DatumId → NodeId × ThreadId) (store : Store) :
    (new native store : ComputeTier Resident).Waits [] where
  entered := fun _ isAssigned => absurd rfl isAssigned
  known := fun _ _ seenMem => nomatch seenMem
  ops := fun _ _ _ waits => nomatch waits
  reads := fun _ _ waits => nomatch waits
  asked := fun _ _ _ itemMem => nomatch itemMem

/-- A step in which no handler begins to wait. -/
theorem Waits.of_quieter (waits : tier.Waits seen) (assigned : after.assigned = tier.assigned)
    (arrived : ∀ item ∈ after.inFlight, item ∈ tier.inFlight ∨ item.Internal)
    (quieter : ∀ node handler opId, (after.sites node).handlers handler = .running opId →
      (tier.sites node).handlers handler = .running opId)
    (kept : ∀ node handler, (after.sites node).handlers handler = .running none →
      ∀ item ∈ tier.inFlight, item.From node handler → item ∈ after.inFlight)
    (replied : ∀ opId result, .answered opId result ∈ more → tier.assigned opId ≠ none)
    (unanswered : ∀ node handler opId result,
      (after.sites node).handlers handler = .running (some opId) → .answered opId result ∉ more) :
    after.Waits (seen ++ more) where
  entered := by
    intro opId isAssigned
    rw [assigned] at isAssigned
    rcases waits.entered opId isAssigned with ⟨request, asked⟩
    exact ⟨request, List.mem_append_left _ asked⟩
  known := by
    intro opId result seenMem
    rw [assigned]
    rcases List.mem_append.mp seenMem with earlier | isNew
    · exact waits.known opId result earlier
    · exact replied opId result isNew
  ops := by
    intro node handler opId runs
    rcases waits.ops node handler opId (quieter node handler _ runs) with ⟨isAssigned, unseen⟩
    rw [assigned]
    refine ⟨isAssigned, fun result seenMem => ?_⟩
    rcases List.mem_append.mp seenMem with earlier | isNew
    · exact unseen result earlier
    · exact unanswered node handler opId result runs isNew
  reads := by
    intro node handler runs
    rcases waits.reads node handler (quieter node handler _ runs) with ⟨item, itemMem, isFrom⟩
    exact ⟨item, kept node handler runs item itemMem isFrom, isFrom⟩
  asked := by
    intro receiver body handler itemMem
    rcases arrived _ itemMem with earlier | internal
    · exact waits.asked receiver body handler earlier
    · cases internal.2

/-- A step without events in which no handler begins to wait. -/
theorem Waits.of_silent (waits : tier.Waits seen) (assigned : after.assigned = tier.assigned)
    (arrived : ∀ item ∈ after.inFlight, item ∈ tier.inFlight ∨ item.Internal)
    (quieter : ∀ node handler opId, (after.sites node).handlers handler = .running opId →
      (tier.sites node).handlers handler = .running opId)
    (kept : ∀ item ∈ tier.inFlight, ¬item.Internal → item ∈ after.inFlight) :
    after.Waits (seen ++ []) :=
  waits.of_quieter assigned arrived quieter
    (fun _ _ _ item itemMem isFrom => kept item itemMem fun internal => internal.not_from isFrom)
    (fun _ _ impossible => nomatch impossible) fun _ _ _ _ _ impossible => nomatch impossible

theorem Waits.of_dispatch (waits : tier.Waits seen) {node : NodeId} {handler : ℕ}
    {thread : ThreadId} {request : ClientRequest} {site : Site}
    (fresh : ∀ opId, request.opId = some opId → tier.assigned opId = none)
    (acted : (tier.sites node).act handler (.dispatch request.opId) = some site)
    (asking : ∀ opId, request.opId = some opId → ∃ request, .asked opId request ∈ more)
    (unanswering : ∀ opId result, .answered opId result ∉ more) :
    ({ (tier.setSite node site).post
        [.message (node, thread) request.message (some handler)] with
      assigned := fun opId =>
        if request.opId = some opId then some ((node, thread), handler)
        else tier.assigned opId } : ComputeTier Resident).Waits (seen ++ more) where
  entered := by
    intro opId isAssigned
    by_cases isOp : request.opId = some opId
    · rcases asking opId isOp with ⟨request, asked⟩
      exact ⟨request, List.mem_append_right _ asked⟩
    · rcases waits.entered opId (by simpa [isOp] using isAssigned) with ⟨request, asked⟩
      exact ⟨request, List.mem_append_left _ asked⟩
  known := by
    intro opId result seenMem
    rcases List.mem_append.mp seenMem with earlier | isNew
    · dsimp only
      split
      · exact Option.some_ne_none _
      · exact waits.known opId result earlier
    · exact absurd isNew (unanswering opId result)
  ops := by
    intro other waiting opId runs
    have unseen : (∀ result, .answered opId result ∉ seen) →
        ∀ result, .answered opId result ∉ seen ++ more := by
      intro earlier result seenMem
      rcases List.mem_append.mp seenMem with isEarlier | isNew
      · exact earlier result isEarlier
      · exact unanswering opId result isNew
    have earlier : (tier.sites other).handlers waiting = .running (some opId) →
        (∃ place, (if request.opId = some opId then some ((node, thread), handler)
          else tier.assigned opId) = some ((other, place), waiting)) ∧
          ∀ result, .answered opId result ∉ seen ++ more := by
      intro before
      rcases waits.ops other waiting opId before with ⟨⟨place, isAssigned⟩, unanswered⟩
      refine ⟨⟨place, ?_⟩, unseen unanswered⟩
      rw [if_neg, isAssigned]
      intro isOp
      rw [fresh opId isOp] at isAssigned
      cases isAssigned
    by_cases same : other = node
    · rw [same] at runs earlier
      rw [same]
      have acting : site.handlers waiting = .running (some opId) :=
        (congrArg (fun site => site.handlers waiting) (sites_setSite_self tier node site)).symm.trans
          runs
      rcases Site.act_waits acted acting with before | ⟨rfl, isDispatch⟩
      · exact earlier before
      · rw [Action.dispatch.injEq] at isDispatch
        refine ⟨⟨thread, if_pos isDispatch⟩, unseen fun result seenMem => ?_⟩
        exact waits.known opId result seenMem (fresh opId isDispatch)
    · exact earlier ((congrArg (fun site => site.handlers waiting)
        (sites_setSite_ne tier site same)).symm.trans runs)
  reads := by
    intro other waiting runs
    by_cases same : other = node
    · rw [same] at runs ⊢
      have acting : site.handlers waiting = .running none :=
        (congrArg (fun site => site.handlers waiting) (sites_setSite_self tier node site)).symm.trans
          runs
      rcases Site.act_waits acted acting with before | ⟨rfl, isDispatch⟩
      · rcases waits.reads node waiting before with ⟨item, itemMem, isFrom⟩
        exact ⟨item, List.mem_append_left _ itemMem, isFrom⟩
      · exact ⟨_, List.mem_append_right _ (List.mem_singleton_self _), rfl, rfl⟩
    · rcases waits.reads other waiting ((congrArg (fun site => site.handlers waiting)
        (sites_setSite_ne tier site same)).symm.trans runs) with ⟨item, itemMem, isFrom⟩
      exact ⟨item, List.mem_append_left _ itemMem, isFrom⟩
  asked := by
    intro receiver body waiting itemMem
    rcases List.mem_append.mp itemMem with earlier | isNew
    · exact waits.asked receiver body waiting earlier
    · cases List.mem_singleton.mp isNew
      exact ⟨request, rfl⟩

/-- A turn answers the question it takes. -/
theorem read_settled (env : Env Resident) (self : ThreadId) (hint : DatumId)
    (worker : Worker Resident) (store : Store) {request : ClientRequest}
    (isRead : request.opId = none) (assigned : DatumId → Option ((NodeId × ThreadId) × ℕ))
    (handler : ℕ) :
    ∃ effect ∈ (env.handle self hint request.message worker store).effects,
      effect.settles assigned (some handler) = some (handler, none) := by
  cases request with
  | op opId opName datumIds payload => cases isRead
  | indexQuery target indexKind query =>
      simp only [ClientRequest.message, Env.handle, Env.serveIndexQuery]
      split <;> exact ⟨_, List.mem_singleton_self _, rfl⟩
  | indexExecute target indexKind payload =>
      simp only [ClientRequest.message, Env.handle, Env.serveIndexExecute]
      split <;> exact ⟨_, List.mem_singleton_self _, rfl⟩
  | existsCheck datumId => exact ⟨_, List.mem_singleton_self _, rfl⟩

/-- A thread takes a message, and answers what the message asks. -/
theorem Waits.of_take {spawn : Spawn Resident} (waits : tier.Waits seen) (ledger : tier.Ledger)
    {members : List NodeId} (attended : tier.Attended members) {kept : List Transit}
    (inFlight : tier.inFlight.Perm (.message receiver message origin :: kept)) (hint : DatumId) :
    (take spawn { tier with inFlight := kept } receiver hint message origin).Waits
      (seen ++ OpEvent.answers (tier.turn spawn receiver hint message).effects) := by
  rcases ledger.turned spawn inFlight hint with ⟨accounts, _, performed⟩
  rcases performed.posted with ⟨items, arrived, itemsSound, _⟩
  have begins : ∀ node handler opId,
      ((take spawn { tier with inFlight := kept } receiver hint message origin).sites
        node).handlers handler = .running opId →
      (tier.sites node).handlers handler = .running opId ∧
        (node = receiver.1 → ∀ effect ∈ (tier.turn spawn receiver hint message).effects,
          effect.settles tier.assigned origin ≠ some (handler, opId)) :=
    fun node handler opId runs => waits_foldl (tier.turn spawn receiver hint message).effects
      { setWorker { tier with inFlight := kept } receiver
          (tier.turn spawn receiver hint message).worker with
        store := (tier.turn spawn receiver hint message).store } runs
  have runs : ∀ opId result,
      .answered opId result ∈ OpEvent.answers (tier.turn spawn receiver hint message).effects →
        tier.Runs opId receiver := by
    intro opId result answers
    rcases (accounts.replied_op (OpEvent.mem_answers.mp answers)).2 with recorded | starts
    · exact ledger.placed receiver opId recorded
    · exact (ledger.fresh inFlight starts).1
  refine waits.of_quieter performed.assigned ?_ (fun node handler opId here =>
    (begins node handler opId here).1) ?_ ?_ ?_
  · intro item itemMem
    rw [arrived] at itemMem
    rcases List.mem_append.mp itemMem with isKept | isNew
    · exact Or.inl (inFlight.mem_iff.mpr (List.mem_cons_of_mem _ isKept))
    · exact Or.inr (itemsSound item isNew).2
  · intro node handler waiting item itemMem isFrom
    rcases begins node handler none waiting with ⟨before, unsettled⟩
    rw [arrived]
    rcases List.mem_cons.mp (inFlight.mem_iff.mp itemMem) with rfl | isKept
    · -- the turn would have answered the handler
      exfalso
      cases origin with
      | none => exact isFrom
      | some from_ =>
          rcases isFrom with ⟨here, rfl⟩
          rcases waits.asked receiver message from_ itemMem with ⟨request, rfl⟩
          have isRead := (attended.waiting receiver _ from_ itemMem).2
          rw [here, before, Handler.running.injEq, starts_request] at isRead
          rcases read_settled (tier.env spawn receiver.1) receiver.2 hint
            (tier.workers receiver.1 receiver.2) tier.store isRead.symm tier.assigned from_ with
            ⟨effect, effectMem, settles⟩
          exact unsettled here.symm effect effectMem settles
    · exact List.mem_append_left _ isKept
  · intro opId result answers
    rcases runs opId result answers with ⟨handler, isAssigned⟩
    rw [isAssigned]
    exact Option.some_ne_none _
  · intro node handler opId result waiting answers
    rcases begins node handler (some opId) waiting with ⟨before, unsettled⟩
    rcases waits.ops node handler opId before with ⟨⟨thread, isAssigned⟩, _⟩
    rcases runs opId result answers with ⟨other, assignedHere⟩
    have same := isAssigned.symm.trans assignedHere
    simp only [Option.some.injEq, Prod.mk.injEq] at same
    rcases same with ⟨rfl, rfl⟩
    refine unsettled rfl _ (OpEvent.mem_answers.mp answers) ?_
    simp only [Effect.settles, isAssigned, Option.map_some]

theorem waits_step {spawn : Spawn Resident} (waits : tier.Waits seen) (ledger : tier.Ledger)
    (attended : tier.Attended spawn.members) (stepped : step spawn tier label = some next) :
    next.Waits (seen ++ tier.events spawn label) := by
  cases label with
  | act node handler action =>
      simp only [step] at stepped
      split at stepped
      · rename_i allowed
        rcases Option.map_eq_some_iff.mp stepped with ⟨site, acted, rfl⟩
        refine waits.of_silent rfl (fun _ => Or.inl) ?_ fun _ itemMem _ => itemMem
        intro other waiting opId runs
        by_cases same : other = node
        · rw [same, sites_setSite_self] at runs
          rw [same]
          rcases Site.act_waits acted runs with before | ⟨_, rfl⟩
          · exact before
          · exact allowed.2.elim
        · rw [sites_setSite_ne _ _ same] at runs
          exact runs
      · cases stepped
  | dispatch node handler thread =>
      simp only [step] at stepped
      split at stepped
      · rename_i request admitted
        split at stepped
        · rename_i allowed
          rcases Option.map_eq_some_iff.mp stepped with ⟨site, acted, rfl⟩
          refine waits.of_dispatch ?_ acted ?_ ?_
          · intro opId isOp
            have fresh := allowed.2.2
            rw [isOp, Option.all_some] at fresh
            exact Option.isNone_iff_eq_none.mp fresh
          · simp only [events, admitted]
            cases request <;> simp [ClientRequest.opId]
          · simp only [events, admitted]
            cases request <;> simp
        · cases stepped
      · cases stepped
  | deliver index hint =>
      rcases Option.map_eq_some_iff.mp stepped with ⟨item, found, rfl⟩
      have inFlight := perm_eraseIdx found
      simp only [events, found]
      cases item with
      | message receiver message origin => exact waits.of_take ledger attended inFlight hint
      | request call receiver request =>
          have isCalled := ledger.sound _ (inFlight.mem_iff.mpr List.mem_cons_self)
          rcases Option.map_eq_some_iff.mp isCalled with ⟨filed, isFiled, _⟩
          simp only [arrive, isFiled]
          refine waits.of_silent rfl ?_ (fun _ _ _ => id) ?_
          · intro item itemMem
            rcases List.mem_append.mp itemMem with isKept | isNew
            · exact Or.inl (List.mem_of_mem_eraseIdx isKept)
            · rcases List.mem_append.mp isNew with acknowledged | isMessage
              · exact Or.inr (internal_acknowledged acknowledged)
              · cases List.mem_singleton.mp isMessage
                exact Or.inr ⟨internal_toMessage request _ call, rfl⟩
          · intro item itemMem notInternal
            refine List.mem_append_left _ ?_
            rcases List.mem_cons.mp (inFlight.mem_iff.mp itemMem) with rfl | isKept
            · exact absurd trivial notInternal
            · exact isKept
      | response call response =>
          rcases ledger.sound _ (inFlight.mem_iff.mpr List.mem_cons_self) with ⟨asked, isCalled, _⟩
          rcases Option.map_eq_some_iff.mp isCalled with ⟨filed, isFiled, _⟩
          simp only [arrive, isFiled]
          refine waits.of_silent rfl ?_ (fun _ _ _ => id) ?_
          · intro item itemMem
            rcases List.mem_append.mp itemMem with isKept | isNew
            · exact Or.inl (List.mem_of_mem_eraseIdx isKept)
            · rcases List.mem_map.mp isNew with ⟨message, posts, rfl⟩
              exact Or.inr ⟨internal_callback (Option.mem_toList.mp posts), rfl⟩
          · intro item itemMem notInternal
            refine List.mem_append_left _ ?_
            rcases List.mem_cons.mp (inFlight.mem_iff.mp itemMem) with rfl | isKept
            · exact absurd trivial notInternal
            · exact isKept
  | reroute node native =>
      cases stepped
      exact waits.of_silent rfl (fun _ => Or.inl) (fun _ _ _ => id) fun _ itemMem _ => itemMem
  | halt node reason =>
      cases stepped
      refine waits.of_silent rfl (fun _ => Or.inl) ?_ fun _ itemMem _ => itemMem
      intro other waiting opId runs
      by_cases same : other = node
      · rw [same, sites_setSite_self] at runs
        rw [same]
        exact runs
      · rw [sites_setSite_ne _ _ same] at runs
        exact runs
  | evict receiver isNative =>
      cases stepped
      refine waits.of_silent rfl ?_ (fun _ _ _ => id) fun _ itemMem _ =>
        List.mem_append_left _ itemMem
      intro item itemMem
      rcases List.mem_append.mp itemMem with earlier | isNew
      · exact Or.inl earlier
      · cases List.mem_singleton.mp isNew
        exact Or.inr ⟨trivial, rfl⟩
  | bury receiver dead =>
      cases stepped
      refine waits.of_silent rfl ?_ (fun _ _ _ => id) fun _ itemMem _ =>
        List.mem_append_left _ itemMem
      intro item itemMem
      rcases List.mem_append.mp itemMem with earlier | isNew
      · exact Or.inl earlier
      · cases List.mem_singleton.mp isNew
        exact Or.inr ⟨trivial, rfl⟩

/-- In every run, whatever happens to the ring. -/
theorem waits_of_trace {spawn : Spawn Resident} {native : NodeId → DatumId → NodeId × ThreadId}
    {store : Store} {allowed : ComputeTier Resident → TierLabel → Prop} {labels : List TierLabel}
    (trace : (system spawn).Trace allowed (new native store) labels tier) :
    tier.Ledger ∧ tier.Attended spawn.members ∧
      tier.Waits ((system spawn).observed (events spawn) (new native store) labels) := by
  induction trace with
  | refl => exact ⟨ledger_new native store, attended_new native store, waits_new native store⟩
  | tail label before _ stepped ih =>
      rcases ih with ⟨ledger, attended, waits⟩
      rw [before.observed_snoc stepped]
      exact ⟨ledger_step ledger stepped, attended_step attended ledger stepped,
        waits_step waits ledger attended stepped⟩

/-! ## Nothing is left to do -/

/-- No op has a record, no lock is held or waited for, every op that was asked for has been answered
once, and no handler waits for a thread. -/
structure Settled (tier : ComputeTier Resident) (seen : List OpEvent) : Prop where
  records : ∀ (place : NodeId × ThreadId) opId, (tier.workers place.1 place.2).record opId = none
  locks : ∀ (place : NodeId × ThreadId) datumId,
    ((tier.workers place.1 place.2).lock datumId).currentHolder = none ∧
      ((tier.workers place.1 place.2).lock datumId).waiters = []
  answered : ∀ opId request, .asked opId request ∈ seen →
    ((seen.filterMap OpEvent.toReply).map Prod.fst).count opId = 1
  handlers : ∀ node handler opId, (tier.sites node).handlers handler ≠ .running opId

section Quiet

variable {spawn : Spawn Resident} {native : DatumId → NodeId × ThreadId} {node : Node Resident}

theorem inFlight_of_joined (joined : Joint.Joined native tier node) (quiet : tier.inFlight = []) :
    node.inFlight = [] := by
  have nothing := joined.inFlight
  rw [quiet, List.flatMap_nil, List.perm_nil, List.map_eq_nil_iff] at nothing
  exact nothing

theorem unrecorded_of_quiet (joined : Joint.Joined native tier node)
    (invariant : Node.ProgressInvariant (Joint.env spawn native) node) (quiet : node.inFlight = [])
    (place : NodeId × ThreadId) (opId : DatumId) :
    (tier.workers place.1 place.2).record opId = none := by
  have noSignals : (node.view (Joint.env spawn native)).signals = 0 := by
    simp [Node.view, quiet]
  have noTicket :=
    invariant.progress.no_ticket invariant.life noSignals opId (Joint.thread place)
  simp only [Node.view, Option.map_eq_none_iff] at noTicket
  rw [record_of_joined joined] at noTicket
  exact noTicket

theorem unlocked_of_quiet (joined : Joint.Joined native tier node)
    (invariant : Node.ProgressInvariant (Joint.env spawn native) node) (quiet : node.inFlight = [])
    (place : NodeId × ThreadId) (datumId : DatumId) :
    ((tier.workers place.1 place.2).lock datumId).currentHolder = none ∧
      ((tier.workers place.1 place.2).lock datumId).waiters = [] := by
  have noSignals : (node.view (Joint.env spawn native)).signals = 0 := by
    simp [Node.view, quiet]
  have jointFree : ((node.workers (Joint.thread place)).lock datumId).currentHolder = none ∧
      ((node.workers (Joint.thread place)).lock datumId).waiters = [] := by
    by_cases atHome : (Joint.env spawn native).home datumId = Joint.thread place
    · have free := invariant.progress.lock_free invariant.life noSignals datumId
      rw [← atHome]
      simpa [Node.view, NativeLock.view, Node.lock] using free
    · rw [invariant.routed.strangers (Joint.thread place) datumId atHome]
      exact ⟨rfl, rfl⟩
  rw [lock_of_joined joined] at jointFree
  simpa [Joint.lock] using jointFree

end Quiet

end ComputeTier

end Seisin
