import Seisin.Node.Progress
import Seisin.Worker.Discard
import Seisin.Types.TypedContext

/-!
# What a failed op leaves behind

An op sends its index updates to the threads that own the indexes, and each of them applies and
stores an update it accepts at once; only the op's own staged writes wait for all replies.  So an op
that fails leaves everything as it was exactly as far as the updates that were accepted for it
changed nothing: there is no way to take one back.
-/

namespace Seisin

open Transition WoundWait

variable {Resident : Type}

/-- Applying `payload` leaves the resident structure and the stored blob as they are. -/
def IndexKinds.Neutral (indexKinds : IndexKinds Resident) (resident : Resident) (payload : Bytes)
    (stored : Option Bytes) : Prop :=
  (indexKinds.apply resident payload).1 = resident ∧
    ((indexKinds.apply resident payload).2.violation = none →
      (indexKinds.apply resident payload).2.writeThrough.onStored stored = stored)

/-- `after` is `before`, except that cold indexes may have been opened from a copy of theirs: the one
cached by the owning thread or the stored one. -/
def IndexKinds.OpenedFrom (indexKinds : IndexKinds Resident) (cache : Cache) (store : Store)
    (before after : DatumId → Option Resident) : Prop :=
  ∀ target, after target = before target ∨
    (before target = none ∧ ∃ resident indexKind openKind stored, after target = some resident ∧
      indexKinds.kinds indexKind = some openKind ∧ openKind target stored = .ok resident ∧
      (stored = store target ∨ (stored = cache target ∧ stored ≠ none)))

namespace IndexKinds.OpenedFrom

variable {indexKinds : IndexKinds Resident} {cache loaded : Cache} {store : Store}
  {first second third : DatumId → Option Resident}

theorem refl (indexKinds : IndexKinds Resident) (cache : Cache) (store : Store)
    (residents : DatumId → Option Resident) :
    indexKinds.OpenedFrom cache store residents residents :=
  fun _ => Or.inl rfl

theorem trans (left : indexKinds.OpenedFrom cache store first second)
    (cached : Cache.LoadedFrom store cache loaded)
    (right : indexKinds.OpenedFrom loaded store second third) :
    indexKinds.OpenedFrom cache store first third := by
  intro target
  rcases right target with same | ⟨cold, resident, indexKind, openKind, stored, isOpen,
    registered, opens, source⟩
  · rw [same]
    exact left target
  · rcases left target with sameFirst | ⟨_, earlier, _, _, _, isEarlier, _⟩
    · right
      refine ⟨sameFirst.symm.trans cold, resident, indexKind, openKind, stored, isOpen, registered,
        opens, ?_⟩
      rcases source with fromStore | ⟨fromCache, present⟩
      · exact Or.inl fromStore
      · rcases cached target with kept | dropped | reloaded
        · exact Or.inr ⟨fromCache.trans kept, present⟩
        · exact absurd (fromCache.trans dropped) present
        · exact Or.inl (fromCache.trans reloaded)
    · rw [cold] at isEarlier
      cases isEarlier

end IndexKinds.OpenedFrom

/-! ## Serving a neutral update -/

namespace Env

variable {env : Env Resident}

theorem residentFor_found {worker opened : Worker Resident} {store : Store} {target : DatumId}
    {indexKind : String} {resident : Resident}
    (accessed : env.residentFor worker store target indexKind = (.ok resident, opened)) :
    opened.residentIndexes target = some resident ∧
      env.indexKinds.OpenedFrom worker.cache store worker.residentIndexes
        opened.residentIndexes ∧
      Cache.LoadedFrom store worker.cache opened.cache := by
  unfold residentFor at accessed
  cases was : worker.residentIndexes target with
  | some before =>
      simp only [was, Prod.mk.injEq, Except.ok.injEq] at accessed
      rcases accessed with ⟨rfl, rfl⟩
      exact ⟨was, .refl _ _ _ _, .refl store _⟩
  | none =>
      simp only [was] at accessed
      unfold IndexKinds.openResident at accessed
      cases registered : env.indexKinds.kinds indexKind with
      | none => simp [registered] at accessed
      | some openKind =>
          simp only [registered] at accessed
          have loaded : Cache.LoadedFrom store worker.cache _ :=
            .getReplicated worker.cache target 1
          have read := worker.cache.getReplicated_fst store target 1
          unfold Cache.get at accessed
          generalize worker.cache.getReplicated store target 1 = got at accessed loaded read
          rcases got with ⟨value, cache⟩
          simp only at accessed loaded read
          cases opens : openKind target value with
          | error message => simp [opens] at accessed
          | ok built =>
              simp only [opens, Prod.mk.injEq, Except.ok.injEq] at accessed
              rcases accessed with ⟨rfl, rfl⟩
              refine ⟨Function.update_self _ _ _, ?_, loaded⟩
              intro other
              by_cases same : other = target
              · subst same
                right
                refine ⟨was, built, indexKind, openKind, value, Function.update_self _ _ _,
                  registered, opens, ?_⟩
                cases cached : worker.cache other with
                | none =>
                    left
                    rw [read, cached]
                    rfl
                | some bytes =>
                    right
                    rw [read, cached]
                    simp
              · left
                exact Function.update_of_ne same _ _

theorem residentFor_failed {worker opened : Worker Resident} {store : Store} {target : DatumId}
    {indexKind message : String}
    (accessed : env.residentFor worker store target indexKind = (.error message, opened)) :
    opened.residentIndexes = worker.residentIndexes ∧
      Cache.LoadedFrom store worker.cache opened.cache := by
  unfold residentFor at accessed
  cases was : worker.residentIndexes target with
  | some before => simp [was] at accessed
  | none =>
      simp only [was] at accessed
      unfold IndexKinds.openResident at accessed
      cases registered : env.indexKinds.kinds indexKind with
      | none =>
          simp only [registered, Prod.mk.injEq] at accessed
          rcases accessed with ⟨_, rfl⟩
          exact ⟨rfl, .refl store _⟩
      | some openKind =>
          simp only [registered] at accessed
          have loaded : Cache.LoadedFrom store worker.cache _ :=
            .getReplicated worker.cache target 1
          unfold Cache.get at accessed
          generalize worker.cache.getReplicated store target 1 = got at accessed loaded
          rcases got with ⟨value, cache⟩
          simp only at accessed loaded
          cases opens : openKind target value with
          | error failure =>
              simp only [opens, Prod.mk.injEq] at accessed
              rcases accessed with ⟨_, rfl⟩
              exact ⟨rfl, loaded⟩
          | ok built => simp [opens] at accessed

/-- Writing back what is stored already changes nothing but the cached copy. -/
theorem writeThrough_neutral {outcome : IndexApplyOutcome} {target : DatumId} {store : Store}
    (cache : Cache)
    (neutral : outcome.violation = none →
      outcome.writeThrough.onStored (store target) = store target) :
    (writeThrough outcome target cache store).2 = store ∧
      Cache.LoadedFrom store cache (writeThrough outcome target cache store).1 := by
  unfold writeThrough
  cases violated : outcome.violation with
  | some message => exact ⟨rfl, .refl store _⟩
  | none =>
      have same := neutral violated
      simp only [Option.isNone_none, if_true]
      cases writes : outcome.writeThrough with
      | none => exact ⟨rfl, .refl store _⟩
      | put bytes =>
          simp only [writes, WriteThrough.onStored] at same
          constructor
          · funext id
            by_cases atTarget : id = target
            · simp [Cache.put, Cache.putReplicated, Store.putReplicated, atTarget, same]
            · simp [Cache.put, Cache.putReplicated, Store.putReplicated, atTarget]
          · intro id
            by_cases atTarget : id = target
            · right
              right
              simp [Cache.put, Cache.putReplicated, atTarget, same]
            · left
              simp [Cache.put, Cache.putReplicated, atTarget]
      | delete =>
          simp only [writes, WriteThrough.onStored] at same
          constructor
          · funext id
            by_cases atTarget : id = target
            · simp [Cache.delete, Cache.deleteReplicated, Store.deleteReplicated, atTarget, same]
            · simp [Cache.delete, Cache.deleteReplicated, Store.deleteReplicated, atTarget]
          · intro id
            by_cases atTarget : id = target
            · right
              left
              simp [Cache.delete, Cache.deleteReplicated, atTarget]
            · left
              simp [Cache.delete, Cache.deleteReplicated, atTarget]

/-- Serving a neutral update opens its index at most. -/
theorem serveIndexUpdate_neutral {worker : Worker Resident} {store : Store}
    {target opId : DatumId} {indexKind : String} {payload : Bytes} {reply : IndexUpdateReply}
    (neutral : ∀ resident, (env.residentFor worker store target indexKind).1 = .ok resident →
      env.indexKinds.Neutral resident payload (store target)) :
    (env.serveIndexUpdate worker store target opId indexKind payload reply).store = store ∧
      env.indexKinds.OpenedFrom worker.cache store worker.residentIndexes
        (env.serveIndexUpdate worker store target opId indexKind payload
          reply).worker.residentIndexes ∧
      Cache.LoadedFrom store worker.cache
        (env.serveIndexUpdate worker store target opId indexKind payload reply).worker.cache := by
  unfold serveIndexUpdate
  rcases accessed : env.residentFor worker store target indexKind with
    ⟨message | resident, opened⟩
  · rcases residentFor_failed accessed with ⟨same, loaded⟩
    refine ⟨rfl, ?_, loaded⟩
    dsimp only
    rw [same]
    exact .refl _ _ _ _
  · rcases residentFor_found accessed with ⟨found, openedFrom, loaded⟩
    rcases neutral resident (by rw [accessed]) with ⟨unchanged, persisted⟩
    rcases writeThrough_neutral opened.cache persisted with ⟨stored, written⟩
    refine ⟨stored, ?_, loaded.trans written⟩
    dsimp only
    rw [unchanged, ← found, Function.update_eq_self]
    exact openedFrom

end Env

/-! ## The blob-persisted kinds refuse without a trace -/

theorem SkResidentIndex.apply_refused {entries : SkEntries} {payload : Bytes}
    (refused : (SkResidentIndex.apply entries payload).2.violation ≠ none) :
    (SkResidentIndex.apply entries payload).1 = entries := by
  unfold SkResidentIndex.apply at refused ⊢
  cases decoded : decodeSkIndexOp payload with
  | error message => rfl
  | ok op =>
      simp only [decoded] at refused
      cases op with
      | remove pkId => exact absurd rfl refused
      | insert pkId conflictOp =>
          cases conflictOp with
          | none => exact absurd rfl refused
          | some name =>
              by_cases taken : entries.any fun entry => entry.1 ≠ pkId
              · simp only [taken, if_true]
              · simp only [taken] at refused
                exact absurd rfl refused

theorem FkPendingResident.apply_refused {entries : FkEntries} {payload : Bytes}
    (refused : (FkPendingResident.apply entries payload).2.violation ≠ none) :
    (FkPendingResident.apply entries payload).1 = entries := by
  unfold FkPendingResident.apply at refused ⊢
  split
  · rfl
  · simp_all [FkPendingResident.outcome]
  · simp_all [FkPendingResident.outcome]
  · rfl

/-- An update that is refused is neutral, if the other registered kinds refuse the same way. -/
theorem typedIndexKinds_neutral {Other : Type} {others : IndexKinds Other}
    (trackless : ∀ resident payload, (others.apply resident payload).2.violation ≠ none →
      (others.apply resident payload).1 = resident)
    {resident : TypedResident Other} {payload : Bytes}
    (refused : ((typedIndexKinds others).apply resident payload).2.violation ≠ none)
    (stored : Option Bytes) : (typedIndexKinds others).Neutral resident payload stored := by
  refine ⟨?_, fun accepted => absurd accepted refused⟩
  cases resident with
  | sk entries => exact congrArg TypedResident.sk (SkResidentIndex.apply_refused refused)
  | fkPending entries =>
      exact congrArg TypedResident.fkPending (FkPendingResident.apply_refused refused)
  | other inner => exact congrArg TypedResident.other (trackless inner payload refused)

/-! ## An op running by itself -/

/-- The steps a node takes on its own. -/
def NodeLabel.Internal : NodeLabel → Prop
  | .deliver _ _ _ => True
  | _ => False

namespace Node

variable {env : Env Resident}

/-- If the step delivers an index update, then the update leaves its index as it is. -/
def UpdatesNeutral (env : Env Resident) (node : Node Resident) (label : NodeLabel) : Prop :=
  ∀ sender receiver hint target opId indexKind payload reply resident,
    label = .deliver sender receiver hint →
    node.inFlight.find? (between sender receiver) =
      some ⟨sender, receiver, .indexUpdate target opId indexKind payload reply⟩ →
    (env.residentFor (node.workers receiver) node.store target indexKind).1 = .ok resident →
    env.indexKinds.Neutral resident payload (node.store target)

/-- The store is the same, and so are the resident indexes, except that cold ones may have been
opened from what was stored or cached. -/
structure Untouched (env : Env Resident) (before after : Node Resident) : Prop where
  stored : after.store = before.store
  residents : ∀ thread, env.indexKinds.OpenedFrom (before.workers thread).cache before.store
    (before.workers thread).residentIndexes (after.workers thread).residentIndexes
  cached : ∀ thread, Cache.LoadedFrom before.store (before.workers thread).cache
    (after.workers thread).cache

/-- What holds while `opId` runs by itself on the node `before`: as long as it is not answered with
a result, the node is untouched. -/
structure Isolated (env : Env Resident) (before : Node Resident) (opId : DatumId)
    (node : Node Resident) : Prop where
  reachable : (system env).Reachable node
  submitted : node.submitted = opId :: before.submitted
  replies : before.replies <+: node.replies
  clients : ∀ packet ∈ node.inFlight, packet.sender = .client → ¬packet.message.ServesIndex
  kept : Untouched env before node ∨ ∃ result, (opId, .ok result) ∈ node.replies

/-- No op is answered twice. -/
theorem replied_once (standalone : env.Standalone) {node : Node Resident}
    (reached : (system env).Reachable node) (opId : DatumId) :
    (node.replies.map Prod.fst).count opId ≤ 1 := by
  rcases (progressInvariant_of_reachable standalone reached).life.phases opId with
    ⟨phase, inPhase⟩
  have counted : (node.replies.map Prod.fst).count opId = phase.replies := inPhase.replied
  rw [counted]
  cases phase <;> simp [Phase.replies]

/-- Only submitted ops are answered. -/
theorem submitted_of_replied (standalone : env.Standalone) {node : Node Resident}
    (reached : (system env).Reachable node) {opId : DatumId}
    (replied : opId ∈ node.replies.map Prod.fst) : opId ∈ node.submitted := by
  rcases (progressInvariant_of_reachable standalone reached).life.phases opId with
    ⟨phase, inPhase⟩
  have counted : (node.replies.map Prod.fst).count opId = phase.replies := inPhase.replied
  have positive := List.count_pos_iff.mpr replied
  have entered : phase ≠ .unsubmitted := by
    rintro rfl
    simp only [Phase.replies] at counted
    omega
  exact inPhase.submitted.mpr entered

/-- A reply given now is given to the op that runs. -/
theorem replied_eq (standalone : env.Standalone) {before node next : Node Resident}
    {opId other : DatumId} (settled : before.Settled) (isolated : Isolated env before opId node)
    (reached : (system env).Reachable next) (submitted : next.submitted = node.submitted)
    {answers : List (DatumId × Except String Bytes)}
    (replies : next.replies = node.replies ++ answers) {result : Except String Bytes}
    (answered : (other, result) ∈ answers) : other = opId := by
  have now : (answers.map Prod.fst).count other ≥ 1 :=
    List.count_pos_iff.mpr (List.mem_map_of_mem answered)
  have once := replied_once standalone reached other
  have known : other ∈ next.submitted := by
    apply submitted_of_replied standalone reached
    rw [replies, List.map_append, List.mem_append]
    exact Or.inr (List.mem_map_of_mem answered)
  rw [submitted, isolated.submitted, List.mem_cons] at known
  rcases known with same | earlier
  · exact same
  · rcases isolated.replies with ⟨later, extended⟩
    have already := settled.replied other earlier
    rw [replies, ← extended, List.map_append, List.map_append, List.count_append,
      List.count_append] at once
    omega

/-- A turn that keeps the store and opens indexes at most keeps the node untouched. -/
theorem Untouched.turn {before node : Node Resident} (untouched : Untouched env before node)
    {receiver : ThreadId} {rest : List Packet} {turn : Turn Resident}
    (stored : turn.store = node.store)
    (residents : env.indexKinds.OpenedFrom (node.workers receiver).cache node.store
      (node.workers receiver).residentIndexes turn.worker.residentIndexes)
    (cached : Cache.LoadedFrom node.store (node.workers receiver).cache turn.worker.cache) :
    Untouched env before (node.afterTurn receiver rest turn) := by
  rw [untouched.stored] at residents cached
  refine ⟨stored.trans untouched.stored, ?_, ?_⟩
  · intro thread
    by_cases same : thread = receiver
    · subst same
      simp only [afterTurn, Function.update_self]
      exact (untouched.residents thread).trans (untouched.cached thread) residents
    · simp only [afterTurn, Function.update_of_ne same]
      exact untouched.residents thread
  · intro thread
    by_cases same : thread = receiver
    · subst same
      simp only [afterTurn, Function.update_self]
      exact (untouched.cached thread).trans cached
    · simp only [afterTurn, Function.update_of_ne same]
      exact untouched.cached thread

theorem isolated_step (standalone : env.Standalone) {before node next : Node Resident}
    {opId : DatumId} (settled : before.Settled) (isolated : Isolated env before opId node)
    {label : NodeLabel} (internal : label.Internal) (neutral : node.UpdatesNeutral env label)
    (stepped : step env node label = some next) : Isolated env before opId next := by
  have routed := routed_of_reachable standalone isolated.reachable
  have reached : (system env).Reachable next := isolated.reachable.tail trivial stepped
  cases label with
  | deliver sender receiver hint =>
      rcases step_deliver stepped with ⟨message, rest, consumed, first, rfl⟩
      have inFlight : (⟨sender, receiver, message⟩ : Packet) ∈ node.inFlight :=
        consumed.mem_iff.mpr List.mem_cons_self
      refine ⟨reached, isolated.submitted, ?_, ?_, ?_⟩
      · exact isolated.replies.trans (List.prefix_append _ _)
      · intro packet packetMem fromClient
        rcases List.mem_append.mp packetMem with packetMem | packetMem
        · exact isolated.clients packet
            (consumed.mem_iff.mpr (List.mem_cons_of_mem _ packetMem)) fromClient
        · rcases List.mem_filterMap.mp packetMem with ⟨effect, _, isPacket⟩
          cases effect <;> cases isPacket
          cases fromClient
      · rcases isolated.kept with untouched | ⟨result, answered⟩
        · by_cases serves : message.ServesIndex
          · left
            cases message with
            | indexUpdate target updatedOp indexKind payload reply =>
                rcases env.serveIndexUpdate_neutral (fun resident found =>
                  neutral sender receiver hint target updatedOp indexKind payload reply resident
                    rfl first found) with ⟨stored, residents, cached⟩
                exact untouched.turn stored residents cached
            | indexQuery target indexKind query =>
                exact absurd serves (isolated.clients _ inFlight (routed.packets _ inFlight))
            | indexExecute target indexKind payload =>
                exact absurd serves (isolated.clients _ inFlight (routed.packets _ inFlight))
            | _ => cases serves
          · have local_ := (routed.packets _ inFlight).not_remote
            cases env.handle_outcome receiver hint local_ serves (node.workers receiver)
              node.store with
            | quiet stored residents cached =>
                left
                refine untouched.turn stored ?_ cached
                rw [residents]
                exact .refl _ _ _ _
            | answered other result replies =>
                right
                have answers := List.mem_filterMap.mpr
                  ⟨_, replies, (rfl : Effect.toReply _ = some (other, .ok result))⟩
                have same := replied_eq standalone settled isolated reached rfl rfl answers
                subst same
                exact ⟨result, List.mem_append.mpr (Or.inr answers)⟩
        · exact Or.inr ⟨result, List.mem_append.mpr (Or.inl answered)⟩
  | _ => cases internal

theorem isolated_submit {before started : Node Resident} {thread : ThreadId} {opId : DatumId}
    {opName : String} {datumIds : List DatumId} {payload : Bytes}
    (reached : (system env).Reachable before) (quiescent : before.inFlight = [])
    (submitted : step env before (.submit thread opId opName datumIds payload) = some started) :
    Isolated env before opId started := by
  have stepped : (system env).step before (.submit thread opId opName datumIds payload) =
      some started := submitted
  have reachable : (system env).Reachable started := reached.tail trivial stepped
  simp only [step] at submitted
  split at submitted
  · cases submitted
  · cases submitted
    refine ⟨reachable, rfl, List.prefix_rfl, ?_, Or.inl ?_⟩
    · intro packet packetMem _ serves
      simp only [post, quiescent, List.nil_append, List.mem_singleton] at packetMem
      subst packetMem
      exact serves
    · exact ⟨rfl, fun _ => .refl _ _ _ _, fun _ => .refl _ _⟩

/-- An op that runs by itself on a quiescent node, none of whose index updates changes its index,
and that is answered with an error leaves the node untouched. -/
theorem untouched_of_failed (standalone : env.Standalone) {before started after : Node Resident}
    {thread : ThreadId} {opId : DatumId} {opName : String} {datumIds : List DatumId}
    {payload : Bytes} {message : String} (reached : (system env).Reachable before)
    (quiescent : before.inFlight = [])
    (submitted : step env before (.submit thread opId opName datumIds payload) = some started)
    (run : (system env).Run
      (fun node label => label.Internal ∧ node.UpdatesNeutral env label) started after)
    (failed : (opId, .error message) ∈ after.replies) : Untouched env before after := by
  have settled := settled_of_quiescent standalone reached quiescent
  have isolated : Isolated env before opId after := by
    apply run.induction _ (isolated_submit reached quiescent submitted)
    intro node label next isolated meets stepped
    exact isolated_step standalone settled isolated meets.1 meets.2 stepped
  rcases isolated.kept with untouched | ⟨result, answered⟩
  · exact untouched
  -- a result and an error would be two answers to one op
  · have once := replied_once standalone isolated.reachable opId
    rcases List.append_of_mem answered with ⟨earlier, later, split⟩
    rw [split, List.mem_append, List.mem_cons] at failed
    rw [split, List.map_append, List.map_cons, List.count_append, List.count_cons_self] at once
    rcases failed with inEarlier | same | inLater
    · have positive : 0 < (earlier.map Prod.fst).count opId :=
        List.count_pos_iff.mpr (List.mem_map_of_mem inEarlier)
      omega
    · cases same
    · have positive : 0 < (later.map Prod.fst).count opId :=
        List.count_pos_iff.mpr (List.mem_map_of_mem inLater)
      omega

/-! ## Two users and one address -/

/-- A user is found by name and, uniquely, by email. -/
def userType : DatumTypeDef :=
  { DatumTypeDef.new "user" with
    fields := [("name", .string), ("email", .string)]
    indexes := [.sk "name" none, .sk "email" (some ⟨"resolve"⟩)] }

/-- A mailbox is found, uniquely, by its address. -/
def mailboxType : DatumTypeDef :=
  { DatumTypeDef.new "mailbox" with
    fields := [("address", .string)]
    indexes := [.sk "address" (some ⟨"resolve"⟩)] }

/-- Creates a user with a one-letter name and an email, or a mailbox. -/
def directoryOps : String → Option (List DatumId → Bytes → TypedProg)
  | "signUp" => some fun datumIds payload =>
      .set (datumIds.headD 0) userType
        [.string ((ByteString.toString? (payload.take 1)).getD ""),
          .string ((ByteString.toString? (payload.drop 1)).getD "")]
        fun _ => .done []
  | "reserve" => some fun datumIds payload =>
      .set (datumIds.headD 0) mailboxType
        [.string ((ByteString.toString? payload).getD "")]
        fun _ => .done []
  | _ => none

/-- The ids the names used below derive. -/
def directoryIds (name : Bytes) : DatumId :=
  if name = ByteString.ofString "sk:user.name:a" then 0xa2b68f1f7f235fc38617ff992c059334
  else if name = ByteString.ofString "sk:user.name:b" then 0xa9aab00061b253e9ba50f9d4928f436b
  else if name = ByteString.ofString "sk:user.email:x" then 0x0ec1dd6ce6ff5f43bb48c6169b8f9471
  else if name = ByteString.ofString "sk:mailbox.address:x" then
    0xf824d96ce43652fa8feea4e3c8ef360c
  else 0

/-- A node whose thread 0 is home of every datum and registers the blob-persisted kinds alone. -/
def directoryEnv : Env (TypedResident Empty) where
  selfNodeId := 0
  native := fun _ => (0, 0)
  linked := fun _ => false
  ops := TypedEnv.ops ⟨directoryIds, id⟩ directoryOps
  indexKinds := typedIndexKinds
    { kinds := fun _ => none
      apply := fun resident _ => nomatch resident
      query := fun resident _ => nomatch resident
      execute := fun resident _ => nomatch resident }

/-- Two version-7 ids. -/
def firstPk : DatumId := 0x019f0000000070008000000000000001

def secondPk : DatumId := 0x019f0000000070008000000000000002

/-- The deliveries of an op of thread 1 with the given number of index updates, all served by
thread 0, until it is answered and its datum released. -/
def directoryDeliveries (updates : ℕ) : List NodeLabel :=
  [.deliver .client 1 0, .deliver (.worker 1) 0 0, .deliver (.worker 0) 1 0] ++
    List.replicate updates (.deliver (.worker 1) 0 0) ++
    List.replicate updates (.deliver (.worker 0) 1 0) ++ [.deliver (.worker 1) 0 0]

/-- Whether the step is a delivery that leaves the index it updates, if any, as it is. -/
def updatesNeutral (env : Env (TypedResident Empty)) (node : Node (TypedResident Empty)) :
    NodeLabel → Bool
  | .deliver sender receiver _ =>
      match node.inFlight.find? (between sender receiver) with
      | some ⟨_, _, .indexUpdate target _ indexKind payload _⟩ =>
          match (env.residentFor (node.workers receiver) node.store target indexKind).1 with
          | .ok resident =>
              (env.indexKinds.apply resident payload).1 = resident &&
                ((env.indexKinds.apply resident payload).2.violation.isSome ||
                  (env.indexKinds.apply resident payload).2.writeThrough.onStored
                    (node.store target) = node.store target)
          | .error _ => true
      | _ => true
  | _ => false

theorem updatesNeutral_sound {env : Env (TypedResident Empty)}
    {node : Node (TypedResident Empty)} {label : NodeLabel}
    (tested : updatesNeutral env node label = true) :
    label.Internal ∧ node.UpdatesNeutral env label := by
  cases label with
  | deliver sender receiver hint =>
      refine ⟨trivial, ?_⟩
      rintro _ _ _ target opId indexKind payload reply resident ⟨⟩ first found
      simp only [updatesNeutral, first, found, Bool.and_eq_true, Bool.or_eq_true,
        decide_eq_true_eq] at tested
      rcases tested with ⟨same, refused | stored⟩
      · refine ⟨same, fun accepted => ?_⟩
        simp [accepted] at refused
      · exact ⟨same, fun _ => stored⟩
  | _ => cases tested

/-- The node after op 1, after the submission of op 2 and after its deliveries, both ops creating a
datum under the given name. -/
def createTwice (guard : Node (TypedResident Empty) → NodeLabel → Bool) (opName : String)
    (updates : ℕ) (first second : String) :
    Option (Node (TypedResident Empty) × Node (TypedResident Empty) ×
      Node (TypedResident Empty)) :=
  ((system directoryEnv).exec (new fun _ => none)
    (.submit 1 1 opName [firstPk] (ByteString.ofString first) ::
      directoryDeliveries updates)).bind fun before =>
  (step directoryEnv before
    (.submit 1 2 opName [secondPk] (ByteString.ofString second))).bind fun started =>
  ((system directoryEnv).execVia guard started (directoryDeliveries updates)).map fun after =>
  (before, started, after)

theorem createTwice_spec {guard : Node (TypedResident Empty) → NodeLabel → Bool}
    {allowed : Node (TypedResident Empty) → NodeLabel → Prop}
    (sound : ∀ node label, guard node label = true → allowed node label) {opName : String}
    {updates : ℕ} {first second : String} {before started after : Node (TypedResident Empty)}
    (created : createTwice guard opName updates first second = some (before, started, after)) :
    (system directoryEnv).Reachable before ∧
      step directoryEnv before (.submit 1 2 opName [secondPk] (ByteString.ofString second)) =
        some started ∧
      (system directoryEnv).Run allowed started after := by
  simp only [createTwice, Option.bind_eq_some_iff, Option.map_eq_some_iff, Prod.mk.injEq]
    at created
  rcases created with ⟨_, executed, _, submitted, _, ran, rfl, rfl, rfl⟩
  exact ⟨System.reachable_of_exec ⟨_, rfl⟩ executed, submitted,
    System.runVia_of_execVia sound ran⟩

theorem untouched_of_failed_reserve : ∃ before started after,
    (system directoryEnv).Reachable before ∧ before.inFlight = [] ∧
    step directoryEnv before (.submit 1 2 "reserve" [secondPk] (ByteString.ofString "x")) =
      some started ∧
    (system directoryEnv).Run
      (fun node label => label.Internal ∧ node.UpdatesNeutral directoryEnv label) started after ∧
    (2, .error "resolve") ∈ after.replies ∧ Untouched directoryEnv before after := by
  have observed : (createTwice (updatesNeutral directoryEnv) "reserve" 1 "x" "x").map
      (fun states => (states.1.inFlight.length,
        decide ((2, Except.error "resolve") ∈ states.2.2.replies))) = some (0, true) := by
    decide +kernel
  rcases Option.map_eq_some_iff.mp observed with ⟨⟨before, started, after⟩, created, seen⟩
  simp only [Prod.mk.injEq, List.length_eq_zero_iff, decide_eq_true_eq] at seen
  rcases seen with ⟨quiescent, failed⟩
  rcases createTwice_spec (fun _ _ => updatesNeutral_sound) created with
    ⟨reached, submitted, run⟩
  exact ⟨before, started, after, reached, quiescent, submitted, run, failed,
    untouched_of_failed (fun _ => rfl) reached quiescent submitted run failed⟩

/-- The second user's name was entered, though the email it shares with the first was refused. -/
theorem touched_though_failed : ∃ before started after,
    (system directoryEnv).Reachable before ∧ before.inFlight = [] ∧
    step directoryEnv before (.submit 1 2 "signUp" [secondPk] (ByteString.ofString "bx")) =
      some started ∧
    (system directoryEnv).Run (fun _ label => label.Internal) started after ∧
    (2, .error "resolve") ∈ after.replies ∧
    before.store (directoryIds (ByteString.ofString "sk:user.name:b")) = none ∧
    after.store (directoryIds (ByteString.ofString "sk:user.name:b")) =
      some (encodeSkEntries [(secondPk, .native)]) ∧
    ¬Untouched directoryEnv before after := by
  have observed : (createTwice (fun _ label => label matches .deliver _ _ _) "signUp" 2
      "ax" "bx").map (fun states => (states.1.inFlight.length,
        decide ((2, Except.error "resolve") ∈ states.2.2.replies),
        states.1.store (directoryIds (ByteString.ofString "sk:user.name:b")),
        states.2.2.store (directoryIds (ByteString.ofString "sk:user.name:b")))) =
      some (0, true, none, some (encodeSkEntries [(secondPk, .native)])) := by
    decide +kernel
  rcases Option.map_eq_some_iff.mp observed with ⟨⟨before, started, after⟩, created, seen⟩
  simp only [Prod.mk.injEq, List.length_eq_zero_iff, decide_eq_true_eq] at seen
  rcases seen with ⟨quiescent, failed, absent, entered⟩
  have sound : ∀ (_ : Node (TypedResident Empty)) (label : NodeLabel),
      (label matches .deliver _ _ _) = true → label.Internal := by
    intro _ label delivers
    cases label <;> simp_all [NodeLabel.Internal]
  rcases createTwice_spec sound created with ⟨reached, submitted, run⟩
  refine ⟨before, started, after, reached, quiescent, submitted, run, failed, absent, entered, ?_⟩
  intro untouched
  rw [untouched.stored, absent] at entered
  cases entered

end Node

end Seisin
