import Mathlib
import Seisin.Gossip.Application
import Seisin.Gossip.Monitoring
import Seisin.Gossip.Precedence

/-!
# The identity book

A compute node keeps the log id of every storage node it knows of, and a storage node that returns
is checked against it.  The book is filled from the member table in two places: reconciliation,
which leaves an entry alone once it is there, and the join of a storage node, which does not.
-/

namespace Seisin

/-- The log id a record tells of a storage node. -/
def MemberUpdate.identity (update : MemberUpdate) : Option DatumId :=
  if update.role = .storage ∧ update.logId ≠ 0 then some update.logId else none

namespace ClusterState

/-- Enters the log id of a storage member, unless the book has one. -/
def enterIdentity (book : NodeId → Option DatumId) (member : NodeId × MemberRecord) :
    NodeId → Option DatumId :=
  if member.2.update.role = .storage ∧ member.2.update.logId ≠ 0 then
    match book member.1 with
    | none => Function.update book member.1 (some member.2.update.logId)
    | some _ => book
  else book

/-- Copies the log ids of the storage members into the book. -/
def reconcileIdentityBook (state : ClusterState) (members : List (NodeId × MemberRecord)) :
    ClusterState :=
  { state with identityBook := members.foldl enterIdentity state.identityBook }

variable {state : ClusterState} {nodeId : NodeId}

theorem enterIdentity_apply (book : NodeId → Option DatumId) (member : NodeId × MemberRecord) :
    enterIdentity book member nodeId =
      (book nodeId).or (if nodeId = member.1 then member.2.update.identity else none) := by
  unfold enterIdentity MemberUpdate.identity
  by_cases tells : member.2.update.role = .storage ∧ member.2.update.logId ≠ 0
  · rw [if_pos tells, if_pos tells]
    rcases eq_or_ne nodeId member.1 with rfl | differ
    · cases known : book member.1 with
      | none => simp
      | some logId => simp [known]
    · cases known : book member.1 with
      | none => simp [differ]
      | some logId => simp [differ]
  · rw [if_neg tells, if_neg tells, ite_self, Option.or_none]

/-- An entry of the book stays as it is, and one is added only for a member that tells its id. -/
theorem identityBook_reconcile (members : List (NodeId × MemberRecord)) :
    (state.reconcileIdentityBook members).identityBook nodeId = state.identityBook nodeId ∨
      (state.identityBook nodeId = none ∧ ∃ record, (nodeId, record) ∈ members ∧
        record.update.identity.isSome) := by
  unfold reconcileIdentityBook
  simp only
  generalize state.identityBook = book
  induction members generalizing book with
  | nil => exact Or.inl rfl
  | cons member members ih =>
      rw [List.foldl_cons]
      rcases ih (enterIdentity book member) with same | ⟨unknown, record, told, isId⟩
      · rw [same, enterIdentity_apply]
        cases known : book nodeId with
        | some logId => exact Or.inl (Option.some_or)
        | none =>
            rw [Option.none_or]
            rcases eq_or_ne nodeId member.1 with rfl | differ
            · rw [if_pos rfl]
              cases told : member.2.update.identity with
              | none => exact Or.inl rfl
              | some logId =>
                  refine Or.inr ⟨rfl, member.2, List.mem_cons_self, ?_⟩
                  rw [told]
                  rfl
            · exact Or.inl (if_neg differ)
      · rw [enterIdentity_apply, Option.or_eq_none_iff] at unknown
        exact Or.inr ⟨unknown.1, record, List.mem_cons_of_mem _ told, isId⟩

theorem identityBook_applyJoin (node : NodeId) (storeAddress : String) (logId : DatumId) :
    (state.applyJoin node storeAddress logId).identityBook nodeId =
      if nodeId = node ∧ logId ≠ 0 then some logId else state.identityBook nodeId := by
  unfold applyJoin
  by_cases isZero : logId = 0
  · simp [isZero]
  · rcases eq_or_ne nodeId node with rfl | differ
    · simp [isZero]
    · simp [isZero, differ]

end ClusterState

/-- Only the join of a storage node that tells its log id writes to the book. -/
theorem Rings.identityBook_applyMutation (memberTable : NodeId → Option MemberUpdate)
    (rings : Rings) (mutation : RingMutation) (nodeId : NodeId) :
    (rings.applyMutation memberTable mutation).storage.identityBook nodeId =
      match mutation with
      | .join node _ =>
          if nodeId = node then
            (((memberTable node).bind MemberUpdate.identity).or (rings.storage.identityBook nodeId))
          else rings.storage.identityBook nodeId
      | .leave _ => rings.storage.identityBook nodeId := by
  unfold applyMutation GossipState.role
  cases mutation with
  | leave node =>
      cases known : memberTable node with
      | none => simp [RingMutation.nodeId, known]
      | some update =>
          cases isRole : update.role with
          | compute => simp [RingMutation.nodeId, known, isRole]
          | storage => simp [RingMutation.nodeId, known, isRole, ClusterState.applyLeave]
  | join node threadCount =>
      cases known : memberTable node with
      | none => simp [RingMutation.nodeId, known]
      | some update =>
          cases isRole : update.role with
          | compute => simp [RingMutation.nodeId, known, isRole, MemberUpdate.identity]
          | storage =>
              simp only [RingMutation.nodeId, known, isRole, Option.map_some, Option.getD_some,
                Option.bind_some, ClusterState.identityBook_applyJoin, MemberUpdate.identity,
                true_and]
              rcases eq_or_ne nodeId node with rfl | differ
              · by_cases isZero : update.logId = 0
                · simp [isZero]
                · simp [isZero]
              · simp [differ]

/-! ## Entries that are written twice -/

/-- A node reconciles between the steps of the calls that apply mutations. -/
inductive BookStep where
  | gossip (label : ApplyingStep)
  | reconcile

namespace ApplyingNode

def identityBook (node : ApplyingNode) : NodeId → Option DatumId :=
  node.rings.storage.identityBook

def reconcileIdentityBook (node : ApplyingNode) : ApplyingNode :=
  { node with rings :=
    { node.rings with
      storage := node.rings.storage.reconcileIdentityBook node.memberTable.all } }

def bookSystem : Transition.System ApplyingNode BookStep where
  init := Starts
  step := fun node label =>
    match label with
    | .gossip label => node.step label
    | .reconcile => some node.reconcileIdentityBook

/-- The node whose join a call applies next. -/
def nextJoin (node : ApplyingNode) (call : ℕ) : Option NodeId :=
  match node.calls[call]? with
  | some ((_, .join nodeId _) :: _) => some nodeId
  | _ => none

/-- A storage join that is applied tells of no other log id than the book has. -/
def JoinsKnown (node : ApplyingNode) : BookStep → Prop
  | .gossip (.update call) => ∀ nodeId ∈ node.nextJoin call,
      ∀ logId ∈ (node.members nodeId).bind MemberUpdate.identity,
        ∀ known ∈ node.identityBook nodeId, known = logId
  | _ => True

instance decidableJoinsKnown (node : ApplyingNode) :
    (label : BookStep) → Decidable (node.JoinsKnown label)
  | .gossip (.update call) =>
      -- Through the options: node ids are finite too, but far too many to be tried one by one.
      @Option.decidableForallMem _ _
        (fun _ => @Option.decidableForallMem _ _
          (fun _ => @Option.decidableForallMem _ _ (fun _ => inferInstance) _) _)
        (node.nextJoin call)
  | .gossip (.learn _) => .isTrue trivial
  | .gossip (.record _ _) => .isTrue trivial
  | .gossip .drain => .isTrue trivial
  | .reconcile => .isTrue trivial

/-- An entry of the book is never changed nor removed along a run. -/
def KeepsIdentities (start : ApplyingNode) (labels : List BookStep) : Prop :=
  ∀ front between back earlier later, labels = front ++ between ++ back →
    bookSystem.exec start front = some earlier → bookSystem.exec earlier between = some later →
      ∀ nodeId logId, earlier.identityBook nodeId = some logId →
        later.identityBook nodeId = some logId

variable {start node next last : ApplyingNode}

/-- What a step does to the book. -/
theorem identityBook_step {label : BookStep} (stepped : bookSystem.step node label = some next)
    (nodeId : NodeId) :
    next.identityBook nodeId = node.identityBook nodeId ∨ node.identityBook nodeId = none ∨
      ∃ call epoch threadCount later logId, label = .gossip (.update call) ∧
        node.calls[call]? = some ((epoch, .join nodeId threadCount) :: later) ∧
        (node.members nodeId).bind MemberUpdate.identity = some logId ∧
        next.identityBook nodeId = some logId := by
  cases label with
  | reconcile =>
      cases stepped
      rcases ClusterState.identityBook_reconcile node.memberTable.all with same | ⟨unknown, _⟩
      · exact Or.inl same
      · exact Or.inr (Or.inl unknown)
  | gossip label =>
      cases label with
      | learn updates =>
          cases stepped
          exact Or.inl rfl
      | record epoch mutation =>
          cases stepped
          exact Or.inl rfl
      | drain =>
          cases stepped
          exact Or.inl rfl
      | update call =>
          rcases update_cases stepped with ⟨epoch, mutation, later, found, rfl⟩
          have written := node.rings.identityBook_applyMutation node.members mutation nodeId
          cases mutation with
          | leave other => exact Or.inl written
          | join other threadCount =>
              rcases eq_or_ne nodeId other with rfl | differ
              · simp only [if_true] at written
                cases told : (node.members nodeId).bind MemberUpdate.identity with
                | none =>
                    rw [told, Option.none_or] at written
                    exact Or.inl written
                | some logId =>
                    rw [told, Option.some_or] at written
                    exact Or.inr (Or.inr
                      ⟨call, epoch, threadCount, later, logId, rfl, found, rfl, written⟩)
              · simp only [differ, if_false] at written
                exact Or.inl written

/-- A step keeps every entry of the book exactly if no join it applies tells of another id. -/
theorem identityBook_kept_iff {label : BookStep} (stepped : bookSystem.step node label = some next) :
    (∀ nodeId logId, node.identityBook nodeId = some logId →
      next.identityBook nodeId = some logId) ↔ node.JoinsKnown label := by
  constructor
  · intro kept
    cases label with
    | reconcile => trivial
    | gossip label =>
        cases label with
        | learn updates => trivial
        | record epoch mutation => trivial
        | drain => trivial
        | update call =>
            rcases update_cases stepped with ⟨_, mutation, _, found, rfl⟩
            intro nodeId joins logId told known isKnown
            simp only [nextJoin, found] at joins
            cases mutation with
            | leave other => cases joins
            | join other threadCount =>
            cases joins
            have written := node.rings.identityBook_applyMutation node.members
              (.join nodeId threadCount) nodeId
            simp only [if_true] at written
            rw [Option.mem_def.mp told, Option.some_or] at written
            exact Option.some.inj ((kept nodeId known isKnown).symm.trans written)
  · intro joinsKnown nodeId logId known
    rcases identityBook_step stepped nodeId with same | unknown | written
    · rw [same, known]
    · rw [known] at unknown
      cases unknown
    · rcases written with ⟨call, epoch, threadCount, later, told, rfl, found, isTold, written⟩
      have joins : node.nextJoin call = some nodeId := by rw [nextJoin, found]
      rw [written, joinsKnown nodeId joins told isTold logId known]

/-- Along a run an entry of the identity book is never changed nor removed exactly if no storage
join that is applied tells of another log id than the book has of the node by then. -/
theorem first_writer_wins_iff {labels : List BookStep}
    (executed : bookSystem.exec start labels = some last) :
    KeepsIdentities start labels ↔
      ∀ front label back state, labels = front ++ label :: back →
        bookSystem.exec start front = some state → state.JoinsKnown label := by
  constructor
  · intro kept front label back state split ran
    subst split
    rw [Transition.System.exec_append, ran, Option.bind_some] at executed
    rcases Option.bind_eq_some_iff.mp executed with ⟨next, stepped, _⟩
    have ranOnce : bookSystem.exec state [label] = some next := by
      simp only [Transition.System.exec, stepped, Option.bind_some]
    rw [← identityBook_kept_iff stepped]
    exact kept front [label] back state next (by simp) ran ranOnce
  · intro joinsKnown front between back earlier later split ran ranBetween
    subst split
    induction between generalizing front earlier with
    | nil =>
        cases ranBetween
        exact fun _ _ known => known
    | cons label between ih =>
        rcases Option.bind_eq_some_iff.mp ranBetween with ⟨next, stepped, rest⟩
        have meets := joinsKnown front label (between ++ back) earlier (by simp) ran
        have ranNext : bookSystem.exec start (front ++ [label]) = some next := by
          rw [Transition.System.exec_append, ran, Option.bind_some]
          simp only [Transition.System.exec, stepped, Option.bind_some]
        intro nodeId logId known
        refine ih (front ++ [label]) next ranNext rest ?_ ?_ nodeId logId
          ((identityBook_kept_iff stepped).mpr meets nodeId logId known)
        · simpa using executed
        · intro others other rest state split
          exact joinsKnown others other rest state (by simpa using split)

/-- A storage node tells its log id, which is entered, and returns at a higher incarnation; its
join is applied. -/
def returns (logId : DatumId) : List BookStep :=
  [.gossip (.learn [(9, ⟨0, .alive, ⟨.storage, "", 7⟩⟩)]), .reconcile,
    .gossip (.learn [(9, ⟨1, .alive, ⟨.storage, "", logId⟩⟩)]), .gossip (.record 1 (.join 9 1)),
    .gossip .drain, .gossip (.update 0)]

theorem first_writer_wins_iff_returned :
    ∃ last, bookSystem.exec ofFour (returns 7) = some last ∧ KeepsIdentities ofFour (returns 7) ∧
      last.identityBook 9 = some 7 := by
  have executed : (bookSystem.execVia (fun node label => decide (node.JoinsKnown label)) ofFour
      (returns 7)).map (fun node => node.identityBook 9) = some (some 7) := by decide +kernel
  rcases Option.map_eq_some_iff.mp executed with ⟨last, guarded, entry⟩
  have ran := Transition.System.exec_of_execVia guarded
  refine ⟨last, ran, (first_writer_wins_iff ran).mpr ?_, entry⟩
  intro front label back state split reached
  rw [split] at guarded
  have passed := Transition.System.guard_of_execVia guarded reached
  exact of_decide_eq_true passed

/-- The node returns with a blank log, and the join enters the id of that log. -/
theorem entry_overwritten : ofFour.Starts ∧ ¬ KeepsIdentities ofFour (returns 8) := by
  refine ⟨ofFour_starts, ?_⟩
  intro kept
  have before : (bookSystem.exec ofFour ((returns 8).take 2)).map
      (fun node => node.identityBook 9) = some (some 7) := by decide
  have after : ((bookSystem.exec ofFour ((returns 8).take 2)).bind
      (bookSystem.exec · ((returns 8).drop 2))).map (fun node => node.identityBook 9) =
        some (some 8) := by decide
  rcases Option.map_eq_some_iff.mp before with ⟨earlier, ran, entered⟩
  rw [ran, Option.bind_some] at after
  rcases Option.map_eq_some_iff.mp after with ⟨later, ranOn, overwritten⟩
  have same := kept _ _ [] earlier later (by rw [List.take_append_drop, List.append_nil]) ran ranOn
    9 7 entered
  rw [overwritten] at same
  exact absurd same (by decide)

end ApplyingNode

/-! ## Log ids that are never learned

A storage node's own table has its log id from the start, the other tables have its seed, and the
two have the same precedence: what the node says of itself is never accepted. -/

namespace Peer

def identityBook (peer : Peer) : NodeId → Option DatumId := peer.rings.storage.identityBook

def reconcileIdentityBook (peer : Peer) : Peer :=
  { peer with rings :=
    { peer.rings with
      storage := peer.rings.storage.reconcileIdentityBook peer.memberTable.all } }

variable {config : GossipConfig} {selfId member : NodeId} {peer next : Peer}

theorem rings_mergeIncoming (updates : List (NodeId × MemberRecord))
    (mutations : List (ℕ × RingMutation)) :
    (peer.mergeIncoming updates mutations).rings = peer.rings := by
  rcases mergeIncoming_eq peer updates mutations with ⟨_, _, merged⟩
  rw [merged]

theorem rings_actAll (actions : List TimeoutAction) :
    (peer.actAll selfId actions).1.rings = peer.rings := by
  induction actions generalizing peer with
  | nil => rfl
  | cons action actions ih =>
      have acted : (peer.act selfId action).1.rings = peer.rings := by
        cases action with
        | escalateToIndirect target => rfl
        | markSuspect target => rfl
        | markDead target =>
            simp only [act, mintLeaveIfSequencer]
            split
            · split <;> rfl
            · split <;> rfl
      simp only [actAll]
      rw [ih, acted]

theorem rings_beginTick (now : ℕ) : (peer.beginTick selfId now).rings = peer.rings := by
  have picked : ∀ peer : Peer, (peer.pickTarget selfId now).rings = peer.rings := by
    intro peer
    unfold pickTarget
    split
    · split <;> rfl
    · rfl
  change ((peer.selfRefuteIfFalselySuspected selfId).pickTarget selfId now).rings = peer.rings
  rw [picked, selfRefuteIfFalselySuspected]
  split <;> rfl

/-- The mutations that are ready enter no id of a member whose record tells none. -/
theorem identityBook_applyReadyMutations
    (blank : ∀ record, peer.memberTable.lookup member = some record → record.update.logId = 0) :
    peer.applyReadyMutations.identityBook member = peer.identityBook member := by
  have told : ((peer.memberTable.lookup member).map MemberRecord.update).bind
      MemberUpdate.identity = none := by
    cases known : peer.memberTable.lookup member with
    | none => rfl
    | some record => simp [MemberUpdate.identity, blank record known]
  simp only [identityBook, applyReadyMutations, withGossipNode, GossipNode.applyReadyMutations,
    gossipNode]
  generalize peer.mutationLog.drainApplicable.1 = ready
  generalize peer.rings = rings
  induction ready generalizing rings with
  | nil => rfl
  | cons mutation ready ih =>
      rw [List.foldl_cons, ih, Rings.identityBook_applyMutation]
      cases mutation with
      | leave other => rfl
      | join other threadCount =>
          simp only
          rcases eq_or_ne member other with rfl | differ
          · rw [if_pos rfl, told, Option.none_or]
          · rw [if_neg differ]

theorem identityBook_step {peerStep : PeerStep}
    (stepped : peer.step config selfId peerStep = some next)
    (blank : ∀ record, next.memberTable.lookup member = some record → record.update.logId = 0) :
    next.identityBook member = peer.identityBook member := by
  cases peerStep with
  | receive updates mutations =>
      simp only [step, serve, Option.some.injEq] at stepped
      have merged : (peer.mergeIncoming updates mutations).identityBook member =
          peer.identityBook member := by
        rw [identityBook, rings_mergeIncoming, identityBook]
      split at stepped
      · subst stepped
        rw [← merged]
        exact identityBook_applyReadyMutations blank
      · subst stepped
        exact merged
  | beginTick now =>
      simp only [step, Option.ite_none_right_eq_some, Option.some.injEq] at stepped
      rcases stepped with ⟨_, rfl⟩
      rw [identityBook, rings_beginTick, identityBook]
  | ack target updates mutations =>
      simp only [step, Option.ite_none_right_eq_some, Option.some.injEq] at stepped
      rcases stepped with ⟨_, rfl⟩
      change (peer.mergeIncoming updates mutations).identityBook member = _
      rw [identityBook, rings_mergeIncoming, identityBook]
  | miss =>
      simp only [step] at stepped
      split at stepped
      · cases stepped
        rfl
      · cases stepped
  | finishTick now =>
      simp only [step, Option.ite_none_right_eq_some, Option.some.injEq] at stepped
      rcases stepped with ⟨_, rfl⟩
      let acted := (actAll selfId
        { peer with detector := (peer.detector.checkTimeouts config.timeouts now).1 }
        (peer.detector.checkTimeouts config.timeouts now).2).1
      have sameRings : acted.rings = peer.rings := rings_actAll _
      have applied := @identityBook_applyReadyMutations member acted blank
      change acted.applyReadyMutations.identityBook member = _
      rw [applied, identityBook, sameRings, identityBook]

end Peer

/-- Nodes reconcile their books between the steps of the cluster's gossip. -/
inductive IdentityLabel where
  | gossip (label : GossipLabel)
  | reconcile (node : NodeId)

namespace GossipCluster

/-- A compute node brings its book up to date. -/
def reconcileIdentityBook (config : GossipConfig) (cluster : GossipCluster) (node : NodeId) :
    Option GossipCluster :=
  if node ∈ config.compute then
    some (cluster.setPeer node (cluster.peers node).reconcileIdentityBook)
  else none

/-- The cluster starts from its config: a storage node seeds itself with its log id, every other
node seeds it without, and the books are empty. -/
structure StartsFromConfig (config : GossipConfig) (logIds : NodeId → DatumId)
    (cluster : GossipCluster) : Prop where
  starts : cluster.Starts config
  seeds : ∀ node, ∀ member ∈ config.storage, ∃ record,
    (cluster.peers node).memberTable.lookup member = some record ∧
      record.update.role = .storage ∧
      record.update.logId = if node = member then logIds member else 0
  books : ∀ node, (cluster.peers node).identityBook = fun _ => none

def identitySystem (config : GossipConfig) (logIds : NodeId → DatumId) :
    Transition.System GossipCluster IdentityLabel where
  init := StartsFromConfig config logIds
  step := fun cluster label =>
    match label with
    | .gossip label => cluster.step config label
    | .reconcile node => cluster.reconcileIdentityBook config node

/-- Reports of a storage node are of its first incarnation, and one with a log id says it is
alive. -/
structure FirstHand (record : MemberRecord) : Prop where
  incarnation : record.incarnation = 0
  alive : record.update.logId ≠ 0 → record.status = .alive

/-- No other node has a log id of the member. -/
structure Unlearned (member : NodeId) (cluster : GossipCluster) : Prop where
  known : ∀ node, member ∈ (cluster.peers node).memberTable
  records : ∀ node record, (cluster.peers node).memberTable.lookup member = some record →
    FirstHand record
  blank : ∀ node, node ≠ member → ∀ record,
    (cluster.peers node).memberTable.lookup member = some record → record.update.logId = 0
  told : ∀ packet ∈ cluster.inFlight, ∀ record, (member, record) ∈ packet.updates →
    FirstHand record
  books : ∀ node, node ≠ member → (cluster.peers node).identityBook member = none

variable {config : GossipConfig} {logIds : NodeId → DatumId} {start cluster next : GossipCluster}
  {member : NodeId}

theorem peers_setPeer_self (node : NodeId) (peer : Peer) :
    (cluster.setPeer node peer).peers node = peer := by
  simp only [setPeer, Function.update_self]

theorem peers_setPeer_of_ne {node other : NodeId} (differ : other ≠ node) (peer : Peer) :
    (cluster.setPeer node peer).peers other = cluster.peers other := by
  simp only [setPeer, Function.update_of_ne differ]

theorem StartsFromConfig.unlearned (starts : cluster.StartsFromConfig config logIds)
    (isStorage : member ∈ config.storage) : cluster.Unlearned member where
  known := by
    intro node
    rcases starts.seeds node member isStorage with ⟨record, found, _⟩
    exact MemberTable.mem_of_lookup found
  records := by
    intro node record found
    rcases ((starts.starts.peers node).seeded member record found).2 with ⟨isFirst, isAlive⟩
    exact ⟨isFirst, fun _ => isAlive⟩
  blank := by
    intro node other record found
    rcases starts.seeds node member isStorage with ⟨seed, seeded, _, logId⟩
    rw [found] at seeded
    cases seeded
    rw [logId, if_neg other]
  told := by
    intro packet inFlight
    rw [starts.starts.inFlight] at inFlight
    cases inFlight
  books := by
    intro node _
    rw [starts.books node]

/-- A report with a log id does not supersede a report of the first incarnation. -/
theorem FirstHand.logId_of_lt {current record : MemberRecord} (first : FirstHand current)
    (told : FirstHand record) (supersedes : current.precedence < record.precedence) :
    record.update.logId = 0 := by
  by_contra hasId
  rw [MemberRecord.precedence, MemberRecord.precedence, first.incarnation, told.incarnation,
    told.alive hasId, Prod.Lex.toLex_lt_toLex] at supersedes
  simp [MemberStatus.severity] at supersedes

theorem FirstHand.of_status {record earlier : MemberRecord} (first : FirstHand earlier)
    (incarnation : earlier.incarnation = record.incarnation)
    (blank : record.update.logId = 0) : FirstHand record :=
  ⟨incarnation ▸ first.incarnation, fun hasId => absurd blank hasId⟩

/-- A node that is told first-hand reports learns no log id from them. -/
theorem firstHand_step {selfId : NodeId} {peer nextPeer : Peer} {peerStep : PeerStep}
    (stepped : peer.step config selfId peerStep = some nextPeer)
    (isStorage : selfId ∈ config.compute → member ≠ selfId) (known : member ∈ peer.memberTable)
    (records : ∀ record, peer.memberTable.lookup member = some record → FirstHand record ∧
      (selfId ≠ member → record.update.logId = 0))
    (told : ∀ record, (member, record) ∈ peerStep.updates → FirstHand record) :
    ∀ record, nextPeer.memberTable.lookup member = some record → FirstHand record ∧
      (selfId ≠ member → record.update.logId = 0) := by
  have table := Peer.memberTable_step stepped
  have merged : ∀ record, (peer.memberTable.mergeAll peerStep.updates).lookup member =
      some record → FirstHand record ∧ (selfId ≠ member → record.update.logId = 0) := by
    intro record found
    rcases MemberTable.precedence_lt_of_mergeAll found with had | ⟨isTold, supersedes⟩
    · exact records record had
    · rcases Option.isSome_iff_exists.mp (AList.lookup_isSome.mpr known) with ⟨current, was⟩
      have blank := (records current was).1.logId_of_lt (told record isTold)
        (supersedes current was)
      exact ⟨told record isTold, fun _ => blank⟩
  intro record found
  cases peerStep with
  | receive updates mutations =>
      rw [table] at found
      exact merged record found
  | ack target updates mutations =>
      rw [table] at found
      exact merged record found
  | beginTick now =>
      apply records
      rw [table.2] at found
      rcases (Peer.selfRefute_spec selfId peer).2.2 with same | refuted
      · rwa [same] at found
      · rw [refuted] at found
        unfold MemberTable.confirmAliveSelf at found
        split at found
        · exact found
        · rwa [AList.lookup_insert_ne (isStorage table.1)] at found
  | miss =>
      rw [table] at found
      exact records record found
  | finishTick now =>
      rw [table.2] at found
      rcases MemberTable.lookup_afterActions found with ⟨earlier, was, incarnation, update⟩
      rcases records earlier was with ⟨first, blank⟩
      have isBlank := blank (isStorage table.1).symm
      rw [update] at isBlank
      exact ⟨first.of_status incarnation isBlank, fun _ => isBlank⟩

theorem Unlearned.gossip (unlearned : cluster.Unlearned member) {label : GossipLabel}
    (isStorage : member ∉ config.compute) (stepped : cluster.step config label = some next) :
    next.Unlearned member := by
  cases moved_of_step stepped with
  | lost peers kept minted =>
      exact ⟨by rw [peers]; exact unlearned.known, by rw [peers]; exact unlearned.records,
        by rw [peers]; exact unlearned.blank,
        fun packet inFlight => unlearned.told packet (kept inFlight),
        by rw [peers]; exact unlearned.books⟩
  | peer node peerStep peer moved peers updates mutations sent minted finishes acks =>
      have told : ∀ record, (member, record) ∈ peerStep.updates → FirstHand record := by
        intro record isTold
        rcases updates _ isTold with ⟨packet, inFlight, inPacket⟩
        exact unlearned.told packet inFlight record inPacket
      have records := firstHand_step moved
        (fun isCompute (same : member = node) => isStorage (same ▸ isCompute))
        (unlearned.known node) (fun record found => ⟨unlearned.records node record found,
          fun other => unlearned.blank node other record found⟩) told
      have others : ∀ other, other ≠ node → next.peers other = cluster.peers other := by
        intro other differ
        rw [peers, Function.update_of_ne differ]
      have self : next.peers node = peer := by rw [peers, Function.update_self]
      refine ⟨?_, ?_, ?_, ?_, ?_⟩
      · intro other
        rcases eq_or_ne other node with rfl | differ
        · rw [self]
          exact Peer.mem_memberTable_step moved (unlearned.known other)
        · rw [others other differ]
          exact unlearned.known other
      · intro other record found
        rcases eq_or_ne other node with rfl | differ
        · rw [self] at found
          exact (records record found).1
        · rw [others other differ] at found
          exact unlearned.records other record found
      · intro other notMember record found
        rcases eq_or_ne other node with rfl | differ
        · rw [self] at found
          exact (records record found).2 notMember
        · rw [others other differ] at found
          exact unlearned.blank other notMember record found
      · intro packet inFlight record inPacket
        rcases sent packet inFlight with old | ⟨table, _⟩
        · exact unlearned.told packet old record inPacket
        · rw [table] at inPacket
          exact (records record (MemberTable.mem_all.mp inPacket)).1
      · intro other notMember
        rcases eq_or_ne other node with rfl | differ
        · rw [self, Peer.identityBook_step moved fun record found =>
            (records record found).2 notMember]
          exact unlearned.books other notMember
        · rw [others other differ]
          exact unlearned.books other notMember

/-- Reconciliation finds no log id of the member to enter. -/
theorem Unlearned.identityBook_reconcile (unlearned : cluster.Unlearned member) {node : NodeId}
    (other : node ≠ member) :
    (cluster.peers node).reconcileIdentityBook.identityBook member = none := by
  rcases ClusterState.identityBook_reconcile (cluster.peers node).memberTable.all with
    same | ⟨_, record, inTable, isId⟩
  · exact same.trans (unlearned.books node other)
  · have blank := unlearned.blank node other record (MemberTable.mem_all.mp inTable)
    simp [MemberUpdate.identity, blank] at isId

theorem Unlearned.reconcile (unlearned : cluster.Unlearned member) {node : NodeId}
    (isStorage : member ∉ config.compute)
    (reconciled : cluster.reconcileIdentityBook config node = some next) :
    next.Unlearned member := by
  simp only [reconcileIdentityBook, Option.ite_none_right_eq_some, Option.some.injEq] at reconciled
  rcases reconciled with ⟨isCompute, rfl⟩
  have notMember : node ≠ member := fun same => isStorage (same ▸ isCompute)
  have tables : ∀ other,
      ((cluster.setPeer node (cluster.peers node).reconcileIdentityBook).peers other).memberTable =
        (cluster.peers other).memberTable := by
    intro other
    rcases eq_or_ne other node with rfl | differ
    · rw [peers_setPeer_self]
      rfl
    · rw [peers_setPeer_of_ne differ]
  refine ⟨?_, ?_, ?_, unlearned.told, ?_⟩
  · intro other
    rw [tables]
    exact unlearned.known other
  · intro other
    rw [tables]
    exact unlearned.records other
  · intro other
    rw [tables]
    exact unlearned.blank other
  · intro other differs
    rcases eq_or_ne other node with rfl | differ
    · rw [peers_setPeer_self]
      exact unlearned.identityBook_reconcile differs
    · rw [peers_setPeer_of_ne differ]
      exact unlearned.books other differs

/-- In a cluster that starts from its config no compute node ever enters the log id of a storage
node of the config, whatever gossip brings it. -/
theorem seeded_identity_never_entered {node : NodeId}
    (run : (identitySystem config logIds).Run (fun _ _ => True) start cluster)
    (starts : start.StartsFromConfig config logIds) (isCompute : node ∈ config.compute)
    (isStorage : member ∈ config.storage) :
    ∃ next, cluster.reconcileIdentityBook config node = some next ∧
      (next.peers node).identityBook member = none := by
  have notCompute : member ∉ config.compute := fun both =>
    starts.starts.disjoint member both isStorage
  have unlearned : cluster.Unlearned member := by
    refine run.induction ?_ (starts.unlearned isStorage)
    intro state label next holds _ stepped
    cases label with
    | gossip label => exact holds.gossip notCompute stepped
    | reconcile node => exact holds.reconcile notCompute stepped
  refine ⟨_, if_pos isCompute, ?_⟩
  rw [peers_setPeer_self]
  exact unlearned.identityBook_reconcile fun same => notCompute (same ▸ isCompute)

end GossipCluster

/-! ## A cluster as it starts -/

namespace Peer

variable {config : GossipConfig}

/-- A node whose own record is the only one with a log id. -/
def seeded (config : GossipConfig) (logIds : NodeId → DatumId) (rings : Rings)
    (selfId : NodeId) : Peer :=
  { booted config rings with
    memberTable := seedMemberTable config fun member => if selfId = member then logIds member else 0 }

theorem seeded_starts (logIds : NodeId → DatumId) (rings : Rings) (selfId : NodeId) :
    (seeded config logIds rings selfId).Starts config selfId :=
  starts_of_memberTable config selfId rings _

end Peer

namespace GossipCluster

variable {config : GossipConfig}

def seeded (config : GossipConfig) (logIds : NodeId → DatumId) (rings : Rings) :
    GossipCluster where
  peers := Peer.seeded config logIds rings
  inFlight := []
  minted := []

theorem seeded_startsFromConfig (logIds : NodeId → DatumId) {rings : Rings}
    (disjoint : ∀ node ∈ config.compute, node ∉ config.storage)
    (empty : rings.storage.identityBook = fun _ => none) :
    (seeded config logIds rings).StartsFromConfig config logIds where
  starts := ⟨disjoint, fun node => Peer.seeded_starts logIds rings node, rfl, rfl⟩
  seeds := by
    intro node member isStorage
    have known : member ∈ ((seeded config logIds rings).peers node).memberTable :=
      Peer.mem_seedMemberTable (List.mem_append_right _ isStorage)
    rcases Option.isSome_iff_exists.mp (AList.lookup_isSome.mpr known) with ⟨record, found⟩
    refine ⟨record, found, ?_⟩
    rcases Peer.lookup_seedMemberTable found with ⟨role, rfl, ⟨_, isCompute⟩ | ⟨rfl, _⟩⟩
    · exact absurd isStorage (disjoint member isCompute)
    · exact ⟨rfl, rfl⟩
  books := fun _ => empty

/-- A compute node, and a storage node whose log id is seven. -/
def oneSeeded : GossipCluster :=
  seeded oneEach (fun _ => 7) ⟨Ring.fromMembers [(1, 1)], ClusterState.fromConfig []⟩

theorem oneSeeded_starts : oneSeeded.StartsFromConfig oneEach fun _ => 7 :=
  seeded_startsFromConfig _ (by decide) rfl

/-- The compute node pings the storage node, and the ack tells it the log id. -/
def pingsStorage : List IdentityLabel :=
  [.gossip (.beginTick 1 0), .gossip (.deliver 0)]

theorem seeded_identity_never_entered_pinged :
    ∃ cluster next, (identitySystem oneEach fun _ => 7).exec oneSeeded
        (pingsStorage ++ [.gossip (.ack 0)]) = some cluster ∧
      cluster.reconcileIdentityBook oneEach 1 = some next ∧
      (next.peers 1).identityBook 2 = none := by
  have executed : ((identitySystem oneEach fun _ => 7).exec oneSeeded
      (pingsStorage ++ [.gossip (.ack 0)])).isSome := by decide
  rcases Option.isSome_iff_exists.mp executed with ⟨cluster, ran⟩
  rcases seeded_identity_never_entered (Transition.System.run_of_exec ran) oneSeeded_starts
    (by decide : (1 : NodeId) ∈ oneEach.compute) (by decide : (2 : NodeId) ∈ oneEach.storage) with
    ⟨next, reconciled, entry⟩
  exact ⟨cluster, next, ran, reconciled, entry⟩

/-- The ack of the storage node to the compute node, with its own log id. -/
def tellsItself : GossipPacket → Bool
  | .ping _ _ _ _ => false
  | .ack sender receiver updates _ => decide (sender = 2 ∧ receiver = 1) &&
      updates.any fun update => decide (update.1 = 2 ∧ update.2.update.logId = 7)

/-- The ack tells the compute node what the storage node says of itself, log id and all, and its
next reconciliation enters nothing. -/
theorem own_report_refused :
    oneSeeded.StartsFromConfig oneEach (fun _ => 7) ∧
    ∃ before updates mutations record after next,
      (identitySystem oneEach fun _ => 7).exec oneSeeded pingsStorage = some before ∧
      before.inFlight[0]? = some (.ack 2 1 updates mutations) ∧ (2, record) ∈ updates ∧
      record.update.logId = 7 ∧ before.step oneEach (.ack 0) = some after ∧
      after.reconcileIdentityBook oneEach 1 = some next ∧
      (next.peers 1).identityBook 2 ≠ some 7 := by
  refine ⟨oneSeeded_starts, ?_⟩
  have executed : ((identitySystem oneEach fun _ => 7).exec oneSeeded pingsStorage).map
      (fun before => decide (before.inFlight[0]?.map tellsItself = some true ∧
        (((before.step oneEach (.ack 0)).bind (·.reconcileIdentityBook oneEach 1)).map
          fun next => (next.peers 1).identityBook 2) = some none)) = some true := by
    decide +kernel
  rcases Option.map_eq_some_iff.mp executed with ⟨before, ran, observed⟩
  rcases of_decide_eq_true observed with ⟨sent, entered⟩
  rcases Option.map_eq_some_iff.mp entered with ⟨next, reconciled, entry⟩
  rcases Option.bind_eq_some_iff.mp reconciled with ⟨after, acked, isNext⟩
  rcases Option.map_eq_some_iff.mp sent with ⟨packet, inFlight, contents⟩
  cases packet with
  | ping sender receiver updates mutations => cases contents
  | ack sender receiver updates mutations =>
      rw [tellsItself, Bool.and_eq_true, decide_eq_true_eq, List.any_eq_true] at contents
      rcases contents with ⟨⟨rfl, rfl⟩, ⟨node, record⟩, isTold, same⟩
      rcases of_decide_eq_true same with ⟨rfl, logId⟩
      refine ⟨before, updates, mutations, record, after, next, ran, inFlight, isTold, logId, acked,
        isNext, ?_⟩
      rw [entry]
      decide

end GossipCluster

end Seisin
