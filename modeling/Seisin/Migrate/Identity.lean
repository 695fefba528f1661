import Seisin.Migrate.Plan
import Seisin.Storage.Installation

/-!
# Who the storage nodes are

A storage node is known by the id its log was given when it was created; one that answers for a node
with another log does not hold the data that was acknowledged.  The drivers ask the storage nodes
who they are.  `resume` compares the answers with the identity book and refuses an impostor;
`migrate`, and `recover` which ends in it, check the node id only and install whatever log id is
reported.  Here the calls of the drivers may fail; of the copying it is only known whether all of it
succeeds.
-/

namespace Seisin

open ClusterState

namespace Migrate

/-- Who answers at a store address, if anybody, and the log ids they report. -/
structure StorageTier where
  answersAt : String → Option NodeId
  logIds : NodeId → DatumId

def StorageTier.identify (tier : StorageTier) (address : String) : Option (NodeId × DatumId) :=
  (tier.answersAt address).map fun node => (node, tier.logIds node)

/-- What becomes of a call that changes a compute node. -/
inductive CallOutcome where
  | lost (message : String)
  | unanswered (message : String)
  | answered

/-- What becomes of the calls of a driver: reading the configuration, everything between the plan
and the flip, the installs or halts cleared, and the resumes. -/
structure Calls (Compute : Type) where
  config : Compute → Except String Unit
  copied : Except String Unit
  admin : Compute → CallOutcome
  resumed : Except String Unit

section Drivers

variable {Compute : Type} [DecidableEq Compute]

/-- Asks the compute nodes one after another for a change, up to the first that does not answer. -/
def adminEach (change : ClusterState → ClusterState) (outcome : Compute → CallOutcome) :
    List Compute → (Compute → ClusterState) → Except String Unit × (Compute → ClusterState)
  | [], views => (.ok (), views)
  | compute :: rest, views =>
      match outcome compute with
      | .lost message => (.error message, views)
      | .unanswered message =>
          (.error message, Function.update views compute (change (views compute)))
      | .answered =>
          adminEach change outcome rest (Function.update views compute (change (views compute)))

/-- The proposed members with the log ids they report; each has to answer, as the node it is. -/
def resolveReported (tier : StorageTier) :
    List StorageMember → Except String (List StorageMember)
  | [] => .ok []
  | member :: members =>
      match tier.identify member.storeAddress with
      | none => .error ("identifying proposed node NodeId(" ++ toString member.nodeId ++ ")")
      | some (nodeId, logId) =>
          if nodeId ≠ member.nodeId then
            .error ("proposed node at " ++ member.storeAddress ++ " reports id NodeId(" ++
              toString nodeId ++ "), expected NodeId(" ++ toString member.nodeId ++ ")")
          else
            match resolveReported tier members with
            | .error message => .error message
            | .ok resolved => .ok ({ member with logId := logId } :: resolved)

/-- The flip of a migration, when everything before it has succeeded. -/
def flip (computes : List Compute) (calls : Calls Compute) (resolved : List StorageMember)
    (views : Compute → ClusterState) : Except String Unit × (Compute → ClusterState) :=
  match adminEach (·.installStorageRing resolved) calls.admin computes views with
  | (.error message, after) => (.error message, after)
  | (.ok _, after) => (calls.resumed, after)

def migrateReported (computes : List Compute) (tier : StorageTier) (calls : Calls Compute)
    (proposed : List StorageMember) (apply : Bool) (views : Compute → ClusterState) :
    Except String Unit × (Compute → ClusterState) :=
  match computes with
  | [] => (.error "need at least one compute node address", views)
  | first :: _ =>
      match calls.config first, resolveReported tier proposed with
      | .error message, _ => (.error message, views)
      | .ok _, .error message => (.error message, views)
      | .ok _, .ok resolved =>
          if apply then
            match calls.copied with
            | .error message => (.error message, views)
            | .ok _ => flip computes calls resolved views
          else (.ok (), views)

/-- The members of the current ring that answer at all. -/
def survivors (tier : StorageTier) (current : List StorageMember) : List StorageMember :=
  current.filter fun member => (tier.identify member.storeAddress).isSome

def recover (computes : List Compute) (tier : StorageTier) (calls : Calls Compute) (apply : Bool)
    (views : Compute → ClusterState) : Except String Unit × (Compute → ClusterState) :=
  match computes with
  | [] => (.error "need at least one compute node address", views)
  | first :: _ =>
      match calls.config first with
      | .error message => (.error message, views)
      | .ok _ =>
          let current := (views first).getClusterConfig
          if current.length - (survivors tier current).length = 0 then (.ok (), views)
          else migrateReported computes tier calls (survivors tier current) apply views

/-- Every member has to answer as the node it is, with the log id of the identity book. -/
def verify (tier : StorageTier) : List StorageMember → Except String Unit
  | [] => .ok ()
  | member :: members =>
      match tier.identify member.storeAddress with
      | none =>
          .error ("identifying NodeId(" ++ toString member.nodeId ++ ") at " ++ member.storeAddress)
      | some (nodeId, logId) =>
          if nodeId ≠ member.nodeId ∨ logId ≠ member.logId then
            .error ("impostor detected: storage node at " ++ member.storeAddress ++
              " reports NodeId(" ++ toString nodeId ++ ")/" ++ logId.debug ++ ", expected NodeId(" ++
              toString member.nodeId ++ ")/" ++ member.logId.debug ++ " — halt stands")
          else verify tier members

def resume (computes : List Compute) (tier : StorageTier) (calls : Calls Compute)
    (views : Compute → ClusterState) : Except String Unit × (Compute → ClusterState) :=
  match computes with
  | [] => (.error "need at least one compute node address", views)
  | first :: _ =>
      match calls.config first with
      | .error message => (.error message, views)
      | .ok _ =>
          match verify tier (views first).getClusterConfig with
          | .error message => (.error message, views)
          | .ok _ => adminEach (·.clearHalt) calls.admin computes views

/-- A run of one of the drivers. -/
inductive DriverRun where
  | migrate (proposed : List StorageMember) (apply : Bool)
  | recover (apply : Bool)
  | resume

def DriverRun.drive (run : DriverRun) (computes : List Compute) (tier : StorageTier)
    (calls : Calls Compute) (views : Compute → ClusterState) :
    Except String Unit × (Compute → ClusterState) :=
  match run with
  | .migrate proposed apply => migrateReported computes tier calls proposed apply views
  | .recover apply => Migrate.recover computes tier calls apply views
  | .resume => Migrate.resume computes tier calls views

/-! ## What the drivers should see to -/

/-- The members a run installs; a dry run installs none, and `recover` only acts if a node is
gone. -/
def DriverRun.installs (run : DriverRun) (tier : StorageTier) (view : ClusterState) :
    List StorageMember :=
  match run with
  | .migrate proposed apply => if apply then proposed else []
  | .recover apply =>
      if apply ∧ view.getClusterConfig.length - (survivors tier view.getClusterConfig).length ≠ 0
      then survivors tier view.getClusterConfig else []
  | .resume => []

/-- The nodes a run keeps in the ring, or re-admits to service. -/
def DriverRun.keeps (run : DriverRun) (tier : StorageTier) (view : ClusterState) : List NodeId :=
  match run with
  | .resume => view.storageRing.nodeIds
  | other => (other.installs tier view).map StorageMember.nodeId

/-- A node of the ring that reports another log id than the identity book has. -/
def Impostor (tier : StorageTier) (view : ClusterState) (node : NodeId) : Prop :=
  node ∈ view.storageRing.nodeIds ∧
    ∃ logId, view.identityBook node = some logId ∧ tier.logIds node ≠ logId

/-- The driver fails, and every compute node has the ring, the identity book and the halt it had. -/
def FailsUnchanged (views : Compute → ClusterState)
    (outcome : Except String Unit × (Compute → ClusterState)) : Prop :=
  (∃ message, outcome.1 = .error message) ∧ ∀ compute,
    (outcome.2 compute).storageRing = (views compute).storageRing ∧
    (outcome.2 compute).identityBook = (views compute).identityBook ∧
    (outcome.2 compute).halted = (views compute).halted

/-- A run that would keep an impostor fails and changes nothing. -/
def RefusesImpostors (run : DriverRun) (first : Compute) (others : List Compute)
    (tier : StorageTier) (calls : Calls Compute) (views : Compute → ClusterState) : Prop :=
  ∀ node ∈ run.keeps tier (views first), Impostor tier (views first) node →
    FailsUnchanged views (run.drive (first :: others) tier calls views)

/-- Something before the flip fails: the configuration cannot be read, a member does not answer as
the node it is, the copying does not succeed, or the first install is lost. -/
inductive StopsBefore (first : Compute) (tier : StorageTier) (calls : Calls Compute)
    (members : List StorageMember) : Prop where
  | config (message : String) (failed : calls.config first = .error message)
  | member (member : StorageMember) (inside : member ∈ members)
      (another : tier.answersAt member.storeAddress ≠ some member.nodeId)
  | copied (message : String) (failed : calls.copied = .error message)
  | install (message : String) (lost : calls.admin first = .lost message)

/-! ## When they do -/

variable {first : Compute} {others : List Compute} {tier : StorageTier} {calls : Calls Compute}
  {views : Compute → ClusterState}

theorem resolveReported_cases (tier : StorageTier) (members : List StorageMember) :
    (∃ message, resolveReported tier members = .error message ∧
      ∃ member ∈ members, tier.answersAt member.storeAddress ≠ some member.nodeId) ∨
    (resolveReported tier members =
        .ok (members.map fun member => { member with logId := tier.logIds member.nodeId }) ∧
      ∀ member ∈ members, tier.answersAt member.storeAddress = some member.nodeId) := by
  induction members with
  | nil => exact Or.inr ⟨rfl, fun _ impossible => absurd impossible List.not_mem_nil⟩
  | cons member members ih =>
      unfold resolveReported StorageTier.identify
      cases answers : tier.answersAt member.storeAddress with
      | none =>
          left
          exact ⟨_, rfl, member, List.mem_cons_self, by simp [answers]⟩
      | some node =>
          by_cases same : node = member.nodeId
          · subst same
            simp only [Option.map_some, ne_eq, not_true_eq_false, if_false]
            rcases ih with ⟨message, failed, other, otherMem, another⟩ | ⟨resolved, all⟩
            · left
              rw [failed]
              exact ⟨message, rfl, other, List.mem_cons_of_mem _ otherMem, another⟩
            · right
              rw [resolved]
              refine ⟨rfl, ?_⟩
              intro other otherMem
              rcases List.mem_cons.mp otherMem with rfl | later
              · exact answers
              · exact all other later
          · left
            simp only [Option.map_some, ne_eq, same, not_false_eq_true, if_true]
            exact ⟨_, rfl, member, List.mem_cons_self, by simp [answers, same]⟩

omit [DecidableEq Compute] in
theorem failsUnchanged_error (views : Compute → ClusterState) (message : String) :
    FailsUnchanged views (.error message, views) :=
  ⟨⟨message, rfl⟩, fun _ => ⟨rfl, rfl, rfl⟩⟩

/-- What every change brings about holds at a compute node that had it or was reached. -/
theorem adminEach_keeps (holds : ClusterState → Prop) {change : ClusterState → ClusterState}
    {outcome : Compute → CallOutcome} (brings : ∀ view, holds (change view))
    (computes : List Compute) (compute : Compute) (already : holds (views compute)) :
    holds ((adminEach change outcome computes views).2 compute) := by
  induction computes generalizing views with
  | nil => exact already
  | cons next rest ih =>
      have reached : holds (Function.update views next (change (views next)) compute) := by
        by_cases same : compute = next
        · subst same
          rw [Function.update_self]
          exact brings _
        · rw [Function.update_of_ne same]
          exact already
      unfold adminEach
      cases outcome next with
      | lost message => exact already
      | unanswered message => exact reached
      | answered => exact ih reached

/-- The first compute node is reached unless the call is lost. -/
theorem adminEach_first (holds : ClusterState → Prop) {change : ClusterState → ClusterState}
    {outcome : Compute → CallOutcome} (brings : ∀ view, holds (change view))
    (reached : ∀ message, outcome first ≠ .lost message) :
    holds ((adminEach change outcome (first :: others) views).2 first) := by
  have now : holds (Function.update views first (change (views first)) first) := by
    rw [Function.update_self]
    exact brings _
  unfold adminEach
  cases first' : outcome first with
  | lost message => exact absurd first' (reached message)
  | unanswered message => exact now
  | answered => exact adminEach_keeps holds brings others first now

theorem identityBook_installStorageRing (state : ClusterState) {members : List StorageMember}
    {logIds : NodeId → DatumId} (reported : ∀ member ∈ members, member.logId = logIds member.nodeId)
    {node : NodeId} (inside : node ∈ members.map StorageMember.nodeId) :
    (state.installStorageRing members).identityBook node = some (logIds node) := by
  have folded : ∀ (members : List StorageMember) (book : NodeId → Option DatumId),
      (∀ member ∈ members, member.logId = logIds member.nodeId) →
      (node ∈ members.map StorageMember.nodeId ∨ book node = some (logIds node)) →
      members.foldl (fun (book : NodeId → Option DatumId) member =>
        Function.update book member.nodeId (some member.logId)) book node =
          some (logIds node) := by
    intro members
    induction members with
    | nil =>
        rintro book _ (impossible | already)
        · cases impossible
        · exact already
    | cons member members ih =>
        intro book reported known
        apply ih
        · exact fun other otherMem => reported other (List.mem_cons_of_mem _ otherMem)
        · dsimp only
          by_cases same : node = member.nodeId
          · right
            rw [same, Function.update_self, reported member List.mem_cons_self]
          · rw [Function.update_of_ne same]
            rcases known with inside | already
            · rw [List.map_cons, List.mem_cons] at inside
              exact Or.inl (inside.resolve_left same)
            · exact Or.inr already
  exact folded members _ reported (Or.inl inside)

/-- A migration that gets to the flip has the first compute node take the log ids reported. -/
theorem migrateReported_cases (first : Compute) (others : List Compute) (tier : StorageTier)
    (calls : Calls Compute) (proposed : List StorageMember) (views : Compute → ClusterState) :
    (StopsBefore first tier calls proposed ∧
      FailsUnchanged views (migrateReported (first :: others) tier calls proposed true views)) ∨
    (¬StopsBefore first tier calls proposed ∧ ∀ node ∈ proposed.map StorageMember.nodeId,
      ((migrateReported (first :: others) tier calls proposed true views).2 first).identityBook
        node = some (tier.logIds node)) := by
  cases config : calls.config first with
  | error message =>
      simp only [migrateReported, config]
      exact Or.inl ⟨.config message config, failsUnchanged_error views message⟩
  | ok _ =>
      rcases resolveReported_cases tier proposed with
        ⟨message, failed, member, inside, another⟩ | ⟨resolved, all⟩
      · simp only [migrateReported, config, failed]
        exact Or.inl ⟨.member member inside another, failsUnchanged_error views message⟩
      · cases copied : calls.copied with
        | error message =>
            simp only [migrateReported, config, resolved, if_true, copied]
            exact Or.inl ⟨.copied message copied, failsUnchanged_error views message⟩
        | ok _ =>
            simp only [migrateReported, config, resolved, if_true, copied]
            by_cases lost : ∃ message, calls.admin first = .lost message
            · rcases lost with ⟨message, lost⟩
              left
              simp only [flip, adminEach, lost]
              exact ⟨.install message lost, failsUnchanged_error views message⟩
            · right
              constructor
              · rintro (⟨message, failed⟩ | ⟨member, inside, another⟩ | ⟨message, failed⟩ |
                  ⟨message, isLost⟩)
                · rw [config] at failed
                  cases failed
                · exact another (all member inside)
                · rw [copied] at failed
                  cases failed
                · exact lost ⟨message, isLost⟩
              · intro node inside
                have flipped : (flip (first :: others) calls (proposed.map fun member =>
                    { member with logId := tier.logIds member.nodeId }) views).2 =
                    (adminEach (·.installStorageRing (proposed.map fun member =>
                      { member with logId := tier.logIds member.nodeId })) calls.admin
                      (first :: others) views).2 := by
                  unfold flip
                  split <;> simp [*]
                rw [flipped]
                have brings : ∀ view : ClusterState,
                    (view.installStorageRing (proposed.map fun member =>
                      { member with logId := tier.logIds member.nodeId })).identityBook node =
                        some (tier.logIds node) := by
                  intro view
                  apply identityBook_installStorageRing
                  · intro member memberMem
                    rcases List.mem_map.mp memberMem with ⟨original, _, rfl⟩
                    rfl
                  · rw [List.map_map]
                    exact inside
                exact adminEach_first (fun view => view.identityBook node = some (tier.logIds node))
                  brings (not_exists.mp lost)

/-- `resume` never re-admits an impostor. -/
theorem resume_refuses {node : NodeId} (impostor : Impostor tier (views first) node) :
    FailsUnchanged views (resume (first :: others) tier calls views) := by
  rcases impostor with ⟨inRing, logId, known, differs⟩
  have refused : ∀ members : List StorageMember, ∀ member ∈ members, member.nodeId = node →
      member.logId = logId → ∃ message, verify tier members = .error message := by
    intro members member memberMem sameNode sameLog
    induction members with
    | nil => cases memberMem
    | cons next members ih =>
        unfold verify StorageTier.identify
        cases answers : tier.answersAt next.storeAddress with
        | none => exact ⟨_, rfl⟩
        | some answering =>
            dsimp only [Option.map_some]
            split
            · exact ⟨_, rfl⟩
            · rename_i passed
              rw [not_or, not_not, not_not] at passed
              rcases List.mem_cons.mp memberMem with rfl | later
              · rw [passed.1, sameNode, sameLog] at passed
                exact absurd passed.2 differs
              · exact ih later
  cases config : calls.config first with
  | error message =>
      simp only [resume, config]
      exact failsUnchanged_error views message
  | ok _ =>
      have listed : ⟨node, ((views first).storageRing.slots.map Prod.fst).count node,
          ((views first).storeAddresses node).getD "", logId⟩ ∈ (views first).getClusterConfig := by
        unfold ClusterState.getClusterConfig Ring.weights
        rw [List.map_map, List.mem_map]
        exact ⟨node, inRing, by simp [known]⟩
      rcases refused _ _ listed rfl rfl with ⟨message, failed⟩
      simp only [resume, config, failed]
      exact failsUnchanged_error views message

theorem migrate_refuses_iff (first : Compute) (others : List Compute) (tier : StorageTier)
    (calls : Calls Compute) (proposed : List StorageMember) (views : Compute → ClusterState) :
    (∀ node ∈ proposed.map StorageMember.nodeId, Impostor tier (views first) node →
        FailsUnchanged views (migrateReported (first :: others) tier calls proposed true views)) ↔
      StopsBefore first tier calls proposed ∨
        ∀ node ∈ proposed.map StorageMember.nodeId, ¬Impostor tier (views first) node := by
  rcases migrateReported_cases first others tier calls proposed views with
    ⟨stops, fails⟩ | ⟨proceeds, installed⟩
  · exact ⟨fun _ => Or.inl stops, fun _ _ _ _ => fails⟩
  · constructor
    · intro refuses
      right
      rintro node inside impostor
      have unchanged := ((refuses node inside impostor).2 first).2.1
      rcases impostor with ⟨_, logId, known, differs⟩
      have after := installed node inside
      rw [unchanged, known, Option.some.injEq] at after
      exact differs after.symm
    · rintro (stops | none_) node inside impostor
      · exact absurd stops proceeds
      · exact absurd impostor (none_ node inside)

/-- Any run refuses impostors exactly if what it installs, nothing in the case of a `resume`, does
not get to the flip or has no node that reports another log id than the identity book has. -/
theorem drivers_refuse_impostors_iff (run : DriverRun) (first : Compute) (others : List Compute)
    (tier : StorageTier) (calls : Calls Compute) (views : Compute → ClusterState) :
    RefusesImpostors run first others tier calls views ↔
      StopsBefore first tier calls (run.installs tier (views first)) ∨
        ∀ node ∈ (run.installs tier (views first)).map StorageMember.nodeId,
          ¬Impostor tier (views first) node := by
  cases run with
  | migrate proposed apply =>
      cases apply with
      | true => exact migrate_refuses_iff first others tier calls proposed views
      | false =>
          constructor
          · exact fun _ => Or.inr fun node impossible => absurd impossible List.not_mem_nil
          · exact fun _ node impossible => absurd impossible List.not_mem_nil
  | recover apply =>
      simp only [RefusesImpostors, DriverRun.keeps, DriverRun.installs]
      split
      · rename_i acts
        rcases acts with ⟨rfl, gone⟩
        rw [← migrate_refuses_iff first others tier calls _ views]
        cases config : calls.config first with
        | error message =>
            simp only [DriverRun.drive, Migrate.recover, migrateReported, config]
        | ok _ => simp only [DriverRun.drive, Migrate.recover, config, if_neg gone]
      · constructor
        · exact fun _ => Or.inr fun node impossible => absurd impossible List.not_mem_nil
        · exact fun _ node impossible => absurd impossible List.not_mem_nil
  | resume =>
      constructor
      · exact fun _ => Or.inr fun node impossible => absurd impossible List.not_mem_nil
      · exact fun _ node _ impostor => resume_refuses impostor

end Drivers

/-! ## A node that lost its log -/

/-- Node 1 is the storage ring, with log 11. -/
def logEleven : ClusterState :=
  (fromConfig [⟨1, 1, "store-1", 11⟩]).installStorageRing [⟨1, 1, "store-1", 11⟩]

/-- Every call succeeds, and node 1 answers with a new log. -/
theorem migrate_keeps_impostor : ∃ (tier : StorageTier) (calls : Calls Unit)
    (proposed : List StorageMember) (after : Unit → ClusterState),
    Impostor tier logEleven 1 ∧ 1 ∈ proposed.map StorageMember.nodeId ∧
    (DriverRun.migrate proposed true).drive [()] tier calls (fun _ => logEleven) =
      (.ok (), after) ∧
    (after ()).storageRing.nodeIds = [1] ∧ (after ()).identityBook 1 = some 99 ∧
    ¬RefusesImpostors (.migrate proposed true) () [] tier calls fun _ => logEleven := by
  have impostor : Impostor ⟨fun _ => some 1, fun _ => 99⟩ logEleven 1 := by
    refine ⟨by decide, 11, by decide, by decide⟩
  refine ⟨⟨fun _ => some 1, fun _ => 99⟩, ⟨fun _ => .ok (), .ok (), fun _ => .answered, .ok ()⟩,
    [⟨1, 2, "store-1", 0⟩], _, impostor, by decide, rfl, by decide, by decide, ?_⟩
  intro refuses
  rcases (refuses 1 (by decide) impostor).1 with ⟨message, failed⟩
  cases failed

end Migrate

end Seisin
