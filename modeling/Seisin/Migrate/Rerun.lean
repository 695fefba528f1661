import Seisin.Migrate.Completeness
import Seisin.Migrate.Tracking

/-!
# Migrations that crash and are run again

A driver that crashes before it installs the new ring leaves the cluster on the old one, with copies
at nodes that are not replicas, and with a copy thread that may go on.  Clients write and delete,
and another run of the driver makes a plan of its own.  Such copies get no later writes; a later run
overwrites them as long as their datum exists, but nobody removes them when it is deleted.  A write
that some replica has missed is acknowledged as well, and a later run may take that replica for a
source or for one that is current.
-/

namespace Seisin

open Transition ClusterState Migrate

/-- What the driver of an attempt has still to do: pairs to start, the transfer it waits for, and
the transfers whose tails are to be sent. -/
structure DriverAttempt where
  pairs : List (Σ _ : NodeId × NodeId, List DatumId)
  polling : Option (NodeId × DatumId)
  transfers : List (NodeId × DatumId)

/-- A cluster whose compute nodes have one view of the storage ring.  `latest` is the state of each
datum by its last acknowledged write or delete.  A node is behind on a datum if that operation has not
taken effect there, or one that nobody acknowledged has since; a node that becomes a replica is behind
unless it gets the latest state. -/
structure Rerunning where
  view : ClusterState
  nodes : StorageNodes
  threads : List CopyThread
  attempt : DriverAttempt
  latest : DatumId → Option (Bytes × ℕ)
  behind : NodeId → DatumId → Bool

/-- What happens next.  A `write` of no content is a delete; its compute node takes the `serving`
nodes to be alive and current.  With `attempt` a driver begins, and whatever another was doing is
over; `migrate` is a run of the driver from its beginning to its end. -/
inductive RerunLabel where
  | write (id : DatumId) (content : Option Bytes) (serving : NodeId → Bool)
      (outcomes : NodeId → CallOutcome)
  | attempt (proposed : List StorageMember) (answers : NodeId → Bool)
  | startTransfer (transferId : DatumId)
  | poll
  | copyRead (index : ℕ) (readable : Bool)
  | copySend (index : ℕ) (applied : Bool)
  | copyDone (index : ℕ)
  | finish (fates : DatumId → CopyFate)
  | migrate (proposed : List StorageMember) (transferId : NodeId × NodeId → DatumId)

/-- The hash of the rings and the replication factor of every datum, which its type fixes. -/
structure RerunSetting where
  hash : ℕ → ℕ → ℕ
  factor : DatumId → ℕ
  identities : StorageMember → NodeId × DatumId
  inRange : ∀ key slots, 0 < slots → hash key slots < slots

namespace DriverAttempt

def none : DriverAttempt := ⟨[], .none, []⟩

end DriverAttempt

namespace RerunSetting

variable (setting : RerunSetting) (state : Rerunning)

def replicas (ring : Ring) (id : DatumId) : List NodeId :=
  ring.replicas setting.hash id (setting.factor id)

/-- Reads and calls that all succeed. -/
def succeeds : CopyFate := ⟨true, true⟩

/-- An operation calls the replicas that are serving, one after another; without one it fails.  It is
acknowledged if some call is answered, and given up otherwise. -/
def write (id : DatumId) (content : Option Bytes) (serving : NodeId → Bool)
    (outcomes : NodeId → CallOutcome) : Option Rerunning :=
  match (setting.replicas state.view.storageRing id).filter serving with
  | [] => none
  | node :: rest =>
      let targets := node :: rest
      let payload := content.map fun bytes => (bytes, setting.factor id)
      let nodes := targets.foldl
        (fun nodes node => nodes.send node id payload (outcomes node).arrives) state.nodes
      let reached := fun node => decide (node ∈ targets) && (outcomes node).arrives
      if targets.any fun node => (outcomes node).isAnswered then
        some { state with
          nodes := nodes
          latest := Function.update state.latest id payload
          behind := fun node other => if other = id then !reached node else state.behind node other }
      else
        some { state with
          nodes := nodes
          behind := fun node other =>
            state.behind node other || (decide (other = id) && reached node) }

/-- A driver begins: it lists the current members, of which some may not answer, and makes its plan. -/
def attempt (proposed : List StorageMember) (answers : NodeId → Bool) : Rerunning :=
  let current := state.view.getClusterConfig
  let enumeration := enumerate (current.map StorageMember.nodeId)
    (fun node => (state.nodes node).log) answers
  { state with
    attempt := ⟨(byPair (moves setting.hash (ringOf current) (ringOf proposed) enumeration)).entries,
      none, []⟩ }

def startTransfer (transferId : DatumId) : Option Rerunning :=
  match state.attempt.pairs, state.attempt.polling with
  | ⟨(source, dest), ids⟩ :: pairs, none =>
      if ((state.nodes source).transfers transferId).isSome then none
      else
        some { state with
          nodes := state.nodes.update source (·.start transferId ids dest)
          threads := state.threads ++ [⟨source, dest, transferId, ⟨ids.dedup, none⟩⟩]
          attempt := ⟨pairs, some (source, transferId),
            state.attempt.transfers ++ [(source, transferId)]⟩ }
  | _, _ => none

def poll : Option Rerunning :=
  match state.attempt.polling with
  | none => none
  | some (source, transferId) =>
      match (state.nodes source).status transferId with
      | some (_, _, true) => some { state with attempt := { state.attempt with polling := none } }
      | _ => none

def copyRead (index : ℕ) (readable : Bool) : Option Rerunning :=
  match state.threads[index]? with
  | none => none
  | some thread =>
      (thread.task.copyRead (thread.ports ⟨readable, true⟩) state.nodes).map fun (task, nodes) =>
        { state with
          threads := state.threads.set index { thread with task := task }
          nodes := nodes }

def copySend (index : ℕ) (applied : Bool) : Option Rerunning :=
  match state.threads[index]? with
  | none => none
  | some thread =>
      (thread.task.copySend (thread.ports ⟨true, applied⟩) state.nodes).map fun (task, nodes) =>
        { state with
          threads := state.threads.set index { thread with task := task }
          nodes := nodes }

def copyDone (index : ℕ) : Option Rerunning :=
  match state.threads[index]? with
  | none => none
  | some thread =>
      (thread.task.copyDone (thread.ports succeeds) state.nodes).map fun nodes =>
        { state with threads := state.threads.eraseIdx index, nodes := nodes }

/-- The driver has the next tail sent, once every copy is done. -/
def finish (fates : DatumId → CopyFate) : Option Rerunning :=
  match state.attempt with
  | ⟨[], none, (source, transferId) :: transfers⟩ =>
      match state.nodes.finishTransfer source transferId fates with
      | (.error _, _) => none
      | (.ok _, nodes) => some { state with nodes := nodes, attempt := ⟨[], none, transfers⟩ }
  | _ => none

/-- A whole run of the driver, with nobody writing meanwhile and all calls succeeding. -/
def migrate (proposed : List StorageMember) (transferId : NodeId × NodeId → DatumId) :
    Option Rerunning :=
  match Migrate.migrate setting.hash [()] proposed true setting.identities transferId
      (fun _ _ _ => succeeds) (fun _ _ _ => succeeds)
      ⟨fun _ => state.view, fun _ => false, state.nodes⟩ with
  | (.error _, _) => none
  | (.ok _, migrated) =>
      some { state with
        view := migrated.views ()
        nodes := migrated.nodes
        attempt := .none
        behind := fun node id =>
          if node ∈ setting.replicas state.view.storageRing id ∨
              node ∉ setting.replicas (migrated.views ()).storageRing id then state.behind node id
          else decide (migrated.nodes.contents node id ≠ state.latest id) }

def step : RerunLabel → Option Rerunning
  | .write id content serving outcomes => setting.write state id content serving outcomes
  | .attempt proposed answers => some (setting.attempt state proposed answers)
  | .startTransfer transferId => startTransfer state transferId
  | .poll => poll state
  | .copyRead index readable => copyRead state index readable
  | .copySend index applied => copySend state index applied
  | .copyDone index => copyDone state index
  | .finish fates => finish state fates
  | .migrate proposed transferId => setting.migrate state proposed transferId

/-- The replicas that are not behind agree, and all values have their datum's factor. -/
structure Starts (state : Rerunning) : Prop where
  reported : ringOf state.view.getClusterConfig = state.view.storageRing
  replicas : ∀ id, ∀ node ∈ setting.replicas state.view.storageRing id,
    state.behind node id = false → state.nodes.contents node id = state.latest id
  present : ∀ id, state.latest id ≠ none → setting.replicas state.view.storageRing id ≠ []
  factors : ∀ node id payload, state.nodes.contents node id = some payload →
    payload.2 = setting.factor id
  threads : state.threads = []
  attempt : state.attempt = .none

def system : System Rerunning RerunLabel where
  init := setting.Starts
  step := setting.step

/-- A run begins when the copy threads of earlier attempts have ended; it goes to a list of distinct
members, which leaves every value a replica.  No replica that a datum keeps is behind on it, nor is
the first old replica of a datum that gets a new one, and no node that becomes a replica of an absent
datum has a copy of it. -/
structure Recoverable (state : Rerunning) (proposed : List StorageMember) : Prop where
  ended : state.threads = []
  distinct : (proposed.map StorageMember.nodeId).Nodup
  present : ∀ id, state.latest id ≠ none → setting.replicas (ringOf proposed) id ≠ []
  kept : ∀ id, ∀ node ∈ setting.replicas (ringOf proposed) id,
    node ∈ setting.replicas state.view.storageRing id → state.behind node id = false
  sources : ∀ id, ∀ node ∈ setting.replicas (ringOf proposed) id,
    node ∉ setting.replicas state.view.storageRing id →
    ∀ source ∈ (setting.replicas state.view.storageRing id).head?, state.behind source id = false
  leftovers : ∀ id, state.latest id = none → ∀ node ∈ setting.replicas (ringOf proposed) id,
    node ∉ setting.replicas state.view.storageRing id → state.nodes.contents node id = none

/-- Everything may happen at any time but a run of the driver. -/
def Clear (state : Rerunning) : RerunLabel → Prop
  | .migrate proposed _ => setting.Recoverable state proposed
  | _ => True

/-! ## The invariant -/

/-- The replicas that are not behind hold the latest states, and all copies have their datum's
factor. -/
structure Stored (state : Rerunning) : Prop where
  reported : ringOf state.view.getClusterConfig = state.view.storageRing
  replicas : ∀ id, ∀ node ∈ setting.replicas state.view.storageRing id,
    state.behind node id = false → state.nodes.contents node id = state.latest id
  present : ∀ id, state.latest id ≠ none → setting.replicas state.view.storageRing id ≠ []
  factors : ∀ node id payload, state.nodes.contents node id = some payload →
    payload.2 = setting.factor id

/-- A thread goes to nodes that are not replicas. -/
structure ThreadSound (state : Rerunning) (thread : CopyThread) : Prop where
  remaining : ∀ id ∈ thread.task.remaining,
    thread.dest ∉ setting.replicas state.view.storageRing id
  sending : ∀ id payload, thread.task.sending = some (id, payload) →
    payload.2 = setting.factor id ∧ thread.dest ∉ setting.replicas state.view.storageRing id

/-- Planned copies go from replicas to nodes that are none. -/
def Outward (state : Rerunning) (source dest : NodeId) (id : DatumId) : Prop :=
  source ∈ setting.replicas state.view.storageRing id ∧
    dest ∉ setting.replicas state.view.storageRing id

structure Driven (state : Rerunning) : Prop where
  threads : ∀ thread ∈ state.threads, setting.ThreadSound state thread
  pairs : ∀ entry ∈ state.attempt.pairs, ∀ id ∈ entry.2,
    setting.Outward state entry.1.1 entry.1.2 id
  transfers : ∀ entry ∈ state.attempt.transfers, ∃ transfer,
    (state.nodes entry.1).transfers entry.2 = some transfer ∧
      ∀ id, id ∈ transfer.ids ∨ id ∈ transfer.dirty →
        setting.Outward state entry.1 transfer.dest id
  distinct : state.attempt.transfers.Nodup

structure Sound (state : Rerunning) : Prop where
  stored : setting.Stored state
  driven : setting.Driven state

variable {setting state} {next : Rerunning}

theorem Starts.sound (starts : setting.Starts state) : setting.Sound state where
  stored := ⟨starts.reported, starts.replicas, starts.present, starts.factors⟩
  driven :=
    { threads := by
        rw [starts.threads]
        nofun
      pairs := by
        rw [starts.attempt]
        nofun
      transfers := by
        rw [starts.attempt]
        nofun
      distinct := by
        rw [starts.attempt]
        exact List.nodup_nil }

/-- A change at nodes that are not replicas, to values with their datum's factor. -/
theorem Stored.change (stored : setting.Stored state) (view : next.view = state.view)
    (latest : next.latest = state.latest) (behind : next.behind = state.behind)
    (changed : ∀ node id, next.nodes.contents node id = state.nodes.contents node id ∨
      (node ∉ setting.replicas state.view.storageRing id ∧
        ∀ payload, next.nodes.contents node id = some payload → payload.2 = setting.factor id)) :
    setting.Stored next where
  reported := by
    rw [view]
    exact stored.reported
  replicas := by
    intro id node replica current
    rw [view] at replica
    rw [behind] at current
    rw [latest, ← stored.replicas id node replica current]
    rcases changed node id with same | ⟨outside, _⟩
    · exact same
    · exact absurd replica outside
  present := by
    rw [view, latest]
    exact stored.present
  factors := by
    intro node id payload held
    rcases changed node id with same | ⟨_, fine⟩
    · exact stored.factors node id payload (same ▸ held)
    · exact fine payload held

/-- Transfers that only grow stay directed outward. -/
theorem Driven.transfers_of_extends (driven : setting.Driven state) (next : Rerunning)
    (extends_ : state.nodes.Extends next.nodes) (view : next.view = state.view) :
    ∀ entry ∈ state.attempt.transfers, ∃ transfer,
      (next.nodes entry.1).transfers entry.2 = some transfer ∧
        ∀ id, id ∈ transfer.ids ∨ id ∈ transfer.dirty →
          setting.Outward next entry.1 transfer.dest id := by
  intro entry entryMem
  rcases driven.transfers entry entryMem with ⟨transfer, found, outward⟩
  rcases extends_ entry.1 entry.2 transfer found with ⟨later, foundLater, grows⟩
  refine ⟨later, foundLater, ?_⟩
  intro id inside
  have before : id ∈ transfer.ids ∨ id ∈ transfer.dirty := by
    rcases inside with isPart | isDirty
    · exact Or.inl (grows.ids ▸ isPart)
    · exact (grows.tracked id isDirty).symm
  have directed := outward id before
  unfold Outward at directed ⊢
  rw [view, grows.dest]
  exact directed

theorem ThreadSound.frame {thread : CopyThread} (threadSound : setting.ThreadSound state thread)
    (view : next.view = state.view) : setting.ThreadSound next thread where
  remaining := by
    rw [view]
    exact threadSound.remaining
  sending := by
    rw [view]
    exact threadSound.sending

/-! ## Writes -/

/-- What a write at several nodes leaves there. -/
theorem contents_foldl_send (targets : List NodeId) (id : DatumId) (payload : Option (Bytes × ℕ))
    (arrives : NodeId → Bool) (nodes : StorageNodes) (node : NodeId) (other : DatumId) :
    (targets.foldl (fun nodes node => nodes.send node id payload (arrives node))
        nodes).contents node other =
      if (decide (node ∈ targets) && arrives node) = true ∧ other = id then payload
      else nodes.contents node other := by
  induction targets generalizing nodes with
  | nil => simp
  | cons target targets ih =>
      rw [List.foldl_cons, ih, StorageNodes.contents_send]
      by_cases same : node = target
      · subst same
        by_cases ofId : other = id
        · cases arrives node <;> simp [ofId]
        · simp [ofId]
      · simp [same]

theorem extends_foldl_send (targets : List NodeId) (id : DatumId) (payload : Option (Bytes × ℕ))
    (arrives : NodeId → Bool) (nodes : StorageNodes) :
    nodes.Extends
      (targets.foldl (fun nodes node => nodes.send node id payload (arrives node)) nodes) := by
  induction targets generalizing nodes with
  | nil => exact .refl nodes
  | cons target targets ih => exact (nodes.extends_send target id payload).trans (ih _)

/-- A step that leaves the threads and the driver alone and lets transfers grow. -/
theorem Driven.ofWrite (driven : setting.Driven state) (view : next.view = state.view)
    (threads : next.threads = state.threads) (attempt : next.attempt = state.attempt)
    (extends_ : state.nodes.Extends next.nodes) : setting.Driven next := by
  refine ⟨?_, ?_, ?_, ?_⟩
  · rw [threads]
    exact fun thread threadMem => (driven.threads thread threadMem).frame view
  · rw [attempt]
    unfold Outward
    rw [view]
    exact driven.pairs
  · rw [attempt]
    exact driven.transfers_of_extends next extends_ view
  · rw [attempt]
    exact driven.distinct

theorem Sound.write (sound : setting.Sound state) {id : DatumId} {content : Option Bytes}
    {serving : NodeId → Bool} {outcomes : NodeId → CallOutcome}
    (stepped : setting.write state id content serving outcomes = some next) :
    setting.Sound next := by
  rcases sound with ⟨stored, driven⟩
  unfold RerunSetting.write at stepped
  split at stepped
  · cases stepped
  · rename_i first rest filtered
    have nonempty : setting.replicas state.view.storageRing id ≠ [] := by
      intro empty
      rw [empty] at filtered
      cases filtered
    have factors : ∀ node other payload, ((first :: rest).foldl (fun nodes node => nodes.send node id
        (content.map fun bytes => (bytes, setting.factor id)) (outcomes node).arrives)
          state.nodes).contents node other = some payload → payload.2 = setting.factor other := by
      intro node other payload held
      rw [contents_foldl_send] at held
      split at held
      · rename_i written
        rw [written.2]
        rcases Option.map_eq_some_iff.mp held with ⟨bytes, _, rfl⟩
        rfl
      · exact stored.factors node other payload held
    simp only at stepped
    split at stepped
    · cases stepped
      refine ⟨⟨stored.reported, ?_, ?_, factors⟩,
        driven.ofWrite rfl rfl rfl (extends_foldl_send _ id _ _ state.nodes)⟩
      · -- the replicas that the operation has reached are current
        intro other node replica current
        dsimp only at current ⊢
        rw [contents_foldl_send]
        by_cases same : other = id
        · subst same
          rw [if_pos rfl, Bool.not_eq_false'] at current
          rw [if_pos ⟨current, rfl⟩, Function.update_self]
        · rw [if_neg same] at current
          rw [if_neg fun both => same both.2, Function.update_of_ne same]
          exact stored.replicas other node replica current
      · intro other exists_
        by_cases same : other = id
        · subst same
          exact nonempty
        · simp only [Function.update_of_ne same] at exists_
          exact stored.present other exists_
    · cases stepped
      refine ⟨⟨stored.reported, ?_, stored.present, factors⟩,
        driven.ofWrite rfl rfl rfl (extends_foldl_send _ id _ _ state.nodes)⟩
      -- those that it has reached are behind now
      intro other node replica current
      simp only [Bool.or_eq_false_iff] at current
      dsimp only
      rw [contents_foldl_send, if_neg]
      · exact stored.replicas other node replica current.1
      · rintro ⟨reached, rfl⟩
        rw [reached] at current
        simp at current

/-! ## Attempts -/

theorem Sound.attempt (sound : setting.Sound state) (proposed : List StorageMember)
    (answers : NodeId → Bool) : setting.Sound (setting.attempt state proposed answers) := by
  rcases sound with ⟨stored, driven⟩
  refine ⟨stored.change rfl rfl rfl fun _ _ => Or.inl rfl,
    fun thread threadMem => (driven.threads thread threadMem).frame rfl, ?_, nofun, List.nodup_nil⟩
  intro entry planned id listed
  have move : ⟨id, entry.1.1, entry.1.2⟩ ∈ moves setting.hash
      (ringOf state.view.getClusterConfig) (ringOf proposed) _ :=
    mem_byPair.mpr ⟨entry, planned, rfl, listed⟩
  rcases mem_moves.mp move with ⟨n, known, source, _, outside⟩
  rcases lookup_enumerate known with ⟨node, _, _, bytes, held⟩
  have factor : n = setting.factor id := stored.factors node id (bytes, n) held
  rw [stored.reported, factor] at source outside
  exact ⟨List.mem_of_find?_eq_some source, outside⟩

theorem Sound.startTransfer (sound : setting.Sound state) {transferId : DatumId}
    (stepped : startTransfer state transferId = some next) : setting.Sound next := by
  rcases sound with ⟨stored, driven⟩
  unfold RerunSetting.startTransfer at stepped
  split at stepped
  · rename_i source dest ids pairs waiting idle
    split at stepped
    · cases stepped
    · rename_i fresh
      rw [Option.not_isSome_iff_eq_none] at fresh
      cases stepped
      have outward : ∀ id ∈ ids, setting.Outward state source dest id :=
        driven.pairs ⟨(source, dest), ids⟩ (by rw [waiting]; exact List.mem_cons_self)
      refine ⟨stored.change rfl rfl rfl fun node id => Or.inl ?_, ?_, ?_, ?_, ?_⟩
      · exact congrFun (congrFun (state.nodes.contents_update source rfl) node) id
      · intro thread threadMem
        rcases List.mem_append.mp threadMem with before | now
        · exact (driven.threads thread before).frame rfl
        · rw [List.mem_singleton] at now
          subst now
          exact ⟨fun id listed => (outward id (List.mem_dedup.mp listed)).2, nofun⟩
      · intro entry entryMem
        exact driven.pairs entry (by rw [waiting]; exact List.mem_cons_of_mem _ entryMem)
      · intro entry entryMem
        rcases List.mem_append.mp entryMem with before | now
        · refine driven.transfers_of_extends _ ?_ ?_ entry before
          · exact state.nodes.extends_start source fresh ids dest
          · rfl
        · rw [List.mem_singleton] at now
          subst now
          refine ⟨⟨ids.dedup, dest, 0, [], false⟩, ?_, ?_⟩
          · simp only [StorageNodes.update, Function.update_self, StorageNode.start]
          · rintro id (isPart | isDirty)
            · exact outward id (List.mem_dedup.mp isPart)
            · cases isDirty
      · have unused : (source, transferId) ∉ state.attempt.transfers := by
          intro used
          rcases driven.transfers _ used with ⟨transfer, found, _⟩
          rw [fresh] at found
          cases found
        rw [List.nodup_append]
        refine ⟨driven.distinct, List.nodup_singleton _, ?_⟩
        rintro entry before _ now rfl
        rw [List.mem_singleton] at now
        exact unused (now ▸ before)
  · cases stepped

theorem Sound.poll (sound : setting.Sound state) (stepped : poll state = some next) :
    setting.Sound next := by
  rcases sound with ⟨stored, driven⟩
  unfold RerunSetting.poll at stepped
  split at stepped
  · cases stepped
  · split at stepped
    · cases stepped
      exact ⟨stored.change rfl rfl rfl fun _ _ => Or.inl rfl,
        fun thread threadMem => (driven.threads thread threadMem).frame rfl, driven.pairs,
        driven.transfers, driven.distinct⟩
    · cases stepped

/-! ## Copy threads -/

/-- A step of one thread that lets transfers grow. -/
theorem Driven.thread (driven : setting.Driven state) (view : next.view = state.view)
    (attempt : next.attempt = state.attempt) (extends_ : state.nodes.Extends next.nodes)
    (threads : ∀ thread ∈ next.threads, thread ∈ state.threads ∨ setting.ThreadSound next thread) :
    setting.Driven next := by
  have rest : setting.Driven { next with threads := state.threads } :=
    driven.ofWrite view rfl attempt extends_
  refine ⟨?_, rest.pairs, rest.transfers, rest.distinct⟩
  intro thread threadMem
  rcases threads thread threadMem with before | now
  · exact (driven.threads thread before).frame view
  · exact now

theorem Sound.copyRead (sound : setting.Sound state) {index : ℕ} {readable : Bool}
    (stepped : copyRead state index readable = some next) : setting.Sound next := by
  rcases sound with ⟨stored, driven⟩
  unfold RerunSetting.copyRead at stepped
  split at stepped
  · cases stepped
  · rename_i thread found
    have threadSound := driven.threads thread (List.mem_of_getElem? found)
    rcases Option.map_eq_some_iff.mp stepped with ⟨⟨task, nodes⟩, advanced, rfl⟩
    rcases CopyTask.copyRead_cases advanced with ⟨id, rest, idle, waiting, outcome⟩
    have outside : ∀ other, other = id ∨ other ∈ rest →
        thread.dest ∉ setting.replicas state.view.storageRing other := by
      intro other isWaiting
      apply threadSound.remaining
      rw [waiting]
      exact List.mem_cons.mpr isWaiting
    rcases outcome with ⟨payload, read, rfl, rfl⟩ | ⟨_, rfl, rfl⟩
    · have held : state.nodes.contents thread.source id = some payload := by
        change (state.nodes thread.source).readValue id readable = _ at read
        unfold StorageNode.readValue at read
        split at read
        · exact read
        · cases read
      refine ⟨stored.change rfl rfl rfl fun _ _ => Or.inl rfl,
        driven.thread rfl rfl (.refl state.nodes) ?_⟩
      intro other otherMem
      rcases List.mem_or_eq_of_mem_set otherMem with before | rfl
      · exact Or.inl before
      · refine Or.inr ⟨fun later isLater => outside later (Or.inr isLater), ?_⟩
        rintro _ _ ⟨⟩
        exact ⟨stored.factors thread.source id payload held, outside id (Or.inl rfl)⟩
    · refine ⟨stored.change rfl rfl rfl fun node other => Or.inl ?_,
        driven.thread rfl rfl (StorageNodes.extends_bumpCopied _ _ _) ?_⟩
      · exact congrFun (congrFun (state.nodes.contents_update thread.source rfl) node) other
      · intro other otherMem
        rcases List.mem_or_eq_of_mem_set otherMem with before | rfl
        · exact Or.inl before
        · exact Or.inr ⟨fun later isLater => outside later (Or.inr isLater), nofun⟩

theorem Sound.copySend (sound : setting.Sound state) {index : ℕ} {applied : Bool}
    (stepped : copySend state index applied = some next) : setting.Sound next := by
  rcases sound with ⟨stored, driven⟩
  unfold RerunSetting.copySend at stepped
  split at stepped
  · cases stepped
  · rename_i thread found
    have threadSound := driven.threads thread (List.mem_of_getElem? found)
    rcases Option.map_eq_some_iff.mp stepped with ⟨⟨task, nodes⟩, advanced, rfl⟩
    rcases CopyTask.copySend_cases advanced with ⟨id, payload, isSending, rfl, rfl⟩
    rcases threadSound.sending id payload isSending with ⟨factor, outside⟩
    have contents : ((state.nodes.send thread.dest id (some payload) applied).update thread.source
        (·.bumpCopied thread.transferId)).contents =
          (state.nodes.send thread.dest id (some payload) applied).contents :=
      StorageNodes.contents_update _ thread.source rfl
    refine ⟨stored.change rfl rfl rfl ?_, driven.thread rfl rfl
      ((state.nodes.extends_send _ _ _).trans (StorageNodes.extends_bumpCopied _ _ _)) ?_⟩
    · intro node other
      change ((state.nodes.send thread.dest id (some payload) applied).update thread.source
        (·.bumpCopied thread.transferId)).contents node other = _ ∨ _ ∧ ∀ sent,
          ((state.nodes.send thread.dest id (some payload) applied).update thread.source
            (·.bumpCopied thread.transferId)).contents node other = some sent → _
      rw [contents, StorageNodes.contents_send]
      by_cases arrives : node = thread.dest ∧ other = id ∧ applied
      · rcases arrives with ⟨rfl, rfl, isApplied⟩
        right
        refine ⟨outside, ?_⟩
        rw [if_pos ⟨rfl, rfl, isApplied⟩]
        rintro _ ⟨⟩
        exact factor
      · rw [if_neg arrives]
        exact Or.inl rfl
    · intro other otherMem
      rcases List.mem_or_eq_of_mem_set otherMem with before | rfl
      · exact Or.inl before
      · exact Or.inr ⟨threadSound.remaining, nofun⟩

theorem Sound.copyDone (sound : setting.Sound state) {index : ℕ}
    (stepped : copyDone state index = some next) : setting.Sound next := by
  rcases sound with ⟨stored, driven⟩
  unfold RerunSetting.copyDone at stepped
  split at stepped
  · cases stepped
  · rename_i thread found
    rcases Option.map_eq_some_iff.mp stepped with ⟨nodes, ended, rfl⟩
    rcases CopyTask.copyDone_cases ended with ⟨_, _, rfl⟩
    refine ⟨stored.change rfl rfl rfl fun node other => Or.inl ?_, driven.thread rfl rfl ?_ ?_⟩
    · exact congrFun (congrFun (state.nodes.contents_update thread.source rfl) node) other
    · exact state.nodes.extends_modify thread.source thread.transferId
        fun _ => ⟨rfl, rfl, fun _ => id, fun _ => Or.inl⟩
    · exact fun other otherMem => Or.inl (List.mem_of_mem_eraseIdx otherMem)

theorem Sound.finish (sound : setting.Sound state) {fates : DatumId → CopyFate}
    (stepped : finish state fates = some next) : setting.Sound next := by
  rcases sound with ⟨stored, driven⟩
  unfold RerunSetting.finish at stepped
  split at stepped
  · rename_i source transferId transfers attempted
    have transfersEq : state.attempt.transfers = (source, transferId) :: transfers := by
      rw [attempted]
    rcases driven.transfers (source, transferId) (by rw [transfersEq]; exact List.mem_cons_self)
      with ⟨transfer, found, outward⟩
    have apart : ∀ id ∈ transfer.dirty, source ≠ transfer.dest := by
      intro id isDirty same
      have directed := outward id (Or.inr isDirty)
      rw [← same] at directed
      exact directed.2 directed.1
    rcases StorageNodes.finishTransfer_spec found apart fates with
      ⟨after, finished, contents, others⟩
    simp only [finished] at stepped
    cases stepped
    have distinct := driven.distinct
    rw [transfersEq, List.nodup_cons] at distinct
    refine ⟨stored.change rfl rfl rfl ?_,
      fun thread threadMem => (driven.threads thread threadMem).frame rfl, nofun, ?_, distinct.2⟩
    · intro node id
      simp only [contents]
      by_cases sent : node = transfer.dest ∧ id ∈ transfer.dirty ∧ (fates id).applied
      · rw [if_pos sent]
        right
        refine ⟨sent.1 ▸ (outward id (Or.inr sent.2.1)).2, ?_⟩
        intro payload held
        unfold StorageNode.readValue at held
        split at held
        · exact stored.factors source id payload held
        · cases held
      · rw [if_neg sent]
        exact Or.inl rfl
    · intro entry entryMem
      have differ : ¬(entry.1 = source ∧ entry.2 = transferId) := by
        rintro ⟨sameSource, sameId⟩
        exact distinct.1 (by rwa [← sameSource, ← sameId])
      rcases driven.transfers entry (by rw [transfersEq]; exact List.mem_cons_of_mem _ entryMem)
        with ⟨other, otherFound, otherOutward⟩
      rcases others entry.1 entry.2 other differ otherFound with ⟨later, foundLater, grows⟩
      refine ⟨later, foundLater, ?_⟩
      intro id inside
      rw [grows.dest]
      apply otherOutward
      rcases inside with isPart | isDirty
      · exact Or.inl (grows.ids ▸ isPart)
      · exact (grows.tracked id isDirty).symm
  · cases stepped

/-! ## Whole runs -/

theorem ringOf_getClusterConfig (view : ClusterState) :
    ringOf view.getClusterConfig = Ring.fromMembers view.storageRing.weights := by
  simp only [ringOf, ClusterState.getClusterConfig, List.map_map, Function.comp_def, List.map_id']

/-- A ring installed from distinct members is reported as it is. -/
theorem reported_installStorageRing (view : ClusterState) {members : List StorageMember}
    (distinct : (members.map StorageMember.nodeId).Nodup) :
    ringOf (view.installStorageRing members).getClusterConfig =
      (view.installStorageRing members).storageRing := by
  rw [ringOf_getClusterConfig]
  apply Ring.fromMembers_weights
  rwa [List.map_map]

/-- What a node has after a migration was somewhere before. -/
theorem origin_of_migrated {planned : List Move} {superseded : List (NodeId × DatumId)}
    {fates : Fates} {before after : NodeId → DatumId → Option (Bytes × ℕ)}
    (migrated : Migrated planned superseded fates before after) {node : NodeId} {id : DatumId}
    {payload : Bytes × ℕ} (held : after node id = some payload) :
    ∃ other, before other id = some payload := by
  have notDropped : (node, id) ∉ superseded := by
    intro drop
    rw [migrated.dropped node id drop] at held
    cases held
  by_cases effect : ∃ move ∈ planned, move.dest = node ∧ move.id = id ∧
      TakesEffect fates before move
  · rcases effect with ⟨move, isPlanned, rfl, rfl, takes⟩
    rw [migrated.copied move isPlanned notDropped takes] at held
    exact ⟨move.source, held⟩
  · refine ⟨node, ?_⟩
    rw [← migrated.kept node id notDropped]
    · exact held
    · intro move isPlanned toNode ofId takes
      exact effect ⟨move, isPlanned, toNode, ofId, takes⟩

/-- The listing has every datum of which a current member has a copy, with its factor. -/
theorem Stored.listed (stored : setting.Stored state) {deployment : Deployment Unit}
    (nodes : deployment.nodes = state.nodes) (id : DatumId) :
    (∀ n, (enumerateAll state.view.getClusterConfig deployment).idFactors.lookup id = some n →
      n = setting.factor id) ∧
    ∀ node ∈ setting.replicas state.view.storageRing id, state.nodes.contents node id ≠ none →
      (enumerateAll state.view.getClusterConfig deployment).idFactors.lookup id =
        some (setting.factor id) := by
  have factors : ∀ n, (enumerateAll state.view.getClusterConfig deployment).idFactors.lookup id =
      some n → n = setting.factor id := by
    intro n known
    rcases lookup_enumerate known with ⟨node, _, _, bytes, held⟩
    rw [nodes] at held
    exact stored.factors node id (bytes, n) held
  refine ⟨factors, ?_⟩
  intro node replica held
  rcases Option.ne_none_iff_exists'.mp held with ⟨⟨bytes, n⟩, value⟩
  have listed : (deployment.nodes node).log.lookup id = some (bytes, n) := by
    rw [nodes]
    exact value
  have member : node ∈ state.view.getClusterConfig.map StorageMember.nodeId := by
    rw [← stored.reported] at replica
    exact mem_of_mem_ringOf setting.inRange replica
  have known : ((enumerateAll state.view.getClusterConfig deployment).idFactors.lookup
      id).isSome := isSome_enumerate member rfl listed
  rcases Option.isSome_iff_exists.mp known with ⟨factor, found⟩
  rw [factors factor found] at found
  exact found

/-- A whole run brings the latest state of every datum to its new replicas. -/
theorem Stored.contents_migrated (stored : setting.Stored state) {proposed : List StorageMember}
    (recoverable : setting.Recoverable state proposed) {deployment : Deployment Unit}
    (nodes : deployment.nodes = state.nodes) {after : NodeId → DatumId → Option (Bytes × ℕ)}
    (migrated : Migrated
      (moves setting.hash (ringOf state.view.getClusterConfig) (ringOf proposed)
        (enumerateAll state.view.getClusterConfig deployment))
      (drops setting.hash (ringOf state.view.getClusterConfig) (ringOf proposed)
        (enumerateAll state.view.getClusterConfig deployment))
      (fun _ _ _ => succeeds) state.nodes.contents after) {id : DatumId} {node : NodeId}
    (replica : node ∈ setting.replicas (ringOf proposed) id) : after node id = state.latest id := by
  rcases stored.listed nodes id with ⟨factors, listed⟩
  have notDropped : (node, id) ∉ drops setting.hash (ringOf state.view.getClusterConfig)
      (ringOf proposed) (enumerateAll state.view.getClusterConfig deployment) := by
    intro drop
    rcases mem_drops.mp drop with ⟨n, found, _, notNew⟩
    rw [factors n found] at notNew
    exact notNew replica
  by_cases inOld : node ∈ setting.replicas state.view.storageRing id
  · rw [migrated.kept node id notDropped]
    · exact stored.replicas id node inOld (recoverable.kept id node replica inOld)
    · rintro move planned rfl rfl _
      rcases mem_moves.mp planned with ⟨n, found, _, _, outside⟩
      rw [factors n found, stored.reported] at outside
      exact outside inOld
  · -- the node becomes a replica; every copy to it comes from the primary
    have members : ∀ other ∈ (ringOf state.view.getClusterConfig).nodeIds,
        other ∈ state.view.getClusterConfig.map StorageMember.nodeId := by
      intro other member
      have inside := Ring.mem_of_mem_nodeIds_fromMembers member
      rwa [List.map_map] at inside
    have primary : setting.replicas state.view.storageRing id ≠ [] →
        state.nodes.contents (state.view.storageRing.nodeAt setting.hash (hashKey id)) id =
          state.latest id := by
      intro present
      apply stored.replicas id _ (Ring.nodeAt_mem_replicas present)
      exact recoverable.sources id node replica inOld _ (Ring.head?_replicas present)
    have source : ∀ other, ((ringOf state.view.getClusterConfig).replicas setting.hash id
        (setting.factor id)).find? (fun node => node ∈
          (enumerateAll state.view.getClusterConfig deployment).reachable) = some other ↔
        setting.replicas state.view.storageRing id ≠ [] ∧
          other = state.view.storageRing.nodeAt setting.hash (hashKey id) := by
      intro other
      rw [enumerateAll, find?_primary setting.inRange members, stored.reported]
      rfl
    cases latest : state.latest id with
    | none =>
        -- there is nothing to copy, and nothing was there before
        rw [migrated.kept node id notDropped, recoverable.leftovers id latest node replica inOld]
        rintro move planned rfl rfl ⟨_, _, held⟩
        rcases mem_moves.mp planned with ⟨n, found, from_, _, _⟩
        rw [factors n found] at from_
        rcases (source move.source).mp from_ with ⟨present, isPrimary⟩
        rw [isPrimary, primary present, latest] at held
        cases held
    | some payload =>
        have exists_ : state.latest id ≠ none := by
          rw [latest]
          exact Option.some_ne_none _
        have present := stored.present id exists_
        have held := (primary present).trans latest
        let move : Move := ⟨id, state.view.storageRing.nodeAt setting.hash (hashKey id), node⟩
        have known : (enumerateAll state.view.getClusterConfig deployment).idFactors.lookup id =
            some (setting.factor id) :=
          listed _ (Ring.nodeAt_mem_replicas present) (by rw [held]; exact Option.some_ne_none _)
        have planned : move ∈ moves setting.hash (ringOf state.view.getClusterConfig)
            (ringOf proposed) (enumerateAll state.view.getClusterConfig deployment) := by
          refine mem_moves.mpr ⟨setting.factor id, known, (source _).mpr ⟨present, rfl⟩, replica, ?_⟩
          rw [stored.reported]
          exact inOld
        have takes : TakesEffect (fun _ _ _ => succeeds) state.nodes.contents move :=
          ⟨rfl, rfl, by rw [held]; rfl⟩
        exact (migrated.copied move planned notDropped takes).trans held

/-- A run that is carried out installs the proposed ring. -/
theorem views_execute {hash : ℕ → ℕ → ℕ} {computes : List Unit}
    {current resolved : List StorageMember} {transferId : NodeId × NodeId → DatumId} {fates : Fates}
    {tailFates : TailFates} {report result : Report} {deployment after : Deployment Unit}
    (executed : execute hash computes current resolved transferId fates tailFates report
      deployment = (.ok result, after)) (talked : () ∈ computes) :
    after.views () = (deployment.views ()).installStorageRing resolved := by
  simp only [execute] at executed
  split at executed
  · cases executed
  · split at executed
    · cases executed
    · cases executed
      simp [resumeAll, installAll, pauseAll, talked]

/-- What a run from a recoverable state leaves: the proposed ring, with the latest states at its
replicas. -/
theorem Stored.migrate (stored : setting.Stored state) {proposed : List StorageMember}
    {transferId : NodeId × NodeId → DatumId} (recoverable : setting.Recoverable state proposed)
    (stepped : setting.migrate state proposed transferId = some next) :
    ringOf next.view.getClusterConfig = next.view.storageRing ∧
      next.view.storageRing = ringOf proposed ∧ next.threads = state.threads ∧
      next.attempt = .none ∧ next.latest = state.latest ∧
      (∀ id, ∀ node ∈ setting.replicas (ringOf proposed) id,
        next.nodes.contents node id = state.latest id) ∧
      ∀ node id payload, next.nodes.contents node id = some payload →
        payload.2 = setting.factor id := by
  let deployment : Deployment Unit := ⟨fun _ => state.view, fun _ => false, state.nodes⟩
  unfold RerunSetting.migrate Migrate.migrate at stepped
  cases accepted : resolve setting.identities proposed with
  | error message => simp [accepted] at stepped
  | ok resolved =>
      rcases execute_spec setting.inRange [()] state.view.getClusterConfig resolved transferId
        (fun _ _ _ => succeeds) (fun _ _ _ => succeeds)
        (reportOf true (moves setting.hash (ringOf state.view.getClusterConfig) (ringOf resolved)
          (enumerateAll state.view.getClusterConfig deployment))) deployment with
        ⟨after, executed, migrated⟩
      have view := views_execute executed (List.mem_singleton_self ())
      simp only [accepted, if_true, deployment] at executed stepped
      rw [executed] at stepped
      cases stepped
      have pairs := resolve_ringOf accepted
      have sameRing : ringOf resolved = ringOf proposed := by
        rw [ringOf, ringOf, pairs]
      have distinctResolved : (resolved.map StorageMember.nodeId).Nodup := by
        have nodeIds := congrArg (List.map Prod.fst) pairs
        simp only [List.map_map] at nodeIds
        have same : resolved.map StorageMember.nodeId = proposed.map StorageMember.nodeId := nodeIds
        rw [same]
        exact recoverable.distinct
      rw [sameRing] at migrated
      refine ⟨?_, ?_, rfl, rfl, rfl, ?_, ?_⟩
      · change ringOf (after.views ()).getClusterConfig = (after.views ()).storageRing
        rw [view]
        exact reported_installStorageRing _ distinctResolved
      · change (after.views ()).storageRing = ringOf proposed
        rw [view, ← sameRing]
        rfl
      · exact fun id node replica => stored.contents_migrated recoverable rfl migrated replica
      · intro node id payload held
        rcases origin_of_migrated migrated held with ⟨other, before⟩
        exact stored.factors other id payload before

theorem Sound.migrate (sound : setting.Sound state) {proposed : List StorageMember}
    {transferId : NodeId × NodeId → DatumId} (recoverable : setting.Recoverable state proposed)
    (stepped : setting.migrate state proposed transferId = some next) : setting.Sound next := by
  rcases sound.stored.migrate recoverable stepped with
    ⟨reported, ring, threads, attempt, latest, replicas, factors⟩
  refine ⟨⟨reported, ?_, ?_, factors⟩, ⟨?_, ?_, ?_, ?_⟩⟩
  · intro id node replica _
    rw [ring] at replica
    rw [latest]
    exact replicas id node replica
  · rw [ring, latest]
    exact recoverable.present
  · rw [threads, recoverable.ended]
    nofun
  · rw [attempt]
    nofun
  · rw [attempt]
    nofun
  · rw [attempt]
    exact List.nodup_nil

theorem Sound.step (sound : setting.Sound state) {label : RerunLabel}
    (clear : setting.Clear state label) (stepped : setting.step state label = some next) :
    setting.Sound next := by
  cases label with
  | write id content serving outcomes => exact sound.write stepped
  | attempt proposed answers =>
      cases stepped
      exact sound.attempt proposed answers
  | startTransfer transferId => exact sound.startTransfer stepped
  | poll => exact sound.poll stepped
  | copyRead index readable => exact sound.copyRead stepped
  | copySend index applied => exact sound.copySend stepped
  | copyDone index => exact sound.copyDone stepped
  | finish fates => exact sound.finish stepped
  | migrate proposed transferId => exact sound.migrate clear stepped

def single : RerunSetting where
  hash := JumpBackHasher.hash
  factor := fun _ => 1
  identities := honest
  inRange := fun key _ nonempty => JumpBackHasher.hash_lt key nonempty

/-- Node 1 is the only member and holds datum 1. -/
def beforeAttempts : Rerunning where
  view := .fromConfig firstNode
  nodes := holdingOne.nodes
  threads := []
  attempt := .none
  latest := fun id => if id = 1 then some ([7], 1) else none
  behind := fun _ _ => false

theorem replicas_single {ring : Ring} (slots : ring.slots ≠ []) (id : DatumId) :
    single.replicas ring id = [ring.nodeAt JumpBackHasher.hash (hashKey id)] :=
  Ring.replicas_one _ slots id

theorem replicas_beforeAttempts (id : DatumId) :
    single.replicas beforeAttempts.view.storageRing id = [1] := by
  rw [replicas_single (by decide +kernel)]
  have slots : beforeAttempts.view.storageRing.slots = [(1, 0)] := by decide +kernel
  have index : JumpBackHasher.hash (hashKey id) 1 = 0 := by
    have below := JumpBackHasher.hash_lt (hashKey id) one_pos
    omega
  simp only [Ring.nodeAt, slots, List.length_singleton, index, List.getD_cons_zero]

theorem contents_beforeAttempts (node : NodeId) (id : DatumId) :
    beforeAttempts.nodes.contents node id =
      if node = 1 ∧ id = 1 then some ([7], 1) else none := by
  simp only [StorageNodes.contents, beforeAttempts, holdingOne]
  by_cases first : node = 1
  · by_cases same : id = 1
    · subst first same
      decide +kernel
    · rw [if_pos first, if_neg fun both => same both.2, AList.lookup_insert_ne same]
      rfl
  · rw [if_neg first, if_neg fun both => first both.1]
    rfl

theorem starts_beforeAttempts : single.Starts beforeAttempts where
  reported := by decide +kernel
  replicas := by
    intro id node replica _
    rw [replicas_beforeAttempts, List.mem_singleton] at replica
    rw [contents_beforeAttempts, replica]
    simp [beforeAttempts]
  present := by
    intro id _
    rw [replicas_beforeAttempts]
    exact List.cons_ne_nil _ _
  factors := by
    intro node id payload held
    rw [contents_beforeAttempts] at held
    split at held
    · cases held
      rfl
    · cases held
  threads := rfl
  attempt := rfl

/-- An attempt to add node 2 that crashes after its copy, with an operation on the datum after. -/
def crashed (content : Option Bytes) : List RerunLabel :=
  [.attempt bothNodes fun _ => true, .startTransfer 99, .copyRead 0 true, .copySend 0 true,
    .copyDone 0, .write 1 content (fun _ => true) fun _ => .answered]

/-- Whether a step is a run of the driver. -/
def isMigrate : RerunLabel → Bool
  | .migrate _ _ => true
  | _ => false

theorem clear_of_not_migrate {state : Rerunning} {label : RerunLabel}
    (other : (!isMigrate label) = true) : single.Clear state label := by
  cases label with
  | migrate proposed transferId => cases other
  | _ => trivial

/-- What such an attempt leaves. -/
def afterCrash : Rerunning :=
  { beforeAttempts with
    nodes := (((beforeAttempts.nodes.update 1 (·.start 99 [1] 2)).send 2 1 (some ([7], 1)) true).update
      1 (·.bumpCopied 99)).update 1 (·.markDone 99)
    attempt := ⟨[], some (1, 99), [(1, 99)]⟩ }

/-- The state after the datum is then written. -/
def rewritten : Rerunning :=
  { afterCrash with
    nodes := afterCrash.nodes.send 1 1 (some ([8], 1)) true
    latest := Function.update afterCrash.latest 1 (some ([8], 1))
    behind := fun node other =>
      if other = 1 then !(decide (node ∈ [1]) && true) else afterCrash.behind node other }

theorem exec_crashed :
    single.system.exec beforeAttempts (crashed (some [8])) = some rewritten := by
  have planned : (single.attempt beforeAttempts bothNodes fun _ => true).attempt.pairs =
      [⟨(1, 2), [1]⟩] := by decide +kernel
  have attempted : single.attempt beforeAttempts bothNodes (fun _ => true) =
      { beforeAttempts with attempt := ⟨[⟨(1, 2), [1]⟩], none, []⟩ } := by
    rw [← planned]
    rfl
  have written : single.write afterCrash 1 (some [8]) (fun _ => true) (fun _ => .answered) =
      some rewritten := by
    have targets : (single.replicas afterCrash.view.storageRing 1).filter (fun _ => true) = [1] := by
      rw [afterCrash, replicas_beforeAttempts]
      rfl
    unfold RerunSetting.write
    rw [targets]
    rfl
  simp only [crashed, System.exec, RerunSetting.system, RerunSetting.step, attempted]
  exact congrArg (·.bind some) written

theorem contents_rewritten {id : DatumId} (differ : id ≠ 1) (node : NodeId) :
    rewritten.nodes.contents node id = none := by
  have copied : afterCrash.nodes.contents = ((beforeAttempts.nodes.update 1 (·.start 99 [1] 2)).send
      2 1 (some ([7], 1)) true).contents := by
    rw [afterCrash, StorageNodes.contents_update _ _ rfl, StorageNodes.contents_update _ _ rfl]
  rw [rewritten, StorageNodes.contents_send, copied, StorageNodes.contents_send,
    StorageNodes.contents_update _ _ rfl, contents_beforeAttempts]
  simp [differ]

theorem recoverable_rewritten : single.Recoverable rewritten bothNodes where
  ended := rfl
  distinct := by decide
  present := by
    intro id _
    rw [replicas_single (by decide +kernel)]
    exact List.cons_ne_nil _ _
  kept := by
    intro id node _ isOld
    rw [rewritten, afterCrash, replicas_beforeAttempts, List.mem_singleton] at isOld
    subst isOld
    simp [rewritten, afterCrash, beforeAttempts]
  sources := by
    intro id _ _ _ source first
    rw [rewritten, afterCrash, replicas_beforeAttempts, List.head?_cons, Option.mem_some] at first
    subst first
    simp [rewritten, afterCrash, beforeAttempts]
  leftovers := by
    intro id absent node _ _
    apply contents_rewritten
    rintro rfl
    cases absent

end RerunSetting

end Seisin
