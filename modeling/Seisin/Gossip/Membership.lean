import Mathlib
import Seisin.Gossip

/-!
# Members and failure detection

The membership table of a node keeps what it knows of every member and merges what it is told by
incarnation and severity; the failure detector turns missing acks into suspicion and death.
-/

namespace Seisin

inductive MemberStatus where
  | alive
  | suspect
  | dead
  deriving DecidableEq

/-- The more severe status wins between reports of one incarnation. -/
def MemberStatus.severity : MemberStatus → ℕ
  | .alive => 0
  | .suspect => 1
  | .dead => 2

/-- What a table records of a member, which is also what gossip tells of it. -/
structure MemberRecord where
  incarnation : ℕ
  status : MemberStatus
  update : MemberUpdate

abbrev MemberTable := AList (fun _ : NodeId => MemberRecord)

namespace MemberTable

/-- Whether a report supersedes what is recorded. -/
def accepts (update current : MemberRecord) : Bool :=
  current.incarnation < update.incarnation ||
    (update.incarnation = current.incarnation &&
      current.status.severity < update.status.severity)

def mergeUpdate (table : MemberTable) (nodeId : NodeId) (update : MemberRecord) : MemberTable :=
  match table.lookup nodeId with
  | none => table.insert nodeId update
  | some current => if accepts update current then table.insert nodeId update else table

def mergeAll (table : MemberTable) (updates : List (NodeId × MemberRecord)) : MemberTable :=
  updates.foldl (fun table update => table.mergeUpdate update.1 update.2) table

/-- Suspects a member that is recorded alive. -/
def markSuspect (table : MemberTable) (nodeId : NodeId) : MemberTable :=
  match table.lookup nodeId with
  | none => table
  | some current =>
      if current.status = .alive then table.insert nodeId { current with status := .suspect }
      else table

/-- Declares a member dead. -/
def markDead (table : MemberTable) (nodeId : NodeId) : MemberTable :=
  match table.lookup nodeId with
  | none => table
  | some current => table.insert nodeId { current with status := .dead }

/-- A node's answer to being suspected: alive, at the next incarnation. -/
def confirmAliveSelf (table : MemberTable) (selfId : NodeId) : MemberTable :=
  match table.lookup selfId with
  | none => table
  | some current =>
      table.insert selfId { current with incarnation := current.incarnation + 1, status := .alive }

def all (table : MemberTable) : List (NodeId × MemberRecord) :=
  table.entries.map fun entry => (entry.1, entry.2)

/-- The members recorded alive, by ascending id. -/
def aliveMembers (table : MemberTable) : List NodeId :=
  ((table.entries.filter fun entry => entry.2.status = .alive).map Sigma.fst).insertionSort
    fun first second => first ≤ second

/-- The status recorded for a member. -/
def statusOf (table : MemberTable) (nodeId : NodeId) : Option MemberStatus :=
  (table.lookup nodeId).map MemberRecord.status

end MemberTable

/-- The member with the lowest id among those alive numbers the mutations. -/
def isSequencer (selfId : NodeId) (aliveMembers : List NodeId) : Bool :=
  aliveMembers.min? = some selfId

/-! ## Failure detection -/

inductive ProbeState where
  | awaitingDirectAck (startedAt : ℕ)
  | awaitingIndirectAck (startedAt : ℕ)
  deriving DecidableEq

inductive TimeoutAction where
  | escalateToIndirect (target : NodeId)
  | markSuspect (target : NodeId)
  | markDead (target : NodeId)
  deriving DecidableEq

structure FailureDetector where
  probes : AList (fun _ : NodeId => ProbeState)
  suspectedSince : AList (fun _ : NodeId => ℕ)

/-- The configured waiting times. -/
structure Timeouts where
  probeTimeoutMillis : ℕ
  suspicionTimeoutMillis : ℕ

namespace FailureDetector

def new : FailureDetector := ⟨∅, ∅⟩

def beginDirectProbe (detector : FailureDetector) (target : NodeId) (now : ℕ) : FailureDetector :=
  { detector with probes := detector.probes.insert target (.awaitingDirectAck now) }

/-- An ack ends both the probe and the suspicion. -/
def onAck (detector : FailureDetector) (target : NodeId) : FailureDetector :=
  ⟨detector.probes.erase target, detector.suspectedSince.erase target⟩

/-- The members whose direct probe has gone unanswered for too long. -/
def directOverdue (detector : FailureDetector) (timeouts : Timeouts) (now : ℕ) : List NodeId :=
  (detector.probes.entries.filter fun entry =>
    match entry.2 with
    | .awaitingDirectAck startedAt => timeouts.probeTimeoutMillis ≤ now - startedAt
    | .awaitingIndirectAck _ => false).map Sigma.fst

def indirectOverdue (detector : FailureDetector) (timeouts : Timeouts) (now : ℕ) : List NodeId :=
  (detector.probes.entries.filter fun entry =>
    match entry.2 with
    | .awaitingDirectAck _ => false
    | .awaitingIndirectAck startedAt => timeouts.probeTimeoutMillis ≤ now - startedAt).map Sigma.fst

/-- The suspicions that have run out, those raised just now included. -/
def expired (suspectedSince : AList (fun _ : NodeId => ℕ)) (timeouts : Timeouts) (now : ℕ) :
    List NodeId :=
  (suspectedSince.entries.filter fun entry =>
    timeouts.suspicionTimeoutMillis ≤ now - entry.2).map Sigma.fst

def checkTimeouts (detector : FailureDetector) (timeouts : Timeouts) (now : ℕ) :
    FailureDetector × List TimeoutAction :=
  let escalate := detector.directOverdue timeouts now
  let suspect := detector.indirectOverdue timeouts now
  let escalated := escalate.foldl
    (fun probes target => probes.insert target (.awaitingIndirectAck now)) detector.probes
  let probes := suspect.foldl (fun probes target => probes.erase target) escalated
  let suspected := suspect.foldl (fun since target => since.insert target now)
    detector.suspectedSince
  let dead := expired suspected timeouts now
  (⟨probes, dead.foldl (fun since target => since.erase target) suspected⟩,
    escalate.map .escalateToIndirect ++ suspect.map .markSuspect ++ dead.map .markDead)

/-- A probe or a suspicion timer runs for the member. -/
def Watches (detector : FailureDetector) (target : NodeId) : Prop :=
  target ∈ detector.probes ∨ target ∈ detector.suspectedSince

instance (detector : FailureDetector) (target : NodeId) : Decidable (detector.Watches target) :=
  inferInstanceAs (Decidable (_ ∨ _))

end FailureDetector

/-! ## Facts about the timers -/

namespace FailureDetector

variable {β : Type*}

theorem lookup_foldl_insert (value : β) (targets : List NodeId)
    (map : AList (fun _ : NodeId => β)) (target : NodeId) :
    (targets.foldl (fun map target => map.insert target value) map).lookup target =
      if target ∈ targets then some value else map.lookup target := by
  induction targets generalizing map with
  | nil => rfl
  | cons first targets ih =>
      rw [List.foldl_cons, ih]
      by_cases later : target ∈ targets
      · rw [if_pos later, if_pos (List.mem_cons_of_mem first later)]
      · rw [if_neg later]
        by_cases same : target = first
        · subst same
          rw [AList.lookup_insert, if_pos List.mem_cons_self]
        · rw [AList.lookup_insert_ne same, if_neg (List.not_mem_cons_of_ne_of_not_mem same later)]

theorem lookup_foldl_erase (targets : List NodeId) (map : AList (fun _ : NodeId => β))
    (target : NodeId) :
    (targets.foldl (fun map target => map.erase target) map).lookup target =
      if target ∈ targets then none else map.lookup target := by
  induction targets generalizing map with
  | nil => rfl
  | cons first targets ih =>
      rw [List.foldl_cons, ih]
      by_cases later : target ∈ targets
      · rw [if_pos later, if_pos (List.mem_cons_of_mem first later)]
      · rw [if_neg later]
        by_cases same : target = first
        · subst same
          rw [AList.lookup_erase, if_pos List.mem_cons_self]
        · rw [AList.lookup_erase_ne same, if_neg (List.not_mem_cons_of_ne_of_not_mem same later)]

theorem mem_keys_filter {map : AList (fun _ : NodeId => β)}
    {keep : Sigma (fun _ : NodeId => β) → Bool} {target : NodeId} :
    target ∈ (map.entries.filter keep).map Sigma.fst ↔
      ∃ value, map.lookup target = some value ∧ keep ⟨target, value⟩ = true := by
  simp only [List.mem_map, List.mem_filter, ← Option.mem_def, AList.mem_lookup_iff]
  constructor
  · rintro ⟨⟨key, value⟩, ⟨entryMem, kept⟩, rfl⟩
    exact ⟨value, entryMem, kept⟩
  · rintro ⟨value, entryMem, kept⟩
    exact ⟨⟨target, value⟩, ⟨entryMem, kept⟩, rfl⟩

theorem nodup_keys_filter (map : AList (fun _ : NodeId => β))
    (keep : Sigma (fun _ : NodeId => β) → Bool) :
    ((map.entries.filter keep).map Sigma.fst).Nodup :=
  List.Nodup.sublist (List.filter_sublist.map Sigma.fst) map.nodupKeys

end FailureDetector

/-! ## Facts about the table -/

namespace MemberTable

variable {table : MemberTable}

theorem mem_aliveMembers {nodeId : NodeId} :
    nodeId ∈ table.aliveMembers ↔ table.statusOf nodeId = some .alive := by
  unfold aliveMembers statusOf
  rw [List.mem_insertionSort, List.mem_map]
  constructor
  · rintro ⟨⟨other, record⟩, entryMem, rfl⟩
    rcases List.mem_filter.mp entryMem with ⟨inTable, alive⟩
    rw [AList.mem_lookup_iff.mpr inTable]
    simpa using alive
  · intro alive
    rcases Option.map_eq_some_iff.mp alive with ⟨record, found, isAlive⟩
    refine ⟨⟨nodeId, record⟩, List.mem_filter.mpr ⟨AList.mem_lookup_iff.mp found, ?_⟩, rfl⟩
    simpa using isAlive

theorem isSequencer_iff {selfId : NodeId} :
    isSequencer selfId table.aliveMembers = true ↔
      table.statusOf selfId = some .alive ∧
        ∀ other, table.statusOf other = some .alive → selfId ≤ other := by
  simp only [isSequencer, decide_eq_true_eq, List.min?_eq_some_iff, mem_aliveMembers]

theorem lookup_mergeUpdate (nodeId : NodeId) (update : MemberRecord) (other : NodeId) :
    (table.mergeUpdate nodeId update).lookup other =
      if other = nodeId ∧ (table.lookup nodeId).all (accepts update) then some update
      else table.lookup other := by
  unfold mergeUpdate
  rcases eq_or_ne other nodeId with rfl | differ
  · cases found : table.lookup other with
    | none => simp
    | some current =>
        by_cases accepted : accepts update current
        · simp [accepted]
        · simp [accepted, found]
  · rw [if_neg (fun both => differ both.1)]
    cases table.lookup nodeId with
    | none => simp [differ]
    | some current =>
        by_cases accepted : accepts update current
        · simp [accepted, differ]
        · simp [accepted]

/-- Every record of a merged table was there or was told. -/
theorem lookup_mergeAll {updates : List (NodeId × MemberRecord)} {nodeId : NodeId}
    {record : MemberRecord} (found : (table.mergeAll updates).lookup nodeId = some record) :
    table.lookup nodeId = some record ∨ (nodeId, record) ∈ updates := by
  induction updates generalizing table with
  | nil => exact Or.inl found
  | cons update updates ih =>
      rcases ih found with earlier | later
      · rw [lookup_mergeUpdate] at earlier
        split at earlier
        · rename_i accepted
          cases earlier
          rw [accepted.1]
          exact Or.inr List.mem_cons_self
        · exact Or.inl earlier
      · exact Or.inr (List.mem_cons_of_mem _ later)

/-- Members are never forgotten, and every one told of is known. -/
theorem mem_mergeAll {updates : List (NodeId × MemberRecord)} {nodeId : NodeId}
    (known : nodeId ∈ table ∨ ∃ record, (nodeId, record) ∈ updates) :
    nodeId ∈ table.mergeAll updates := by
  induction updates generalizing table with
  | nil =>
      rcases known with inTable | ⟨record, told⟩
      · exact inTable
      · cases told
  | cons update updates ih =>
      apply ih
      by_cases later : ∃ record, (nodeId, record) ∈ updates
      · exact Or.inr later
      · left
        rw [← AList.lookup_isSome, lookup_mergeUpdate]
        rcases known with inTable | ⟨record, told⟩
        · split
          · rfl
          · exact AList.lookup_isSome.mpr inTable
        · rcases List.mem_cons.mp told with rfl | inRest
          · cases found : table.lookup nodeId with
            | none => simp
            | some current => split <;> simp
          · exact absurd ⟨record, inRest⟩ later

end MemberTable

end Seisin
