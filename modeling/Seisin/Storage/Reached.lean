import Seisin.Storage.Cluster

/-!
# What has reached a storage node

In every run, a storage node that is not behind holds a datum's latest state: an acknowledged write
of a full value leaves it there, an acknowledged delta too at a replica that held the value it was
computed from, and so does a copy of a fresh value.  Which nodes a compute node believes to be
alive or stale plays no part in this.
-/

namespace Seisin

open Transition

variable {Compute Log Value Patch : Type}

/-- The values a step writes fit the log. -/
def ClusterLabel.WritesFit (Fits : Value → Prop) : ClusterLabel Compute Value → Prop
  | .put _ _ content _ _ _ => Fits content
  | _ => True

namespace Cluster

/-- Nodes that are not behind hold the latest state, and so do fresh copies. -/
structure Coherent (Sound : Log → Prop) (Fits : Value → Prop)
    (Holds : Log → DatumId → Option (Value × ℕ) → Prop) (cluster : Cluster Compute Log Value) :
    Prop where
  sound : ∀ node, Sound (cluster.logs node)
  fits : ∀ id value n, cluster.latest id = some (value, n) → Fits value
  holds : ∀ node id, cluster.behind node id = false →
    Holds (cluster.logs node) id (cluster.latest id)
  copies : ∀ copy ∈ cluster.copies, copy.fresh = true → copy.payload = cluster.latest copy.id

variable {hash : ℕ → ℕ → ℕ} {tier : Tier Log Value Patch} {Sound : Log → Prop}
  {Fits : Value → Prop} {Holds : Log → DatumId → Option (Value × ℕ) → Prop}
  {cluster : Cluster Compute Log Value}

namespace Coherent

variable (coherent : cluster.Coherent Sound Fits Holds)
include coherent

/-- A round of calls about `id` that some node acknowledged. -/
theorem acknowledge {logs : NodeId → Log} {id : DatumId} {state : Option (Value × ℕ)} {n : ℕ}
    {reached : NodeId → Bool} (sound : ∀ node, Sound (logs node))
    (fits : ∀ value factor, state = some (value, factor) → Fits value)
    (others : ∀ node other, other ≠ id → ∀ held, Holds (cluster.logs node) other held →
      Holds (logs node) other held)
    (target : ∀ node, reached node = true → Holds (logs node) id state) :
    (({ cluster with logs := logs }).acknowledge id state n reached).Coherent Sound Fits
      Holds := by
  refine ⟨sound, ?_, ?_, ?_⟩
  · intro other value factor latest
    simp only [Cluster.acknowledge] at latest
    by_cases same : other = id
    · subst same
      rw [Function.update_self] at latest
      exact fits value factor latest
    · rw [Function.update_of_ne same] at latest
      exact coherent.fits other value factor latest
  · intro node other behind
    simp only [Cluster.acknowledge] at behind ⊢
    by_cases same : other = id
    · subst same
      rw [Function.update_self]
      apply target
      simpa using behind
    · rw [Function.update_of_ne same]
      rw [if_neg same] at behind
      exact others node other same _ (coherent.holds node other behind)
  · intro copy copyMem fresh
    simp only [Cluster.acknowledge, List.mem_map] at copyMem ⊢
    rcases copyMem with ⟨before, beforeMem, rfl⟩
    split at fresh
    · cases fresh
    · rename_i differ
      rw [if_neg differ, Function.update_of_ne differ]
      exact coherent.copies before beforeMem fresh

/-- A round of calls about `id` that nobody acknowledged. -/
theorem abandon {logs : NodeId → Log} {id : DatumId} {reached : NodeId → Bool}
    (sound : ∀ node, Sound (logs node))
    (others : ∀ node other, other ≠ id → ∀ held, Holds (cluster.logs node) other held →
      Holds (logs node) other held)
    (untouched : ∀ node, reached node = false → logs node = cluster.logs node) :
    (({ cluster with logs := logs }).abandon id reached).Coherent Sound Fits Holds := by
  refine ⟨sound, coherent.fits, ?_, coherent.copies⟩
  intro node other behind
  simp only [Cluster.abandon, Bool.or_eq_false_iff, Bool.and_eq_false_iff,
    decide_eq_false_iff_not] at behind ⊢
  rcases behind with ⟨before, elsewhere⟩
  have held := coherent.holds node other before
  rcases elsewhere with differ | outside
  · exact others node other differ _ held
  · rw [untouched node outside]
    exact held

theorem setView [DecidableEq Compute] (compute : Compute) (view : ClusterState) :
    (cluster.setView compute view).Coherent Sound Fits Holds :=
  ⟨coherent.sound, coherent.fits, coherent.holds, coherent.copies⟩

end Coherent

/-! ## Rounds of calls -/

theorem orHalt_logs (round : Round Log) : (ClusterState.orHalt round).logs = round.logs := by
  unfold ClusterState.orHalt
  split <;> rfl

theorem orHalt_acked (round : Round Log) : (ClusterState.orHalt round).acked = round.acked := by
  unfold ClusterState.orHalt
  split <;> rfl

theorem previous_eq_some {id : DatumId} {withPrevious : Bool} {old : Value}
    (passedOn : cluster.previous id withPrevious = some old) :
    ∃ before, cluster.latest id = some (old, before) := by
  unfold Cluster.previous at passedOn
  split at passedOn
  · rcases Option.map_eq_some_iff.mp passedOn with ⟨⟨_, before⟩, latest, rfl⟩
    exact ⟨before, latest⟩
  · cases passedOn

/-- Calls about `id` keep logs sound and leave other datums alone. -/
structure CallsAbout (Sound : Log → Prop) (Holds : Log → DatumId → Option (Value × ℕ) → Prop)
    (id : DatumId) (call : NodeId → Log → Log × Bool) : Prop where
  sound : ∀ node log, Sound log → Sound (call node log).1
  others : ∀ node log other held, other ≠ id → Sound log → Holds log other held →
    Holds (call node log).1 other held

section Round

variable {call : NodeId → Log → Log × Bool} {targets : List NodeId} {id : DatumId}
  (about : CallsAbout Sound Holds id call) (nodup : targets.Nodup)
  (coherent : cluster.Coherent Sound Fits Holds)
include about nodup coherent

theorem callEach_sound (view : ClusterState) (node : NodeId) :
    Sound ((callEach call targets cluster.logs view).logs node) := by
  rw [callEach_logs nodup]
  split
  · exact about.sound node _ (coherent.sound node)
  · exact coherent.sound node

theorem callEach_others (view : ClusterState) (node : NodeId) (other : DatumId) (differ : other ≠ id)
    (held : Option (Value × ℕ)) (holds : Holds (cluster.logs node) other held) :
    Holds ((callEach call targets cluster.logs view).logs node) other held := by
  rw [callEach_logs nodup]
  split
  · exact about.others node _ other held differ (coherent.sound node) holds
  · exact holds

end Round

/-- Nodes that a round does not reach keep their logs. -/
theorem callEach_lost {call : NodeId → Log → Log × Bool} {targets : List NodeId}
    {view : ClusterState} {logs : NodeId → Log} {fates : NodeId → ℕ → Fate} (nodup : targets.Nodup)
    (lost : ∀ node, Tier.arrives (view.addressed node) (fates node 0) (fates node 1) = false →
      (call node (logs node)).1 = logs node) (node : NodeId)
    (missed : arrivals view targets fates node = false) :
    (callEach call targets logs view).logs node = logs node := by
  rw [callEach_logs nodup]
  split
  · rename_i target
    simp only [arrivals, target, decide_true, Bool.true_and] at missed
    exact lost node missed
  · rfl

section Operations

variable [DecidableEq Compute]

theorem put_views (compute : Compute) (id : DatumId) (content : Value) (withPrevious : Bool)
    (n : ℕ) (fates : NodeId → ℕ → Fate) :
    (cluster.put hash tier compute id content withPrevious n fates).views =
      Function.update cluster.views compute ((cluster.views compute).writeAll hash tier
        cluster.logs fates id content (cluster.previous id withPrevious) n).state := by
  simp only [Cluster.put]
  split <;> rfl

/-- A write leaves nobody behind on other datums. -/
theorem put_behind_other (compute : Compute) {id other : DatumId} (differ : other ≠ id)
    (content : Value) (withPrevious : Bool) (n : ℕ) (fates : NodeId → ℕ → Fate) (node : NodeId) :
    (cluster.put hash tier compute id content withPrevious n fates).behind node other =
      cluster.behind node other := by
  simp only [Cluster.put]
  split
  · simp [abandon, Cluster.setView, differ]
  · simp [Cluster.acknowledge, Cluster.setView, differ]

theorem delete_views (compute : Compute) (id : DatumId) (n : ℕ) (fates : NodeId → ℕ → Fate) :
    (cluster.delete hash tier compute id n fates).views =
      Function.update cluster.views compute ((cluster.views compute).deleteReplicated hash tier
        cluster.logs fates id n).state := by
  simp only [Cluster.delete]
  split <;> rfl

theorem delete_behind_other (compute : Compute) {id other : DatumId} (differ : other ≠ id)
    (n : ℕ) (fates : NodeId → ℕ → Fate) (node : NodeId) :
    (cluster.delete hash tier compute id n fates).behind node other =
      cluster.behind node other := by
  simp only [Cluster.delete]
  split
  · simp [abandon, Cluster.setView, differ]
  · simp [Cluster.acknowledge, Cluster.setView, differ]

variable (lawful : tier.Lawful Sound Fits Holds)
include lawful

theorem coherent_put (coherent : cluster.Coherent Sound Fits Holds) (compute : Compute)
    (id : DatumId) {content : Value} (fits : Fits content) (withPrevious : Bool) (n : ℕ)
    (fates : NodeId → ℕ → Fate) :
    (cluster.put hash tier compute id content withPrevious n fates).Coherent Sound Fits
      Holds := by
  unfold Cluster.put ClusterState.writeAll
  dsimp only
  generalize previousEq : cluster.previous id withPrevious = previous
  set delta := previous.bind fun old => tier.worthwhile old content with deltaEq
  set view := cluster.views compute
  set call := fun node => tier.writeOne (view.addressed node) (fates node) id content delta n
  have about : CallsAbout Sound Holds id call :=
    ⟨fun _ _ sound => lawful.sound_writeOne sound,
      fun _ _ _ _ differ sound held => lawful.writeOne_other sound differ held⟩
  have nodup := ClusterState.servingReplicas_nodup hash view id n
  have sound := callEach_sound about nodup coherent view
  have others := callEach_others about nodup coherent view
  rw [orHalt_logs, orHalt_acked]
  split
  · exact (coherent.setView compute _).abandon sound others
      (callEach_lost nodup fun node lost => Tier.Lawful.writeOne_lost lost)
  · apply (coherent.setView compute _).acknowledge sound _ others
    · intro node reached
      simp only [Bool.and_eq_true, decide_eq_true_eq] at reached
      rcases reached with ⟨target, takesEffect⟩
      rw [callEach_logs nodup, if_pos target]
      apply lawful.writeOne_reaches (coherent.sound node) fits _ takesEffect
      intro current patch deltaIs
      rcases Option.bind_eq_some_iff.mp (deltaEq.symm.trans deltaIs) with
        ⟨old, passedOn, worthwhile⟩
      rcases previous_eq_some (previousEq.trans passedOn) with ⟨before, latest⟩
      have held := coherent.holds node id (by simpa using current)
      rw [latest] at held
      exact ⟨old, before, held, worthwhile⟩
    · rintro value factor ⟨⟩
      exact fits

theorem coherent_delete (coherent : cluster.Coherent Sound Fits Holds) (compute : Compute)
    (id : DatumId) (n : ℕ) (fates : NodeId → ℕ → Fate) :
    (cluster.delete hash tier compute id n fates).Coherent Sound Fits Holds := by
  unfold Cluster.delete ClusterState.deleteReplicated
  dsimp only
  set view := cluster.views compute
  set call := fun node => tier.deleteOne (view.addressed node) (fates node) id
  have about : CallsAbout Sound Holds id call :=
    ⟨fun _ _ sound => lawful.sound_deleteOne sound,
      fun _ _ _ _ differ sound held => lawful.deleteOne_other sound differ held⟩
  have nodup := ClusterState.servingReplicas_nodup hash view id n
  have sound := callEach_sound about nodup coherent view
  have others := callEach_others about nodup coherent view
  rw [orHalt_logs, orHalt_acked]
  split
  · exact (coherent.setView compute _).abandon sound others
      (callEach_lost nodup fun node lost => Tier.Lawful.deleteOne_lost lost)
  · apply (coherent.setView compute _).acknowledge sound _ others
    · intro node reached
      simp only [arrivals, Bool.and_eq_true, decide_eq_true_eq] at reached
      rw [callEach_logs nodup, if_pos reached.1]
      exact lawful.deleteOne_reaches (coherent.sound node) reached.2
    · intro value factor impossible
      cases impossible

end Operations

/-! ## Copies -/

section Copies

/-- Storing what is held for `id` at one node, and nothing else. -/
theorem coherent_store (coherent : cluster.Coherent Sound Fits Holds) {node : NodeId}
    {id : DatumId} {log : Log} {behind : Bool} (sound : Sound log)
    (others : ∀ other held, other ≠ id → Holds (cluster.logs node) other held →
      Holds log other held)
    (target : behind = false → Holds log id (cluster.latest id)) :
    (({ cluster with logs := Function.update cluster.logs node log }).setBehind node id
      behind).Coherent Sound Fits Holds := by
  refine ⟨?_, coherent.fits, ?_, coherent.copies⟩
  · intro other
    by_cases same : other = node
    · subst same
      simpa [Cluster.setBehind] using sound
    · simpa [Cluster.setBehind, same] using coherent.sound other
  · intro other datum flagged
    by_cases same : other = node
    · subst same
      by_cases about : datum = id
      · subst about
        simp only [Cluster.setBehind, Function.update_self] at flagged ⊢
        exact target flagged
      · simp only [Cluster.setBehind, Function.update_self, Function.update_of_ne about]
          at flagged ⊢
        exact others datum _ about (coherent.holds other datum flagged)
    · simp only [Cluster.setBehind, Function.update_of_ne same] at flagged ⊢
      exact coherent.holds other datum flagged

variable (lawful : tier.Lawful Sound Fits Holds)
include lawful

theorem readValue_of_holds {log : Log} {id : DatumId} {state : Option (Value × ℕ)}
    (held : Holds log id state) : readValue tier log id = state := by
  unfold readValue
  rw [lawful.get held, lawful.nOf held]
  cases state <;> rfl

theorem coherent_copyRead (coherent : cluster.Coherent Sound Fits Holds) (source dest : NodeId)
    (id : DatumId) (tail : Bool) :
    (cluster.copyRead tier source dest id tail).Coherent Sound Fits Holds := by
  unfold Cluster.copyRead
  dsimp only
  split
  · refine ⟨coherent.sound, coherent.fits, coherent.holds, ?_⟩
    intro copy copyMem fresh
    rcases List.mem_append.mp copyMem with earlier | now
    · exact coherent.copies copy earlier fresh
    · rw [List.mem_singleton] at now
      subst now
      apply readValue_of_holds lawful
      apply coherent.holds source id
      simpa using fresh
  · exact coherent

theorem coherent_copySend (coherent : cluster.Coherent Sound Fits Holds) {position : ℕ}
    {applied : Bool} {next : Cluster Compute Log Value}
    (sent : cluster.copySend tier position applied = some next) :
    next.Coherent Sound Fits Holds := by
  unfold Cluster.copySend at sent
  cases found : cluster.copies[position]? with
  | none => simp [found] at sent
  | some copy =>
      simp only [found] at sent
      have rest : ({ cluster with copies := cluster.copies.eraseIdx position } :
          Cluster Compute Log Value).Coherent Sound Fits Holds :=
        ⟨coherent.sound, coherent.fits, coherent.holds,
          fun other otherMem => coherent.copies other (List.mem_of_mem_eraseIdx otherMem)⟩
      cases applied with
      | false =>
          simp only [Bool.false_eq_true, if_false, Option.some.injEq] at sent
          exact sent ▸ rest
      | true =>
          simp only [if_true, Option.some.injEq] at sent
          subst sent
          have soundDest := coherent.sound copy.dest
          have payload : copy.fresh = true → copy.payload = cluster.latest copy.id :=
            coherent.copies copy (List.mem_of_getElem? found)
          refine coherent_store rest ?_ ?_ ?_
          · unfold Cluster.applyCopy
            split
            · exact lawful.soundPutFull soundDest _ _ _
            · exact lawful.soundDelete soundDest _
          · intro other held differ holds
            unfold Cluster.applyCopy
            split
            · exact lawful.putFullOther soundDest holds differ _ _
            · exact lawful.deleteOther soundDest holds differ
          · intro fresh
            have latest := payload (by simpa using fresh)
            rw [← latest]
            unfold Cluster.applyCopy
            cases carried : copy.payload with
            | none => exact lawful.delete soundDest copy.id
            | some entry =>
                apply lawful.putFull soundDest
                exact coherent.fits copy.id entry.1 entry.2 (latest ▸ carried)

theorem coherent_drop (coherent : cluster.Coherent Sound Fits Holds) (node : NodeId)
    (id : DatumId) : (cluster.drop tier node id).Coherent Sound Fits Holds :=
  coherent_store coherent (lawful.soundDelete (coherent.sound node) id)
    (fun _ _ differ holds => lawful.deleteOther (coherent.sound node) holds differ) nofun

end Copies

/-- Every step keeps coherence, as long as the values written fit. -/
theorem coherent_step [DecidableEq Compute] (lawful : tier.Lawful Sound Fits Holds)
    (coherent : cluster.Coherent Sound Fits Holds)
    {label : ClusterLabel Compute Value} (fits : label.WritesFit Fits)
    {next : Cluster Compute Log Value} (stepped : cluster.step hash tier label = some next) :
    next.Coherent Sound Fits Holds := by
  cases label with
  | put compute id content withPrevious n fates =>
      cases stepped
      exact coherent_put lawful coherent compute id fits withPrevious n fates
  | delete compute id n fates =>
      cases stepped
      exact coherent_delete lawful coherent compute id n fates
  | get compute id n fates =>
      cases stepped
      exact coherent.setView compute _
  | markStale compute node =>
      cases stepped
      exact coherent.setView compute _
  | join compute node storeAddress logId =>
      cases stepped
      exact coherent.setView compute _
  | leave compute node =>
      cases stepped
      exact coherent.setView compute _
  | installStorageRing compute members =>
      cases stepped
      exact coherent.setView compute _
  | clearHalt compute =>
      cases stepped
      exact coherent.setView compute _
  | restart compute members =>
      cases stepped
      exact coherent.setView compute _
  | copyRead source dest id tail =>
      cases stepped
      exact coherent_copyRead lawful coherent source dest id tail
  | copySend position applied => exact coherent_copySend lawful coherent stepped
  | drop node id =>
      cases stepped
      exact coherent_drop lawful coherent node id

/-! ## Clusters over plain content -/

/-- Coherence where storage nodes are maps from ids to content. -/
abbrev ContentCoherent (cluster : Cluster Compute Content Bytes) : Prop :=
  cluster.Coherent (fun _ => True) (fun _ => True) (fun content id state => content.lookup id = state)

/-- Runs from any content that has reached the nodes that are not behind. -/
def contentSystem [DecidableEq Compute] (hash : ℕ → ℕ → ℕ) :
    System (Cluster Compute Content Bytes) (ClusterLabel Compute Bytes) :=
  system hash contentTier ContentCoherent

theorem contentCoherent_of_reachable [DecidableEq Compute]
    {cluster : Cluster Compute Content Bytes} (reached : (contentSystem hash).Reachable cluster) :
    cluster.ContentCoherent := by
  apply reached.induction
  · exact fun _ starts => starts
  · intro state label next coherent _ stepped
    refine coherent_step contentTier_lawful coherent ?_ stepped
    cases label <;> exact trivial

theorem contentCoherent_start (members : List StorageMember) :
    (start members ∅ : Cluster Compute Content Bytes).ContentCoherent where
  sound := fun _ => trivial
  fits := fun _ _ _ _ => trivial
  holds := fun _ _ _ => rfl
  copies := by simp [start]

end Cluster

end Seisin
