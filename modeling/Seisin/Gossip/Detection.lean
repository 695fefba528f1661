import Mathlib
import Seisin.Lib.Chronicle
import Seisin.Gossip.Membership

/-!
# The failure detector over a whole run

The detector is driven by calls alone, and it reads the time at each of them.  The chronicle of a run
has the calls and the actions that the checks returned.  As long as the clock does not go back, a
member is declared dead only after a probe that went unanswered for both probe timeouts and the
suspicion timeout, however often probes are started again and however late the checks are.
-/

namespace Seisin

open Chronicle

namespace FailureDetector

inductive Call where
  | beginDirectProbe (target : NodeId)
  | onAck (target : NodeId)
  | checkTimeouts
  deriving DecidableEq

/-- What is seen of a detector: a call of it, or an action that the check before returned. -/
inductive Event where
  | called (call : Call)
  | returned (action : TimeoutAction)
  deriving DecidableEq

def call (detector : FailureDetector) (timeouts : Timeouts) (now : ℕ) :
    Call → FailureDetector × List TimeoutAction
  | .beginDirectProbe target => (detector.beginDirectProbe target now, [])
  | .onAck target => (detector.onAck target, [])
  | .checkTimeouts => detector.checkTimeouts timeouts now

/-- A detector and the chronicle of the calls so far. -/
structure Observed where
  detector : FailureDetector
  chronicle : List (ℕ × Event)

def observe (timeouts : Timeouts) (observed : Observed) (timed : ℕ × Call) : Observed :=
  let after := observed.detector.call timeouts timed.1 timed.2
  ⟨after.1, observed.chronicle ++
    (timed.1, .called timed.2) :: after.2.map fun action => (timed.1, .returned action)⟩

def run (timeouts : Timeouts) (calls : List (ℕ × Call)) : Observed :=
  calls.foldl (observe timeouts) ⟨new, []⟩

theorem run_snoc (timeouts : Timeouts) (calls : List (ℕ × Call)) (last : ℕ × Call) :
    run timeouts (calls ++ [last]) = observe timeouts (run timeouts calls) last := by
  simp only [run, List.foldl_append, List.foldl_cons, List.foldl_nil]

/-- The member that the entry suspects. -/
def suspectOf : ℕ × Event → Option NodeId
  | (_, .returned (.markSuspect target)) => some target
  | _ => none

/-- The member that the entry declares dead. -/
def deadOf : ℕ × Event → Option NodeId
  | (_, .returned (.markDead target)) => some target
  | _ => none

theorem suspectOf_eq_some {entry : ℕ × Event} {target : NodeId} :
    suspectOf entry = some target ↔ entry = (entry.1, .returned (.markSuspect target)) := by
  rcases entry with ⟨time, call | action⟩
  · simp [suspectOf]
  · cases action <;> simp [suspectOf]

/-! ## What the timers tell of the past -/

variable {timeouts : Timeouts} {detector : FailureDetector} {chronicle more : List (ℕ × Event)}
  {target : NodeId} {now begun : ℕ}

/-- A probe was begun, and no ack has come since. -/
def Probed (chronicle : List (ℕ × Event)) (target : NodeId) (begun : ℕ) : Prop :=
  Since (fun entry => entry = (begun, .called (.beginDirectProbe target)))
    (fun entry => entry.2 = .called (.onAck target)) chronicle

/-- The member was suspected, and has not been declared dead since. -/
def Suspected (chronicle : List (ℕ × Event)) (target : NodeId) (since : ℕ) : Prop :=
  Since (fun entry => entry = (since, .returned (.markSuspect target)))
    (fun entry => deadOf entry = some target) chronicle

/-- A suspicion that has not led to a death yet, of a probe that went unanswered twice. -/
def Doubted (timeouts : Timeouts) (chronicle : List (ℕ × Event)) (target : NodeId) (since : ℕ) :
    Prop :=
  (∃ begun, Probed chronicle target begun ∧ begun + 2 * timeouts.probeTimeoutMillis ≤ since) ∧
    Suspected chronicle target since

/-- A death comes late enough after a suspicion of its own. -/
def Warranted (timeouts : Timeouts) (before : List (ℕ × Event)) (entry : ℕ × Event) : Prop :=
  ∀ target, deadOf entry = some target →
    ∃ since, Doubted timeouts before target since ∧
      since + timeouts.suspicionTimeoutMillis ≤ entry.1

/-- What each timer that runs tells of the calls so far. -/
structure Grounded (timeouts : Timeouts) (detector : FailureDetector)
    (chronicle : List (ℕ × Event)) : Prop where
  direct : ∀ target startedAt, detector.probes.lookup target = some (.awaitingDirectAck startedAt) →
    Probed chronicle target startedAt
  indirect : ∀ target startedAt,
    detector.probes.lookup target = some (.awaitingIndirectAck startedAt) →
    ∃ begun, Probed chronicle target begun ∧ begun + timeouts.probeTimeoutMillis ≤ startedAt
  suspected : ∀ target since, detector.suspectedSince.lookup target = some since →
    Doubted timeouts chronicle target since

theorem grounded_new : Grounded timeouts new [] := by
  constructor
  · intro target startedAt found
    cases found
  · intro target startedAt found
    cases found
  · intro target since found
    cases found

theorem Probed.append (probed : Probed chronicle target begun)
    (unanswered : ∀ entry ∈ more, entry.2 ≠ .called (.onAck target)) :
    Probed (chronicle ++ more) target begun :=
  Since.append probed unanswered

theorem Doubted.append {since : ℕ} (doubted : Doubted timeouts chronicle target since)
    (unanswered : ∀ entry ∈ more, entry.2 ≠ .called (.onAck target))
    (alive : ∀ entry ∈ more, deadOf entry ≠ some target) :
    Doubted timeouts (chronicle ++ more) target since := by
  rcases doubted with ⟨⟨begun, probed, early⟩, suspected⟩
  exact ⟨⟨begun, probed.append unanswered, early⟩, Since.append suspected alive⟩

/-- No probe was begun in the future. -/
theorem Probed.le (probed : Probed chronicle target begun)
    (past : ∀ entry ∈ chronicle, entry.1 ≤ now) : begun ≤ now := by
  rcases Since.exists_mem probed with ⟨entry, entryMem, rfl⟩
  exact past _ entryMem

theorem Suspected.le {since : ℕ} (suspected : Suspected chronicle target since)
    (past : ∀ entry ∈ chronicle, entry.1 ≤ now) : since ≤ now := by
  rcases Since.exists_mem suspected with ⟨entry, entryMem, rfl⟩
  exact past _ entryMem

/-! ## The calls -/

theorem Grounded.beginDirectProbe (grounded : Grounded timeouts detector chronicle) :
    Grounded timeouts (detector.beginDirectProbe target now)
      (chronicle ++ [(now, .called (.beginDirectProbe target))]) := by
  have unanswered {other : NodeId} :
      ∀ entry ∈ [((now, .called (.beginDirectProbe target)) : ℕ × Event)],
        entry.2 ≠ .called (.onAck other) := by simp
  constructor
  · intro other startedAt found
    by_cases same : other = target
    · subst same
      rw [FailureDetector.beginDirectProbe, AList.lookup_insert, Option.some.injEq,
        ProbeState.awaitingDirectAck.injEq] at found
      subst found
      exact since_append (List.mem_singleton_self _) rfl unanswered
    · rw [FailureDetector.beginDirectProbe, AList.lookup_insert_ne same] at found
      exact (grounded.direct other startedAt found).append unanswered
  · intro other startedAt found
    by_cases same : other = target
    · subst same
      rw [FailureDetector.beginDirectProbe, AList.lookup_insert, Option.some.injEq] at found
      cases found
    · rw [FailureDetector.beginDirectProbe, AList.lookup_insert_ne same] at found
      rcases grounded.indirect other startedAt found with ⟨begun, probed, early⟩
      exact ⟨begun, probed.append unanswered, early⟩
  · intro other since found
    exact (grounded.suspected other since found).append unanswered (by simp [deadOf])

theorem Grounded.onAck (grounded : Grounded timeouts detector chronicle) :
    Grounded timeouts (detector.onAck target)
      (chronicle ++ [(now, .called (.onAck target))]) := by
  have unanswered {other : NodeId} (differ : other ≠ target) :
      ∀ entry ∈ [((now, .called (.onAck target)) : ℕ × Event)],
        entry.2 ≠ .called (.onAck other) := by simp [differ.symm]
  have other_probe {other : NodeId} {state : ProbeState}
      (found : (detector.onAck target).probes.lookup other = some state) :
      other ≠ target ∧ detector.probes.lookup other = some state := by
    by_cases same : other = target
    · subst same
      rw [FailureDetector.onAck, AList.lookup_erase] at found
      cases found
    · rw [FailureDetector.onAck, AList.lookup_erase_ne same] at found
      exact ⟨same, found⟩
  constructor
  · intro other startedAt found
    rcases other_probe found with ⟨differ, before⟩
    exact (grounded.direct other startedAt before).append (unanswered differ)
  · intro other startedAt found
    rcases other_probe found with ⟨differ, before⟩
    rcases grounded.indirect other startedAt before with ⟨begun, probed, early⟩
    exact ⟨begun, probed.append (unanswered differ), early⟩
  · intro other since found
    by_cases same : other = target
    · subst same
      rw [FailureDetector.onAck, AList.lookup_erase] at found
      cases found
    · rw [FailureDetector.onAck, AList.lookup_erase_ne same] at found
      exact (grounded.suspected other since found).append (unanswered same) (by simp [deadOf])

/-! ## A check

What is raised before anybody is declared dead comes first: a probe that has gone unanswered twice
turns into a suspicion, which may run out at once. -/

theorem mem_directOverdue : target ∈ detector.directOverdue timeouts now ↔
    ∃ startedAt, detector.probes.lookup target = some (.awaitingDirectAck startedAt) ∧
      timeouts.probeTimeoutMillis ≤ now - startedAt := by
  rw [directOverdue, mem_keys_filter]
  constructor
  · rintro ⟨startedAt | startedAt, found, overdue⟩
    · exact ⟨startedAt, found, of_decide_eq_true overdue⟩
    · cases overdue
  · rintro ⟨startedAt, found, overdue⟩
    exact ⟨.awaitingDirectAck startedAt, found, decide_eq_true overdue⟩

theorem mem_indirectOverdue : target ∈ detector.indirectOverdue timeouts now ↔
    ∃ startedAt, detector.probes.lookup target = some (.awaitingIndirectAck startedAt) ∧
      timeouts.probeTimeoutMillis ≤ now - startedAt := by
  rw [indirectOverdue, mem_keys_filter]
  constructor
  · rintro ⟨startedAt | startedAt, found, overdue⟩
    · cases overdue
    · exact ⟨startedAt, found, of_decide_eq_true overdue⟩
  · rintro ⟨startedAt, found, overdue⟩
    exact ⟨.awaitingIndirectAck startedAt, found, decide_eq_true overdue⟩

theorem mem_expired {suspectedSince : AList (fun _ : NodeId => ℕ)} :
    target ∈ expired suspectedSince timeouts now ↔
      ∃ since, suspectedSince.lookup target = some since ∧
        timeouts.suspicionTimeoutMillis ≤ now - since := by
  simp only [expired, mem_keys_filter, decide_eq_true_eq]

/-- The suspicions that a check looks at, those it has raised itself included. -/
def suspicions (detector : FailureDetector) (timeouts : Timeouts) (now : ℕ) :
    AList (fun _ : NodeId => ℕ) :=
  (detector.indirectOverdue timeouts now).foldl (fun since target => since.insert target now)
    detector.suspectedSince

/-- What is seen of a check before anybody is declared dead. -/
def raised (detector : FailureDetector) (timeouts : Timeouts) (now : ℕ) : List (ℕ × Event) :=
  (now, .called .checkTimeouts) ::
    ((detector.directOverdue timeouts now).map
        (fun target => (now, .returned (.escalateToIndirect target))) ++
      (detector.indirectOverdue timeouts now).map
        fun target => (now, .returned (.markSuspect target)))

def died (detector : FailureDetector) (timeouts : Timeouts) (now : ℕ) : List (ℕ × Event) :=
  (expired (detector.suspicions timeouts now) timeouts now).map
    fun target => (now, .returned (.markDead target))

theorem observe_checkTimeouts (timeouts : Timeouts) (observed : Observed) (now : ℕ) :
    (observe timeouts observed (now, .checkTimeouts)).chronicle =
      (observed.chronicle ++ observed.detector.raised timeouts now) ++
        observed.detector.died timeouts now := by
  simp [observe, call, checkTimeouts, raised, died, suspicions, Function.comp_def]

theorem mem_raised {entry : ℕ × Event} (entryMem : entry ∈ detector.raised timeouts now) :
    entry.1 = now ∧ (∀ target, entry.2 ≠ .called (.onAck target)) ∧
      ∀ target, deadOf entry ≠ some target := by
  simp only [raised, List.mem_cons, List.mem_append, List.mem_map] at entryMem
  rcases entryMem with rfl | ⟨target, _, rfl⟩ | ⟨target, _, rfl⟩
  · simp [deadOf]
  · simp [deadOf]
  · simp [deadOf]

theorem mem_died {entry : ℕ × Event} (entryMem : entry ∈ detector.died timeouts now) :
    entry.1 = now ∧ (∀ target, entry.2 ≠ .called (.onAck target)) ∧
      ∃ target ∈ expired (detector.suspicions timeouts now) timeouts now,
        deadOf entry = some target := by
  rcases List.mem_map.mp entryMem with ⟨target, expiredMem, rfl⟩
  exact ⟨rfl, by simp, target, expiredMem, rfl⟩

/-- Whoever is suspected at the end of a check's probes has been suspected since an unanswered
probe. -/
theorem Grounded.doubted (grounded : Grounded timeouts detector chronicle)
    (past : ∀ entry ∈ chronicle, entry.1 ≤ now) {since : ℕ}
    (found : (detector.suspicions timeouts now).lookup target = some since) :
    Doubted timeouts (chronicle ++ detector.raised timeouts now) target since := by
  have unanswered : ∀ entry ∈ detector.raised timeouts now, entry.2 ≠ .called (.onAck target) :=
    fun entry entryMem => (mem_raised entryMem).2.1 target
  have alive : ∀ entry ∈ detector.raised timeouts now, deadOf entry ≠ some target :=
    fun entry entryMem => (mem_raised entryMem).2.2 target
  rw [suspicions, lookup_foldl_insert] at found
  split at found
  · rename_i overdue
    cases found
    rcases mem_indirectOverdue.mp overdue with ⟨startedAt, awaiting, late⟩
    rcases grounded.indirect target startedAt awaiting with ⟨begun, probed, early⟩
    have begunPast := probed.le past
    refine ⟨⟨begun, probed.append unanswered, ?_⟩, since_append ?_ rfl alive⟩
    · omega
    · simp [raised, overdue]
  · exact (grounded.suspected target since found).append unanswered alive

theorem Grounded.checkTimeouts (grounded : Grounded timeouts detector chronicle)
    (past : ∀ entry ∈ chronicle, entry.1 ≤ now) :
    Grounded timeouts (detector.checkTimeouts timeouts now).1
      ((chronicle ++ detector.raised timeouts now) ++ detector.died timeouts now) := by
  have unanswered {target : NodeId} :
      ∀ entry ∈ detector.raised timeouts now ++ detector.died timeouts now,
        entry.2 ≠ .called (.onAck target) := by
    intro entry entryMem
    rcases List.mem_append.mp entryMem with isRaised | hasDied
    · exact (mem_raised isRaised).2.1 target
    · exact (mem_died hasDied).2.1 target
  have lookup_probes (target : NodeId) :
      (detector.checkTimeouts timeouts now).1.probes.lookup target =
        if target ∈ detector.indirectOverdue timeouts now then none
        else if target ∈ detector.directOverdue timeouts now then
          some (.awaitingIndirectAck now)
        else detector.probes.lookup target := by
    simp only [FailureDetector.checkTimeouts, lookup_foldl_erase, lookup_foldl_insert]
  constructor
  · intro target startedAt found
    rw [lookup_probes] at found
    split at found
    · cases found
    split at found
    · cases found
    rw [List.append_assoc]
    exact (grounded.direct target startedAt found).append unanswered
  · intro target startedAt found
    rw [lookup_probes] at found
    rw [List.append_assoc]
    split at found
    · cases found
    split at found
    · rename_i overdue
      cases found
      rcases mem_directOverdue.mp overdue with ⟨begun, awaiting, late⟩
      have probed := grounded.direct target begun awaiting
      have begunPast := probed.le past
      exact ⟨begun, probed.append unanswered, by omega⟩
    · rcases grounded.indirect target startedAt found with ⟨begun, probed, early⟩
      exact ⟨begun, probed.append unanswered, early⟩
  · intro target since found
    have lookup_suspected : (detector.checkTimeouts timeouts now).1.suspectedSince.lookup target =
        if target ∈ expired (detector.suspicions timeouts now) timeouts now then none
        else (detector.suspicions timeouts now).lookup target :=
      lookup_foldl_erase _ (detector.suspicions timeouts now) target
    rw [lookup_suspected] at found
    split at found
    · cases found
    · rename_i living
      apply (grounded.doubted past found).append
      · exact fun entry entryMem => (mem_died entryMem).2.1 target
      · intro entry entryMem isDead
        rcases mem_died entryMem with ⟨_, _, other, otherMem, isOther⟩
        rw [isDead, Option.some.injEq] at isOther
        exact living (isOther ▸ otherMem)

/-- Those who die in a check die one after another, and nobody twice. -/
theorem Grounded.justified_died (grounded : Grounded timeouts detector chronicle)
    (past : ∀ entry ∈ chronicle, entry.1 ≤ now)
    (justified : Justified (Warranted timeouts) chronicle) :
    Justified (Warranted timeouts)
      ((chronicle ++ detector.raised timeouts now) ++ detector.died timeouts now) := by
  apply Justified.append
  · apply Justified.append justified
    intro front entry back split target isDead
    have entryMem : entry ∈ detector.raised timeouts now := by simp [split]
    exact absurd isDead ((mem_raised entryMem).2.2 target)
  · intro front entry back split target isDead
    have once := nodup_keys_filter (detector.suspicions timeouts now)
      fun entry => timeouts.suspicionTimeoutMillis ≤ now - entry.2
    change (expired (detector.suspicions timeouts now) timeouts now).Nodup at once
    rcases List.map_eq_append_iff.mp split with ⟨before, rest, ordered, rfl, restEq⟩
    rcases List.map_eq_cons_iff.mp restEq with ⟨other, after, rfl, rfl, _⟩
    cases isDead
    rw [ordered, List.nodup_append'] at once
    have expiredMem : target ∈ expired (detector.suspicions timeouts now) timeouts now := by
      simp [ordered]
    rcases mem_expired.mp expiredMem with ⟨since, found, late⟩
    have doubted := grounded.doubted past found
    have raisedPast : ∀ entry ∈ chronicle ++ detector.raised timeouts now, entry.1 ≤ now := by
      intro entry entryMem
      rcases List.mem_append.mp entryMem with earlier | isRaised
      · exact past entry earlier
      · exact (mem_raised isRaised).1.le
    have sincePast := doubted.2.le raisedPast
    refine ⟨since, doubted.append ?_ ?_, by omega⟩
    · simp
    · intro entry entryMem isDead
      rcases List.mem_map.mp entryMem with ⟨other, otherMem, rfl⟩
      cases isDead
      exact once.2.2 otherMem List.mem_cons_self

/-! ## Runs -/

/-- The timers tell of the past and every death was warranted, whenever the last call was. -/
structure Sound (timeouts : Timeouts) (observed : Observed) (now : ℕ) : Prop where
  grounded : Grounded timeouts observed.detector observed.chronicle
  justified : Justified (Warranted timeouts) observed.chronicle
  past : ∀ entry ∈ observed.chronicle, entry.1 ≤ now

theorem Sound.later {observed : Observed} (sound : Sound timeouts observed now) {later : ℕ}
    (after : now ≤ later) : Sound timeouts observed later :=
  ⟨sound.grounded, sound.justified, fun entry entryMem => (sound.past entry entryMem).trans after⟩

theorem Sound.observe {observed : Observed} (sound : Sound timeouts observed now) (call : Call) :
    Sound timeouts (observe timeouts observed (now, call)) now := by
  have plain (target : NodeId) : ¬deadOf (now, .called call) = some target := by simp [deadOf]
  have extended : Justified (Warranted timeouts)
      (observed.chronicle ++ [(now, .called call)]) :=
    sound.justified.snoc fun target isDead => absurd isDead (plain target)
  have called : ∀ entry ∈ observed.chronicle ++ [((now, .called call) : ℕ × Event)],
      entry.1 ≤ now := by
    intro entry entryMem
    rcases List.mem_append.mp entryMem with earlier | last
    · exact sound.past entry earlier
    · rw [List.mem_singleton.mp last]
  cases call with
  | beginDirectProbe target => exact ⟨sound.grounded.beginDirectProbe, extended, called⟩
  | onAck target => exact ⟨sound.grounded.onAck, extended, called⟩
  | checkTimeouts =>
      constructor
      · rw [observe_checkTimeouts]
        exact sound.grounded.checkTimeouts sound.past
      · rw [observe_checkTimeouts]
        exact sound.grounded.justified_died sound.past sound.justified
      · rw [observe_checkTimeouts]
        intro entry entryMem
        rcases List.mem_append.mp entryMem with earlier | hasDied
        · rcases List.mem_append.mp earlier with before | isRaised
          · exact sound.past entry before
          · exact (mem_raised isRaised).1.le
        · exact (mem_died hasDied).1.le

theorem sound_run {calls : List (ℕ × Call)} (monotone : (calls.map Prod.fst).Pairwise (· ≤ ·))
    {now : ℕ} (latest : ∀ timed ∈ calls, timed.1 ≤ now) : Sound timeouts (run timeouts calls) now := by
  induction calls using List.reverseRecOn generalizing now with
  | nil => exact ⟨grounded_new, justified_nil, fun entry entryMem => by cases entryMem⟩
  | append_singleton calls last ih =>
      rw [List.map_append, List.pairwise_append] at monotone
      have before : ∀ timed ∈ calls, timed.1 ≤ last.1 := fun timed timedMem =>
        monotone.2.2 timed.1 (List.mem_map_of_mem timedMem) last.1 (List.mem_singleton_self _)
      rw [run_snoc]
      apply Sound.later _ (latest last (List.mem_append_right calls (List.mem_singleton_self last)))
      exact (ih monotone.1 before).observe last.2

/-- Under a clock that does not go back, a member that is declared dead was probed, and neither acked
the probe nor was given less than both probe timeouts and the suspicion timeout; and it was suspected
before, once for each time that it is declared dead. -/
theorem deaths_sound (timeouts : Timeouts) (calls : List (ℕ × Call))
    (monotone : (calls.map Prod.fst).Pairwise (· ≤ ·)) :
    let chronicle := (run timeouts calls).chronicle
    (∀ before time target after,
      chronicle = before ++ (time, .returned (.markDead target)) :: after →
      ∃ begun earlier later,
        before = earlier ++ (begun, .called (.beginDirectProbe target)) :: later ∧
        begun + 2 * timeouts.probeTimeoutMillis + timeouts.suspicionTimeoutMillis ≤ time ∧
        ∀ entry ∈ later, entry.2 ≠ .called (.onAck target)) ∧
      ∃ own : ℕ → ℕ,
        (∀ (index time : ℕ) target,
          chronicle[index]? = some (time, .returned (.markDead target)) →
          own index < index ∧
            ∃ since, chronicle[own index]? = some (since, .returned (.markSuspect target))) ∧
        ∀ first second : ℕ,
          (∃ time target, chronicle[first]? = some (time, .returned (.markDead target))) →
          (∃ time target, chronicle[second]? = some (time, .returned (.markDead target))) →
          own first = own second → first = second := by
  intro chronicle
  have sound : Sound timeouts (run timeouts calls) (calls.map Prod.fst).sum :=
    sound_run monotone fun timed timedMem =>
      List.le_sum_of_mem (List.mem_map_of_mem timedMem)
  constructor
  · intro before time target after split
    rcases sound.justified before _ after split target rfl with
      ⟨since, ⟨⟨begun, probed, early⟩, _⟩, late⟩
    rcases probed with ⟨earlier, entry, later, rfl, rfl, unanswered⟩
    exact ⟨begun, earlier, later, rfl, by dsimp only at late; omega, unanswered⟩
  · have caused : Justified (fun before entry => ∀ target, deadOf entry = some target →
        Since (fun other => suspectOf other = some target) (fun other => deadOf other = some target)
          before) chronicle := by
      intro before entry after split target isDead
      rcases sound.justified before entry after split target isDead with ⟨since, doubted, _⟩
      apply Since.imp doubted.2
      rintro entry rfl
      rfl
    rcases exists_own caused with ⟨own, before, once⟩
    refine ⟨own, ?_, ?_⟩
    · intro index time target found
      rcases before index _ target found rfl with ⟨earlier, other, placed, isCause⟩
      exact ⟨earlier, other.1, by rw [placed, ← suspectOf_eq_some.mp isCause]⟩
    · rintro first second ⟨time, target, found⟩ ⟨timeToo, targetToo, foundToo⟩
      exact once first second ⟨_, target, found, rfl⟩ ⟨_, targetToo, foundToo, rfl⟩

/-- A probe that nobody answers, begun again while the member is suspected already: the member is
declared dead twice, each time after a suspicion of its own. -/
theorem deaths_sound_twice :
    let calls : List (ℕ × Call) :=
      [(0, .beginDirectProbe 1), (10, .checkTimeouts), (20, .checkTimeouts),
        (25, .beginDirectProbe 1), (80, .checkTimeouts), (90, .checkTimeouts),
        (200, .checkTimeouts)]
    let chronicle := (run ⟨10, 50⟩ calls).chronicle
    (chronicle.filterMap deadOf = [1, 1]) ∧
      ∃ own : ℕ → ℕ,
        (∀ (index time : ℕ) target,
          chronicle[index]? = some (time, .returned (.markDead target)) →
          own index < index ∧
            ∃ since, chronicle[own index]? = some (since, .returned (.markSuspect target))) ∧
        ∀ first second : ℕ,
          (∃ time target, chronicle[first]? = some (time, .returned (.markDead target))) →
          (∃ time target, chronicle[second]? = some (time, .returned (.markDead target))) →
          own first = own second → first = second := by
  intro calls chronicle
  exact ⟨by decide +kernel, (deaths_sound ⟨10, 50⟩ calls (by decide)).2⟩

end FailureDetector

end Seisin
