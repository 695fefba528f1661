import Seisin.PeerLink.Placement
import Mathlib

/-!
# Calls that never resolve

A callback is lost when its response arrives with a body that does not decode, when another call is
filed under its id, or when the reader ends in a panic; and a call filed after the reader took the
table waits for nobody.  These are the only ways: a run resolves every call exactly once if and only
if none of its steps is one of them.
-/

namespace Seisin.PeerLink

open Transition Protocol

namespace Link

/-! ## Lost calls -/

/-- No call is registered once the reader has taken the table or under an id that is still pending,
no response to a pending call has a body that does not decode, and no request panics the reader
while calls are pending. -/
def Faultless (onRequest : ThreadId → Request → Bool) (link : Link) : Label → Prop
  | .register caller => link.reader.Live ∧ ∀ call correlationId targetThread request,
      link.callers caller = .numbered call correlationId targetThread request →
        link.pending.lookup correlationId = none
  | .frame payload => Panics onRequest payload → link.pending = ∅
  | .invoke => ∀ call body, link.reader = .answering call body →
      ∃ response, decodeResponse body = .ok response
  | _ => True

theorem eq_empty_of_lookup {pending : AList (fun _ : UInt64 => ℕ)}
    (absent : ∀ correlationId call, pending.lookup correlationId ≠ some call) : pending = ∅ := by
  refine AList.ext (List.eq_nil_iff_forall_not_mem.mpr ?_)
  rintro ⟨correlationId, call⟩ entryMem
  exact absent correlationId call (AList.mem_lookup_iff.mpr entryMem)

/-- Every call resolves exactly once as long as none is lost. -/
theorem resolves_iff_not_lost {link : Link} (wellFormed : link.WellFormed) :
    link.Resolves ↔ ∀ call, ¬link.Lost call := by
  have placed := wellFormed.placed
  constructor
  · rintro resolves call ⟨known, quiet, unawaited⟩
    rcases resolves.settled call known with isInvoked | awaited
    · exact quiet isInvoked
    · exact unawaited awaited
  · intro noneLost
    have settled : ∀ call ∈ link.registered, call ∈ link.invoked ∨ link.Awaits call := by
      intro call known
      by_contra neither
      rw [not_or] at neither
      exact noneLost call ⟨known, neither.1, neither.2⟩
    refine ⟨placed.firedOnce, wellFormed.carried, settled, ?_, ?_⟩
    · intro call isInvoked
      refine ⟨placed.fired call isInvoked, ?_⟩
      rintro (isHeld | ⟨_, isFiled⟩)
      · exact (placed.held call isHeld).2 isInvoked
      · exact (placed.filed _ call isFiled).2.2.1 isInvoked
    · intro ended
      have unawaited : ∀ call, ¬link.Awaits call := by
        intro call awaited
        cases at_ : link.reader <;> simp [at_, Reader.Ended] at ended <;>
          simp [Awaits, at_, Reader.holding, Reader.Live] at awaited
      have allInvoked : ∀ call ∈ link.registered, call ∈ link.invoked := by
        intro call known
        exact (settled call known).resolve_right (unawaited call)
      refine ⟨eq_empty_of_lookup ?_, allInvoked⟩
      intro correlationId call found
      rcases placed.filed correlationId call found with ⟨-, known, quiet, -⟩
      exact quiet (allInvoked call known)

/-- The table after a registration holds the new call, and another one only if it was there under
another id. -/
theorem filed_insert_iff {link next : Link} {call new : ℕ}
    (inserted : next.pending = link.pending.insert (idOf new) new) (other : call ≠ new) :
    next.Filed call ↔ idOf call ≠ idOf new ∧ link.Filed call := by
  unfold Filed
  rw [inserted]
  by_cases same : idOf call = idOf new
  · rw [same, AList.lookup_insert]
    simp [Ne.symm other]
  · rw [AList.lookup_insert_ne same]
    simp [same]

/-- A call in the table is there under its own id. -/
theorem WellFormed.filed_of_lookup {link : Link} (wellFormed : link.WellFormed)
    {correlationId : UInt64} {call : ℕ} (found : link.pending.lookup correlationId = some call) :
    link.Filed call := by
  rw [(wellFormed.placed.filed correlationId call found).1] at found
  exact found

/-- A lost call stays lost. -/
theorem lost_step {onRequest : ThreadId → Request → Bool} {link next : Link} {label : Label}
    {call : ℕ} (wellFormed : link.WellFormed) (lost : link.Lost call)
    (stepped : step onRequest link label = some next) : next.Lost call := by
  rcases lost with ⟨known, quiet, unawaited⟩
  cases step_spec stepped with
  | call caller targetThread request idle => exact ⟨known, quiet, unawaited⟩
  | register caller new correlationId targetThread request numbered =>
      rcases wellFormed.numbering.numbered _ _ _ _ _ numbered with ⟨rfl, -, fresh⟩
      have other : call ≠ new := fun same => fresh (same ▸ known)
      refine ⟨List.mem_cons_of_mem _ known, quiet, ?_⟩
      rintro (isHeld | ⟨live, isFiled⟩)
      · exact unawaited (Or.inl isHeld)
      · exact unawaited (Or.inr ⟨live, ((filed_insert_iff rfl other).mp isFiled).2⟩)
  | post caller writer => exact ⟨known, quiet, unawaited⟩
  | outward label writer sent outgoing => exact ⟨known, quiet, unawaited⟩
  | ignored payload reading sound => exact ⟨known, quiet, unawaited⟩
  | taken payload reading envelope taken decoded kind found =>
      have unfiled : ¬link.Filed call := fun isFiled =>
        unawaited (Or.inr ⟨by simp [reading, Reader.Live], isFiled⟩)
      refine ⟨known, quiet, ?_⟩
      rintro (isHeld | ⟨_, isFiled⟩)
      · rcases List.mem_singleton.mp isHeld with rfl
        exact unfiled (wellFormed.filed_of_lookup found)
      · apply unfiled
        by_cases same : idOf call = envelope.correlationId
        · rw [Filed, same, AList.lookup_erase] at isFiled
          cases isFiled
        · rwa [Filed, AList.lookup_erase_ne same] at isFiled
  | panicked payload reading panics =>
      refine ⟨known, quiet, ?_⟩
      rintro (isHeld | ⟨live, _⟩)
      · cases isHeld
      · exact live
  | answered taken body response answering decoded =>
      refine ⟨known, ?_, ?_⟩
      · intro isInvoked
        rw [invoked, List.map_append] at isInvoked
        rcases List.mem_append.mp isInvoked with isInvoked | isTaken
        · exact quiet isInvoked
        · rcases List.mem_singleton.mp isTaken with rfl
          exact unawaited (Or.inl (by simp [answering, Reader.holding]))
      · rintro (isHeld | ⟨_, isFiled⟩)
        · cases isHeld
        · exact unawaited (Or.inr ⟨by simp [answering, Reader.Live], isFiled⟩)
  | dropped taken body message answering undecodable =>
      refine ⟨known, quiet, ?_⟩
      rintro (isHeld | ⟨_, isFiled⟩)
      · cases isHeld
      · exact unawaited (Or.inr ⟨by simp [answering, Reader.Live], isFiled⟩)
  | close reading =>
      refine ⟨known, quiet, ?_⟩
      rintro (isHeld | ⟨live, _⟩)
      · rcases Placed.mem_entries.mp isHeld with ⟨correlationId, found⟩
        exact unawaited
          (Or.inr ⟨by simp [reading, Reader.Live], wellFormed.filed_of_lookup found⟩)
      · exact live
  | fail failed calls failing callMem =>
      refine ⟨known, ?_, ?_⟩
      · intro isInvoked
        rw [invoked, List.map_append] at isInvoked
        rcases List.mem_append.mp isInvoked with isInvoked | isFailed
        · exact quiet isInvoked
        · rcases List.mem_singleton.mp isFailed with rfl
          exact unawaited (Or.inl (by simpa [failing, Reader.holding] using callMem))
      · rintro (isHeld | ⟨live, _⟩)
        · have before := List.mem_of_mem_erase isHeld
          exact unawaited (Or.inl (by simpa [failing, Reader.holding] using before))
        · exact live
  | exit failed =>
      refine ⟨known, quiet, ?_⟩
      rintro (isHeld | ⟨live, _⟩)
      · cases isHeld
      · exact live

/-- A step at which a call gets lost is at fault. -/
theorem lost_onset {onRequest : ThreadId → Request → Bool} {link next : Link} {label : Label}
    {call : ℕ} (wellFormed : link.WellFormed) (kept : ¬link.Lost call) (lost : next.Lost call)
    (stepped : step onRequest link label = some next) : ¬Faultless onRequest link label := by
  intro faultless
  apply kept
  rcases lost with ⟨known, quiet, unawaited⟩
  cases step_spec stepped with
  | call caller targetThread request idle => exact ⟨known, quiet, unawaited⟩
  | register caller new correlationId targetThread request numbered =>
      rcases wellFormed.numbering.numbered _ _ _ _ _ numbered with ⟨rfl, -, fresh⟩
      rcases faultless with ⟨live, free⟩
      have vacant := free _ _ _ _ numbered
      have other : call ≠ new := by
        rintro rfl
        exact unawaited (Or.inr ⟨live, AList.lookup_insert _⟩)
      refine ⟨List.mem_of_ne_of_mem other known, quiet, ?_⟩
      rintro (isHeld | ⟨_, isFiled⟩)
      · exact unawaited (Or.inl isHeld)
      · refine unawaited (Or.inr ⟨live, (filed_insert_iff rfl other).mpr ⟨?_, isFiled⟩⟩)
        intro same
        rw [Filed, same, vacant] at isFiled
        cases isFiled
  | post caller writer => exact ⟨known, quiet, unawaited⟩
  | outward label writer sent outgoing => exact ⟨known, quiet, unawaited⟩
  | ignored payload reading sound => exact ⟨known, quiet, unawaited⟩
  | taken payload reading envelope taken decoded kind found =>
      have other : call ≠ taken := by
        rintro rfl
        exact unawaited (Or.inl (List.mem_singleton_self call))
      refine ⟨known, quiet, ?_⟩
      rintro (isHeld | ⟨_, isFiled⟩)
      · simp [reading, Reader.holding] at isHeld
      · refine unawaited (Or.inr ⟨trivial, ?_⟩)
        have apart : idOf call ≠ envelope.correlationId := by
          intro same
          rw [Filed, same, found] at isFiled
          exact other (Option.some.inj isFiled).symm
        rwa [Filed, AList.lookup_erase_ne apart]
  | panicked payload reading panics =>
      have empty : link.pending = ∅ := faultless panics
      refine ⟨known, quiet, ?_⟩
      rintro (isHeld | ⟨_, isFiled⟩)
      · simp [reading, Reader.holding] at isHeld
      · rw [Filed, empty] at isFiled
        cases isFiled
  | answered taken body response answering decoded =>
      rw [invoked, List.map_append, List.mem_append, not_or] at quiet
      refine ⟨known, quiet.1, ?_⟩
      rintro (isHeld | ⟨_, isFiled⟩)
      · apply quiet.2
        simpa [answering, Reader.holding] using isHeld
      · exact unawaited (Or.inr ⟨trivial, isFiled⟩)
  | dropped taken body message answering undecodable =>
      rcases faultless taken body answering with ⟨response, decoded⟩
      rw [undecodable] at decoded
      cases decoded
  | close reading =>
      refine ⟨known, quiet, ?_⟩
      rintro (isHeld | ⟨_, isFiled⟩)
      · simp [reading, Reader.holding] at isHeld
      · exact unawaited (Or.inl (Placed.mem_entries.mpr ⟨_, isFiled⟩))
  | fail failed calls failing callMem =>
      rw [invoked, List.map_append, List.mem_append, not_or] at quiet
      refine ⟨known, quiet.1, ?_⟩
      rintro (isHeld | ⟨live, _⟩)
      · have among : call ∈ calls := by simpa [failing, Reader.holding] using isHeld
        have other : call ≠ failed := fun same => quiet.2 (by simp [same])
        exact unawaited (Or.inl ((List.mem_erase_of_ne other).mpr among))
      · rw [failing] at live
        exact live
  | exit failed =>
      refine ⟨known, quiet, ?_⟩
      rintro (isHeld | ⟨live, _⟩)
      · simp [failed, Reader.holding] at isHeld
      · rw [failed] at live
        exact live

/-- A step at fault loses a call. -/
theorem lost_of_fault {onRequest : ThreadId → Request → Bool} {link next : Link} {label : Label}
    (wellFormed : link.WellFormed) (stepped : step onRequest link label = some next)
    (fault : ¬Faultless onRequest link label) : ∃ call, next.Lost call := by
  have placed := wellFormed.placed
  cases step_spec stepped with
  | call caller targetThread request idle => exact absurd trivial fault
  | register caller new correlationId targetThread request numbered =>
      rcases wellFormed.numbering.numbered _ _ _ _ _ numbered with ⟨rfl, -, fresh⟩
      by_cases live : link.reader.Live
      · -- The id is still taken: the callback filed under it is overwritten.
        have taken : ∃ old, link.pending.lookup (idOf new) = some old := by
          by_contra none
          refine fault ⟨live, ?_⟩
          intro call correlationId thread asked at_
          rw [numbered] at at_
          rcases Caller.numbered.inj at_ with ⟨-, rfl, -⟩
          exact Option.eq_none_iff_forall_ne_some.mpr fun old found => none ⟨old, found⟩
        rcases taken with ⟨old, found⟩
        rcases placed.filed _ _ found with ⟨own, known, quiet, free⟩
        have other : old ≠ new := fun same => fresh (same ▸ known)
        refine ⟨old, List.mem_cons_of_mem _ known, quiet, ?_⟩
        rintro (isHeld | ⟨_, isFiled⟩)
        · exact free isHeld
        · exact ((filed_insert_iff rfl other).mp isFiled).1 own.symm
      · refine ⟨new, List.mem_cons_self, fun isInvoked => fresh (placed.fired _ isInvoked), ?_⟩
        rintro (isHeld | ⟨isLive, _⟩)
        · exact fresh (placed.held _ isHeld).1
        · exact live isLive
  | post caller writer => exact absurd trivial fault
  | outward label writer sent outgoing =>
      rcases outgoing with ⟨correlationId, response, rfl⟩ | rfl | rfl
      · exact absurd trivial fault
      · exact absurd trivial fault
      · exact absurd trivial fault
  | ignored payload reading sound => exact absurd (fun panics => absurd panics sound) fault
  | taken payload reading envelope taken decoded kind found =>
      refine absurd ?_ fault
      rintro ⟨other, request, opened, isRequest, -⟩
      rw [decoded] at opened
      rw [← Except.ok.inj opened, kind] at isRequest
      cases isRequest
  | panicked payload reading panics =>
      have nonempty : ∃ correlationId call, link.pending.lookup correlationId = some call := by
        by_contra none
        refine fault fun _ => eq_empty_of_lookup fun correlationId call found => ?_
        exact none ⟨correlationId, call, found⟩
      rcases nonempty with ⟨correlationId, call, found⟩
      rcases placed.filed _ _ found with ⟨-, known, quiet, -⟩
      refine ⟨call, known, quiet, ?_⟩
      rintro (isHeld | ⟨live, _⟩)
      · cases isHeld
      · exact live
  | answered taken body response answering decoded =>
      refine absurd ?_ fault
      intro call otherBody at_
      rw [answering] at at_
      rcases Reader.answering.inj at_ with ⟨-, rfl⟩
      exact ⟨response, decoded⟩
  | dropped taken body message answering undecodable =>
      have held : taken ∈ link.reader.holding := by simp [answering, Reader.holding]
      rcases placed.held taken held with ⟨known, quiet⟩
      refine ⟨taken, known, quiet, ?_⟩
      rintro (isHeld | ⟨_, isFiled⟩)
      · cases isHeld
      · exact (placed.filed _ _ isFiled).2.2.2 held
  | close reading => exact absurd trivial fault
  | fail failed calls failing callMem => exact absurd trivial fault
  | exit failed => exact absurd trivial fault

/-- Every step of the run meets the condition in the state it starts from. -/
def FaultlessRun (onRequest : ThreadId → Request → Bool) (labels : List Label) : Prop :=
  ∀ front label back before, labels = front ++ label :: back →
    (system onRequest).exec new front = some before → Faultless onRequest before label

theorem wellFormed_of_exec {onRequest : ThreadId → Request → Bool} {labels : List Label}
    {link : Link} (executed : (system onRequest).exec new labels = some link) :
    link.WellFormed := by
  apply (System.run_of_exec executed).induction
  · intro state label next wellFormed _ stepped
    exact wellFormed_step wellFormed stepped
  · exact wellFormed_new

/-- After a run every call resolves exactly once if and only if every step of the run was
faultless. -/
theorem calls_resolve_once_iff (onRequest : ThreadId → Request → Bool) {labels : List Label}
    {link : Link} (executed : (system onRequest).exec new labels = some link) :
    link.Resolves ↔ FaultlessRun onRequest labels := by
  rw [resolves_iff_not_lost (wellFormed_of_exec executed)]
  constructor
  · -- A fault loses a call, and what is lost stays lost to the end of the run.
    intro noneLost front label back before split ran
    by_contra fault
    rw [split, System.exec_append, ran, Option.bind_some] at executed
    rcases Option.bind_eq_some_iff.mp executed with ⟨after, stepped, rest⟩
    have wellFormed := wellFormed_of_exec ran
    rcases lost_of_fault wellFormed stepped fault with ⟨call, lost⟩
    have stillLost : link.WellFormed ∧ link.Lost call := by
      apply (System.run_of_exec rest).induction
      · intro state later next holds _ laterStep
        exact ⟨wellFormed_step holds.1 laterStep, lost_step holds.1 holds.2 laterStep⟩
      · exact ⟨wellFormed_step wellFormed stepped, lost⟩
    exact noneLost call stillLost.2
  · intro faultless call lost
    have untouched : ¬new.Lost call := fun lost => List.not_mem_nil lost.1
    rcases System.exec_onset (Lost · call) executed untouched lost with
      ⟨front, label, back, before, after, split, ran, stepped, kept, lasts⟩
    exact lost_onset (wellFormed_of_exec ran) kept (lasts [] back after rfl rfl) stepped
      (faultless front label back before split ran)

/-- A test that only faultless steps pass; it accepts no request frames. -/
def faultless (link : Link) : Label → Bool
  | .register caller =>
      (match link.reader with
      | .reading | .answering _ _ => true
      | _ => false) &&
      match link.callers caller with
      | .numbered _ correlationId _ _ => (link.pending.lookup correlationId).isNone
      | _ => true
  | .frame payload =>
      match decodeEnvelope payload with
      | .ok envelope => envelope.kind = .response
      | .error _ => true
  | .invoke =>
      match link.reader with
      | .answering _ body => (decodeResponse body).isOk
      | _ => true
  | _ => true

theorem faultless_sound (onRequest : ThreadId → Request → Bool) {link : Link} {label : Label}
    (passes : faultless link label = true) : Faultless onRequest link label := by
  cases label with
  | register caller =>
      simp only [faultless, Bool.and_eq_true] at passes
      constructor
      · cases at_ : link.reader <;> simp [at_, Reader.Live] at passes ⊢
      · intro call correlationId targetThread request numbered
        simpa [numbered] using passes.2
  | frame payload =>
      rintro ⟨envelope, request, decoded, isRequest, -⟩
      simp [faultless, decoded, isRequest] at passes
  | invoke =>
      intro call body answering
      cases decoded : decodeResponse body with
      | ok response => exact ⟨response, rfl⟩
      | error message => simp [faultless, answering, decoded, Except.isOk, Except.toBool] at passes
  | _ => exact trivial

/-- Thread 0 asks for a recall and gets the answer; thread 1 asks too and the connection closes. -/
def answeredThenClosed : List Label :=
  [.call 0 3 (.recall 7), .register 0, .post 0, .write,
    .frame (encodeEnvelope ⟨0, .response, 0, encodeResponse .released⟩),
    .call 1 3 (.recall 8), .invoke, .register 1, .post 1, .writeFails, .close, .fail 1, .exit]

/-- Both callbacks are invoked, one with the response and one with the failure. -/
theorem calls_resolve_once_closed : ∃ link,
    (system (poolOnRequest 4)).exec new answeredThenClosed = some link ∧
    link.invoked = [0, 1] ∧ link.Resolves := by
  have observed : ((system (poolOnRequest 4)).execVia faultless new answeredThenClosed).map
      (fun link => link.invoked) = some [0, 1] := by
    decide +kernel
  rcases Option.map_eq_some_iff.mp observed with ⟨link, guarded, invoked⟩
  have executed := System.exec_of_execVia guarded
  refine ⟨link, executed, invoked, ?_⟩
  apply (calls_resolve_once_iff (poolOnRequest 4) executed).mpr
  intro front label back before split ran
  rw [split] at guarded
  exact faultless_sound (poolOnRequest 4) (System.guard_of_execVia guarded ran)

/-- A call made after the reader has gone. -/
def lateCall : List Label := [.close, .exit, .call 0 3 (.recall 7), .register 0, .post 0]

/-- A call answered with a body that is no response. -/
def garbledAnswer : List Label :=
  [.call 0 3 (.recall 7), .register 0, .post 0, .write,
    .frame (encodeEnvelope ⟨0, .response, 0, []⟩), .invoke]

/-- Neither callback is ever invoked: nobody will look at the one, and the other is gone. -/
theorem calls_never_resolve :
    (∃ link, (system (poolOnRequest 4)).exec new lateCall = some link ∧
      link.reader = .exited ∧ link.registered = [0] ∧ link.invoked = [] ∧ ¬link.Resolves) ∧
    ∃ link, (system (poolOnRequest 4)).exec new garbledAnswer = some link ∧
      link.reader = .reading ∧ link.registered = [0] ∧ link.invoked = [] ∧ link.pending = ∅ ∧
      ¬link.Resolves := by
  have lateObserved : ((system (poolOnRequest 4)).exec new lateCall).map (fun link =>
      decide (link.reader = .exited ∧ link.registered = [0] ∧ link.invoked = [])) = some true := by
    decide +kernel
  have garbledObserved : ((system (poolOnRequest 4)).exec new garbledAnswer).map (fun link =>
      decide (link.reader = .reading ∧ link.registered = [0] ∧ link.invoked = [] ∧
        link.pending.entries = [])) = some true := by
    decide +kernel
  rcases Option.map_eq_some_iff.mp lateObserved with ⟨late, lateRun, lateFacts⟩
  rcases of_decide_eq_true lateFacts with ⟨exited, lateKnown, lateQuiet⟩
  rcases Option.map_eq_some_iff.mp garbledObserved with ⟨garbled, garbledRun, garbledFacts⟩
  rcases of_decide_eq_true garbledFacts with ⟨reading, known, quiet, dropped⟩
  have empty : garbled.pending = ∅ := AList.ext dropped
  refine ⟨⟨late, lateRun, exited, lateKnown, lateQuiet, ?_⟩,
    ⟨garbled, garbledRun, reading, known, quiet, empty, ?_⟩⟩
  · intro resolves
    rcases resolves.settled 0 (by simp [lateKnown]) with isInvoked | isHeld | ⟨live, _⟩
    · simp [lateQuiet] at isInvoked
    · simp [exited, Reader.holding] at isHeld
    · simp [exited, Reader.Live] at live
  · intro resolves
    rcases resolves.settled 0 (by simp [known]) with isInvoked | isHeld | ⟨_, isFiled⟩
    · simp [quiet] at isInvoked
    · simp [reading, Reader.holding] at isHeld
    · rw [Filed, empty] at isFiled
      cases isFiled

end Link

end Seisin.PeerLink
