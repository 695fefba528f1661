import Seisin.PeerLink
import Mathlib

/-!
# Where the callbacks of a peer link are

In every state of a link each registered call's callback is in at most one place: in the table
under the call's own id, in the hands of the reader, or invoked, and then with a failure or with a
response that carried the call's id.  Nothing here says that it is in any of them: `Resolves` does,
and does not hold of every run.
-/

namespace Seisin.PeerLink

open Transition Protocol

/-! ## Where a callback is -/

/-- The callbacks in the reader's hands. -/
def Reader.holding : Reader → List ℕ
  | .answering call _ => [call]
  | .failing calls => calls
  | _ => []

/-- The reader still takes frames, and will take the table when the connection closes. -/
def Reader.Live : Reader → Prop
  | .reading | .answering _ _ => True
  | _ => False

/-- The reader thread has ended. -/
def Reader.Ended : Reader → Prop
  | .exited | .panicked => True
  | _ => False

namespace Link

/-- The id of a call: the counter wraps around. -/
def idOf (call : ℕ) : UInt64 := UInt64.ofNat call

/-- The call's callback is in the table. -/
def Filed (link : Link) (call : ℕ) : Prop := link.pending.lookup (idOf call) = some call

/-- The reader has the call's callback, or will come to it in the table. -/
def Awaits (link : Link) (call : ℕ) : Prop :=
  call ∈ link.reader.holding ∨ (link.reader.Live ∧ link.Filed call)

/-- The calls whose callbacks were invoked, once for each time. -/
def invoked (link : Link) : List ℕ := link.fired.map Prod.fst

/-- `response` is a failure, or came in a response that carries the call's id. -/
def Carries (link : Link) (call : ℕ) (response : Response) : Prop :=
  response = disconnected ∨ ∃ payload ∈ link.received, ∃ envelope,
    decodeEnvelope payload = .ok envelope ∧ envelope.kind = .response ∧
      envelope.correlationId = idOf call ∧ decodeResponse envelope.body = .ok response

/-- Every call resolves exactly once: no callback is invoked twice or with another call's response,
every registered call's callback has been invoked or still will be, and once the reader has ended
all of them have been and none is left in the table. -/
structure Resolves (link : Link) : Prop where
  once : link.invoked.Nodup
  carried : ∀ call response, (call, response) ∈ link.fired → link.Carries call response
  settled : ∀ call ∈ link.registered, call ∈ link.invoked ∨ link.Awaits call
  finished : ∀ call ∈ link.invoked, call ∈ link.registered ∧ ¬link.Awaits call
  drained : link.reader.Ended → link.pending = ∅ ∧ ∀ call ∈ link.registered, call ∈ link.invoked

/-! ## What holds of every link -/

/-- The callers that have an id and no entry yet have ids of their own. -/
structure Numbering (callers : ℕ → Caller) (made : ℕ) (registered : List ℕ) : Prop where
  numbered : ∀ caller call correlationId targetThread request,
    callers caller = .numbered call correlationId targetThread request →
      correlationId = idOf call ∧ call < made ∧ call ∉ registered
  apart : ∀ caller other call correlationId targetThread request otherId otherThread otherRequest,
    callers caller = .numbered call correlationId targetThread request →
      callers other = .numbered call otherId otherThread otherRequest → caller = other

/-- A registered call's callback is in at most one place: in the table under the call's own id, in
the reader's hands, or invoked. -/
structure Placed (pending : AList (fun _ : UInt64 => ℕ)) (holding registered invoked : List ℕ) :
    Prop where
  filed : ∀ correlationId call, pending.lookup correlationId = some call →
    correlationId = idOf call ∧ call ∈ registered ∧ call ∉ invoked ∧ call ∉ holding
  held : ∀ call ∈ holding, call ∈ registered ∧ call ∉ invoked
  heldOnce : holding.Nodup
  fired : ∀ call ∈ invoked, call ∈ registered
  firedOnce : invoked.Nodup

structure WellFormed (link : Link) : Prop where
  counted : link.nextCorrelationId = idOf link.made
  numbering : Numbering link.callers link.made link.registered
  earlier : ∀ call ∈ link.registered, call < link.made
  placed : Placed link.pending link.reader.holding link.registered link.invoked
  carried : ∀ call response, (call, response) ∈ link.fired → link.Carries call response
  answering : ∀ call body, link.reader = .answering call body →
    ∃ payload ∈ link.received, ∃ envelope, decodeEnvelope payload = .ok envelope ∧
      envelope.kind = .response ∧ envelope.correlationId = idOf call ∧ envelope.body = body

/-- A registered call whose callback is gone, or in a table that is read no more. -/
def Lost (link : Link) (call : ℕ) : Prop :=
  call ∈ link.registered ∧ call ∉ link.invoked ∧ ¬link.Awaits call

theorem wellFormed_new : new.WellFormed where
  counted := rfl
  numbering := by
    constructor
    · intro caller call correlationId targetThread request at_
      cases at_
    · intro caller other call correlationId targetThread request otherId otherThread otherRequest at_
      cases at_
  earlier := by
    intro call callMem
    cases callMem
  placed := by
    constructor
    · intro correlationId call found
      cases found
    · intro call callMem
      cases callMem
    · exact List.nodup_nil
    · intro call callMem
      cases callMem
    · exact List.nodup_nil
  carried := by
    intro call response firedMem
    cases firedMem
  answering := by
    intro call body at_
    cases at_

/-! ## Every step keeps a link well formed -/

theorem idOf_succ (call : ℕ) : idOf (call + 1) = idOf call + 1 := by
  simp [idOf, UInt64.ofNat_add]

namespace Numbering

variable {callers : ℕ → Caller} {made : ℕ} {registered : List ℕ}

theorem call (numbering : Numbering callers made registered)
    (earlier : ∀ call ∈ registered, call < made) (caller : ℕ) (targetThread : ThreadId)
    (request : Request) :
    Numbering (Function.update callers caller (.numbered made (idOf made) targetThread request))
      (made + 1) registered := by
  have before : ∀ someone call correlationId thread asked, someone ≠ caller →
      Function.update callers caller (.numbered made (idOf made) targetThread request) someone =
        .numbered call correlationId thread asked →
      callers someone = .numbered call correlationId thread asked := by
    intro someone call correlationId thread asked other at_
    rwa [Function.update_of_ne other] at at_
  have new : ∀ call correlationId thread asked,
      Function.update callers caller (.numbered made (idOf made) targetThread request) caller =
        .numbered call correlationId thread asked → call = made ∧ correlationId = idOf made := by
    intro call correlationId thread asked at_
    rw [Function.update_self, Caller.numbered.injEq] at at_
    exact ⟨at_.1.symm, at_.2.1.symm⟩
  constructor
  · intro someone call correlationId thread asked at_
    by_cases same : someone = caller
    · subst same
      rcases new call correlationId thread asked at_ with ⟨rfl, rfl⟩
      exact ⟨rfl, Nat.lt_succ_self _, fun callMem => Nat.lt_irrefl _ (earlier _ callMem)⟩
    · rcases numbering.numbered _ _ _ _ _ (before _ _ _ _ _ same at_) with ⟨own, less, free⟩
      exact ⟨own, Nat.lt_succ_of_lt less, free⟩
  · intro someone another call correlationId thread asked otherId otherThread otherRequest at_
      otherAt
    by_cases same : someone = caller
    · subst same
      by_cases otherSame : another = someone
      · exact otherSame.symm
      · -- The new call's number is larger than every number taken before.
        rcases new _ _ _ _ at_ with ⟨rfl, -⟩
        have less := (numbering.numbered _ _ _ _ _ (before _ _ _ _ _ otherSame otherAt)).2.1
        exact absurd less (Nat.lt_irrefl _)
    · by_cases otherSame : another = caller
      · subst otherSame
        rcases new _ _ _ _ otherAt with ⟨rfl, -⟩
        have less := (numbering.numbered _ _ _ _ _ (before _ _ _ _ _ same at_)).2.1
        exact absurd less (Nat.lt_irrefl _)
      · exact numbering.apart _ _ _ _ _ _ _ _ _ (before _ _ _ _ _ same at_)
          (before _ _ _ _ _ otherSame otherAt)

/-- A caller that moves on leaves the others as they are. -/
theorem settle (numbering : Numbering callers made registered) (caller : ℕ) {stage : Caller}
    (moved : ∀ call correlationId targetThread request,
      stage ≠ .numbered call correlationId targetThread request) :
    Numbering (Function.update callers caller stage) made registered ∧
      ∀ someone call correlationId targetThread request,
        Function.update callers caller stage someone =
          .numbered call correlationId targetThread request →
        someone ≠ caller ∧ callers someone = .numbered call correlationId targetThread request := by
  have before : ∀ someone call correlationId targetThread request,
      Function.update callers caller stage someone =
        .numbered call correlationId targetThread request →
      someone ≠ caller ∧ callers someone = .numbered call correlationId targetThread request := by
    intro someone call correlationId targetThread request at_
    by_cases same : someone = caller
    · subst same
      rw [Function.update_self] at at_
      exact absurd at_ (moved call correlationId targetThread request)
    · rw [Function.update_of_ne same] at at_
      exact ⟨same, at_⟩
  refine ⟨⟨?_, ?_⟩, before⟩
  · intro someone call correlationId targetThread request at_
    exact numbering.numbered _ _ _ _ _ (before _ _ _ _ _ at_).2
  · intro someone another call correlationId targetThread request otherId otherThread otherRequest
      at_ otherAt
    exact numbering.apart _ _ _ _ _ _ _ _ _ (before _ _ _ _ _ at_).2 (before _ _ _ _ _ otherAt).2

/-- The call a caller registers is nobody else's. -/
theorem register (numbering : Numbering callers made registered) {caller call : ℕ}
    {correlationId : UInt64} {targetThread : ThreadId} {request : Request}
    (numbered : callers caller = .numbered call correlationId targetThread request) :
    Numbering (Function.update callers caller (.filed correlationId targetThread request)) made
      (call :: registered) := by
  have moved : ∀ someCall id thread asked,
      Caller.filed correlationId targetThread request ≠ .numbered someCall id thread asked := by
    intro someCall id thread asked equal
    cases equal
  rcases numbering.settle caller moved with ⟨settled, before⟩
  refine ⟨?_, settled.apart⟩
  intro someone other id thread asked at_
  rcases settled.numbered _ _ _ _ _ at_ with ⟨own, less, free⟩
  rcases before _ _ _ _ _ at_ with ⟨different, was⟩
  refine ⟨own, less, ?_⟩
  intro callMem
  rcases List.mem_cons.mp callMem with rfl | callMem
  · exact different (numbering.apart _ _ _ _ _ _ _ _ _ was numbered)
  · exact free callMem

end Numbering

namespace Placed

variable {pending : AList (fun _ : UInt64 => ℕ)} {holding registered invoked : List ℕ}

theorem register (placed : Placed pending holding registered invoked) {call : ℕ}
    (new : call ∉ registered) :
    Placed (pending.insert (idOf call) call) holding (call :: registered) invoked where
  filed := by
    intro correlationId other found
    by_cases same : correlationId = idOf call
    · subst same
      rw [AList.lookup_insert] at found
      cases found
      exact ⟨rfl, List.mem_cons_self, fun isInvoked => new (placed.fired _ isInvoked),
        fun isHeld => new (placed.held _ isHeld).1⟩
    · rw [AList.lookup_insert_ne same] at found
      rcases placed.filed correlationId other found with ⟨own, known, quiet, free⟩
      exact ⟨own, List.mem_cons_of_mem _ known, quiet, free⟩
  held := fun other isHeld =>
    ⟨List.mem_cons_of_mem _ (placed.held other isHeld).1, (placed.held other isHeld).2⟩
  heldOnce := placed.heldOnce
  fired := fun other isInvoked => List.mem_cons_of_mem _ (placed.fired other isInvoked)
  firedOnce := placed.firedOnce

theorem take (placed : Placed pending [] registered invoked) {correlationId : UInt64} {call : ℕ}
    (found : pending.lookup correlationId = some call) :
    Placed (pending.erase correlationId) [call] registered invoked where
  filed := by
    intro id other stillFound
    by_cases same : id = correlationId
    · subst same
      rw [AList.lookup_erase] at stillFound
      cases stillFound
    · rw [AList.lookup_erase_ne same] at stillFound
      rcases placed.filed id other stillFound with ⟨own, known, quiet, _⟩
      refine ⟨own, known, quiet, ?_⟩
      intro isHeld
      rcases List.mem_singleton.mp isHeld with rfl
      exact same (own.trans (placed.filed correlationId other found).1.symm)
  held := by
    intro other isHeld
    rcases List.mem_singleton.mp isHeld with rfl
    exact ⟨(placed.filed correlationId other found).2.1,
      (placed.filed correlationId other found).2.2.1⟩
  heldOnce := List.nodup_singleton call
  fired := placed.fired
  firedOnce := placed.firedOnce

/-- Callbacks the reader no longer has are nowhere. -/
theorem drop (placed : Placed pending holding registered invoked) {kept : List ℕ}
    (sublist : kept.Sublist holding) : Placed pending kept registered invoked where
  filed := by
    intro correlationId call found
    rcases placed.filed correlationId call found with ⟨own, known, quiet, free⟩
    exact ⟨own, known, quiet, fun isHeld => free (sublist.subset isHeld)⟩
  held := fun call isHeld => placed.held call (sublist.subset isHeld)
  heldOnce := placed.heldOnce.sublist sublist
  fired := placed.fired
  firedOnce := placed.firedOnce

theorem fire (placed : Placed pending holding registered invoked) {call : ℕ}
    (isHeld : call ∈ holding) :
    Placed pending (holding.erase call) registered (invoked ++ [call]) where
  filed := by
    intro correlationId other found
    rcases placed.filed correlationId other found with ⟨own, known, quiet, free⟩
    refine ⟨own, known, ?_, fun stillHeld => free (List.mem_of_mem_erase stillHeld)⟩
    intro isInvoked
    rcases List.mem_append.mp isInvoked with isInvoked | isCall
    · exact quiet isInvoked
    · rcases List.mem_singleton.mp isCall with rfl
      exact free isHeld
  held := by
    intro other stillHeld
    rcases placed.held other (List.mem_of_mem_erase stillHeld) with ⟨known, quiet⟩
    refine ⟨known, ?_⟩
    intro isInvoked
    rcases List.mem_append.mp isInvoked with isInvoked | isCall
    · exact quiet isInvoked
    · rcases List.mem_singleton.mp isCall with rfl
      exact placed.heldOnce.not_mem_erase stillHeld
  heldOnce := placed.heldOnce.erase call
  fired := by
    intro other isInvoked
    rcases List.mem_append.mp isInvoked with isInvoked | isCall
    · exact placed.fired other isInvoked
    · rcases List.mem_singleton.mp isCall with rfl
      exact (placed.held other isHeld).1
  firedOnce := by
    refine List.Nodup.append placed.firedOnce (List.nodup_singleton call) ?_
    intro other isInvoked isCall
    rcases List.mem_singleton.mp isCall with rfl
    exact (placed.held other isHeld).2 isInvoked

theorem mem_entries {call : ℕ} :
    call ∈ pending.entries.map Sigma.snd ↔
      ∃ correlationId, pending.lookup correlationId = some call := by
  simp only [List.mem_map]
  constructor
  · rintro ⟨⟨correlationId, other⟩, entryMem, rfl⟩
    exact ⟨correlationId, AList.mem_lookup_iff.mpr entryMem⟩
  · rintro ⟨correlationId, found⟩
    exact ⟨⟨correlationId, call⟩, AList.mem_lookup_iff.mp found, rfl⟩

theorem close (placed : Placed pending [] registered invoked) :
    Placed ∅ (pending.entries.map Sigma.snd) registered invoked where
  filed := by
    intro correlationId call found
    cases found
  held := by
    intro call isHeld
    rcases mem_entries.mp isHeld with ⟨correlationId, found⟩
    exact ⟨(placed.filed correlationId call found).2.1, (placed.filed correlationId call found).2.2.1⟩
  heldOnce := by
    refine List.Nodup.map_on ?_ (List.NodupKeys.nodup pending.nodupKeys)
    rintro ⟨correlationId, call⟩ entryMem ⟨otherId, other⟩ otherMem rfl
    have own := (placed.filed correlationId call (AList.mem_lookup_iff.mpr entryMem)).1
    have otherOwn := (placed.filed otherId call (AList.mem_lookup_iff.mpr otherMem)).1
    rw [own, otherOwn]
  fired := placed.fired
  firedOnce := placed.firedOnce

end Placed

theorem Carries.mono {link next : Link} {call : ℕ} {response : Response}
    (carries : link.Carries call response)
    (kept : ∀ payload ∈ link.received, payload ∈ next.received) : next.Carries call response := by
  rcases carries with failed | ⟨payload, payloadMem, carried⟩
  · exact Or.inl failed
  · exact Or.inr ⟨payload, kept payload payloadMem, carried⟩

theorem wellFormed_step {onRequest : ThreadId → Request → Bool} {link next : Link} {label : Label}
    (wellFormed : link.WellFormed) (stepped : step onRequest link label = some next) :
    next.WellFormed := by
  have placed := wellFormed.placed
  cases step_spec stepped with
  | call caller targetThread request idle =>
      refine ⟨?_, ?_, ?_, placed, wellFormed.carried, wellFormed.answering⟩
      · rw [idOf_succ, wellFormed.counted]
      · rw [wellFormed.counted]
        exact wellFormed.numbering.call wellFormed.earlier caller targetThread request
      · exact fun call known => Nat.lt_succ_of_lt (wellFormed.earlier call known)
  | register caller call correlationId targetThread request numbered =>
      rcases wellFormed.numbering.numbered _ _ _ _ _ numbered with ⟨rfl, less, new⟩
      refine ⟨wellFormed.counted, wellFormed.numbering.register numbered, ?_, placed.register new,
        wellFormed.carried, wellFormed.answering⟩
      intro other known
      rcases List.mem_cons.mp known with rfl | known
      · exact less
      · exact wellFormed.earlier other known
  | post caller writer =>
      have moved : ∀ call correlationId targetThread request,
          Caller.idle ≠ .numbered call correlationId targetThread request := by
        intro call correlationId targetThread request equal
        cases equal
      exact ⟨wellFormed.counted, (wellFormed.numbering.settle caller moved).1,
        wellFormed.earlier, placed, wellFormed.carried, wellFormed.answering⟩
  | outward label writer sent outgoing =>
      exact ⟨wellFormed.counted, wellFormed.numbering, wellFormed.earlier, placed,
        wellFormed.carried, wellFormed.answering⟩
  | ignored payload reading sound =>
      refine ⟨wellFormed.counted, wellFormed.numbering, wellFormed.earlier, placed, ?_, ?_⟩
      · intro call response firedMem
        exact (wellFormed.carried call response firedMem).mono fun _ => List.mem_cons_of_mem _
      · intro call body at_
        cases reading.symm.trans at_
  | taken payload reading envelope call decoded kind found =>
      rw [reading] at placed
      have own := (placed.filed _ _ found).1
      refine ⟨wellFormed.counted, wellFormed.numbering, wellFormed.earlier, placed.take found, ?_,
        ?_⟩
      · intro other response firedMem
        exact (wellFormed.carried other response firedMem).mono fun _ => List.mem_cons_of_mem _
      · intro other body at_
        rcases Reader.answering.inj at_ with ⟨rfl, rfl⟩
        exact ⟨payload, List.mem_cons_self, envelope, decoded, kind, own, rfl⟩
  | panicked payload reading panics =>
      rw [reading] at placed
      refine ⟨wellFormed.counted, wellFormed.numbering, wellFormed.earlier, placed, ?_, ?_⟩
      · intro call response firedMem
        exact (wellFormed.carried call response firedMem).mono fun _ => List.mem_cons_of_mem _
      · intro call body at_
        cases at_
  | answered call body response answering decoded =>
      rw [answering] at placed
      refine ⟨wellFormed.counted, wellFormed.numbering, wellFormed.earlier, ?_, ?_, ?_⟩
      · have fired := placed.fire (List.mem_singleton_self call)
        simpa [invoked, Reader.holding] using fired
      · intro other carried firedMem
        rcases List.mem_append.mp firedMem with firedMem | isNew
        · exact wellFormed.carried other carried firedMem
        · rcases Prod.mk.inj (List.mem_singleton.mp isNew) with ⟨rfl, rfl⟩
          rcases wellFormed.answering _ _ answering with
            ⟨payload, payloadMem, envelope, opened, kind, own, rfl⟩
          exact Or.inr ⟨payload, payloadMem, envelope, opened, kind, own, decoded⟩
      · intro other otherBody at_
        cases at_
  | dropped call body message answering undecodable =>
      refine ⟨wellFormed.counted, wellFormed.numbering, wellFormed.earlier,
        placed.drop (List.nil_sublist _), wellFormed.carried, ?_⟩
      intro other otherBody at_
      cases at_
  | close reading =>
      rw [reading] at placed
      refine ⟨wellFormed.counted, wellFormed.numbering, wellFormed.earlier, placed.close,
        wellFormed.carried, ?_⟩
      intro other otherBody at_
      cases at_
  | fail call calls failing callMem =>
      rw [failing] at placed
      refine ⟨wellFormed.counted, wellFormed.numbering, wellFormed.earlier, ?_, ?_, ?_⟩
      · have fired := placed.fire callMem
        simpa [invoked, Reader.holding] using fired
      · intro other carried firedMem
        rcases List.mem_append.mp firedMem with firedMem | isNew
        · exact wellFormed.carried other carried firedMem
        · rcases Prod.mk.inj (List.mem_singleton.mp isNew) with ⟨rfl, rfl⟩
          exact Or.inl rfl
      · intro other otherBody at_
        cases at_
  | exit failed =>
      refine ⟨wellFormed.counted, wellFormed.numbering, wellFormed.earlier,
        placed.drop (List.nil_sublist _), wellFormed.carried, ?_⟩
      intro other otherBody at_
      cases at_

end Link

end Seisin.PeerLink
