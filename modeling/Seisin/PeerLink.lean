import Seisin.Lib.Transition
import Seisin.Protocol.Response
import Mathlib

/-!
# A peer link

One connection to another node, shared by all worker threads of this one.  A call takes a number,
files its callback under it in the table of pending calls and queues an encoded request; the writer
thread sends the queue and the reader thread takes frames off the connection.  A response removes
the callback filed under its number and invokes it; when the connection closes, the reader takes the
whole table and fails every callback in it.

Every lock and atomic operation of the source is a step of its own, so a run is an arbitrary
interleaving of the callers, the writer and the reader.  Callbacks are identified by the calls they
belong to, numbered in the order in which the calls took their correlation ids; `registered`,
`received` and `fired` record which calls were filed, which frames arrived and which callbacks were
invoked with what.
-/

namespace Seisin.PeerLink

open Transition Protocol

/-- How far a thread has got with its call: it has taken a correlation id, or also filed the
callback. -/
inductive Caller where
  | idle
  | numbered (call : ℕ) (correlationId : UInt64) (targetThread : ThreadId) (request : Request)
  | filed (correlationId : UInt64) (targetThread : ThreadId) (request : Request)

/-- The reader thread: between two frames; with a callback it has taken out of the table and the
body it arrived with; failing the callbacks it took when the connection closed; and its two ends. -/
inductive Reader where
  | reading
  | answering (call : ℕ) (body : Bytes)
  | failing (calls : List ℕ)
  | exited
  | panicked
  deriving DecidableEq

structure Link where
  nextCorrelationId : UInt64
  pending : AList (fun _ : UInt64 => ℕ)
  callers : ℕ → Caller
  reader : Reader
  /-- What the writer has still to send; nothing is queued any more once it has exited. -/
  writer : Option (List Bytes)
  sent : List Bytes
  made : ℕ
  registered : List ℕ
  received : List Bytes
  fired : List (ℕ × Response)

inductive Label where
  | call (caller : ℕ) (targetThread : ThreadId) (request : Request)
  | register (caller : ℕ)
  | post (caller : ℕ)
  | respond (correlationId : UInt64) (response : Response)
  | write
  | writeFails
  | frame (payload : Bytes)
  | invoke
  | close
  | fail (call : ℕ)
  | exit

/-- The failure a callback gets when the connection drops. -/
def disconnected : Response := .opError "peer link disconnected"

namespace Link

def new : Link where
  nextCorrelationId := 0
  pending := ∅
  callers := fun _ => .idle
  reader := .reading
  writer := some []
  sent := []
  made := 0
  registered := []
  received := []
  fired := []

/-- Queues an envelope for the writer; a send to an exited writer is ignored. -/
def queue (link : Link) (envelope : Envelope) : Link :=
  { link with writer := link.writer.map (· ++ [encodeEnvelope envelope]) }

/-- What the reader makes of a frame.  `onRequest` is the callback the link was spawned with; it
answers `false` where the source's panics, which ends the reader. -/
def onFrame (onRequest : ThreadId → Request → Bool) (link : Link) (payload : Bytes) : Link :=
  match decodeEnvelope payload with
  | .error _ => link
  | .ok envelope =>
      match envelope.kind with
      | .response =>
          match link.pending.lookup envelope.correlationId with
          | none => link
          | some call =>
              { link with
                pending := link.pending.erase envelope.correlationId
                reader := .answering call envelope.body }
      | .request =>
          match decodeRequest envelope.body with
          | .error _ => link
          | .ok request =>
              if onRequest envelope.targetThread request then link
              else { link with reader := .panicked }

/-- Invokes a callback with the response in `body`; without one it is dropped. -/
def onAnswer (link : Link) (call : ℕ) (body : Bytes) : Link :=
  match decodeResponse body with
  | .ok response => { link with fired := link.fired ++ [(call, response)], reader := .reading }
  | .error _ => { link with reader := .reading }

def step (onRequest : ThreadId → Request → Bool) (link : Link) : Label → Option Link
  | .call caller targetThread request =>
      match link.callers caller with
      | .idle => some
          { link with
            nextCorrelationId := link.nextCorrelationId + 1
            made := link.made + 1
            callers := Function.update link.callers caller
              (.numbered link.made link.nextCorrelationId targetThread request) }
      | _ => none
  | .register caller =>
      match link.callers caller with
      | .numbered call correlationId targetThread request => some
          { link with
            pending := link.pending.insert correlationId call
            registered := call :: link.registered
            callers := Function.update link.callers caller
              (.filed correlationId targetThread request) }
      | _ => none
  | .post caller =>
      match link.callers caller with
      | .filed correlationId targetThread request => some
          ({ link with callers := Function.update link.callers caller .idle }.queue
            ⟨correlationId, .request, targetThread, encodeRequest request⟩)
      | _ => none
  | .respond correlationId response =>
      some (link.queue ⟨correlationId, .response, 0, encodeResponse response⟩)
  | .write =>
      match link.writer with
      | some (envelope :: rest) =>
          some { link with writer := some rest, sent := link.sent ++ [envelope] }
      | _ => none
  | .writeFails =>
      match link.writer with
      | some (_ :: _) => some { link with writer := none }
      | _ => none
  | .frame payload =>
      match link.reader with
      | .reading => some
          ({ link with received := payload :: link.received }.onFrame onRequest payload)
      | _ => none
  | .invoke =>
      match link.reader with
      | .answering call body => some (link.onAnswer call body)
      | _ => none
  | .close =>
      match link.reader with
      | .reading => some
          { link with
            pending := ∅
            reader := .failing (link.pending.entries.map Sigma.snd) }
      | _ => none
  | .fail call =>
      match link.reader with
      | .failing calls =>
          if call ∈ calls then some
            { link with
              fired := link.fired ++ [(call, disconnected)]
              reader := .failing (calls.erase call) }
          else none
      | _ => none
  | .exit =>
      match link.reader with
      | .failing [] => some { link with reader := .exited }
      | _ => none

/-- The callback the worker pool spawns its links with, as far as it returns: requests between nodes
are dispatched to the thread they name, which panics if there is no such thread, and all others are
ignored. -/
def poolOnRequest (threadCount : ℕ) (targetThread : ThreadId) : Request → Bool
  | .acquire .. | .recall .. | .release .. | .existsCheck .. | .indexUpdate .. =>
      targetThread < threadCount
  | _ => true

/-- A link starts with an empty table, an open connection and idle callers. -/
def system (onRequest : ThreadId → Request → Bool) : System Link Label where
  init := fun link => link = new
  step := step onRequest

/-! ## What a step does -/

/-- The frame is a request that the link's callback panics on. -/
def Panics (onRequest : ThreadId → Request → Bool) (payload : Bytes) : Prop :=
  ∃ envelope request, decodeEnvelope payload = .ok envelope ∧ envelope.kind = .request ∧
    decodeRequest envelope.body = .ok request ∧ onRequest envelope.targetThread request = false

/-- The steps of a link, with the part of the state each of them changes. -/
inductive StepSpec (onRequest : ThreadId → Request → Bool) (link : Link) : Label → Link → Prop where
  | call (caller : ℕ) (targetThread : ThreadId) (request : Request)
      (idle : link.callers caller = .idle) :
      StepSpec onRequest link (.call caller targetThread request)
        { link with
          nextCorrelationId := link.nextCorrelationId + 1
          made := link.made + 1
          callers := Function.update link.callers caller
            (.numbered link.made link.nextCorrelationId targetThread request) }
  | register (caller call : ℕ) (correlationId : UInt64) (targetThread : ThreadId)
      (request : Request)
      (numbered : link.callers caller = .numbered call correlationId targetThread request) :
      StepSpec onRequest link (.register caller)
        { link with
          pending := link.pending.insert correlationId call
          registered := call :: link.registered
          callers := Function.update link.callers caller
            (.filed correlationId targetThread request) }
  | post (caller : ℕ) (writer : Option (List Bytes)) :
      StepSpec onRequest link (.post caller)
        { link with callers := Function.update link.callers caller .idle, writer := writer }
  | outward (label : Label) (writer : Option (List Bytes)) (sent : List Bytes)
      (outgoing : (∃ correlationId response, label = .respond correlationId response) ∨
        label = .write ∨ label = .writeFails) :
      StepSpec onRequest link label { link with writer := writer, sent := sent }
  | ignored (payload : Bytes) (reading : link.reader = .reading)
      (sound : ¬Panics onRequest payload) :
      StepSpec onRequest link (.frame payload) { link with received := payload :: link.received }
  | taken (payload : Bytes) (reading : link.reader = .reading) (envelope : Envelope) (call : ℕ)
      (decoded : decodeEnvelope payload = .ok envelope) (kind : envelope.kind = .response)
      (found : link.pending.lookup envelope.correlationId = some call) :
      StepSpec onRequest link (.frame payload)
        { link with
          received := payload :: link.received
          pending := link.pending.erase envelope.correlationId
          reader := .answering call envelope.body }
  | panicked (payload : Bytes) (reading : link.reader = .reading)
      (panics : Panics onRequest payload) :
      StepSpec onRequest link (.frame payload)
        { link with received := payload :: link.received, reader := .panicked }
  | answered (call : ℕ) (body : Bytes) (response : Response)
      (answering : link.reader = .answering call body)
      (decoded : decodeResponse body = .ok response) :
      StepSpec onRequest link .invoke
        { link with fired := link.fired ++ [(call, response)], reader := .reading }
  | dropped (call : ℕ) (body : Bytes) (message : String)
      (answering : link.reader = .answering call body)
      (undecodable : decodeResponse body = .error message) :
      StepSpec onRequest link .invoke { link with reader := .reading }
  | close (reading : link.reader = .reading) :
      StepSpec onRequest link .close
        { link with pending := ∅, reader := .failing (link.pending.entries.map Sigma.snd) }
  | fail (call : ℕ) (calls : List ℕ) (failing : link.reader = .failing calls)
      (callMem : call ∈ calls) :
      StepSpec onRequest link (.fail call)
        { link with
          fired := link.fired ++ [(call, disconnected)]
          reader := .failing (calls.erase call) }
  | exit (failed : link.reader = .failing []) :
      StepSpec onRequest link .exit { link with reader := .exited }

theorem onFrame_spec (onRequest : ThreadId → Request → Bool) (link : Link) (payload : Bytes)
    (reading : link.reader = .reading) :
    StepSpec onRequest link (.frame payload)
      ({ link with received := payload :: link.received }.onFrame onRequest payload) := by
  unfold onFrame
  cases decoded : decodeEnvelope payload with
  | error message =>
      refine .ignored payload reading ?_
      rintro ⟨envelope, request, ok, -⟩
      rw [decoded] at ok
      cases ok
  | ok envelope =>
      dsimp only
      have unique : ∀ other, decodeEnvelope payload = .ok other → other = envelope := by
        intro other ok
        rw [decoded] at ok
        exact (Except.ok.inj ok).symm
      cases kind : envelope.kind with
      | response =>
          dsimp only
          cases found : link.pending.lookup envelope.correlationId with
          | none =>
              refine .ignored payload reading ?_
              rintro ⟨other, request, ok, isRequest, -⟩
              rw [unique other ok, kind] at isRequest
              cases isRequest
          | some call => exact .taken payload reading envelope call decoded kind found
      | request =>
          dsimp only
          cases asked : decodeRequest envelope.body with
          | error message =>
              refine .ignored payload reading ?_
              rintro ⟨other, request, ok, -, readable, -⟩
              rw [unique other ok, asked] at readable
              cases readable
          | ok request =>
              dsimp only
              split
              · rename_i returns
                refine .ignored payload reading ?_
                rintro ⟨other, otherRequest, ok, -, readable, panics⟩
                rw [unique other ok, asked] at readable
                rw [unique other ok, ← Except.ok.inj readable, returns] at panics
                cases panics
              · rename_i panics
                exact .panicked payload reading
                  ⟨envelope, request, decoded, kind, asked, Bool.eq_false_iff.mpr panics⟩

theorem step_spec {onRequest : ThreadId → Request → Bool} {link next : Link} {label : Label}
    (stepped : step onRequest link label = some next) : StepSpec onRequest link label next := by
  cases label with
  | call caller targetThread request =>
      simp only [step] at stepped
      split at stepped
      · rename_i idle
        cases stepped
        exact .call caller targetThread request idle
      · cases stepped
  | register caller =>
      simp only [step] at stepped
      split at stepped
      · rename_i call correlationId targetThread request numbered
        cases stepped
        exact .register caller call correlationId targetThread request numbered
      · cases stepped
  | post caller =>
      simp only [step] at stepped
      split at stepped
      · cases stepped
        exact .post caller _
      · cases stepped
  | respond correlationId response =>
      cases stepped
      exact .outward _ _ _ (Or.inl ⟨correlationId, response, rfl⟩)
  | write =>
      simp only [step] at stepped
      split at stepped
      · cases stepped
        exact .outward _ _ _ (Or.inr (Or.inl rfl))
      · cases stepped
  | writeFails =>
      simp only [step] at stepped
      split at stepped
      · cases stepped
        exact .outward _ _ _ (Or.inr (Or.inr rfl))
      · cases stepped
  | frame payload =>
      simp only [step] at stepped
      split at stepped
      · rename_i reading
        cases stepped
        exact onFrame_spec onRequest link payload reading
      · cases stepped
  | invoke =>
      simp only [step] at stepped
      split at stepped
      · rename_i call body answering
        cases stepped
        unfold onAnswer
        split
        · rename_i response decoded
          exact .answered call body response answering decoded
        · rename_i message undecodable
          exact .dropped call body message answering undecodable
      · cases stepped
  | close =>
      simp only [step] at stepped
      split at stepped
      · rename_i reading
        cases stepped
        exact .close reading
      · cases stepped
  | fail call =>
      simp only [step] at stepped
      split at stepped
      · rename_i calls failing
        split at stepped
        · rename_i callMem
          cases stepped
          exact .fail call calls failing callMem
        · cases stepped
      · cases stepped
  | exit =>
      simp only [step] at stepped
      split at stepped
      · rename_i failed
        cases stepped
        exact .exit failed
      · cases stepped

end Link

end Seisin.PeerLink
