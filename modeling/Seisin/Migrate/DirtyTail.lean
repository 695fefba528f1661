import Seisin.Lib.Service
import Seisin.Migrate.Tracking
import Seisin.Protocol.Framing

/-!
# The copy and the dirty tail of a transfer

One transfer from one log to another, while the source serves writes.  The copy thread reads a datum
and sends it in two steps, with any number of writes in between.  A write changes the log and marks
the datum under one lock.  Datums that were never marked stand at the source as they were copied;
those that were are sent again when the transfer is finished.  The destination takes no writes but
those of the transfer meanwhile, of other datums neither.
-/

namespace Seisin

open Transition Protocol

namespace DatumLog

/-- The value of a datum and its stored factor; an unreadable one counts as absent. -/
def readValue (log : DatumLog) (id : DatumId) : Option (Bytes × ℕ) :=
  match log.get id with
  | .ok (some bytes) => some (bytes, (log.nOf id).getD 1)
  | _ => none

def Readable (log : DatumLog) (id : DatumId) : Prop := ∃ bytes, log.get id = .ok bytes

/-- Takes in a state of a datum, by a put or, where it is absent, by a delete. -/
def take (log : DatumLog) (id : DatumId) : Option (Bytes × ℕ) → DatumLog
  | some (bytes, n) => log.putFull id bytes n
  | none => log.delete id

end DatumLog

/-- A put of the value fits a frame: the version, the tag, the id, the factor and the value. -/
def Framed (payload : Bytes × ℕ) : Prop := 1 + 1 + 16 + 2 + payload.1.length ≤ maxFrameLen

/-- The two logs of a transfer, its state at the source, and its copy thread. -/
structure CopyRun where
  source : DatumLog
  dest : DatumLog
  transfer : TransferState
  task : CopyTask
  finished : Bool

inductive CopyLabel where
  | serve (request : StoreRequest Bytes Delta)
  | copyRead
  | copySend
  | copyDone
  | finish

namespace CopyRun

/-- The source serves a request; a write that is acknowledged is noted. -/
def serve (run : CopyRun) (request : StoreRequest Bytes Delta) : CopyRun :=
  match logTier.serve run.source request with
  | (written, some .ack) =>
      { run with source := written, transfer := run.transfer.noteWrite request.target }
  | (left, _) => { run with source := left }

/-- The calls of the copy thread. -/
def ports : CopyPorts CopyRun where
  readValue run id := run.source.readValue id
  send run id payload := { run with dest := run.dest.take id (some payload) }
  bumpCopied run := { run with transfer := { run.transfer with copied := run.transfer.copied + 1 } }
  markDone run := { run with transfer := { run.transfer with done := true } }

def copyRead (run : CopyRun) : Option CopyRun :=
  (run.task.copyRead ports run).map fun (task, left) => { left with task := task }

def copySend (run : CopyRun) : Option CopyRun :=
  (run.task.copySend ports run).map fun (task, left) => { left with task := task }

def copyDone (run : CopyRun) : Option CopyRun := run.task.copyDone ports run

/-- Sends the dirty datums once more. -/
def finish (run : CopyRun) : CopyRun :=
  { run with
    dest := run.transfer.dirty.foldl (fun dest id => dest.take id (run.source.readValue id)) run.dest
    transfer := { run.transfer with dirty := [] }
    finished := true }

def step (run : CopyRun) : CopyLabel → Option CopyRun
  | .serve request => some (run.serve request)
  | .copyRead => run.copyRead
  | .copySend => run.copySend
  | .copyDone => run.copyDone
  | .finish => some run.finish

/-- A transfer just started; the destination has none of its datums. -/
structure Starts (run : CopyRun) : Prop where
  sourceClosed : run.source.Closed
  destClosed : run.dest.Closed
  absent : ∀ id ∈ run.transfer.ids, run.dest.index.lookup id = none
  remaining : ∀ id, id ∈ run.task.remaining ↔ id ∈ run.transfer.ids
  sending : run.task.sending = none
  done : run.transfer.done = false
  finished : run.finished = false

def system : System CopyRun CopyLabel where
  init := Starts
  step := step

/-- Log reads and the calls of the destination succeed, the copy is done before the transfer is
finished, and the source is written no more from then on. -/
def Smooth (run : CopyRun) : CopyLabel → Prop
  | .serve _ => run.finished = false
  | .copyRead => ∀ id ∈ run.task.remaining.head?, run.source.Readable id
  | .copySend => ∀ entry ∈ run.task.sending, Framed entry.2
  | .copyDone => True
  | .finish => run.transfer.done = true ∧
      ∀ id ∈ run.transfer.dirty, run.source.Readable id ∧
        ∀ payload ∈ run.source.readValue id, Framed payload

end CopyRun

/-! ## What a log shows of a datum -/

namespace DatumLog

/-- Reading a datum gives a state: a value with its factor, or absence. -/
structure Shows (log : DatumLog) (id : DatumId) (state : Option (Bytes × ℕ)) : Prop where
  get : log.get id = .ok (state.map Prod.fst)
  nOf : log.nOf id = state.map Prod.snd

variable {log next : DatumLog} {id other : DatumId} {state : Option (Bytes × ℕ)}

theorem Holds.shows (held : log.Holds id state) : log.Shows id state := ⟨held.get, held.nOf⟩

theorem shows_absent (absent : log.index.lookup id = none) : log.Shows id none :=
  ⟨by simp [DatumLog.get, absent], by simp [DatumLog.nOf, absent]⟩

/-- A datum that can be read shows what is read. -/
theorem Readable.shows (readable : log.Readable id) : log.Shows id (log.readValue id) := by
  rcases readable with ⟨bytes, read⟩
  unfold readValue
  rw [read]
  cases bytes with
  | none =>
      refine ⟨read, ?_⟩
      cases found : log.index.lookup id with
      | none => simp [DatumLog.nOf, found]
      | some ref =>
          unfold DatumLog.get at read
          rw [found] at read
          simp only at read
          split at read <;> cases read
  | some bytes =>
      refine ⟨read, ?_⟩
      cases found : log.index.lookup id with
      | none =>
          unfold DatumLog.get at read
          rw [found] at read
          cases read
      | some ref => simp [DatumLog.nOf, found]

/-- A record appended for one datum changes nothing that is shown of another. -/
theorem Shows.frame (shows_ : log.Shows other state) (closed : log.Closed) {kind : RecordKind}
    {n : ℕ} {body : Bytes} (file : next.file = (log.append kind id n body).2.file)
    (ends : next.endOffset = (log.append kind id n body).2.endOffset)
    (index : next.index.lookup other = log.index.lookup other) : next.Shows other state := by
  have get := shows_.get
  have nOf := shows_.nOf
  refine ⟨?_, by rw [← nOf, DatumLog.nOf, DatumLog.nOf, index]⟩
  unfold DatumLog.get at get ⊢
  rw [index]
  cases found : log.index.lookup other with
  | none => simpa only [found] using get
  | some ref =>
      simp only [found] at get ⊢
      cases read : materialize log.file log.endOffset ref with
      | error message => simp [read] at get
      | ok value =>
          rw [file, append_file closed, ends, materialize_append_file (le_of_eq closed.symm) _
            (append_le log kind id n body) read]
          simpa only [read] using get

theorem Shows.take_other (shows_ : log.Shows other state) (closed : log.Closed)
    (differ : other ≠ id) (taken : Option (Bytes × ℕ)) : (log.take id taken).Shows other state := by
  cases taken with
  | none => exact shows_.frame closed rfl rfl (AList.lookup_erase_ne differ)
  | some payload => exact shows_.frame closed rfl rfl (AList.lookup_insert_ne differ)

theorem Closed.take (closed : log.Closed) (id : DatumId) (taken : Option (Bytes × ℕ)) :
    (log.take id taken).Closed := by
  cases taken with
  | none => exact closed.append .tombstone id 0 []
  | some payload => exact closed.append .full id payload.2 payload.1

theorem shows_take (closed : log.Closed) (id : DatumId) {taken : Option (Bytes × ℕ)}
    (framed : ∀ payload ∈ taken, Framed payload) : (log.take id taken).Shows id taken := by
  cases taken with
  | none => exact (Holds.delete log id).shows
  | some payload =>
      have fits : Fits payload.1 := by
        have short := framed payload rfl
        unfold Framed maxFrameLen at short
        unfold Fits
        omega
      exact (Holds.putFull closed id fits payload.2).shows

/-- Sending several datums brings each of them to the destination and leaves the others. -/
theorem shows_takeAll {states : DatumId → Option (Bytes × ℕ)} {ids : List DatumId}
    (framed : ∀ id ∈ ids, ∀ payload ∈ states id, Framed payload) (closed : log.Closed) :
    (ids.foldl (fun log id => log.take id (states id)) log).Closed ∧
      (∀ id ∈ ids, (ids.foldl (fun log id => log.take id (states id)) log).Shows id (states id)) ∧
      ∀ other state, other ∉ ids → log.Shows other state →
        (ids.foldl (fun log id => log.take id (states id)) log).Shows other state := by
  induction ids generalizing log with
  | nil => exact ⟨closed, nofun, fun other state _ shown => shown⟩
  | cons id ids ih =>
      rcases ih (fun later laterMem => framed later (List.mem_cons_of_mem _ laterMem))
        (closed.take id (states id)) with ⟨closedAll, sent, kept⟩
      refine ⟨closedAll, ?_, ?_⟩
      · intro sentId sentMem
        by_cases again : sentId ∈ ids
        · exact sent sentId again
        · have here : sentId = id := by
            rcases List.mem_cons.mp sentMem with here | later
            · exact here
            · exact absurd later again
          subst here
          exact kept sentId _ again (shows_take closed sentId (framed sentId List.mem_cons_self))
      · intro other state notSent shown
        rw [List.mem_cons, not_or] at notSent
        exact kept other state notSent.2 (shown.take_other closed notSent.1 _)

/-- A delta for one datum changes nothing that is shown of another. -/
theorem Shows.putDelta_other (shows_ : log.Shows other state) (closed : log.Closed)
    (differ : other ≠ id) {delta : Delta} {n : ℕ} {outcome : PatchOutcome}
    (patched : log.putDelta id delta n = .ok (outcome, next)) : next.Shows other state := by
  rcases putDelta_cases patched with ⟨_, rfl⟩ | ⟨value, rfl⟩ | ⟨ref, rfl⟩
  · exact shows_
  · exact shows_.take_other closed differ (some (value, n))
  · exact shows_.frame closed rfl rfl (AList.lookup_insert_ne differ)

/-- A delta that needs the full value leaves the log as it is. -/
theorem putDelta_needFull {delta : Delta} {n : ℕ}
    (patched : log.putDelta id delta n = .ok (.needFull, next)) : next = log := by
  unfold DatumLog.putDelta at patched
  cases found : log.index.lookup id with
  | none =>
      simp only [found, Except.ok.injEq, Prod.mk.injEq, true_and] at patched
      exact patched.symm
  | some ref =>
      simp only [found] at patched
      split at patched
      · cases read : materialize log.file log.endOffset ref with
        | error message => simp [read] at patched
        | ok current =>
            simp only [read] at patched
            cases spliced : delta.apply current with
            | error message => simp [spliced] at patched
            | ok newValue => simp [spliced] at patched
      · simp at patched

/-- A request leaves the log alone, or it is acknowledged and changes what is shown of its own datum
at most. -/
theorem serve_cases (closed : log.Closed) (request : StoreRequest Bytes Delta) :
    ((logTier.serve log request).1 = log ∧ (logTier.serve log request).2 ≠ some .ack) ∨
      ((logTier.serve log request).2 = some .ack ∧ (logTier.serve log request).1.Closed ∧
        ∀ other state, other ≠ request.target → log.Shows other state →
          (logTier.serve log request).1.Shows other state) := by
  cases request with
  | put id bytes n =>
      exact Or.inr ⟨rfl, closed.take id (some (bytes, n)),
        fun other state differ shown => shown.take_other closed differ (some (bytes, n))⟩
  | delete id =>
      exact Or.inr ⟨rfl, closed.take id none,
        fun other state differ shown => shown.take_other closed differ none⟩
  | get id =>
      left
      simp only [Tier.serve]
      split
      · exact ⟨rfl, by simp⟩
      · exact ⟨rfl, by simp⟩
  | patch id delta n =>
      simp only [Tier.serve]
      rcases patched : logTier.putDelta log id delta n with message | ⟨outcome, patchedLog⟩
      · exact Or.inl ⟨rfl, by simp⟩
      · cases outcome with
        | applied =>
            exact Or.inr ⟨rfl, closed.putDelta patched,
              fun other state differ shown => shown.putDelta_other closed differ patched⟩
        | needFull => exact Or.inl ⟨putDelta_needFull patched, by simp⟩

end DatumLog

/-! ## What the transfer keeps -/

namespace CopyRun

variable {run next : CopyRun}

/-- A datum that is not dirty: it has still to be read and the destination has none of it, or it is
on its way, or both logs show the same. -/
inductive Copied (run : CopyRun) (id : DatumId) : Prop where
  | unread (waits : id ∈ run.task.remaining) (absent : run.dest.Shows id none)
  | underway (payload : Bytes × ℕ) (sending : run.task.sending = some (id, payload))
  | same (state : Option (Bytes × ℕ)) (atSource : run.source.Shows id state)
      (atDest : run.dest.Shows id state)

/-- Every datum of the transfer is dirty or copied, what is sent is as the source has it unless it
is dirty, and a finished transfer has no dirty ones. -/
structure Tracked (run : CopyRun) : Prop where
  sourceClosed : run.source.Closed
  destClosed : run.dest.Closed
  copied : ∀ id ∈ run.transfer.ids, id ∈ run.transfer.dirty ∨ run.Copied id
  remaining : ∀ id ∈ run.task.remaining, id ∈ run.transfer.ids
  sending : ∀ id payload, run.task.sending = some (id, payload) → id ∈ run.transfer.ids ∧
    (id ∈ run.transfer.dirty ∨ run.source.Shows id (some payload))
  done : run.transfer.done = true → run.task.remaining = [] ∧ run.task.sending = none
  finished : run.finished = true → run.transfer.done = true ∧ run.transfer.dirty = []

theorem Starts.tracked (starts : run.Starts) : run.Tracked where
  sourceClosed := starts.sourceClosed
  destClosed := starts.destClosed
  copied := by
    intro id isPart
    right
    exact .unread ((starts.remaining id).mpr isPart)
      (DatumLog.shows_absent (starts.absent id isPart))
  remaining := fun id => (starts.remaining id).mp
  sending := by
    rw [starts.sending]
    nofun
  done := by
    rw [starts.done]
    nofun
  finished := by
    rw [starts.finished]
    nofun

/-- A write of another datum. -/
theorem Copied.serve {id : DatumId} (copied : run.Copied id)
    (kept : ∀ state, run.source.Shows id state → next.source.Shows id state)
    (dest : next.dest = run.dest) (remaining : next.task.remaining = run.task.remaining)
    (sending : next.task.sending = run.task.sending) : next.Copied id := by
  cases copied with
  | unread waits absent => exact .unread (remaining ▸ waits) (dest ▸ absent)
  | underway payload isSending => exact .underway payload (sending.trans isSending)
  | same state atSource atDest => exact .same state (kept _ atSource) (dest ▸ atDest)

theorem Tracked.serve (tracked : run.Tracked) (request : StoreRequest Bytes Delta)
    (writable : run.finished = false) : (run.serve request).Tracked := by
  rcases DatumLog.serve_cases tracked.sourceClosed request with ⟨unchanged, refused⟩ | written
  · have same : run.serve request = run := by
      unfold CopyRun.serve
      split
      · rename_i written answered
        exact absurd (congrArg Prod.snd answered) refused
      · rename_i left answer _ answered
        rw [answered] at unchanged
        simp only at unchanged
        rw [unchanged]
    rw [same]
    exact tracked
  · rcases written with ⟨acked, closed, kept⟩
    have served : run.serve request = { run with
        source := (logTier.serve run.source request).1
        transfer := run.transfer.noteWrite request.target } := by
      unfold CopyRun.serve
      split
      · rename_i written answered
        rw [answered]
      · rename_i left answer notAck answered
        rw [answered] at acked
        exact absurd acked notAck
    rw [served]
    have grows := run.transfer.grows_noteWrite request.target
    refine ⟨closed, tracked.destClosed, ?_, ?_, ?_, ?_, ?_⟩
    · intro id isPart
      have wasPart : id ∈ run.transfer.ids := grows.ids ▸ isPart
      rcases eq_or_ne id request.target with rfl | differ
      · exact Or.inl (TransferState.mem_noteWrite wasPart)
      · rcases tracked.copied id wasPart with dirty | copied
        · exact Or.inl (grows.dirty id dirty)
        · exact Or.inr (copied.serve (fun state => kept id state differ) rfl rfl rfl)
    · intro id waits
      exact grows.ids ▸ tracked.remaining id waits
    · intro id payload isSending
      rcases tracked.sending id payload isSending with ⟨isPart, rightly⟩
      refine ⟨grows.ids ▸ isPart, ?_⟩
      rcases eq_or_ne id request.target with rfl | differ
      · exact Or.inl (TransferState.mem_noteWrite isPart)
      · exact rightly.imp (grows.dirty id) (kept id _ differ)
    · intro isDone
      rw [TransferState.done_noteWrite] at isDone
      exact tracked.done isDone
    · intro ended
      rw [writable] at ended
      cases ended

theorem Tracked.copyRead (tracked : run.Tracked)
    (readable : ∀ id ∈ run.task.remaining.head?, run.source.Readable id)
    (stepped : run.copyRead = some next) : next.Tracked := by
  rcases Option.map_eq_some_iff.mp stepped with ⟨⟨task, left⟩, advanced, rfl⟩
  rcases CopyTask.copyRead_cases advanced with ⟨read, rest, idle, waiting, outcome⟩
  have undone : run.transfer.done ≠ true := by
    intro isDone
    rw [(tracked.done isDone).1] at waiting
    cases waiting
  have shown := (readable read (by rw [waiting]; rfl)).shows
  have readPart : read ∈ run.transfer.ids :=
    tracked.remaining read (by rw [waiting]; exact List.mem_cons_self)
  have others : ∀ id ∈ rest, id ∈ run.transfer.ids := by
    intro id later
    exact tracked.remaining id (by rw [waiting]; exact List.mem_cons_of_mem _ later)
  rcases outcome with ⟨payload, found, rfl, rfl⟩ | ⟨found, rfl, rfl⟩
  · change left.source.readValue read = some payload at found
    rw [found] at shown
    refine ⟨tracked.sourceClosed, tracked.destClosed, ?_, others, ?_,
      fun isDone => absurd isDone undone, tracked.finished⟩
    · intro id isPart
      rcases tracked.copied id isPart with dirty | copied
      · exact Or.inl dirty
      · right
        cases copied with
        | unread waits absent =>
            rw [waiting] at waits
            rcases List.mem_cons.mp waits with rfl | later
            · exact .underway payload rfl
            · exact .unread later absent
        | underway other isSending =>
            rw [idle] at isSending
            cases isSending
        | same state atSource atDest => exact .same state atSource atDest
    · rintro _ _ ⟨⟩
      exact ⟨readPart, Or.inr shown⟩
  · change run.source.readValue read = none at found
    rw [found] at shown
    refine ⟨tracked.sourceClosed, tracked.destClosed, ?_, others, nofun,
      fun isDone => absurd isDone undone, tracked.finished⟩
    intro id isPart
    rcases tracked.copied id isPart with dirty | copied
    · exact Or.inl dirty
    · right
      cases copied with
      | unread waits absent =>
          rw [waiting] at waits
          rcases List.mem_cons.mp waits with rfl | later
          · exact .same none shown absent
          · exact .unread later absent
      | underway other isSending =>
          rw [idle] at isSending
          cases isSending
      | same state atSource atDest => exact .same state atSource atDest

theorem Tracked.copySend (tracked : run.Tracked)
    (framed : ∀ entry ∈ run.task.sending, Framed entry.2)
    (stepped : run.copySend = some next) : next.Tracked := by
  rcases Option.map_eq_some_iff.mp stepped with ⟨⟨task, left⟩, advanced, rfl⟩
  rcases CopyTask.copySend_cases advanced with ⟨sent, payload, isSending, rfl, rfl⟩
  have undone : run.transfer.done ≠ true := by
    intro isDone
    rw [(tracked.done isDone).2] at isSending
    cases isSending
  refine ⟨tracked.sourceClosed, tracked.destClosed.take sent (some payload), ?_,
    tracked.remaining, nofun, fun isDone => absurd isDone undone, tracked.finished⟩
  have arrived : (run.dest.take sent (some payload)).Shows sent (some payload) := by
    apply DatumLog.shows_take tracked.destClosed
    rintro _ ⟨⟩
    exact framed _ isSending
  intro id isPart
  rcases eq_or_ne id sent with rfl | differ
  · rcases (tracked.sending id payload isSending).2 with dirty | shown
    · exact Or.inl dirty
    · exact Or.inr (.same (some payload) shown arrived)
  · rcases tracked.copied id isPart with dirty | copied
    · exact Or.inl dirty
    · right
      cases copied with
      | unread waits absent =>
          exact .unread waits (absent.take_other tracked.destClosed differ (some payload))
      | underway other otherSending =>
          rw [isSending] at otherSending
          cases otherSending
          exact absurd rfl differ
      | same state atSource atDest =>
          exact .same state atSource
            (atDest.take_other tracked.destClosed differ (some payload))

theorem Tracked.copyDone (tracked : run.Tracked) (stepped : run.copyDone = some next) :
    next.Tracked := by
  rcases CopyTask.copyDone_cases stepped with ⟨idle, allRead, rfl⟩
  refine ⟨tracked.sourceClosed, tracked.destClosed, ?_, tracked.remaining, tracked.sending, ?_, ?_⟩
  · intro id isPart
    rcases tracked.copied id isPart with dirty | copied
    · exact Or.inl dirty
    · exact Or.inr (copied.serve (fun _ shown => shown) rfl rfl rfl)
  · exact fun _ => ⟨allRead, idle⟩
  · exact fun ended => ⟨rfl, (tracked.finished ended).2⟩

theorem Tracked.finish (tracked : run.Tracked) (done : run.transfer.done = true)
    (readable : ∀ id ∈ run.transfer.dirty, run.source.Readable id ∧
      ∀ payload ∈ run.source.readValue id, Framed payload) : run.finish.Tracked := by
  rcases DatumLog.shows_takeAll (fun id isDirty => (readable id isDirty).2) tracked.destClosed with
    ⟨closed, sent, kept⟩
  rcases tracked.done done with ⟨allRead, idle⟩
  refine ⟨tracked.sourceClosed, closed, ?_, tracked.remaining, ?_, fun _ => ⟨allRead, idle⟩,
    fun _ => ⟨done, rfl⟩⟩
  · intro id isPart
    right
    by_cases isDirty : id ∈ run.transfer.dirty
    · exact .same _ (readable id isDirty).1.shows (sent id isDirty)
    · rcases tracked.copied id isPart with dirty | copied
      · exact absurd dirty isDirty
      · cases copied with
        | unread waits absent =>
            rw [allRead] at waits
            cases waits
        | underway payload isSending =>
            rw [idle] at isSending
            cases isSending
        | same state atSource atDest => exact .same state atSource (kept id state isDirty atDest)
  · intro id payload isSending
    change run.task.sending = _ at isSending
    rw [idle] at isSending
    cases isSending

theorem Tracked.step (tracked : run.Tracked) {label : CopyLabel} (smooth : run.Smooth label)
    (stepped : run.step label = some next) : next.Tracked := by
  cases label with
  | serve request =>
      cases stepped
      exact tracked.serve request smooth
  | copyRead => exact tracked.copyRead smooth stepped
  | copySend => exact tracked.copySend smooth stepped
  | copyDone => exact tracked.copyDone stepped
  | finish =>
      cases stepped
      exact tracked.finish smooth.1 smooth.2

/-- Once the transfer is finished the destination shows every datum of it as the source does. -/
theorem dest_eq_source (reached : system.ReachableVia Smooth run) (finished : run.finished = true) :
    ∀ id ∈ run.transfer.ids, ∃ state, run.source.Shows id state ∧ run.dest.Shows id state := by
  have tracked : run.Tracked := by
    refine System.ReachableVia.induction ?_ ?_ reached
    · exact fun state starts => starts.tracked
    · exact fun state label next holds smooth stepped => holds.step smooth stepped
  rcases tracked.finished finished with ⟨done, nothingDirty⟩
  rcases tracked.done done with ⟨allRead, idle⟩
  intro id isPart
  rcases tracked.copied id isPart with dirty | copied
  · rw [nothingDirty] at dirty
    cases dirty
  · cases copied with
    | unread waits absent =>
        rw [allRead] at waits
        cases waits
    | underway payload isSending =>
        rw [idle] at isSending
        cases isSending
    | same state atSource atDest => exact ⟨state, atSource, atDest⟩

/-- `Smooth` as a check. -/
def smooth (run : CopyRun) : CopyLabel → Bool
  | .serve _ => !run.finished
  | .copyRead => run.task.remaining.head?.all fun id => (run.source.get id).isOk
  | .copySend => run.task.sending.all fun entry => entry.2.1.length ≤ maxFrameLen - 20
  | .copyDone => true
  | .finish => run.transfer.done && run.transfer.dirty.all fun id =>
      (run.source.get id).isOk &&
        (run.source.readValue id).all fun payload => payload.1.length ≤ maxFrameLen - 20

theorem readable_of_isOk {log : DatumLog} {id : DatumId} (isOk : (log.get id).isOk = true) :
    log.Readable id := by
  unfold DatumLog.Readable
  cases read : log.get id with
  | error message =>
      rw [read] at isOk
      cases isOk
  | ok bytes => exact ⟨bytes, rfl⟩

theorem framed_of_length_le {payload : Bytes × ℕ} (short : payload.1.length ≤ maxFrameLen - 20) :
    Framed payload := by
  unfold Framed maxFrameLen at *
  omega

theorem smooth_sound (run : CopyRun) (label : CopyLabel) (checked : run.smooth label = true) :
    run.Smooth label := by
  cases label with
  | serve request => simpa [smooth, Smooth] using checked
  | copyRead =>
      intro id isHead
      simp only [smooth, Option.all_eq_true] at checked
      exact readable_of_isOk (checked id isHead)
  | copySend =>
      intro entry isSending
      simp only [smooth, Option.all_eq_true, decide_eq_true_eq] at checked
      exact framed_of_length_le (checked entry isSending)
  | copyDone => trivial
  | finish =>
      simp only [smooth, Bool.and_eq_true, List.all_eq_true, Option.all_eq_true,
        decide_eq_true_eq] at checked
      refine ⟨checked.1, fun id isDirty => ⟨readable_of_isOk (checked.2 id isDirty).1, ?_⟩⟩
      exact fun payload found => framed_of_length_le ((checked.2 id isDirty).2 payload found)

/-- Two datums to be moved to an empty log, a third that is not, and a fourth that does not exist
yet. -/
def started : CopyRun where
  source := (((DatumLog.create (List.replicate 16 0)).putFull 1 [10] 1).putFull 2 [20] 2).putFull
    3 [30] 1
  dest := DatumLog.create (List.replicate 16 1)
  transfer := ⟨[1, 2, 4], 9, 0, [], false⟩
  task := ⟨[1, 2, 4], none⟩
  finished := false

theorem started_starts : started.Starts where
  sourceClosed := by
    unfold DatumLog.Closed
    decide +kernel
  destClosed := by
    unfold DatumLog.Closed
    decide +kernel
  absent := fun _ _ => rfl
  remaining := fun _ => Iff.rfl
  sending := rfl
  done := rfl
  finished := rfl

/-- A datum is written between its read and its arrival, another is deleted after it was copied, and
a third is created before it is read. -/
theorem dest_eq_source_written :
    ∃ run, system.ReachableVia Smooth run ∧ run.dest.get 1 = .ok (some [11]) ∧
      run.dest.get 2 = .ok none ∧
      ∀ id ∈ [1, 2, 4], ∃ state, run.source.Shows id state ∧ run.dest.Shows id state := by
  have executed : (system.execVia smooth started
      [.copyRead, .serve (.put 1 [11] 1), .copySend, .serve (.put 4 [40] 3), .copyRead, .copySend,
        .serve (.delete 2), .copyRead, .serve (.delete 3), .copySend, .copyDone, .finish]).any
      (fun run => run.finished && run.transfer.ids == [1, 2, 4] &&
        (run.dest.get 1).toOption == some (some [11]) &&
        (run.dest.get 2).toOption == some none) = true := by decide +kernel
  rcases (Option.any_eq_true _ _).mp executed with ⟨run, ran, shown⟩
  simp only [Bool.and_eq_true, beq_iff_eq] at shown
  rcases shown with ⟨⟨⟨finished, ids⟩, first⟩, second⟩
  have reached : system.ReachableVia Smooth run :=
    System.reachableVia_of_execVia smooth_sound started_starts ran
  refine ⟨run, reached, Service.eq_ok_of_toOption first, Service.eq_ok_of_toOption second, ?_⟩
  rw [← ids]
  exact dest_eq_source reached finished

end CopyRun

end Seisin
