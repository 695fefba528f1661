import Seisin.Storage.DatumLog

/-!
# The store server and the calls made to it

A storage node serves single requests against its log; a caller may lose the reply, or the request
with it, and tries once more before it gives up.  The server is generic in the log: `logTier` is the
delta log of the source, `contentTier` the map from ids to content it stands for.
-/

namespace Seisin

inductive StoreRequest (Value Patch : Type) where
  | put (id : DatumId) (bytes : Value) (n : ℕ)
  | patch (id : DatumId) (delta : Patch) (n : ℕ)
  | get (id : DatumId)
  | delete (id : DatumId)

inductive StoreResponse (Value : Type) where
  | ack
  | needFull
  | value (bytes : Option Value)
  | error (message : String)

/-- What a storage node's log offers, and how a caller that knows the value it overwrites turns it
into a delta, where one is worth sending. -/
structure Tier (Log Value Patch : Type) where
  get : Log → DatumId → Except String (Option Value)
  nOf : Log → DatumId → Option ℕ
  putFull : Log → DatumId → Value → ℕ → Log
  putDelta : Log → DatumId → Patch → ℕ → Except String (PatchOutcome × Log)
  delete : Log → DatumId → Log
  worthwhile : Value → Value → Option Patch

/-- What becomes of one attempt of a call.  A self-halted node answers with an error. -/
inductive Fate where
  | served
  | selfHalted
  | lostBefore
  | lostAfter
  deriving DecidableEq

/-- Calls that all get through. -/
def allServed : NodeId → ℕ → Fate := fun _ _ => .served

/-- Whether a request is served, be its reply lost or not. -/
def Fate.arrives : Fate → Bool
  | .served | .lostAfter => true
  | .selfHalted | .lostBefore => false

variable {Log Value Patch : Type}

namespace Tier

variable (tier : Tier Log Value Patch)

/-- Serves a request; without a response the connection is dropped. -/
def serve (log : Log) : StoreRequest Value Patch → Log × Option (StoreResponse Value)
  | .put id bytes n => (tier.putFull log id bytes n, some .ack)
  | .patch id delta n =>
      match tier.putDelta log id delta n with
      | .ok (.applied, patched) => (patched, some .ack)
      | .ok (.needFull, same) => (same, some .needFull)
      | .error _ => (log, none)
  | .get id =>
      match tier.get log id with
      | .ok bytes => (log, some (.value bytes))
      | .error _ => (log, none)
  | .delete id => (tier.delete log id, some .ack)

def attempt (fate : Fate) (request : StoreRequest Value Patch) (log : Log) :
    Log × Option (StoreResponse Value) :=
  match fate with
  | .served => tier.serve log request
  | .selfHalted => (log, some (.error "self-halted: no gossip contact"))
  | .lostBefore => (log, none)
  | .lostAfter => ((tier.serve log request).1, none)

/-- One round trip, with one reconnect; it fails at once if no address is known for the node. -/
def tryCall (addressed : Bool) (first second : Fate) (request : StoreRequest Value Patch)
    (log : Log) : Log × Option (StoreResponse Value) :=
  if addressed then
    match tier.attempt first request log with
    | (served, some response) => (served, some response)
    | (left, none) => tier.attempt second request left
  else (log, none)

/-- Whether one of the attempts of a round trip is served; an error of a self-halted node ends it. -/
def arrives (addressed : Bool) (first second : Fate) : Bool :=
  addressed && (first.arrives || (first = .lostBefore && second.arrives))

/-- Writes one replica, by delta where one is given, falling back to the full value if the node has
nothing to apply it to. -/
def writeOne (addressed : Bool) (fates : ℕ → Fate) (id : DatumId) (content : Value)
    (delta : Option Patch) (n : ℕ) (log : Log) : Log × Bool :=
  match delta with
  | some delta =>
      match tier.tryCall addressed (fates 0) (fates 1) (.patch id delta n) log with
      | (patched, some .ack) => (patched, true)
      | (left, some .needFull) =>
          match tier.tryCall addressed (fates 2) (fates 3) (.put id content n) left with
          | (written, some .ack) => (written, true)
          | (left, _) => (left, false)
      | (left, _) => (left, false)
  | none =>
      match tier.tryCall addressed (fates 0) (fates 1) (.put id content n) log with
      | (written, some .ack) => (written, true)
      | (left, _) => (left, false)

/-- Whether the written value takes effect at the replica; a delta does if the replica was `current`,
that is, if it held the value that the delta was computed from. -/
def writeReaches (addressed : Bool) (fates : ℕ → Fate) (id : DatumId) (delta : Option Patch)
    (n : ℕ) (current : Bool) (log : Log) : Bool :=
  match delta with
  | some delta =>
      match (tier.tryCall addressed (fates 0) (fates 1) (.patch id delta n) log).2 with
      | some .needFull => arrives addressed (fates 2) (fates 3)
      | _ => current && arrives addressed (fates 0) (fates 1)
  | none => arrives addressed (fates 0) (fates 1)

def deleteOne (addressed : Bool) (fates : ℕ → Fate) (id : DatumId) (log : Log) : Log × Bool :=
  match tier.tryCall addressed (fates 0) (fates 1) (.delete id) log with
  | (deleted, some .ack) => (deleted, true)
  | (left, _) => (left, false)

end Tier

/-! ## The two kinds of log -/

/-- The delta log; a delta is sent when it is less than half as long as the value. -/
def logTier : Tier DatumLog Bytes Delta where
  get := DatumLog.get
  nOf := DatumLog.nOf
  putFull := DatumLog.putFull
  putDelta := DatumLog.putDelta
  delete := DatumLog.delete
  worthwhile := fun previous content =>
    let delta := Delta.diff previous content
    if delta.encodedLen < content.length / 2 then some delta else none

/-- The content a log stands for: a value and its replication factor for each datum present. -/
abbrev Content := AList (fun _ : DatumId => Bytes × ℕ)

def Content.listIds (content : Content) (after : Option DatumId) (limit : ℕ) :
    List (DatumId × ℕ) :=
  indexedIds content Prod.snd after limit

/-- The map a log stands for, with lengths of any size. -/
def contentTier : Tier Content Bytes Delta where
  get := fun content id => .ok ((content.lookup id).map Prod.fst)
  nOf := fun content id => (content.lookup id).map Prod.snd
  putFull := fun content id bytes n => content.insert id (bytes, n)
  putDelta := fun content id delta n =>
    match content.lookup id with
    | none => .ok (.needFull, content)
    | some (current, _) =>
        match delta.apply current with
        | .error message => .error message
        | .ok newValue => .ok (.applied, content.insert id (newValue, n))
  delete := fun content id => content.erase id
  worthwhile := fun previous content =>
    let delta := Delta.trim previous content
    if delta.encodedLen < content.length / 2 then some delta else none

/-! ## Lawful logs -/

/-- A log that keeps values that fit: what it holds for a datum is read back, replaced by writes of
that datum and left alone by all others, and a delta of the value held gives the new value, also
when it is applied once more. -/
structure Tier.Lawful (tier : Tier Log Value Patch) (Sound : Log → Prop) (Fits : Value → Prop)
    (Holds : Log → DatumId → Option (Value × ℕ) → Prop) : Prop where
  get : ∀ {log id state}, Holds log id state → tier.get log id = .ok (state.map Prod.fst)
  nOf : ∀ {log id state}, Holds log id state → tier.nOf log id = state.map Prod.snd
  soundPutFull : ∀ {log}, Sound log → ∀ id value n, Sound (tier.putFull log id value n)
  soundPutDelta : ∀ {log id delta n outcome next}, Sound log →
    tier.putDelta log id delta n = .ok (outcome, next) → Sound next
  soundDelete : ∀ {log}, Sound log → ∀ id, Sound (tier.delete log id)
  putFull : ∀ {log value}, Sound log → Fits value → ∀ id n,
    Holds (tier.putFull log id value n) id (some (value, n))
  putFullOther : ∀ {log other state}, Sound log → Holds log other state → ∀ {id}, other ≠ id →
    ∀ value n, Holds (tier.putFull log id value n) other state
  putDelta : ∀ {log id old new before delta}, Sound log → Holds log id (some (old, before)) →
    Fits new → tier.worthwhile old new = some delta → ∀ n,
    ∃ next, tier.putDelta log id delta n = .ok (.applied, next) ∧ Holds next id (some (new, n))
  putDeltaAgain : ∀ {log id old new before delta}, Sound log → Holds log id (some (new, before)) →
    Fits new → tier.worthwhile old new = some delta → ∀ n,
    ∃ next, tier.putDelta log id delta n = .ok (.applied, next) ∧ Holds next id (some (new, n))
  putDeltaOther : ∀ {log id other state delta n outcome next}, Sound log → Holds log other state →
    other ≠ id → tier.putDelta log id delta n = .ok (outcome, next) → Holds next other state
  delete : ∀ {log}, Sound log → ∀ id, Holds (tier.delete log id) id none
  deleteOther : ∀ {log other state}, Sound log → Holds log other state → ∀ {id}, other ≠ id →
    Holds (tier.delete log id) other state

theorem contentTier_lawful : contentTier.Lawful (fun _ => True) (fun _ => True)
    (fun content id state => content.lookup id = state) where
  get := by
    intro content id state held
    simp only [contentTier, held]
  nOf := by
    intro content id state held
    simp only [contentTier, held]
  soundPutFull := fun _ _ _ _ => trivial
  soundPutDelta := fun _ _ => trivial
  soundDelete := fun _ _ => trivial
  putFull := fun _ _ _ _ => AList.lookup_insert _
  putFullOther := by
    intro content other state _ held id differ value n
    exact (AList.lookup_insert_ne differ).trans held
  putDelta := by
    intro content id old new before delta _ held _ worthwhile n
    simp only [contentTier, Option.ite_none_right_eq_some, Option.some.injEq] at worthwhile
    rcases worthwhile with ⟨_, rfl⟩
    refine ⟨content.insert id (new, n), ?_, AList.lookup_insert _⟩
    simp only [contentTier, held, Delta.apply_trim]
  putDeltaAgain := by
    intro content id old new before delta _ held _ worthwhile n
    simp only [contentTier, Option.ite_none_right_eq_some, Option.some.injEq] at worthwhile
    rcases worthwhile with ⟨_, rfl⟩
    refine ⟨content.insert id (new, n), ?_, AList.lookup_insert _⟩
    simp only [contentTier, held, Delta.apply_trim_again]
  putDeltaOther := by
    intro content id other state delta n outcome next _ held differ patched
    simp only [contentTier] at patched
    cases found : content.lookup id with
    | none =>
        simp only [found, Except.ok.injEq, Prod.mk.injEq] at patched
        rcases patched with ⟨_, rfl⟩
        exact held
    | some entry =>
        simp only [found] at patched
        cases spliced : delta.apply entry.1 with
        | error message => simp [spliced] at patched
        | ok newValue =>
            simp only [spliced, Except.ok.injEq, Prod.mk.injEq] at patched
            rcases patched with ⟨_, rfl⟩
            exact (AList.lookup_insert_ne differ).trans held
  delete := fun _ _ => AList.lookup_erase _ _
  deleteOther := by
    intro content other state _ held id differ
    exact (AList.lookup_erase_ne differ).trans held

/-- A delta the caller sends for a value that fits is carried by the wire and the log. -/
theorem worthwhile_spec {old new : Bytes} {delta : Delta} (fits : DatumLog.Fits new)
    (worthwhile : logTier.worthwhile old new = some delta) :
    delta = Delta.trim old new ∧ Delta.decode delta.encode = .ok delta ∧
      DatumLog.Fits delta.encode ∧ delta.newTotalLen = new.length := by
  unfold DatumLog.Fits at fits
  simp only [logTier, Option.ite_none_right_eq_some, Option.some.injEq] at worthwhile
  rcases worthwhile with ⟨short, rfl⟩
  have same : Delta.diff old new = Delta.trim old new := Delta.diff_eq_trim old (by omega)
  rw [same] at short ⊢
  rcases Delta.trim_front_le old new with ⟨_, ends⟩
  have middle := Delta.length_trim_middle old new
  have total : (Delta.trim old new).newTotalLen = new.length := rfl
  refine ⟨rfl, Delta.decode_encode (by omega) (by omega) (by omega) (by omega), ?_, total⟩
  unfold DatumLog.Fits
  simp only [Delta.encode, List.length_append, ByteString.length_leBytes, Delta.encodedLen]
    at short ⊢
  omega

theorem logTier_lawful : logTier.Lawful DatumLog.Closed DatumLog.Fits DatumLog.Holds where
  get := DatumLog.Holds.get
  nOf := DatumLog.Holds.nOf
  soundPutFull := fun closed id value n => closed.append .full id n value
  soundPutDelta := fun closed patched => closed.putDelta patched
  soundDelete := fun closed id => closed.append .tombstone id 0 []
  putFull := fun closed fits id n => .putFull closed id fits n
  putFullOther := fun closed held _ differ value n => held.putFull_other closed differ value n
  putDelta := by
    intro log id old new before delta closed held fits worthwhile n
    rcases worthwhile_spec fits worthwhile with ⟨rfl, decodes, fitsDelta, total⟩
    exact held.putDelta closed (Delta.apply_trim old new) decodes (fun _ _ _ => fitsDelta) total
      fits n
  putDeltaAgain := by
    intro log id old new before delta closed held fits worthwhile n
    rcases worthwhile_spec fits worthwhile with ⟨rfl, decodes, fitsDelta, total⟩
    exact held.putDelta closed (Delta.apply_trim_again old new) decodes (fun _ _ _ => fitsDelta)
      total fits n
  putDeltaOther := fun closed held differ patched => held.putDelta_other closed differ patched
  delete := fun _ id => .delete _ id
  deleteOther := fun closed held _ differ => held.delete_other closed differ

/-! ## Calls on lawful logs -/

/-- The datum a request is about. -/
def StoreRequest.target : StoreRequest Value Patch → DatumId
  | .put id _ _ | .patch id _ _ | .get id | .delete id => id

namespace Tier.Lawful

variable {tier : Tier Log Value Patch} {Sound : Log → Prop} {Fits : Value → Prop}
  {Holds : Log → DatumId → Option (Value × ℕ) → Prop} (lawful : tier.Lawful Sound Fits Holds)
include lawful

theorem sound_serve {log : Log} (sound : Sound log) (request : StoreRequest Value Patch) :
    Sound (tier.serve log request).1 := by
  cases request with
  | put id bytes n => exact lawful.soundPutFull sound id bytes n
  | patch id delta n =>
      simp only [Tier.serve]
      rcases patched : tier.putDelta log id delta n with message | ⟨_ | _, next⟩
      · exact sound
      · exact lawful.soundPutDelta sound patched
      · exact lawful.soundPutDelta sound patched
  | get id =>
      simp only [Tier.serve]
      split <;> exact sound
  | delete id => exact lawful.soundDelete sound id

theorem serve_other {log : Log} (sound : Sound log) {request : StoreRequest Value Patch}
    {other : DatumId} (differ : other ≠ request.target) {state : Option (Value × ℕ)}
    (held : Holds log other state) : Holds (tier.serve log request).1 other state := by
  cases request with
  | put id bytes n => exact lawful.putFullOther sound held differ bytes n
  | patch id delta n =>
      simp only [Tier.serve]
      rcases patched : tier.putDelta log id delta n with message | ⟨_ | _, next⟩
      · exact held
      · exact lawful.putDeltaOther sound held differ patched
      · exact lawful.putDeltaOther sound held differ patched
  | get id =>
      simp only [Tier.serve]
      split <;> exact held
  | delete id => exact lawful.deleteOther sound held differ

omit lawful in
/-- What serving a request keeps, a call that may be made twice keeps too. -/
theorem tryCall_keeps (motive : Log → Prop) {request : StoreRequest Value Patch}
    (kept : ∀ log, motive log → motive (tier.serve log request).1) (addressed : Bool)
    (first second : Fate) {log : Log} (holds : motive log) :
    motive (tier.tryCall addressed first second request log).1 := by
  have attempts : ∀ fate log, motive log → motive (tier.attempt fate request log).1 := by
    intro fate log holds
    cases fate with
    | served => exact kept log holds
    | selfHalted => exact holds
    | lostBefore => exact holds
    | lostAfter => exact kept log holds
  unfold Tier.tryCall
  split
  · have once := attempts first log holds
    generalize tier.attempt first request log = attempted at once
    rcases attempted with ⟨served, _ | response⟩
    · exact attempts second served once
    · exact once
  · exact holds

omit lawful in
/-- A call none of whose attempts is served changes nothing, and at most an error answers it. -/
theorem tryCall_lost (tier : Tier Log Value Patch) {addressed : Bool} {first second : Fate}
    (lost : Tier.arrives addressed first second = false) (request : StoreRequest Value Patch)
    (log : Log) :
    tier.tryCall addressed first second request log = (log, none) ∨
      ∃ message, tier.tryCall addressed first second request log = (log, some (.error message)) := by
  unfold Tier.tryCall
  cases addressed with
  | false => exact Or.inl rfl
  | true =>
      cases first with
      | served => cases lost
      | lostAfter => cases lost
      | selfHalted => exact Or.inr ⟨_, rfl⟩
      | lostBefore =>
          cases second with
          | served => cases lost
          | lostAfter => cases lost
          | selfHalted => exact Or.inr ⟨_, rfl⟩
          | lostBefore => exact Or.inl rfl

theorem sound_tryCall (addressed : Bool) (first second : Fate) {log : Log} (sound : Sound log)
    (request : StoreRequest Value Patch) :
    Sound (tier.tryCall addressed first second request log).1 :=
  tryCall_keeps Sound (fun _ served => lawful.sound_serve served request) addressed first second
    sound

theorem tryCall_other (addressed : Bool) (first second : Fate) {log : Log} (sound : Sound log)
    {request : StoreRequest Value Patch} {other : DatumId} (differ : other ≠ request.target)
    {state : Option (Value × ℕ)} (held : Holds log other state) :
    Holds (tier.tryCall addressed first second request log).1 other state := by
  apply And.right
  apply tryCall_keeps (fun log => Sound log ∧ Holds log other state)
  · intro log served
    exact ⟨lawful.sound_serve served.1 request, lawful.serve_other served.1 differ served.2⟩
  · exact ⟨sound, held⟩

omit lawful in
/-- An answered call ends with an attempt that was served or refused. -/
theorem tryCall_answered {addressed : Bool} {first second : Fate}
    {request : StoreRequest Value Patch} {log next : Log} {response : StoreResponse Value}
    (called : tier.tryCall addressed first second request log = (next, some response)) :
    (∃ message, response = .error message) ∨ tier.serve log request = (next, some response) ∨
      tier.serve (tier.serve log request).1 request = (next, some response) := by
  have attempts : ∀ fate log, tier.attempt fate request log = (next, some response) →
      (∃ message, response = .error message) ∨ tier.serve log request = (next, some response) := by
    intro fate log attempted
    cases fate with
    | served => exact Or.inr attempted
    | selfHalted =>
        simp only [Tier.attempt, Prod.mk.injEq, Option.some.injEq] at attempted
        exact Or.inl ⟨_, attempted.2.symm⟩
    | lostBefore => simp [Tier.attempt] at attempted
    | lostAfter => simp [Tier.attempt] at attempted
  unfold Tier.tryCall at called
  split at called
  · cases first with
    | served =>
        simp only [Tier.attempt] at called
        rcases answered : tier.serve log request with ⟨served, _ | firstResponse⟩
        · simp only [answered] at called ⊢
          rcases attempts second served called with refused | again
          · exact Or.inl refused
          · exact Or.inr (Or.inr again)
        · simp only [answered] at called ⊢
          exact Or.inr (Or.inl called)
    | selfHalted =>
        simp only [Tier.attempt, Prod.mk.injEq, Option.some.injEq] at called
        exact Or.inl ⟨_, called.2.symm⟩
    | lostBefore =>
        rcases attempts second log called with refused | served
        · exact Or.inl refused
        · exact Or.inr (Or.inl served)
    | lostAfter =>
        rcases attempts second _ called with refused | served
        · exact Or.inl refused
        · exact Or.inr (Or.inr served)
  · simp at called

omit lawful in
/-- A call of which an attempt is served leaves what one or two of them make. -/
theorem tryCall_arrives (tier : Tier Log Value Patch) {addressed : Bool} {first second : Fate}
    (arrived : Tier.arrives addressed first second = true) (request : StoreRequest Value Patch)
    (log : Log) :
    (tier.tryCall addressed first second request log).1 = (tier.serve log request).1 ∨
      (tier.tryCall addressed first second request log).1 =
        (tier.serve (tier.serve log request).1 request).1 := by
  have again : ∀ left, (tier.attempt second request left).1 = left ∨
      (tier.attempt second request left).1 = (tier.serve left request).1 := by
    intro left
    cases second with
    | served => exact Or.inr rfl
    | lostAfter => exact Or.inr rfl
    | selfHalted => exact Or.inl rfl
    | lostBefore => exact Or.inl rfl
  unfold Tier.tryCall
  cases addressed with
  | false => cases arrived
  | true =>
      rw [if_pos rfl]
      cases first with
      | served =>
          simp only [Tier.attempt]
          rcases answered : tier.serve log request with ⟨served, _ | response⟩
          · exact again served
          · exact Or.inl rfl
      | lostAfter => exact again _
      | selfHalted => cases arrived
      | lostBefore =>
          left
          cases second with
          | served => rfl
          | lostAfter => rfl
          | selfHalted => cases arrived
          | lostBefore => cases arrived

omit lawful in
/-- A call that is answered, and not with an error, was served. -/
theorem arrives_of_answered {addressed : Bool} {first second : Fate}
    {request : StoreRequest Value Patch} {log : Log} {response : StoreResponse Value}
    (answered : (tier.tryCall addressed first second request log).2 = some response)
    (noError : ∀ message, response ≠ .error message) :
    Tier.arrives addressed first second = true := by
  by_contra lost
  rw [Bool.not_eq_true] at lost
  rcases tryCall_lost tier lost request log with called | ⟨message, called⟩
  · rw [called] at answered
    cases answered
  · rw [called] at answered
    cases answered
    exact noError message rfl

theorem put_arrives {addressed : Bool} {first second : Fate} {log : Log} (sound : Sound log)
    {content : Value} (fits : Fits content)
    (arrived : Tier.arrives addressed first second = true) (id : DatumId) (n : ℕ) :
    Holds (tier.tryCall addressed first second (.put id content n) log).1 id
      (some (content, n)) := by
  rcases tryCall_arrives tier arrived (.put id content n) log with once | twice
  · rw [once]
    exact lawful.putFull sound fits id n
  · rw [twice]
    exact lawful.putFull (lawful.soundPutFull sound id content n) fits id n

/-- A delta that is served at a replica which holds the value it was computed from leaves the new one
there. -/
theorem patch_arrives {addressed : Bool} {first second : Fate} {log : Log} (sound : Sound log)
    {id : DatumId} {old content : Value} (fits : Fits content) {delta : Patch}
    (worthwhile : tier.worthwhile old content = some delta) {before : ℕ}
    (held : Holds log id (some (old, before)))
    (arrived : Tier.arrives addressed first second = true) (n : ℕ) :
    Holds (tier.tryCall addressed first second (.patch id delta n) log).1 id
      (some (content, n)) := by
  rcases lawful.putDelta sound held fits worthwhile n with ⟨once, applied, heldOnce⟩
  have soundOnce := lawful.soundPutDelta sound applied
  rcases lawful.putDeltaAgain soundOnce heldOnce fits worthwhile n with
    ⟨twice, appliedAgain, heldTwice⟩
  rcases tryCall_arrives tier arrived (.patch id delta n) log with served | served
  · simp only [served, Tier.serve, applied]
    exact heldOnce
  · simp only [served, Tier.serve, applied, appliedAgain]
    exact heldTwice

/-! ## Writing one replica -/

section WriteOne

variable {addressed : Bool} {fates : ℕ → Fate} {id other : DatumId} {content : Value}
  {delta : Option Patch} {n : ℕ} {log : Log} {state : Option (Value × ℕ)}

omit lawful in
/-- What serving any request about `id` keeps, writing one replica keeps too. -/
theorem writeOne_keeps (motive : Log → Prop)
    (kept : ∀ request : StoreRequest Value Patch, request.target = id →
      ∀ log, motive log → motive (tier.serve log request).1) (holds : motive log) :
    motive (tier.writeOne addressed fates id content delta n log).1 := by
  have put : ∀ first second log, motive log →
      motive (tier.tryCall addressed first second (.put id content n) log).1 :=
    fun first second log => tryCall_keeps motive (kept (.put id content n) rfl) addressed first
      second
  cases delta with
  | none =>
      have called := put (fates 0) (fates 1) log holds
      simp only [Tier.writeOne]
      split <;> simp_all
  | some delta =>
      have called := tryCall_keeps motive (kept (.patch id delta n) rfl) addressed (fates 0)
        (fates 1) holds
      simp only [Tier.writeOne]
      split
      · simp_all
      · rename_i left answered
        rw [answered] at called
        have fallback := put (fates 2) (fates 3) left called
        split <;> simp_all
      · simp_all

omit lawful in
theorem writeOne_lost (lost : Tier.arrives addressed (fates 0) (fates 1) = false) :
    (tier.writeOne addressed fates id content delta n log).1 = log := by
  unfold Tier.writeOne
  cases delta with
  | none =>
      rcases tryCall_lost tier lost (.put id content n) log with
        called | ⟨message, called⟩ <;> simp only [called]
  | some patch =>
      rcases tryCall_lost tier lost (.patch id patch n) log with
        called | ⟨message, called⟩ <;> simp only [called]

theorem sound_writeOne (sound : Sound log) :
    Sound (tier.writeOne addressed fates id content delta n log).1 :=
  writeOne_keeps Sound (fun request _ _ served => lawful.sound_serve served request) sound

theorem writeOne_other (sound : Sound log) (differ : other ≠ id) (held : Holds log other state) :
    Holds (tier.writeOne addressed fates id content delta n log).1 other state := by
  apply And.right
  apply writeOne_keeps (fun log => Sound log ∧ Holds log other state)
  · rintro request rfl log served
    exact ⟨lawful.sound_serve served.1 request, lawful.serve_other served.1 differ served.2⟩
  · exact ⟨sound, held⟩

/-- Where a written value takes effect, the replica holds it. -/
theorem writeOne_reaches (sound : Sound log) (fits : Fits content) {current : Bool}
    (base : current = true → ∀ patch, delta = some patch → ∃ old before,
      Holds log id (some (old, before)) ∧ tier.worthwhile old content = some patch)
    (reaches : tier.writeReaches addressed fates id delta n current log = true) :
    Holds (tier.writeOne addressed fates id content delta n log).1 id (some (content, n)) := by
  cases delta with
  | none =>
      have written := lawful.put_arrives sound fits reaches id n
      simp only [Tier.writeOne]
      split <;> simp_all
  | some patch =>
      unfold Tier.writeReaches at reaches
      dsimp only at reaches
      split at reaches
      · rename_i needFull
        rcases called : tier.tryCall addressed (fates 0) (fates 1) (.patch id patch n) log with
          ⟨left, response⟩
        rw [called] at needFull
        simp only at needFull
        subst needFull
        have soundLeft := lawful.sound_tryCall addressed (fates 0) (fates 1) sound
          (.patch id patch n)
        rw [called] at soundLeft
        have written := lawful.put_arrives soundLeft fits reaches id n
        simp only [Tier.writeOne, called]
        split <;> simp_all
      · rename_i noFallback
        rw [Bool.and_eq_true] at reaches
        rcases base reaches.1 patch rfl with ⟨old, before, held, worthwhile⟩
        have patched := lawful.patch_arrives sound fits worthwhile held reaches.2 n
        simp only [Tier.writeOne]
        split
        · simp_all
        · rename_i left called
          exact absurd (by rw [called]) noFallback
        · simp_all

omit lawful in
/-- An acknowledged write takes effect at a replica that was current. -/
theorem writeReaches_of_acked
    (acked : (tier.writeOne addressed fates id content delta n log).2 = true) :
    tier.writeReaches addressed fates id delta n true log = true := by
  have put : ∀ first second left, (match tier.tryCall addressed first second
      (.put id content n) left with
      | (written, some .ack) => (written, true)
      | (left, _) => (left, false)).2 = true → Tier.arrives addressed first second = true := by
    intro first second left acked
    split at acked
    · rename_i written called
      exact arrives_of_answered (by rw [called]) (by rintro _ ⟨⟩)
    · cases acked
  cases delta with
  | none => exact put (fates 0) (fates 1) log acked
  | some patch =>
      simp only [Tier.writeOne] at acked
      unfold Tier.writeReaches
      dsimp only
      split at acked
      · rename_i patched called
        rw [called]
        exact arrives_of_answered (by rw [called]) (by rintro _ ⟨⟩)
      · rename_i left called
        rw [called]
        exact put (fates 2) (fates 3) left acked
      · cases acked

theorem sound_deleteOne (sound : Sound log) :
    Sound (tier.deleteOne addressed fates id log).1 := by
  have called := lawful.sound_tryCall addressed (fates 0) (fates 1) sound (.delete id)
  unfold Tier.deleteOne
  split <;> simp_all

omit lawful in
theorem deleteOne_lost (lost : Tier.arrives addressed (fates 0) (fates 1) = false) :
    (tier.deleteOne addressed fates id log).1 = log := by
  unfold Tier.deleteOne
  rcases tryCall_lost tier lost (.delete id) log with called | ⟨message, called⟩ <;>
    simp only [called]

theorem deleteOne_other (sound : Sound log) (differ : other ≠ id) (held : Holds log other state) :
    Holds (tier.deleteOne addressed fates id log).1 other state := by
  have called : Holds (tier.tryCall addressed (fates 0) (fates 1) (.delete id) log).1 other state :=
    lawful.tryCall_other addressed (fates 0) (fates 1) sound differ held
  unfold Tier.deleteOne
  split <;> simp_all

theorem deleteOne_reaches (sound : Sound log)
    (arrived : Tier.arrives addressed (fates 0) (fates 1) = true) :
    Holds (tier.deleteOne addressed fates id log).1 id none := by
  have deleted : Holds (tier.tryCall addressed (fates 0) (fates 1) (.delete id) log).1 id none := by
    rcases tryCall_arrives tier arrived (.delete id) log with once | twice
    · rw [once]
      exact lawful.delete sound id
    · rw [twice]
      exact lawful.delete (lawful.soundDelete sound id) id
  unfold Tier.deleteOne
  split <;> simp_all

omit lawful in
theorem arrives_of_deleted (acked : (tier.deleteOne addressed fates id log).2 = true) :
    Tier.arrives addressed (fates 0) (fates 1) = true := by
  unfold Tier.deleteOne at acked
  split at acked
  · rename_i deleted called
    exact arrives_of_answered (by rw [called]) (by rintro _ ⟨⟩)
  · cases acked

end WriteOne

end Tier.Lawful

end Seisin
