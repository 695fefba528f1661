import Mathlib
import Seisin.Types.Residents
import Seisin.Types.Transaction

/-!
# The entries of a secondary key over a whole run

A secondary-key datum is changed by index updates alone, which its home serves one after another from
the list that it keeps resident; what it stores is read only when the list has to be opened again.
The stored bytes are always the encoding of the list, but the encoding keeps the number of entries in
32 bits: a list of more entries than that is written in full and cannot be opened any more.  What the
list is after some updates can be said without the home, and the home keeps that list, open or
stored, as long as it stays that short.
-/

namespace Seisin

open ByteString

/-! ## The encoding of an entry list -/

namespace AuthorityIdx

/-- A node number has 64 bits and a thread number 32. -/
def Fits : AuthorityIdx → Prop
  | .native => True
  | .foreign nodeId threadId => nodeId < 2 ^ 64 ∧ threadId < 2 ^ 32

theorem length_encode (authority : AuthorityIdx) : authority.encode.length = 13 := by
  cases authority with
  | native => rfl
  | foreign nodeId threadId => simp [encode]

theorem decode_encode {authority : AuthorityIdx} (fits : authority.Fits) :
    decode authority.encode = .ok authority := by
  cases authority with
  | native => rfl
  | foreign nodeId threadId =>
      have node : leNat (leBytes 8 nodeId) = nodeId := leNat_leBytes fits.1
      have thread : leNat (leBytes 4 threadId) = threadId := leNat_leBytes fits.2
      have front : (leBytes 8 nodeId ++ leBytes 4 threadId).take 8 = leBytes 8 nodeId :=
        List.take_left' (length_leBytes 8 nodeId)
      have back : ((leBytes 8 nodeId ++ leBytes 4 threadId).drop 8).take 4 = leBytes 4 threadId := by
        rw [List.drop_left' (length_leBytes 8 nodeId)]
        exact List.take_of_length_le (length_leBytes 4 threadId).le
      simp only [encode, decode, front, back, node, thread]

end AuthorityIdx

theorem length_flatMap_skEntries (entries : SkEntries) :
    (entries.flatMap fun entry => entry.1.asBytes ++ entry.2.encode).length =
      entries.length * skEntryLen := by
  induction entries with
  | nil => rfl
  | cons entry entries ih =>
      rw [List.flatMap_cons, List.length_append, List.length_append, DatumId.length_asBytes,
        AuthorityIdx.length_encode, ih, List.length_cons, skEntryLen]
      omega

theorem decodeSkEntriesFrom_encode {entries : SkEntries} (fits : ∀ entry ∈ entries, entry.2.Fits) :
    decodeSkEntriesFrom entries.length
      (entries.flatMap fun entry => entry.1.asBytes ++ entry.2.encode) = .ok entries := by
  induction entries with
  | nil => rfl
  | cons entry entries ih =>
      rw [List.forall_mem_cons] at fits
      have pkId : ∀ rest : Bytes, (entry.1.asBytes ++ rest).take 16 = entry.1.asBytes :=
        fun rest => List.take_left' (DatumId.length_asBytes entry.1)
      have authority : ∀ rest : Bytes,
          ((entry.1.asBytes ++ (entry.2.encode ++ rest)).drop 16).take 13 = entry.2.encode := by
        intro rest
        rw [List.drop_left' (DatumId.length_asBytes entry.1),
          List.take_left' (AuthorityIdx.length_encode entry.2)]
      have later : ∀ rest : Bytes,
          (entry.1.asBytes ++ (entry.2.encode ++ rest)).drop skEntryLen = rest := by
        intro rest
        rw [← List.append_assoc]
        apply List.drop_left'
        rw [List.length_append, DatumId.length_asBytes, AuthorityIdx.length_encode, skEntryLen]
      simp only [List.flatMap_cons, List.length_cons, List.append_assoc, decodeSkEntriesFrom,
        authority, AuthorityIdx.decode_encode fits.1, later, ih fits.2, pkId,
        DatumId.fromBytes_asBytes]

section Encoded

variable {entries : SkEntries}

theorem take_encodeSkEntries : (encodeSkEntries entries).take 4 = leBytes 4 entries.length :=
  List.take_left' (length_leBytes 4 entries.length)

theorem drop_encodeSkEntries : (encodeSkEntries entries).drop 4 =
    entries.flatMap fun entry => entry.1.asBytes ++ entry.2.encode :=
  List.drop_left' (length_leBytes 4 entries.length)

theorem length_encodeSkEntries :
    (encodeSkEntries entries).length = 4 + entries.length * skEntryLen := by
  rw [encodeSkEntries, List.length_append, length_leBytes, length_flatMap_skEntries]

theorem decodeSkEntries_encode (fits : ∀ entry ∈ entries, entry.2.Fits)
    (short : entries.length < 2 ^ 32) : decodeSkEntries (encodeSkEntries entries) = .ok entries := by
  rw [decodeSkEntries, length_encodeSkEntries, if_neg (by omega), take_encodeSkEntries,
    leNat_leBytes_four short, drop_encodeSkEntries]
  dsimp only
  rw [if_neg (not_not.mpr rfl)]
  exact decodeSkEntriesFrom_encode fits

/-- The count of a longer list is cut, and does not match the length any more. -/
theorem decodeSkEntries_encode_long (long : 2 ^ 32 ≤ entries.length) :
    ∃ message, decodeSkEntries (encodeSkEntries entries) = .error message := by
  have count : leNat (leBytes 4 entries.length) = entries.length % 2 ^ 32 :=
    leNat_leBytes_mod 4 entries.length
  have cut := Nat.mod_lt entries.length (Nat.two_pow_pos 32)
  rw [decodeSkEntries, length_encodeSkEntries, if_neg (by omega), take_encodeSkEntries, count]
  dsimp only
  rw [if_pos (by simp only [skEntryLen]; omega)]
  exact ⟨_, rfl⟩

end Encoded

/-! ## One update -/

namespace SkIndexOp

/-- What an accepted update makes of the entries. -/
def onEntries (entries : SkEntries) : SkIndexOp → SkEntries
  | .remove pkId => entries.filter fun entry => entry.1 ≠ pkId
  | .insert pkId _ =>
      if entries.any fun entry => entry.1 = pkId then entries else entries ++ [(pkId, .native)]

/-- A unique insert is accepted if no other pk is listed. -/
def Admitted (entries : SkEntries) : SkIndexOp → Prop
  | .insert pkId (some _) => ∀ entry ∈ entries, entry.1 = pkId
  | _ => True

instance (entries : SkEntries) : (op : SkIndexOp) → Decidable (op.Admitted entries)
  | .remove _ => inferInstanceAs (Decidable True)
  | .insert _ none => inferInstanceAs (Decidable True)
  | .insert pkId (some _) => inferInstanceAs (Decidable (∀ entry ∈ entries, entry.1 = pkId))

/-- Not an insert without the unique flag. -/
def Unique : SkIndexOp → Prop
  | .insert _ none => False
  | _ => True

end SkIndexOp

/-- No pk is listed twice, and every one where it is native. -/
structure ProperEntries (entries : SkEntries) : Prop where
  distinct : (entries.map Prod.fst).Nodup
  native : ∀ entry ∈ entries, entry.2 = .native

section Update

variable {entries : SkEntries} {op : SkIndexOp} {payload : Bytes}

theorem ProperEntries.fits (proper : ProperEntries entries) : ∀ entry ∈ entries, entry.2.Fits := by
  intro entry entryMem
  rw [proper.native entry entryMem]
  trivial

theorem ProperEntries.onEntries (proper : ProperEntries entries) :
    ProperEntries (op.onEntries entries) := by
  cases op with
  | remove pkId =>
      constructor
      · exact proper.distinct.sublist (List.filter_sublist.map Prod.fst)
      · exact fun entry entryMem => proper.native entry (List.mem_of_mem_filter entryMem)
  | insert pkId conflictOp =>
      rw [SkIndexOp.onEntries]
      split
      · exact proper
      · rename_i absent
        simp only [List.any_eq_true, decide_eq_true_eq, not_exists, not_and] at absent
        constructor
        · rw [List.map_append, List.nodup_append']
          refine ⟨proper.distinct, List.nodup_singleton pkId, ?_⟩
          intro listed listedMem same
          rcases List.mem_map.mp listedMem with ⟨entry, entryMem, rfl⟩
          exact absent entry entryMem (List.mem_singleton.mp same)
        · intro entry entryMem
          rcases List.mem_append.mp entryMem with before | added
          · exact proper.native entry before
          · rw [List.mem_singleton.mp added]

theorem length_onEntries_le : (op.onEntries entries).length ≤ entries.length + 1 := by
  cases op with
  | remove pkId => exact (List.length_filter_le _ _).trans (Nat.le_succ _)
  | insert pkId conflictOp =>
      rw [SkIndexOp.onEntries]
      split
      · exact Nat.le_succ _
      · rw [List.length_append, List.length_singleton]

/-- As long as inserts are unique, a second pk is never listed. -/
theorem length_onEntries_le_one (unique : op.Unique) (admitted : op.Admitted entries)
    (one : entries.length ≤ 1) : (op.onEntries entries).length ≤ 1 := by
  cases op with
  | remove pkId => exact (List.length_filter_le _ _).trans one
  | insert pkId conflictOp =>
      cases conflictOp with
      | none => exact unique.elim
      | some name =>
          rw [SkIndexOp.onEntries]
          split
          · exact one
          · rename_i absent
            simp only [List.any_eq_true, decide_eq_true_eq, not_exists, not_and] at absent
            have empty : entries = [] :=
              List.eq_nil_iff_forall_not_mem.mpr fun entry entryMem =>
                absent entry entryMem (admitted entry entryMem)
            rw [empty, List.nil_append, List.length_singleton]

/-- An update is refused without a change, or accepted and persisted. -/
theorem SkResidentIndex.apply_cases (entries : SkEntries) (payload : Bytes) :
    ((∀ op, decodeSkIndexOp payload = .ok op → ¬op.Admitted entries) ∧
        ∃ violation, apply entries payload = (entries, ⟨some violation, .none⟩)) ∨
      ∃ op, decodeSkIndexOp payload = .ok op ∧ op.Admitted entries ∧
        apply entries payload = (op.onEntries entries, persist (op.onEntries entries)) := by
  unfold apply
  cases decoded : decodeSkIndexOp payload with
  | error message => exact Or.inl ⟨fun op impossible => (by cases impossible), _, rfl⟩
  | ok op =>
      cases op with
      | remove pkId => exact Or.inr ⟨.remove pkId, rfl, trivial, rfl⟩
      | insert pkId conflictOp =>
          cases conflictOp with
          | none => exact Or.inr ⟨.insert pkId none, rfl, trivial, rfl⟩
          | some name =>
              dsimp only
              split
              · rename_i taken
                simp only [List.any_eq_true, decide_eq_true_eq] at taken
                rcases taken with ⟨entry, entryMem, other⟩
                refine Or.inl ⟨?_, _, rfl⟩
                intro op same admitted
                cases same
                exact other (admitted entry entryMem)
              · rename_i free
                simp only [List.any_eq_true, decide_eq_true_eq, not_exists, not_and,
                  not_not] at free
                exact Or.inr ⟨.insert pkId (some name), rfl, free, rfl⟩

/-- What is stored for a list: nothing if it is empty. -/
def skStored (entries : SkEntries) : Option Bytes :=
  if entries = [] then none else some (encodeSkEntries entries)

theorem persist_onStored (entries : SkEntries) (stored : Option Bytes) :
    (SkResidentIndex.persist entries).writeThrough.onStored stored = skStored entries := by
  unfold SkResidentIndex.persist skStored
  split
  · rfl
  · rfl

theorem openStored_skStored (proper : ProperEntries entries) (target : DatumId)
    (short : entries.length < 2 ^ 32) :
    SkResidentIndex.openStored target (skStored entries) = .ok entries := by
  unfold skStored
  split
  · rename_i empty
    rw [empty]
    rfl
  · simp only [SkResidentIndex.openStored, decodeSkEntries_encode proper.fits short]

theorem openStored_skStored_long (target : DatumId) (long : 2 ^ 32 ≤ entries.length) :
    ∃ message, SkResidentIndex.openStored target (skStored entries) = .error message := by
  have nonempty : entries ≠ [] := by
    rintro rfl
    exact absurd long (by decide)
  rcases decodeSkEntries_encode_long long with ⟨message, unread⟩
  rw [skStored, if_neg nonempty]
  simp only [SkResidentIndex.openStored, unread]
  exact ⟨_, rfl⟩

end Update

/-! ## The home of a secondary key -/

/-- A worker that has the blob kinds registered beside others. -/
def Env.typed {Other : Type} (env : Env Other) : Env (TypedResident Other) where
  selfNodeId := env.selfNodeId
  native := env.native
  linked := env.linked
  ops := env.ops
  indexKinds := typedIndexKinds env.indexKinds

structure SkHome (Other : Type) where
  worker : Worker (TypedResident Other)
  store : Store

/-- What a secondary key sees: an update from an op, or another thread in the place of its home, after
a restart or because the ring has moved it, which finds nothing but what is stored. -/
inductive SkEvent where
  | update (opId : DatumId) (payload : Bytes) (reply : IndexUpdateReply)
  | restart

namespace SkEvent

/-- The update that the event asks for, if its payload is one. -/
def op : SkEvent → Option SkIndexOp
  | .update _ payload _ => (decodeSkIndexOp payload).toOption
  | .restart => none

/-- What the event makes of a list: an update that is admitted changes it. -/
def onEntries (entries : SkEntries) (event : SkEvent) : SkEntries :=
  match event.op with
  | some op => if op.Admitted entries then op.onEntries entries else entries
  | none => entries

/-- The list after some events. -/
def entriesAfter (events : List SkEvent) : SkEntries :=
  events.foldl onEntries []

theorem entriesAfter_snoc (events : List SkEvent) (last : SkEvent) :
    entriesAfter (events ++ [last]) = last.onEntries (entriesAfter events) := by
  simp only [entriesAfter, List.foldl_append, List.foldl_cons, List.foldl_nil]

/-- A list is left alone, or changed by an update that is admitted. -/
theorem onEntries_cases (entries : SkEntries) (event : SkEvent) :
    event.onEntries entries = entries ∨
      ∃ op, event.op = some op ∧ op.Admitted entries ∧
        event.onEntries entries = op.onEntries entries := by
  unfold onEntries
  cases asked : event.op with
  | none => exact Or.inl rfl
  | some op =>
      by_cases admitted : op.Admitted entries
      · exact Or.inr ⟨op, rfl, admitted, if_pos admitted⟩
      · exact Or.inl (if_neg admitted)

/-- A list grows by one at most with each event. -/
theorem length_entriesAfter_le (events : List SkEvent) :
    (entriesAfter events).length ≤ events.length := by
  induction events using List.reverseRecOn with
  | nil => exact le_refl 0
  | append_singleton events last ih =>
      rw [entriesAfter_snoc, List.length_append, List.length_singleton]
      rcases onEntries_cases (entriesAfter events) last with same | ⟨op, _, _, changed⟩
      · rw [same]
        exact Nat.le_succ_of_le ih
      · rw [changed]
        exact length_onEntries_le.trans (Nat.succ_le_succ ih)

/-- As long as inserts are unique, no more than one pk is in it. -/
theorem length_entriesAfter_le_one {events : List SkEvent}
    (unique : ∀ event ∈ events, ∀ op, event.op = some op → op.Unique) :
    (entriesAfter events).length ≤ 1 := by
  induction events using List.reverseRecOn with
  | nil => exact Nat.zero_le 1
  | append_singleton events last ih =>
      rw [List.forall_mem_append, List.forall_mem_singleton] at unique
      rw [entriesAfter_snoc]
      rcases onEntries_cases (entriesAfter events) last with same | ⟨op, asked, admitted, changed⟩
      · rw [same]
        exact ih unique.1
      · rw [changed]
        exact length_onEntries_le_one (unique.2 op asked) admitted (ih unique.1)

end SkEvent

/-- A slot serves an update of the list that is open, or that it opens. -/
theorem Slot.serve_sk {Other : Type} {others : IndexKinds Other} {target : DatumId}
    {slot : Slot (TypedResident Other)} {entries : SkEntries}
    (opened : slot.openFor (typedIndexKinds others) target "sk" = .ok (.sk entries))
    (stored : slot.stored = skStored entries) (payload : Bytes) :
    ((∀ op, decodeSkIndexOp payload = .ok op → ¬op.Admitted entries) ∧
        ∃ violation, slot.serve (typedIndexKinds others) ⟨target, "sk", payload⟩ =
          (⟨skStored entries, some (.sk entries)⟩, some violation)) ∨
      ∃ op, decodeSkIndexOp payload = .ok op ∧ op.Admitted entries ∧
        slot.serve (typedIndexKinds others) ⟨target, "sk", payload⟩ =
          (⟨skStored (op.onEntries entries), some (.sk (op.onEntries entries))⟩, none) := by
  have applied : (typedIndexKinds others).apply (.sk entries) payload =
      (.sk (SkResidentIndex.apply entries payload).1,
        (SkResidentIndex.apply entries payload).2) := rfl
  simp only [Slot.serve, opened, applied]
  rcases SkResidentIndex.apply_cases entries payload with
    ⟨excluded, violation, refused⟩ | ⟨op, decoded, admitted, accepted⟩
  · rw [refused]
    exact Or.inl ⟨excluded, violation, by simp [stored]⟩
  · rw [accepted, persist_onStored]
    exact Or.inr ⟨op, decoded, admitted, rfl⟩

namespace SkHome

variable {Other : Type} (env : Env Other) (target : DatumId)

def turn (home : SkHome Other) (opId : DatumId) (payload : Bytes) (reply : IndexUpdateReply) :
    Turn (TypedResident Other) :=
  env.typed.serveIndexUpdate home.worker home.store target opId "sk" payload reply

def step (home : SkHome Other) : SkEvent → SkHome Other
  | .update opId payload reply =>
      let turn := home.turn env target opId payload reply
      ⟨turn.worker, turn.store⟩
  | .restart => ⟨Worker.new, home.store⟩

def run (store : Store) (events : List SkEvent) : SkHome Other :=
  events.foldl (step env target) ⟨Worker.new, store⟩

theorem run_snoc (store : Store) (events : List SkEvent) (last : SkEvent) :
    run env target store (events ++ [last]) = (run env target store events).step env target last := by
  simp only [run, List.foldl_append, List.foldl_cons, List.foldl_nil]

/-- The home keeps the list: it is what is stored, and what is resident if the list is open. -/
structure Keeps (home : SkHome Other) (entries : SkEntries) : Prop where
  resident : home.worker.residentIndexes target = none ∨
    home.worker.residentIndexes target = some (.sk entries)
  stored : home.store target = skStored entries
  proper : ProperEntries entries
  current : home.worker.cache.Copies home.store

variable {env} {target} {home : SkHome Other} {entries : SkEntries}

/-- A list that can be opened: an update is refused without a change, or it is accepted and
persisted. -/
theorem turn_cases (keeps : home.Keeps target entries) (short : entries.length < 2 ^ 32)
    (opId : DatumId) (payload : Bytes) (reply : IndexUpdateReply) :
    ((∀ op, decodeSkIndexOp payload = .ok op → ¬op.Admitted entries) ∧
        (home.turn env target opId payload reply).worker.residentIndexes target =
          some (.sk entries) ∧
        (home.turn env target opId payload reply).store target = skStored entries ∧
        ∃ violation, (home.turn env target opId payload reply).effects =
          [reply.respond opId target (some violation)]) ∨
      ∃ op, decodeSkIndexOp payload = .ok op ∧ op.Admitted entries ∧
        (home.turn env target opId payload reply).worker.residentIndexes target =
          some (.sk (op.onEntries entries)) ∧
        (home.turn env target opId payload reply).store target =
          skStored (op.onEntries entries) ∧
        (home.turn env target opId payload reply).effects = [reply.respond opId target none] := by
  rcases env.typed.serveIndexUpdate_eq_serve home.worker home.store
    ⟨target, "sk", payload⟩ opId reply keeps.current with ⟨slot, effects⟩
  change (⟨(home.turn env target opId payload reply).store target,
    (home.turn env target opId payload reply).worker.residentIndexes target⟩ :
      Slot (TypedResident Other)) = _ at slot
  change (home.turn env target opId payload reply).effects = _ at effects
  rw [Slot.mk.injEq] at slot
  rw [slot.1, slot.2, effects]
  clear slot effects
  have opened : Slot.openFor (typedIndexKinds env.indexKinds) target "sk"
      ⟨home.store target, home.worker.residentIndexes target⟩ = .ok (.sk entries) := by
    rcases keeps.resident with closed | resident
    · simp [Slot.openFor, closed, typedIndexKinds, keeps.stored,
        openStored_skStored keeps.proper target short, Except.map]
    · simp [Slot.openFor, resident]
  rcases Slot.serve_sk opened keeps.stored payload with
    ⟨excluded, violation, refused⟩ | ⟨op, decoded, admitted, accepted⟩
  · left
    rw [Env.typed, refused]
    exact ⟨excluded, rfl, rfl, violation, rfl⟩
  · right
    rw [Env.typed, accepted]
    exact ⟨op, decoded, admitted, rfl, rfl, rfl⟩

/-- A list that can be opened becomes what the event makes of it. -/
theorem keeps_step (keeps : home.Keeps target entries) (short : entries.length < 2 ^ 32)
    (event : SkEvent) : (home.step env target event).Keeps target (event.onEntries entries) := by
  cases event with
  | restart =>
      exact ⟨Or.inl rfl, keeps.stored, keeps.proper, fun _ _ cached => by cases cached⟩
  | update opId payload reply =>
      have current : (home.step env target (.update opId payload reply)).worker.cache.Copies
          (home.step env target (.update opId payload reply)).store :=
        Env.copies_serveIndexUpdate keeps.current target opId "sk" payload reply
      rcases turn_cases keeps short opId payload reply with
        ⟨excluded, resident, stored, _⟩ | ⟨op, decoded, admitted, resident, stored, _⟩
      · have same : (SkEvent.update opId payload reply).onEntries entries = entries := by
          rcases SkEvent.onEntries_cases entries (.update opId payload reply) with
            same | ⟨op, asked, admitted, _⟩
          · exact same
          · exact absurd admitted (excluded op (Service.eq_ok_of_toOption asked))
        rw [same]
        exact ⟨Or.inr resident, stored, keeps.proper, current⟩
      · have changed : (SkEvent.update opId payload reply).onEntries entries =
            op.onEntries entries := by
          simp [SkEvent.onEntries, SkEvent.op, decoded, Except.toOption, admitted]
        rw [changed]
        exact ⟨Or.inr resident, stored, keeps.proper.onEntries, current⟩

/-- A home that starts with nothing stored keeps the list, as long as it could be opened before. -/
theorem keeps_run {store : Store} (absent : store target = none) (events : List SkEvent)
    (short : ∀ past, past <+: events → past ≠ events →
      (SkEvent.entriesAfter past).length < 2 ^ 32) :
    (run env target store events).Keeps target (SkEvent.entriesAfter events) := by
  induction events using List.reverseRecOn with
  | nil =>
      refine ⟨Or.inl rfl, absent, ⟨List.nodup_nil, ?_⟩, ?_⟩
      · exact fun entry entryMem => absurd entryMem List.not_mem_nil
      · exact fun _ _ cached => by cases cached
  | append_singleton events last ih =>
      have earlier : ∀ past, past <+: events → (SkEvent.entriesAfter past).length < 2 ^ 32 := by
        intro past before
        refine short past (before.trans (List.prefix_append events [last])) ?_
        rintro rfl
        have longer := before.length_le
        rw [List.length_append, List.length_singleton] at longer
        omega
      rw [run_snoc, SkEvent.entriesAfter_snoc]
      exact keeps_step (ih fun past before _ => earlier past before)
        (earlier events (List.prefix_refl events)) last

theorem respond_inj {reply : IndexUpdateReply} {opId : DatumId} {first second : Option String}
    (same : [reply.respond opId target first] = [reply.respond opId target second]) :
    first = second := by
  cases reply <;> simpa [IndexUpdateReply.respond] using same

variable (env target)

/-- What is expected of a secondary key after some events: the home keeps the proper list, open or
stored, an update that is refused changes nothing, one that is accepted is persisted, and the stored
bytes open to the list. -/
structure Sound (events : List SkEvent) (home : SkHome Other) : Prop where
  distinct : ((SkEvent.entriesAfter events).map Prod.fst).Nodup
  unique : (∀ event ∈ events, ∀ op, event.op = some op → op.Unique) →
    (SkEvent.entriesAfter events).length ≤ 1
  resident : home.worker.residentIndexes target = none ∨
    home.worker.residentIndexes target = some (.sk (SkEvent.entriesAfter events))
  stored : home.store target = skStored (SkEvent.entriesAfter events)
  refused : ∀ opId payload reply violation,
    (home.turn env target opId payload reply).effects =
      [reply.respond opId target (some violation)] →
    (home.turn env target opId payload reply).store target = home.store target ∧
      (home.turn env target opId payload reply).worker.residentIndexes target =
        some (.sk (SkEvent.entriesAfter events))
  accepted : ∀ opId payload reply,
    (home.turn env target opId payload reply).effects = [reply.respond opId target none] →
    ∃ op, decodeSkIndexOp payload = .ok op ∧
      (home.turn env target opId payload reply).worker.residentIndexes target =
        some (.sk (op.onEntries (SkEvent.entriesAfter events))) ∧
      (home.turn env target opId payload reply).store target =
        skStored (op.onEntries (SkEvent.entriesAfter events))
  reopened : SkResidentIndex.openStored target (home.store target) =
    .ok (SkEvent.entriesAfter events)

variable {env target}

/-- A home that keeps a list that can be opened is sound. -/
theorem Keeps.sound {events : List SkEvent}
    (keeps : home.Keeps target (SkEvent.entriesAfter events))
    (short : (SkEvent.entriesAfter events).length < 2 ^ 32) : Sound env target events home where
  distinct := keeps.proper.distinct
  unique := SkEvent.length_entriesAfter_le_one
  resident := keeps.resident
  stored := keeps.stored
  refused := by
    intro opId payload reply violation answered
    rcases turn_cases keeps short opId payload reply with
      ⟨_, resident, stored, _⟩ | ⟨_, _, _, _, _, effects⟩
    · exact ⟨stored.trans keeps.stored.symm, resident⟩
    · rw [effects] at answered
      cases respond_inj answered
  accepted := by
    intro opId payload reply answered
    rcases turn_cases keeps short opId payload reply with
      ⟨_, _, _, violation, effects⟩ | ⟨op, decoded, _, resident, stored, _⟩
    · rw [effects] at answered
      cases respond_inj answered
    · exact ⟨op, decoded, resident, stored⟩
  reopened := by
    rw [keeps.stored]
    exact openStored_skStored keeps.proper target short

/-- What is stored for a long list does not open to it. -/
theorem Sound.short {events : List SkEvent} (sound : Sound env target events home) :
    (SkEvent.entriesAfter events).length < 2 ^ 32 := by
  by_contra long
  rcases openStored_skStored_long target (not_lt.mp long) with ⟨message, unread⟩
  have reopened := sound.reopened
  rw [sound.stored, unread] at reopened
  cases reopened

/-- In every run, everything is as expected of a secondary key at every time exactly if its list has
fewer than 2^32 entries at every time, as it has in a run of fewer than 2^32 updates. -/
theorem sound_iff (env : Env Other) (target : DatumId) {store : Store}
    (absent : store target = none) (events : List SkEvent) :
    ((∀ past, past <+: events → Sound env target past (run env target store past)) ↔
      ∀ past, past <+: events → (SkEvent.entriesAfter past).length < 2 ^ 32) ∧
    (events.length < 2 ^ 32 → Sound env target events (run env target store events)) := by
  have enough : ∀ events : List SkEvent,
      (∀ past, past <+: events → (SkEvent.entriesAfter past).length < 2 ^ 32) →
        Sound env target events (run env target store events) := by
    intro events short
    exact (keeps_run absent events fun past before _ => short past before).sound
      (short events (List.prefix_refl events))
  refine ⟨⟨fun sound past before => (sound past before).short, ?_⟩, ?_⟩
  · exact fun short past before =>
      enough past fun earlier first => short earlier (first.trans before)
  · exact fun few => enough events fun past before =>
      (SkEvent.length_entriesAfter_le past).trans_lt (before.length_le.trans_lt few)

/-- A worker without ops and without other kinds. -/
def bareEnv : Env Unit where
  selfNodeId := 0
  native := fun _ => (0, 0)
  linked := fun _ => false
  ops := fun _ => none
  indexKinds :=
    { kinds := fun _ => none
      apply := fun resident _ => (resident, ⟨none, .none⟩)
      query := fun _ _ => .error "no queries"
      execute := fun resident _ => (resident, .error "no execute ops") }

/-- A unique insert of a second pk is refused, and the list survives a restart. -/
theorem sound_iff_unique :
    let events : List SkEvent :=
      [.update 7 (encodeSkIndexOp (.insert 1 (some "taken"))) (.local 0),
        .update 8 (encodeSkIndexOp (.insert 2 (some "taken"))) (.local 0), .restart,
        .update 9 (encodeSkIndexOp (.remove 1)) (.local 0)]
    Sound bareEnv 5 events (run bareEnv 5 (fun _ => none) events) :=
  (sound_iff bareEnv 5 rfl _).2 (by decide)

/-! ## A list that cannot be opened -/

def pkAt (index : ℕ) : DatumId := Fin.ofNat (2 ^ 128) index

def listed (count : ℕ) : SkEntries := (List.range count).map fun index => (pkAt index, .native)

def insertions (count : ℕ) : List SkEvent :=
  (List.range count).map fun index =>
    .update 0 (encodeSkIndexOp (.insert (pkAt index) none)) (.local 0)

theorem onEntries_listed {count : ℕ} (more : count < 2 ^ 128) :
    (SkIndexOp.insert (pkAt count) none).onEntries (listed count) = listed (count + 1) := by
  have absent : ((listed count).any fun entry => entry.1 = pkAt count) = false := by
    simp only [listed, List.any_map, List.any_eq_false, List.mem_range, Function.comp_apply,
      decide_eq_true_eq]
    intro index less same
    have values := congrArg Fin.val same
    simp only [pkAt, Fin.val_ofNat, Nat.mod_eq_of_lt more, Nat.mod_eq_of_lt (less.trans more)]
      at values
    exact less.ne values
  rw [SkIndexOp.onEntries, absent]
  simp [listed, List.range_succ]

/-- Distinct pks that are inserted one after another are all listed. -/
theorem entriesAfter_insertions {count : ℕ} (few : count ≤ 2 ^ 128) :
    SkEvent.entriesAfter (insertions count) = listed count := by
  induction count with
  | zero => rfl
  | succ count ih =>
      have next : insertions (count + 1) = insertions count ++
          [.update 0 (encodeSkIndexOp (.insert (pkAt count) none)) (.local 0)] := by
        simp [insertions, List.range_succ]
      have decoded : decodeSkIndexOp (encodeSkIndexOp (.insert (pkAt count) none)) =
          .ok (.insert (pkAt count) none) :=
        decodeSkIndexOp_insert (pkAt count) (by simp)
      rw [next, SkEvent.entriesAfter_snoc, ih (Nat.le_of_succ_le few), ← onEntries_listed few]
      simp [SkEvent.onEntries, SkEvent.op, decoded, Except.toOption, SkIndexOp.Admitted]

/-- After 2^32 inserts of different pks the stored bytes cannot be opened. -/
theorem long_list_not_reopened :
    ¬∀ past, past <+: insertions (2 ^ 32) →
      Sound bareEnv 5 past (run bareEnv 5 (fun _ => none) past) := by
  intro sound
  have short := (sound _ (List.prefix_refl _)).short
  rw [entriesAfter_insertions (Nat.pow_le_pow_right Nat.two_pos (by decide)), listed,
    List.length_map, List.length_range] at short
  exact absurd short (lt_irrefl _)

end SkHome

end Seisin
