import Mathlib
import Seisin.Lib.Bytes

/-!
# Decoders that read at a cursor

A decoder reads one field after another at a cursor that it moves.  `Accepts take grammar` says all
it can do: at a cursor where `word` and then `rest` follow, it returns `value` and stops after
`word` exactly if `grammar value word rest`.  Soundness and completeness of a decoder are the two
directions of one such statement, and a decoder made of others accepts what `Accepts.bind` says.
-/

namespace Cursor

open ByteString

/-- Code that reads a buffer at a cursor and moves the cursor. -/
abbrev Take (Value : Type) := ReaderT (List UInt8) (StateT ℕ (Except String)) Value

/-- Which words stand for a value, given the bytes that follow them. -/
abbrev Grammar (Value : Type) := Value → List UInt8 → List UInt8 → Prop

def fail {Value : Type} (message : String) : Take Value := fun _ _ => .error message

/-- The next `width` bytes. -/
def window (width : ℕ) (truncated : ℕ → String) : Take (List UInt8) := fun buf offset =>
  if buf.length < offset + width then .error (truncated offset)
  else .ok ((buf.drop offset).take width, offset + width)

/-- A little-endian number of `width` bytes. -/
def number (width : ℕ) (truncated : ℕ → String) : Take ℕ := leNat <$> window width truncated

/-- All bytes that are left. -/
def tail : Take (List UInt8) := fun buf offset => .ok (buf.drop offset, buf.length)

/-- Nothing may be left. -/
def finished (trailing : ℕ → String) : Take Unit := fun buf offset =>
  if offset ≠ buf.length then .error (trailing (buf.length - offset)) else .ok ((), offset)

def text (invalid : String) (bytes : List UInt8) : Take String :=
  match toString? bytes with
  | none => fail invalid
  | some text => pure text

/-- `count` values in a row. -/
def times {Value : Type} (take : Take Value) : ℕ → Take (List Value)
  | 0 => pure []
  | count + 1 => do
      let value ← take
      let values ← times take count
      return value :: values

/-- A read that must reach the end of the buffer. -/
def whole {Value : Type} (trailing : ℕ → String) (take : Take Value) : Take Value := do
  let value ← take
  finished trailing
  return value

/-- A decoder of whole buffers, on what is left. -/
def embedded {Value : Type} (decode : List UInt8 → Except String Value) : Take Value :=
  fun buf offset =>
    match decode (buf.drop offset) with
    | .error message => .error message
    | .ok value => .ok (value, buf.length)

/-- A result that does not depend on the buffer. -/
def lift {Value : Type} (result : Except String Value) : Take Value := fun _ offset =>
  match result with
  | .error message => .error message
  | .ok value => .ok (value, offset)

/-- So many bytes must be left. -/
def left (count : ℕ) (wrong : ℕ → String) : Take Unit := fun buf offset =>
  if buf.length ≠ offset + count then .error (wrong buf.length) else .ok ((), offset)

/-- A read that a check of the length of the whole buffer comes before. -/
def sized {Value : Type} (total : ℕ) (wrong : ℕ → String) (take : Take Value) : Take Value :=
  fun buf offset => if buf.length ≠ total then .error (wrong buf.length) else take buf offset

/-- A read that a check of the length comes before, which lets longer buffers pass. -/
def atLeast {Value : Type} (least : ℕ) (short : ℕ → String) (take : Take Value) : Take Value :=
  fun buf offset => if buf.length < least then .error (short buf.length) else take buf offset

/-- The value read from an offset on. -/
def run {Value : Type} (take : Take Value) (buf : List UInt8) (offset : ℕ) : Except String Value :=
  match take buf offset with
  | .error message => .error message
  | .ok (value, _) => .ok value

def Accepts {Value : Type} (take : Take Value) (grammar : Grammar Value) : Prop :=
  ∀ (before bytes : List UInt8) (value : Value) (next : ℕ),
    take (before ++ bytes) before.length = .ok (value, next) ↔
      ∃ word rest, bytes = word ++ rest ∧ grammar value word rest ∧
        next = before.length + word.length

/-- The one spelling of every value that fits, whatever follows it. -/
def Exactly {Value : Type} (fits : Value → Prop) (encode : Value → List UInt8) : Grammar Value :=
  fun value word _ => fits value ∧ word = encode value

/-- A grammar of words that nothing follows. -/
def Whole {Value : Type} (grammar : Grammar Value) : Grammar Value :=
  fun value word rest => grammar value word rest ∧ rest = []

variable {Value Next : Type} {take : Take Value} {grammar other : Grammar Value}
  {fits : Value → Prop} {encode : Value → List UInt8}

/-! ## Rules -/

theorem Accepts.congr (accepts : Accepts take grammar)
    (same : ∀ value word rest, grammar value word rest ↔ other value word rest) :
    Accepts take other := by
  intro before bytes value next
  rw [accepts before bytes value next]
  simp only [same]

theorem Accepts.pure (value : Value) :
    Accepts (Pure.pure value : Take Value) fun result word _ => result = value ∧ word = [] := by
  intro before bytes result next
  change (Except.ok (value, before.length) : Except String (Value × ℕ)) = _ ↔ _
  simp only [Except.ok.injEq, Prod.mk.injEq]
  constructor
  · rintro ⟨rfl, rfl⟩
    exact ⟨[], bytes, rfl, ⟨rfl, rfl⟩, rfl⟩
  · rintro ⟨word, rest, -, ⟨rfl, rfl⟩, rfl⟩
    exact ⟨rfl, rfl⟩

theorem Accepts.fail (message : String) :
    Accepts (fail message : Take Value) fun _ _ _ => False := by
  intro before bytes value next
  simp [Cursor.fail]

/-- Both of two reads succeed if they do one after the other. -/
theorem bind_eq_ok {rest : Value → Take Next} {buf : List UInt8} {offset last : ℕ}
    {result : Next} :
    (take >>= rest) buf offset = .ok (result, last) ↔
      ∃ value middle, take buf offset = .ok (value, middle) ∧
        rest value buf middle = .ok (result, last) := by
  change (take buf offset >>= fun read => rest read.1 buf read.2) = _ ↔ _
  cases read : take buf offset with
  | error message => simp [bind, Except.bind]
  | ok read => simp [bind, Except.bind, Prod.ext_iff]

theorem Accepts.bind {rest : Value → Take Next} {later : Value → Grammar Next}
    (first : Accepts take grammar) (second : ∀ value, Accepts (rest value) (later value)) :
    Accepts (take >>= rest) fun result word after =>
      ∃ value front back, word = front ++ back ∧ grammar value front (back ++ after) ∧
        later value result back after := by
  intro before bytes result last
  rw [bind_eq_ok]
  constructor
  · rintro ⟨value, middle, firstRead, secondRead⟩
    rcases (first before bytes value middle).mp firstRead with ⟨front, left, rfl, holds, rfl⟩
    rw [← List.append_assoc, ← List.length_append] at secondRead
    rcases (second value _ _ _ _).mp secondRead with ⟨back, after, rfl, holdsLater, rfl⟩
    refine ⟨front ++ back, after, (List.append_assoc ..).symm, ⟨value, front, back, rfl, holds,
      holdsLater⟩, ?_⟩
    rw [List.length_append, List.length_append]
    omega
  · rintro ⟨word, after, rfl, ⟨value, front, back, rfl, holds, holdsLater⟩, rfl⟩
    refine ⟨value, (before ++ front).length, ?_, ?_⟩
    · rw [first]
      exact ⟨front, back ++ after, List.append_assoc .., holds, List.length_append⟩
    · rw [show before ++ (front ++ back ++ after) = (before ++ front) ++ (back ++ after) by simp,
        second]
      refine ⟨back, after, rfl, holdsLater, ?_⟩
      rw [List.length_append, List.length_append]
      omega

/-- A field with one spelling, and what follows it. -/
theorem Accepts.then {rest : Value → Take Next} {later : Value → Grammar Next}
    (first : Accepts take (Exactly fits encode))
    (second : ∀ value, Accepts (rest value) (later value)) :
    Accepts (take >>= rest) fun result word after =>
      ∃ value back, fits value ∧ word = encode value ++ back ∧ later value result back after := by
  refine (first.bind second).congr fun result word after => ?_
  constructor
  · rintro ⟨value, front, back, rfl, ⟨fitting, rfl⟩, holds⟩
    exact ⟨value, back, fitting, rfl, holds⟩
  · rintro ⟨value, back, fitting, rfl, holds⟩
    exact ⟨value, _, back, rfl, ⟨fitting, rfl⟩, holds⟩

theorem Accepts.map (accepts : Accepts take grammar) (change : Value → Next) :
    Accepts (change <$> take) fun result word rest =>
      ∃ value, result = change value ∧ grammar value word rest := by
  have unfolded : (change <$> take : Take Next) = take >>= fun value => Pure.pure (change value) :=
    (bind_pure_comp change take).symm
  rw [unfolded]
  refine (accepts.bind fun value => .pure (change value)).congr fun result word rest => ?_
  constructor
  · rintro ⟨value, front, back, rfl, holds, rfl, rfl⟩
    exact ⟨value, rfl, by rwa [List.append_nil]⟩
  · rintro ⟨value, rfl, holds⟩
    exact ⟨value, word, [], (List.append_nil _).symm, holds, rfl, rfl⟩

/-- A field read in another form. -/
theorem Accepts.mapExactly {fitsNext : Next → Prop} (accepts : Accepts take (Exactly fits encode))
    (change : Value → Next) (back : Next → Value)
    (inverse : ∀ value next, fits value ∧ next = change value ↔ fitsNext next ∧ value = back next) :
    Accepts (change <$> take) (Exactly fitsNext fun next => encode (back next)) := by
  refine (accepts.map change).congr fun result word rest => ?_
  constructor
  · rintro ⟨value, changed, fitting, rfl⟩
    rcases (inverse value result).mp ⟨fitting, changed⟩ with ⟨fittingNext, rfl⟩
    exact ⟨fittingNext, rfl⟩
  · rintro ⟨fittingNext, rfl⟩
    rcases (inverse (back result) result).mpr ⟨fittingNext, rfl⟩ with ⟨fitting, changed⟩
    exact ⟨back result, changed, fitting, rfl⟩

theorem run_eq_ok {buf : List UInt8} {offset : ℕ} {value : Value} :
    run take buf offset = .ok value ↔ ∃ next, take buf offset = .ok (value, next) := by
  unfold run
  cases take buf offset with
  | error message => simp
  | ok read => simp [Prod.ext_iff]

theorem Accepts.run_eq_ok (accepts : Accepts take grammar) (before : List UInt8)
    {bytes : List UInt8} {value : Value} :
    run take (before ++ bytes) before.length = .ok value ↔
      ∃ word rest, bytes = word ++ rest ∧ grammar value word rest := by
  rw [Cursor.run_eq_ok]
  simp only [accepts before bytes]
  constructor
  · rintro ⟨next, word, rest, split, holds, -⟩
    exact ⟨word, rest, split, holds⟩
  · rintro ⟨word, rest, split, holds⟩
    exact ⟨_, word, rest, split, holds, rfl⟩

/-- Words of one length, which nothing follows in a buffer of that length. -/
theorem Accepts.sized_eq_ok (accepts : Accepts take grammar)
    (sound : ∀ value word rest, grammar value word rest → fits value ∧ word = encode value)
    (complete : ∀ value, fits value → grammar value (encode value) []) {total : ℕ}
    {wrong : ℕ → String} (before : List UInt8) {bytes : List UInt8} {value : Value}
    (fixed : ∀ value, fits value → before.length + (encode value).length = total) :
    run (sized total wrong take) (before ++ bytes) before.length = .ok value ↔
      fits value ∧ bytes = encode value := by
  have checked : sized total wrong take (before ++ bytes) before.length =
      if (before ++ bytes).length ≠ total then .error (wrong (before ++ bytes).length)
      else take (before ++ bytes) before.length := rfl
  constructor
  · intro read
    rcases Cursor.run_eq_ok.mp read with ⟨next, taken⟩
    rw [checked] at taken
    split at taken
    · cases taken
    · rename_i passes
      rcases (accepts before bytes value next).mp taken with ⟨word, rest, rfl, holds, -⟩
      rcases sound value word rest holds with ⟨fitting, rfl⟩
      have total := fixed value fitting
      have nothing : rest = [] := by
        apply List.eq_nil_of_length_eq_zero
        simp only [List.length_append] at passes
        omega
      exact ⟨fitting, by rw [nothing, List.append_nil]⟩
  · rintro ⟨fitting, rfl⟩
    have passes : (before ++ encode value).length = total := by
      rw [List.length_append, fixed value fitting]
    rw [Cursor.run_eq_ok]
    refine ⟨before.length + (encode value).length, ?_⟩
    rw [checked, if_neg (not_not_intro passes), accepts]
    exact ⟨encode value, [], (List.append_nil _).symm, complete value fitting, rfl⟩

/-- A check that every word passes changes nothing. -/
theorem Accepts.atLeast_eq_ok (accepts : Accepts take grammar) {least : ℕ} {short : ℕ → String}
    (before : List UInt8) {bytes : List UInt8} {value : Value}
    (passes : ∀ value word rest, grammar value word rest →
      least ≤ before.length + (word ++ rest).length) :
    run (atLeast least short take) (before ++ bytes) before.length = .ok value ↔
      ∃ word rest, bytes = word ++ rest ∧ grammar value word rest := by
  have checked : atLeast least short take (before ++ bytes) before.length =
      if (before ++ bytes).length < least then .error (short (before ++ bytes).length)
      else take (before ++ bytes) before.length := rfl
  by_cases tooShort : (before ++ bytes).length < least
  · rw [Cursor.run_eq_ok, checked, if_pos tooShort]
    constructor
    · rintro ⟨next, read⟩
      cases read
    · rintro ⟨word, rest, rfl, holds⟩
      have long := passes value word rest holds
      rw [List.length_append] at tooShort
      omega
  · have unchecked : run take (before ++ bytes) before.length = .ok value ↔ _ :=
      accepts.run_eq_ok before
    rw [← unchecked, Cursor.run_eq_ok, Cursor.run_eq_ok, checked, if_neg tooShort]

/-! ## Fields -/

theorem window_accepts (width : ℕ) (truncated : ℕ → String) :
    Accepts (window width truncated) (Exactly (fun bytes => bytes.length = width) id) := by
  intro before bytes value next
  unfold window
  simp only [List.drop_left, List.length_append, Nat.add_lt_add_iff_left]
  constructor
  · intro read
    split at read
    · cases read
    · rename_i enough
      cases read
      refine ⟨bytes.take width, bytes.drop width, (List.take_append_drop ..).symm, ⟨?_, rfl⟩, ?_⟩
      · exact List.length_take_of_le (Nat.le_of_not_lt enough)
      · rw [List.length_take_of_le (Nat.le_of_not_lt enough)]
  · rintro ⟨word, rest, rfl, ⟨rfl, rfl⟩, rfl⟩
    rw [if_neg (by rw [List.length_append]; exact Nat.not_lt.mpr (Nat.le_add_right ..))]
    simp only [List.take_left]

theorem number_accepts (width : ℕ) (truncated : ℕ → String) :
    Accepts (number width truncated) (Exactly (fun value => value < 256 ^ width)
      (leBytes width)) := by
  refine (window_accepts width truncated).mapExactly leNat (leBytes width) fun bytes value => ?_
  constructor
  · rintro ⟨rfl, rfl⟩
    exact ⟨leNat_lt bytes, (leBytes_leNat bytes).symm⟩
  · rintro ⟨fitting, rfl⟩
    exact ⟨length_leBytes width value, (leNat_leBytes fitting).symm⟩

theorem tail_accepts : Accepts tail fun value word rest => value = word ∧ rest = [] := by
  intro before bytes value next
  simp only [tail, List.drop_left, List.length_append, Except.ok.injEq, Prod.mk.injEq]
  constructor
  · rintro ⟨rfl, rfl⟩
    exact ⟨bytes, [], (List.append_nil _).symm, ⟨rfl, rfl⟩, rfl⟩
  · rintro ⟨word, rest, rfl, ⟨rfl, rfl⟩, rfl⟩
    simp

/-- A value made of all bytes that are left. -/
theorem tailThen_accepts {make : List UInt8 → Value} :
    Accepts (tail >>= fun bytes => Pure.pure (make bytes)) fun value word rest =>
      value = make word ∧ rest = [] := by
  refine (tail_accepts.bind fun bytes => .pure (make bytes)).congr fun value word rest => ?_
  constructor
  · rintro ⟨bytes, front, back, rfl, ⟨rfl, nothing⟩, rfl, rfl⟩
    exact ⟨by rw [List.append_nil], nothing⟩
  · rintro ⟨rfl, rfl⟩
    exact ⟨word, word, [], (List.append_nil _).symm, ⟨rfl, rfl⟩, rfl, rfl⟩

theorem finished_accepts (trailing : ℕ → String) :
    Accepts (finished trailing) fun _ word rest => word = [] ∧ rest = [] := by
  intro before bytes value next
  unfold finished
  rw [List.length_append]
  constructor
  · intro read
    split at read
    · cases read
    · rename_i atEnd
      cases read
      have empty : bytes = [] := List.eq_nil_of_length_eq_zero (by omega)
      exact ⟨[], [], empty, ⟨rfl, rfl⟩, rfl⟩
  · rintro ⟨word, rest, rfl, ⟨rfl, rfl⟩, rfl⟩
    simp

theorem Accepts.whole (accepts : Accepts take grammar) (trailing : ℕ → String) :
    Accepts (whole trailing take) (Whole grammar) := by
  refine (accepts.bind fun value => (finished_accepts trailing).bind fun _ => .pure value).congr
    fun result word rest => ?_
  constructor
  · rintro ⟨value, front, _, rfl, holds, -, _, _, rfl, ⟨rfl, empty⟩, rfl, rfl⟩
    simp only [List.nil_append] at empty
    subst empty
    simp only [List.append_nil] at holds ⊢
    exact ⟨holds, rfl⟩
  · rintro ⟨holds, rfl⟩
    exact ⟨result, word, [], (List.append_nil _).symm, holds, (), [], [], rfl, ⟨rfl, rfl⟩, rfl, rfl⟩

/-- A buffer is read to its end if it spells the value. -/
theorem Accepts.whole_eq_ok (accepts : Accepts take (Exactly fits encode)) {trailing : ℕ → String}
    (before : List UInt8) {bytes : List UInt8} {value : Value} :
    run (Cursor.whole trailing take) (before ++ bytes) before.length = .ok value ↔
      fits value ∧ bytes = encode value := by
  rw [(accepts.whole trailing).run_eq_ok]
  constructor
  · rintro ⟨word, rest, rfl, ⟨fitting, rfl⟩, rfl⟩
    exact ⟨fitting, List.append_nil _⟩
  · rintro ⟨fitting, rfl⟩
    exact ⟨_, [], (List.append_nil _).symm, ⟨fitting, rfl⟩, rfl⟩

theorem text_accepts (invalid : String) (bytes : List UInt8) :
    Accepts (text invalid bytes) fun value word _ => bytes = ofString value ∧ word = [] := by
  unfold text
  cases decoded : toString? bytes with
  | none =>
      refine (Accepts.fail invalid).congr fun value word rest => ?_
      simp only [false_iff, not_and]
      rintro rfl
      rw [toString?_ofString] at decoded
      cases decoded
  | some read =>
      refine (Accepts.pure read).congr fun value word rest => ?_
      rw [toString?_eq_some_iff] at decoded
      subst decoded
      simp only [ofString_inj, eq_comm]

theorem lift_accepts (result : Except String Value) :
    Accepts (lift result) fun value word _ => result = .ok value ∧ word = [] := by
  cases result with
  | error message => exact (Accepts.fail message).congr fun value word rest => by simp
  | ok inner => exact (Accepts.pure inner).congr fun value word rest => by simp [eq_comm]

theorem left_accepts (count : ℕ) (wrong : ℕ → String) :
    Accepts (left count wrong) fun _ word rest => word = [] ∧ rest.length = count := by
  intro before bytes value next
  unfold left
  rw [List.length_append]
  constructor
  · intro read
    split at read
    · cases read
    · rename_i exact
      cases read
      exact ⟨[], bytes, rfl, ⟨rfl, by omega⟩, rfl⟩
  · rintro ⟨word, rest, rfl, ⟨rfl, rfl⟩, rfl⟩
    simp

/-- Values in a row, each with a word of its own. -/
theorem timesSpelled_accepts {spelled : Value → List UInt8 → Prop}
    (accepts : Accepts take fun value word _ => spelled value word) (count : ℕ) :
    Accepts (times take count) fun values word _ => values.length = count ∧
      ∃ words, List.Forall₂ spelled values words ∧ word = words.flatten := by
  induction count with
  | zero =>
      refine (Accepts.pure []).congr fun values word rest => ?_
      rw [List.length_eq_zero_iff]
      constructor
      · rintro ⟨rfl, rfl⟩
        exact ⟨rfl, [], .nil, rfl⟩
      · rintro ⟨rfl, words, spelling, rfl⟩
        rw [List.forall₂_nil_left_iff.mp spelling]
        exact ⟨rfl, rfl⟩
  | succ count ih =>
      refine (accepts.bind fun value => ih.bind fun values => .pure _).congr
        fun values word rest => ?_
      constructor
      · rintro ⟨value, front, _, rfl, spelling, values, _, _, rfl, ⟨rfl, words, others, rfl⟩, rfl,
          rfl⟩
        exact ⟨rfl, front :: words, .cons spelling others, by simp⟩
      · rintro ⟨length, words, spelling, rfl⟩
        cases spelling with
        | nil => cases length
        | @cons value front values words spelling others =>
            exact ⟨value, front, words.flatten, rfl, spelling, values, words.flatten, [],
              (List.append_nil _).symm, ⟨Nat.succ.inj length, words, others, rfl⟩, rfl, rfl⟩

/-- The words of values with one spelling each. -/
theorem forall₂_exactly_iff {values : List Value} {words : List (List UInt8)} :
    List.Forall₂ (fun value word => fits value ∧ word = encode value) values words ↔
      (∀ value ∈ values, fits value) ∧ words = values.map encode := by
  induction values generalizing words with
  | nil => simp
  | cons value values ih =>
      cases words with
      | nil => simp
      | cons word words =>
          rw [List.forall₂_cons, ih, List.forall_mem_cons, List.map_cons, List.cons.injEq]
          tauto

theorem times_accepts (accepts : Accepts take (Exactly fits encode)) (count : ℕ) :
    Accepts (times take count) (Exactly
      (fun values => values.length = count ∧ ∀ value ∈ values, fits value)
      (fun values => values.flatMap encode)) := by
  refine (timesSpelled_accepts accepts count).congr fun values word rest => ?_
  constructor
  · rintro ⟨length, words, spelling, rfl⟩
    rcases forall₂_exactly_iff.mp spelling with ⟨fit, rfl⟩
    exact ⟨⟨length, fit⟩, (List.flatMap_def ..).symm⟩
  · rintro ⟨⟨length, fit⟩, rfl⟩
    exact ⟨length, values.map encode, forall₂_exactly_iff.mpr ⟨fit, rfl⟩, List.flatMap_def ..⟩

theorem embedded_accepts {decode : List UInt8 → Except String Value}
    {spelled : Value → List UInt8 → Prop}
    (decodes : ∀ buf value, decode buf = .ok value ↔ spelled value buf) :
    Accepts (embedded decode) (Whole fun value word _ => spelled value word) := by
  intro before bytes value next
  unfold embedded
  rw [List.drop_left, List.length_append]
  constructor
  · intro read
    cases decoded : decode bytes with
    | error message => rw [decoded] at read; cases read
    | ok inner =>
        rw [decoded] at read
        cases read
        exact ⟨bytes, [], (List.append_nil _).symm, ⟨(decodes ..).mp decoded, rfl⟩, rfl⟩
  · rintro ⟨word, rest, rfl, ⟨spelling, rfl⟩, rfl⟩
    rw [List.append_nil, (decodes ..).mpr spelling]

/-- A value made of what a decoder of whole buffers finds in the rest. -/
theorem embeddedThen_accepts {decode : List UInt8 → Except String Value}
    {spelled : Value → List UInt8 → Prop} {make : Value → Next}
    (decodes : ∀ buf value, decode buf = .ok value ↔ spelled value buf) :
    Accepts (embedded decode >>= fun value => Pure.pure (make value)) fun result word rest =>
      (∃ value, result = make value ∧ spelled value word) ∧ rest = [] := by
  refine ((embedded_accepts decodes).bind fun value => .pure (make value)).congr
    fun result word rest => ?_
  constructor
  · rintro ⟨value, front, back, rfl, ⟨spelling, nothing⟩, rfl, rfl⟩
    exact ⟨⟨value, rfl, by rwa [List.append_nil]⟩, nothing⟩
  · rintro ⟨⟨value, rfl, spelling⟩, rfl⟩
    exact ⟨value, word, [], (List.append_nil _).symm, ⟨spelling, rfl⟩, rfl, rfl⟩

/-! ## Tagged messages -/

/-- A format of messages that start with a tag.  `spells message word` says that `word` may stand
after the tag; after an `unchecked` message anything may follow. -/
structure Format (Message : Type) where
  tag : Message → UInt8
  fits : Message → Prop
  spells : Message → List UInt8 → Prop
  unchecked : Message → Prop

namespace Format

variable {Message : Type} {format : Format Message} {tag : UInt8} {take : Take Message}

/-- The messages with a tag. -/
def Of (format : Format Message) (tag : UInt8) (message : Message) : Prop :=
  format.tag message = tag ∧ format.fits message

/-- What follows the tag spells the message. -/
def Variant (format : Format Message) (tag : UInt8) : Grammar Message :=
  fun message word _ => format.Of tag message ∧ format.spells message word

/-- The decoder of a tag reads the messages with that tag and no others. -/
def Reads (format : Format Message) (tag : UInt8)
    (decode : List UInt8 → Except String Message) : Prop :=
  ∀ bytes message, decode (tag :: bytes) = .ok message ↔
    format.Of tag message ∧ ∃ word rest, bytes = word ++ rest ∧
      format.spells message word ∧ (rest = [] ∨ format.unchecked message)

theorem reads_whole (accepts : Accepts take (Whole (format.Variant tag)))
    (checked : ∀ message, format.tag message = tag → ¬format.unchecked message) :
    format.Reads tag fun buf => run take buf 1 := by
  intro bytes message
  have read : run take (tag :: bytes) 1 = .ok message ↔ _ := accepts.run_eq_ok [tag]
  rw [read]
  constructor
  · rintro ⟨word, rest, split, ⟨isVariant, spelled⟩, nothing⟩
    exact ⟨isVariant, word, rest, split, spelled, .inl nothing⟩
  · rintro ⟨isVariant, word, rest, split, spelled, nothing | unchecked⟩
    · exact ⟨word, rest, split, ⟨isVariant, spelled⟩, nothing⟩
    · exact (checked message isVariant.1 unchecked).elim

theorem reads_unchecked (accepts : Accepts take (format.Variant tag))
    (unchecked : ∀ message, format.tag message = tag → format.unchecked message) :
    format.Reads tag fun buf => run take buf 1 := by
  intro bytes message
  have read : run take (tag :: bytes) 1 = .ok message ↔ _ := accepts.run_eq_ok [tag]
  rw [read]
  constructor
  · rintro ⟨word, rest, split, isVariant, spelled⟩
    exact ⟨isVariant, word, rest, split, spelled, .inr (unchecked message isVariant.1)⟩
  · rintro ⟨isVariant, word, rest, split, spelled, -⟩
    exact ⟨word, rest, split, isVariant, spelled⟩

theorem reads_sized (fields : Message → List UInt8) {grammar : Grammar Message} {total : ℕ}
    {wrong : ℕ → String} (accepts : Accepts take grammar)
    (sound : ∀ message word rest, grammar message word rest →
      format.Of tag message ∧ word = fields message)
    (complete : ∀ message, format.Of tag message → grammar message (fields message) [])
    (spelled : ∀ message word, format.spells message word ↔ word = fields message)
    (fixed : ∀ message, format.tag message = tag → 1 + (fields message).length = total)
    (checked : ∀ message, format.tag message = tag → ¬format.unchecked message) :
    format.Reads tag fun buf => run (sized total wrong take) buf 1 := by
  intro bytes message
  have read : run (sized total wrong take) (tag :: bytes) 1 = .ok message ↔ _ :=
    accepts.sized_eq_ok sound complete [tag] fun message isVariant => fixed message isVariant.1
  rw [read]
  simp only [spelled]
  constructor
  · rintro ⟨isVariant, rfl⟩
    exact ⟨isVariant, _, [], (List.append_nil _).symm, rfl, .inl rfl⟩
  · rintro ⟨isVariant, _, rest, split, rfl, nothing | unchecked⟩
    · exact ⟨isVariant, by rw [split, nothing, List.append_nil]⟩
    · exact (checked message isVariant.1 unchecked).elim

theorem reads_atLeast {least : ℕ} {short : ℕ → String}
    (accepts : Accepts take (Whole (format.Variant tag)))
    (passes : ∀ message word, format.tag message = tag → format.spells message word →
      least ≤ 1 + word.length)
    (checked : ∀ message, format.tag message = tag → ¬format.unchecked message) :
    format.Reads tag fun buf => run (atLeast least short take) buf 1 := by
  intro bytes message
  have long : ∀ message word rest, Whole (format.Variant tag) message word rest →
      least ≤ [tag].length + (word ++ rest).length := by
    rintro message word _ ⟨⟨⟨isVariant, -⟩, spelled⟩, rfl⟩
    rw [List.append_nil]
    exact passes message word isVariant spelled
  have read : run (atLeast least short take) (tag :: bytes) 1 = .ok message ↔ _ :=
    accepts.atLeast_eq_ok [tag] long
  rw [read, ← reads_whole accepts checked bytes message]
  exact (accepts.run_eq_ok [tag]).symm

end Format

end Cursor
