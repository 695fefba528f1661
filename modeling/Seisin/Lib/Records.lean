import Mathlib

/-!
# Records of one width in a buffer

A buffer starts as zeros and is written from front to back: first some fields at fixed offsets, then
an array of records of one width.  What is written is described by what stands before the zeros that
are left, so that a write only ever turns some of these zeros into bytes.  Reading and writing
outside the buffer, and writing other than the exact number of bytes, have no result.
-/

namespace Records

/-- The `width` bytes at `offset`. -/
def read (bytes : List UInt8) (offset width : ℕ) : Option (List UInt8) :=
  if offset + width ≤ bytes.length then some ((bytes.drop offset).take width) else none

/-- The buffer with the `width` bytes at `offset` replaced. -/
def write (buf : List UInt8) (offset width : ℕ) (bytes : List UInt8) : Option (List UInt8) :=
  if offset + width ≤ buf.length ∧ bytes.length = width then
    some (buf.take offset ++ bytes ++ buf.drop (offset + width))
  else none

def zeros (count : ℕ) : List UInt8 := List.replicate count 0

variable {Record : Type*}

/-- Writes records one after another. -/
def writeAll (writeOne : List UInt8 → ℕ → Record → Option (List UInt8)) (width : ℕ) :
    List UInt8 → ℕ → List Record → Option (List UInt8)
  | buf, _, [] => some buf
  | buf, offset, record :: records => do
      let buf ← writeOne buf offset record
      writeAll writeOne width buf (offset + width) records

/-- Reads a number of records that stand one after another. -/
def readAll (readOne : List UInt8 → ℕ → Option Record) (width : ℕ) (bytes : List UInt8) :
    ℕ → ℕ → Option (List Record)
  | 0, _ => some []
  | count + 1, offset => do
      let record ← readOne bytes offset
      let records ← readAll readOne width bytes count (offset + width)
      return record :: records

@[simp]
theorem length_zeros (count : ℕ) : (zeros count).length = count := List.length_replicate

theorem zeros_add (first second : ℕ) : zeros (first + second) = zeros first ++ zeros second :=
  List.replicate_add _ _ _

/-! ## Single fields -/

theorem read_middle {offset width : ℕ} (before middle after : List UInt8)
    (start : before.length = offset) (exact : middle.length = width) :
    read (before ++ middle ++ after) offset width = some middle := by
  subst start exact
  rw [read, if_pos (by simp), List.append_assoc, List.drop_left, List.take_left]

/-- A field is written over the first of the zeros that are left. -/
theorem write_zeros {offset width left : ℕ} (before bytes : List UInt8)
    (start : before.length = offset) (exact : bytes.length = width) (room : width ≤ left) :
    write (before ++ zeros left) offset width bytes =
      some (before ++ bytes ++ zeros (left - width)) := by
  subst start exact
  rw [write, if_pos ⟨by simpa using room, rfl⟩, List.take_left, ← List.drop_drop,
    List.drop_left, zeros, List.drop_replicate, zeros]

/-- A field that does not start where the zeros do leaves a gap of them. -/
theorem write_after_gap {offset width left gap : ℕ} (before bytes : List UInt8)
    (start : before.length + gap = offset) (exact : bytes.length = width)
    (room : gap + width ≤ left) :
    write (before ++ zeros left) offset width bytes =
      some (before ++ zeros gap ++ bytes ++ zeros (left - (gap + width))) := by
  have split : zeros left = zeros gap ++ zeros (left - gap) := by
    rw [← zeros_add]
    congr 1
    omega
  rw [split, ← List.append_assoc,
    write_zeros _ _ (by rw [List.length_append, length_zeros, start]) exact (by omega),
    Nat.sub_sub]

theorem write_overfull {width left : ℕ} (before bytes : List UInt8) (short : left < width) :
    write (before ++ zeros left) before.length width bytes = none := by
  rw [write, if_neg]
  rw [List.length_append, length_zeros]
  omega

/-! ## Arrays -/

variable {writeOne : List UInt8 → ℕ → Record → Option (List UInt8)}
  {readOne : List UInt8 → ℕ → Option Record} {spell : Record → List UInt8} {width : ℕ}

/-- Writing a record spells it where the zeros start, if they are enough. -/
def Writes (writeOne : List UInt8 → ℕ → Record → Option (List UInt8))
    (spell : Record → List UInt8) (width : ℕ) (record : Record) : Prop :=
  (spell record).length = width ∧ ∀ before left,
    writeOne (before ++ zeros left) before.length record =
      if width ≤ left then some (before ++ spell record ++ zeros (left - width)) else none

/-- Reading a record at its spelling gives it back. -/
def Reads (readOne : List UInt8 → ℕ → Option Record) (spell : Record → List UInt8) (width : ℕ)
    (record : Record) : Prop :=
  (spell record).length = width ∧ ∀ before after,
    readOne (before ++ spell record ++ after) before.length = some record

theorem writes_field {bytes : Record → List UInt8} {record : Record}
    (exact : (bytes record).length = width) :
    Writes (fun buf offset record => write buf offset width (bytes record)) bytes width record := by
  refine ⟨exact, ?_⟩
  intro before left
  split
  · rename_i room
    exact write_zeros before (bytes record) rfl exact room
  · rename_i short
    exact write_overfull before (bytes record) (by omega)

/-- Two writes, the second where the first ends. -/
theorem Writes.andThen {writeTwo : List UInt8 → ℕ → Record → Option (List UInt8)}
    {spellTwo : Record → List UInt8} {widthTwo : ℕ} {record : Record}
    (first : Writes writeOne spell width record)
    (second : Writes writeTwo spellTwo widthTwo record) :
    Writes (fun buf offset record => (writeOne buf offset record).bind fun buf =>
        writeTwo buf (offset + width) record)
      (fun record => spell record ++ spellTwo record) (width + widthTwo) record := by
  refine ⟨by rw [List.length_append, first.1, second.1], ?_⟩
  intro before left
  have longer : before.length + width = (before ++ spell record).length := by
    rw [List.length_append, first.1]
  simp only [first.2]
  by_cases room : width ≤ left
  · rw [if_pos room, Option.bind_some, longer, second.2]
    by_cases enough : widthTwo ≤ left - width
    · rw [if_pos enough, if_pos (by omega), Nat.sub_sub, List.append_assoc before]
    · rw [if_neg enough, if_neg (by omega)]
  · rw [if_neg room, if_neg (by omega), Option.bind_none]

theorem reads_field {bytes : List UInt8} (exact : bytes.length = width) :
    Reads (fun buf offset => read buf offset width) id width bytes :=
  ⟨exact, fun before after => read_middle before bytes after rfl exact⟩

/-- Reading a field and decoding it. -/
theorem Reads.map {Value : Type*} {decode : Record → Value} {encode : Value → Record}
    {value : Value} (reads : Reads readOne spell width (encode value))
    (inverse : decode (encode value) = value) :
    Reads (fun buf offset => (readOne buf offset).map decode) (fun value => spell (encode value))
      width value := by
  refine ⟨reads.1, ?_⟩
  intro before after
  change (readOne (before ++ spell (encode value) ++ after) before.length).map decode = _
  rw [reads.2, Option.map_some, inverse]

/-- Two reads, the second where the first ends. -/
theorem Reads.andThen {Other : Type*} {readTwo : List UInt8 → ℕ → Option Other}
    {spellTwo : Other → List UInt8} {widthTwo : ℕ} {record : Record} {other : Other}
    (first : Reads readOne spell width record) (second : Reads readTwo spellTwo widthTwo other) :
    Reads (fun buf offset => (readOne buf offset).bind fun record =>
        (readTwo buf (offset + width)).map fun other => (record, other))
      (fun pair => spell pair.1 ++ spellTwo pair.2) (width + widthTwo) (record, other) := by
  refine ⟨by rw [List.length_append, first.1, second.1], ?_⟩
  intro before after
  have longer : before.length + width = (before ++ spell record).length := by
    rw [List.length_append, first.1]
  have here := first.2 before (spellTwo other ++ after)
  have rest := second.2 (before ++ spell record) after
  rw [← longer] at rest
  simp only [List.append_assoc] at here rest ⊢
  rw [here, Option.bind_some, rest, Option.map_some]

/-- An array is written exactly if there is room for all of its records. -/
theorem writeAll_zeros {records : List Record}
    (each : ∀ record ∈ records, Writes writeOne spell width record) (before : List UInt8)
    (left : ℕ) :
    writeAll writeOne width (before ++ zeros left) before.length records =
      if records.length * width ≤ left then
        some (before ++ records.flatMap spell ++ zeros (left - records.length * width))
      else none := by
  induction records generalizing before left with
  | nil => simp [writeAll]
  | cons record records ih =>
      rcases each record List.mem_cons_self with ⟨exact, written⟩
      have longer : before.length + width = (before ++ spell record).length := by
        rw [List.length_append, exact]
      rw [writeAll, written, List.length_cons, Nat.succ_mul]
      by_cases room : width ≤ left
      · rw [if_pos room, Option.bind_eq_bind, Option.bind_some, longer,
          ih fun other otherMem => each other (List.mem_cons_of_mem _ otherMem)]
        by_cases enough : records.length * width ≤ left - width
        · rw [if_pos enough, if_pos (by omega), List.flatMap_cons, ← List.append_assoc,
            Nat.sub_sub, Nat.add_comm width]
        · rw [if_neg enough, if_neg (by omega)]
      · rw [if_neg room, if_neg (by omega)]
        rfl

theorem length_flatMap {records : List Record}
    (each : ∀ record ∈ records, (spell record).length = width) :
    (records.flatMap spell).length = records.length * width := by
  induction records with
  | nil => simp
  | cons record records ih =>
      rw [List.flatMap_cons, List.length_append, each record List.mem_cons_self,
        ih fun other otherMem => each other (List.mem_cons_of_mem _ otherMem), List.length_cons,
        Nat.succ_mul, Nat.add_comm]

theorem readAll_flatMap {records : List Record}
    (each : ∀ record ∈ records, Reads readOne spell width record) (before after : List UInt8) :
    readAll readOne width (before ++ records.flatMap spell ++ after) records.length
      before.length = some records := by
  induction records generalizing before with
  | nil => rfl
  | cons record records ih =>
      rcases each record List.mem_cons_self with ⟨exact, reads⟩
      have longer : before.length + width = (before ++ spell record).length := by
        rw [List.length_append, exact]
      have here := reads before (records.flatMap spell ++ after)
      have rest := ih (fun other otherMem => each other (List.mem_cons_of_mem _ otherMem))
        (before ++ spell record)
      rw [← longer] at rest
      simp only [List.append_assoc] at here rest
      simp only [List.flatMap_cons, List.length_cons, readAll, List.append_assoc, here, rest,
        Option.bind_eq_bind, Option.bind_some, Option.pure_def]

end Records
