import Mathlib
import Seisin.Lib.SortedList

/-!
# Pieces between separators

A row of pieces is a list of pieces, each with the key that separates it from the next, and a last
piece.  `Segments` gives every piece the interval between its separators; a row can be cut at any of
its separators, and its last piece can be replaced by a row of smaller pieces.
-/

namespace Separated

open SortedList

variable {Key Piece Value : Type*} [LinearOrder Key] {key separator : Key}
  {lo mid hi : Option Key} {r : Key → Key → Prop}

/-- The key is not below the lower bound, if there is one, and below the upper bound. -/
def Within (lo hi : Option Key) (key : Key) : Prop :=
  (∀ bound ∈ lo, bound ≤ key) ∧ ∀ bound ∈ hi, key < bound

/-- There is room between the bounds. -/
def Below (lo hi : Option Key) : Prop := ∀ low ∈ lo, ∀ high ∈ hi, low < high

/-- Within the bounds, where `r` says what it is to be below the upper one. -/
def WithinBy (r : Key → Key → Prop) (lo hi : Option Key) (key : Key) : Prop :=
  (∀ bound ∈ lo, bound ≤ key) ∧ ∀ bound ∈ hi, r key bound

def BelowBy (r : Key → Key → Prop) (lo hi : Option Key) : Prop :=
  ∀ low ∈ lo, ∀ high ∈ hi, r low high

theorem WithinBy.below (comparison : Comparison r) (within : WithinBy r lo hi key) :
    BelowBy r lo hi := by
  intro low lowMem high highMem
  exact comparison.le_trans (within.1 low lowMem) (within.2 high highMem)

theorem Within.withinBy (comparison : Comparison r) (within : Within lo hi key) :
    WithinBy r lo hi key :=
  ⟨within.1, fun bound boundMem => comparison.of_lt (within.2 bound boundMem)⟩

theorem BelowBy.trans (comparison : Comparison r) (first : BelowBy r lo (some key))
    (second : BelowBy r (some key) hi) : BelowBy r lo hi := by
  intro low lowMem high highMem
  exact comparison.trans_le (first low lowMem key rfl)
    (comparison.le (second key rfl high highMem))

theorem WithinBy.none : WithinBy r (none : Option Key) none key := by
  constructor
  · intro bound boundMem
    cases boundMem
  · intro bound boundMem
    cases boundMem

theorem Within.below (within : Within lo hi key) : Below lo hi :=
  WithinBy.below comparison_lt within

theorem Within.none : Within (none : Option Key) none key := WithinBy.none

/-- Every piece has the property for the bounds its separators give it. -/
def Segments (P : Option Key → Option Key → Piece → Prop) (hi : Option Key) :
    Option Key → List (Key × Piece) → Piece → Prop
  | lo, [], last => P lo hi last
  | lo, (separator, piece) :: rest, last =>
      P lo (some separator) piece ∧ Segments P hi (some separator) rest last

variable {P : Option Key → Option Key → Piece → Prop} {before after : List (Key × Piece)}
  {piece last : Piece}

omit [LinearOrder Key] in
theorem segments_cut : Segments P hi lo (before ++ (separator, piece) :: after) last ↔
    Segments P (some separator) lo before piece ∧ Segments P hi (some separator) after last := by
  induction before generalizing lo with
  | nil => rfl
  | cons first before ih =>
      rcases first with ⟨bound, first⟩
      simp only [List.cons_append, Segments]
      rw [ih, and_assoc]

omit [LinearOrder Key] in
theorem Segments.imp {Q : Option Key → Option Key → Piece → Prop}
    (implied : ∀ lo hi piece, P lo hi piece → Q lo hi piece)
    (segments : Segments P hi lo before last) : Segments Q hi lo before last := by
  induction before generalizing lo with
  | nil => exact implied _ _ _ segments
  | cons first before ih => exact ⟨implied _ _ _ segments.1, ih segments.2⟩

/-- The last piece gives way to a row of pieces.  Its lower bound is some bound that the key is not
below, if that is so of all separators before it. -/
theorem Segments.graft {pieces : List (Key × Piece)} {newLast : Piece}
    (segments : Segments P hi lo before last) (notBelow : ∀ bound ∈ lo, bound ≤ key)
    (passed : ∀ entry ∈ before, entry.1 ≤ key)
    (grown : ∀ mid : Option Key, (∀ bound ∈ mid, bound ≤ key) → P mid hi last →
      Segments P hi mid pieces newLast) :
    Segments P hi lo (before ++ pieces) newLast := by
  induction before generalizing lo with
  | nil => exact grown lo notBelow segments
  | cons first before ih =>
      rcases first with ⟨bound, first⟩
      refine ⟨segments.1, ?_⟩
      apply ih segments.2
      · intro other otherMem
        rw [Option.mem_some_iff] at otherMem
        rw [← otherMem]
        exact passed _ List.mem_cons_self
      · exact fun entry entryMem => passed entry (List.mem_cons_of_mem _ entryMem)

omit [LinearOrder Key] in
theorem Segments.exists_last (segments : Segments P hi lo before last) : ∃ mid, P mid hi last := by
  induction before generalizing lo with
  | nil => exact ⟨lo, segments⟩
  | cons first before ih => exact ih segments.2

theorem Segments.below (comparison : Comparison r)
    (room : ∀ lo hi piece, P lo hi piece → BelowBy r lo hi)
    (segments : Segments P hi lo before last) : BelowBy r lo hi := by
  induction before generalizing lo with
  | nil => exact room _ _ _ segments
  | cons first before ih => exact (room _ _ _ segments.1).trans comparison (ih segments.2)

/-! ## The entries of a row -/

section Entries

variable (entries : Piece → List (Key × Value))

/-- The entries of all pieces, in order. -/
def rowEntries (pieces : List (Key × Piece)) (last : Piece) : List (Key × Value) :=
  (pieces.flatMap fun piece => entries piece.2) ++ entries last

variable {entries}

omit [LinearOrder Key] in
theorem rowEntries_cut : rowEntries entries (before ++ (separator, piece) :: after) last =
    rowEntries entries before piece ++ rowEntries entries after last := by
  simp [rowEntries]

variable (comparison : Comparison r) (room : ∀ lo hi piece, P lo hi piece → BelowBy r lo hi)
  (inside : ∀ lo hi piece, P lo hi piece → ∀ entry ∈ entries piece, WithinBy r lo hi entry.1)

include comparison room inside in
theorem Segments.within (segments : Segments P hi lo before last) :
    ∀ entry ∈ rowEntries entries before last, WithinBy r lo hi entry.1 := by
  induction before generalizing lo with
  | nil => exact inside _ _ _ segments
  | cons first before ih =>
      rcases first with ⟨bound, first⟩
      intro entry entryMem
      rw [rowEntries, List.flatMap_cons, List.append_assoc] at entryMem
      rcases List.mem_append.mp entryMem with here | later
      · have bounds := inside _ _ _ segments.1 entry here
        refine ⟨bounds.1, ?_⟩
        intro high highMem
        have above := segments.2.below comparison room bound rfl high highMem
        exact comparison.trans_le (bounds.2 bound rfl) (comparison.le above)
      · have bounds := ih segments.2 entry later
        refine ⟨?_, bounds.2⟩
        intro low lowMem
        have under := room _ _ _ segments.1 low lowMem bound rfl
        exact (comparison.le under).trans (bounds.1 bound rfl)

include comparison room inside in
theorem Segments.ascending
    (sorted : ∀ lo hi piece, P lo hi piece → AscendingBy r (entries piece))
    (segments : Segments P hi lo before last) : AscendingBy r (rowEntries entries before last) := by
  induction before generalizing lo with
  | nil => exact sorted _ _ _ segments
  | cons first before ih =>
      rcases first with ⟨bound, first⟩
      rw [rowEntries, List.flatMap_cons, List.append_assoc, AscendingBy, List.pairwise_append]
      refine ⟨sorted _ _ _ segments.1, ih segments.2, ?_⟩
      intro one oneMem other otherMem
      have under := (inside _ _ _ segments.1 one oneMem).2 bound rfl
      have beyond := (segments.2.within comparison room inside other otherMem).1 bound rfl
      exact comparison.trans_le under beyond

/-- The entries before a separator that the key is not below are below the key. -/
theorem Segments.entries_lt
    (inside : ∀ lo hi piece, P lo hi piece → ∀ entry ∈ entries piece, Within lo hi entry.1)
    (segments : Segments P hi lo before last) (passed : ∀ entry ∈ before, entry.1 ≤ key) :
    ∀ entry ∈ before.flatMap fun piece => entries piece.2, entry.1 < key := by
  induction before generalizing lo with
  | nil => simp
  | cons first before ih =>
      rcases first with ⟨bound, first⟩
      intro entry entryMem
      rw [List.flatMap_cons, List.mem_append] at entryMem
      rcases entryMem with here | later
      · have under := (inside _ _ _ segments.1 entry here).2 bound rfl
        exact under.trans_le (passed _ List.mem_cons_self)
      · exact ih segments.2
          (fun other otherMem => passed other (List.mem_cons_of_mem _ otherMem)) entry later

end Entries

end Separated
