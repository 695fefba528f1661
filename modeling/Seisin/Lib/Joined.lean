import Mathlib

/-!
# Texts joined by separators

Two texts are joined by putting a separator between them.  Where the first of them may have the
separator in it, the joined text does not tell where it was put: what the first has from one of its
separators on might as well be the beginning of the second.  That is the only ambiguity.
-/

namespace Joined

variable {Symbol : Type*} {separator outer inner : Symbol}

def join (separator : Symbol) (first second : List Symbol) : List Symbol :=
  first ++ separator :: second

/-- The other first text goes on after a separator with what the second text begins with. -/
def Shifted (separator : Symbol) (pair other : List Symbol × List Symbol) : Prop :=
  ∃ moved, other.1 = join separator pair.1 moved ∧ pair.2 = join separator moved other.2

/-- Two pairs of texts that differ in where a separator was put. -/
def Resplit (separator : Symbol) (pair other : List Symbol × List Symbol) : Prop :=
  Shifted separator pair other ∨ Shifted separator other pair

theorem join_assoc (separator outer : Symbol) (first second third : List Symbol) :
    join outer first (join separator second third) =
      join separator (join outer first second) third := by
  simp [join]

theorem Shifted.join_eq {pair other : List Symbol × List Symbol}
    (shifted : Shifted separator pair other) :
    join separator pair.1 pair.2 = join separator other.1 other.2 := by
  rcases shifted with ⟨moved, first, second⟩
  rw [first, second, join_assoc]

theorem join_eq_iff {first second first' second' : List Symbol} :
    join separator first second = join separator first' second' ↔
      (first, second) = (first', second') ∨
        Resplit separator (first, second) (first', second') := by
  constructor
  · intro same
    rcases List.append_eq_append_iff.mp same with ⟨more, longer, rest⟩ | ⟨more, longer, rest⟩
    · cases more with
      | nil =>
          rw [List.append_nil] at longer
          exact Or.inl (Prod.ext longer.symm (List.cons.inj rest).2)
      | cons symbol moved =>
          rcases List.cons.inj rest with ⟨rfl, tail⟩
          exact Or.inr (Or.inl ⟨moved, longer, tail⟩)
    · cases more with
      | nil =>
          rw [List.append_nil] at longer
          exact Or.inl (Prod.ext longer (List.cons.inj rest).2.symm)
      | cons symbol moved =>
          rcases List.cons.inj rest with ⟨rfl, tail⟩
          exact Or.inr (Or.inr ⟨moved, longer, tail⟩)
  · rintro (same | shifted | shifted)
    · cases same
      rfl
    · exact shifted.join_eq
    · exact shifted.join_eq.symm

theorem Shifted.mem {pair other : List Symbol × List Symbol}
    (shifted : Shifted separator pair other) : separator ∈ other.1 := by
  rcases shifted with ⟨moved, first, _⟩
  rw [first, join]
  exact List.mem_append_right _ List.mem_cons_self

theorem Shifted.longer {pair other : List Symbol × List Symbol}
    (shifted : Shifted separator pair other) : pair.1.length < other.1.length := by
  rcases shifted with ⟨moved, first, _⟩
  rw [first, join, List.length_append, List.length_cons]
  omega

/-- Texts without the separator are told from what they are joined to. -/
theorem not_resplit_of_not_mem {pair other : List Symbol × List Symbol}
    (plain : separator ∉ pair.1) (plainToo : separator ∉ other.1) :
    ¬Resplit separator pair other := by
  rintro (shifted | shifted)
  · exact plainToo shifted.mem
  · exact plain shifted.mem

theorem join_inj_of_not_mem {first second first' second' : List Symbol}
    (plain : separator ∉ first) (plainToo : separator ∉ first') :
    join separator first second = join separator first' second' ↔
      first = first' ∧ second = second' := by
  rw [join_eq_iff, Prod.mk.injEq]
  exact or_iff_left (not_resplit_of_not_mem plain plainToo)

theorem not_resplit_self (pair : List Symbol × List Symbol) : ¬Resplit separator pair pair := by
  rintro (shifted | shifted)
  · exact lt_irrefl _ shifted.longer
  · exact lt_irrefl _ shifted.longer

/-! ## Three texts -/

/-- The other first text goes on after an outer separator, and what is left stands where it stood or
has its inner separator elsewhere as well. -/
def ShiftedOver (outer inner : Symbol) (triple other : List Symbol × List Symbol × List Symbol) :
    Prop :=
  ∃ moved, other.1 = join outer triple.1 moved ∧
    (triple.2 = (join outer moved other.2.1, other.2.2) ∨
      Resplit inner triple.2 (join outer moved other.2.1, other.2.2))

/-- Two triples of texts that differ in where a separator was put. -/
def ResplitOver (outer inner : Symbol) (triple other : List Symbol × List Symbol × List Symbol) :
    Prop :=
  (triple.1 = other.1 ∧ Resplit inner triple.2 other.2) ∨
    ShiftedOver outer inner triple other ∨ ShiftedOver outer inner other triple

theorem shiftedOver_iff {triple other : List Symbol × List Symbol × List Symbol} :
    ShiftedOver outer inner triple other ↔
      Shifted outer (triple.1, join inner triple.2.1 triple.2.2)
        (other.1, join inner other.2.1 other.2.2) := by
  simp only [ShiftedOver, Shifted, join_assoc inner outer, join_eq_iff]

theorem join_join_eq_iff {first second third first' second' third' : List Symbol} :
    join outer first (join inner second third) = join outer first' (join inner second' third') ↔
      (first, second, third) = (first', second', third') ∨
        ResplitOver outer inner (first, second, third) (first', second', third') := by
  rw [join_eq_iff, Resplit, ResplitOver, shiftedOver_iff, shiftedOver_iff]
  simp only [Prod.mk.injEq, join_eq_iff, and_or_left, or_assoc]

theorem not_resplitOver_of_not_mem {triple other : List Symbol × List Symbol × List Symbol}
    (plain : outer ∉ triple.1) (plainToo : outer ∉ other.1)
    (plainInner : inner ∉ triple.2.1) (plainInnerToo : inner ∉ other.2.1) :
    ¬ResplitOver outer inner triple other := by
  rintro (⟨_, inside⟩ | shifted | shifted)
  · exact not_resplit_of_not_mem plainInner plainInnerToo inside
  · exact plainToo (shiftedOver_iff.mp shifted).mem
  · exact plain (shiftedOver_iff.mp shifted).mem

theorem not_resplitOver_self (triple : List Symbol × List Symbol × List Symbol) :
    ¬ResplitOver outer inner triple triple := by
  rintro (⟨_, inside⟩ | shifted | shifted)
  · exact not_resplit_self _ inside
  · exact lt_irrefl _ (shiftedOver_iff.mp shifted).longer
  · exact lt_irrefl _ (shiftedOver_iff.mp shifted).longer

end Joined
