import Mathlib

/-!
# What came before

A chronicle lists what happened, the latest last.  An entry may have to be justified by the entries
before it, mostly by one of them since which nothing of some other kind has happened.  An entry that
follows a cause of its own since its last like is matched with that cause, and no two with one cause.
-/

namespace Chronicle

variable {Entry Key : Type*} {happened excluded : Entry → Prop} {chronicle : List Entry}

/-- Something has happened since which nothing excluded has. -/
def Since (happened excluded : Entry → Prop) (chronicle : List Entry) : Prop :=
  ∃ earlier entry later, chronicle = earlier ++ entry :: later ∧ happened entry ∧
    ∀ other ∈ later, ¬excluded other

theorem Since.imp {weaker : Entry → Prop} (since : Since happened excluded chronicle)
    (implies : ∀ entry, happened entry → weaker entry) : Since weaker excluded chronicle := by
  rcases since with ⟨earlier, entry, later, split, happens, free⟩
  exact ⟨earlier, entry, later, split, implies entry happens, free⟩

theorem Since.append (since : Since happened excluded chronicle) {more : List Entry}
    (apart : ∀ entry ∈ more, ¬excluded entry) : Since happened excluded (chronicle ++ more) := by
  rcases since with ⟨earlier, entry, later, rfl, happens, free⟩
  refine ⟨earlier, entry, later ++ more, by simp, happens, ?_⟩
  intro other otherMem
  rcases List.mem_append.mp otherMem with before | added
  · exact free other before
  · exact apart other added

/-- What has just happened has happened since. -/
theorem since_append {more : List Entry} {entry : Entry} (entryMem : entry ∈ more)
    (happens : happened entry) (apart : ∀ entry ∈ more, ¬excluded entry) :
    Since happened excluded (chronicle ++ more) := by
  rcases List.append_of_mem entryMem with ⟨front, back, rfl⟩
  refine ⟨chronicle ++ front, entry, back, by simp, happens, ?_⟩
  exact fun other otherMem =>
    apart other (List.mem_append_right front (List.mem_cons_of_mem entry otherMem))

theorem Since.exists_mem (since : Since happened excluded chronicle) :
    ∃ entry ∈ chronicle, happened entry := by
  rcases since with ⟨earlier, entry, later, rfl, happens, _⟩
  exact ⟨entry, List.mem_append_right earlier List.mem_cons_self, happens⟩

/-- The place of what has happened. -/
theorem Since.exists_index (since : Since happened excluded chronicle) :
    ∃ (index : ℕ) (entry : Entry), chronicle[index]? = some entry ∧ happened entry ∧
      ∀ later other, index < later → chronicle[later]? = some other → ¬excluded other := by
  rcases since with ⟨earlier, entry, later, rfl, happens, free⟩
  refine ⟨earlier.length, entry, by simp, happens, ?_⟩
  intro place other beyond found
  apply free other
  rcases Nat.exists_eq_add_of_lt beyond with ⟨offset, rfl⟩
  rw [List.getElem?_append_right (by omega), Nat.add_assoc, Nat.add_sub_cancel_left,
    List.getElem?_cons_succ] at found
  exact List.mem_of_getElem? found

/-- Every entry is justified by those before it. -/
def Justified (justifies : List Entry → Entry → Prop) (chronicle : List Entry) : Prop :=
  ∀ before entry after, chronicle = before ++ entry :: after → justifies before entry

section Justified

variable {justifies : List Entry → Entry → Prop}

theorem justified_nil : Justified justifies [] := by
  intro before entry after split
  simp at split

theorem Justified.snoc (justified : Justified justifies chronicle) {entry : Entry}
    (last : justifies chronicle entry) : Justified justifies (chronicle ++ [entry]) := by
  intro before other after split
  induction after using List.reverseRecOn with
  | nil =>
      rcases List.append_inj' split rfl with ⟨rfl, same⟩
      cases same
      exact last
  | append_singleton after final _ =>
      rw [← List.cons_append, ← List.append_assoc] at split
      exact justified before other after (List.append_inj' split rfl).1

/-- Entries are added one after another. -/
theorem Justified.append (justified : Justified justifies chronicle) {more : List Entry}
    (each : ∀ front entry back, more = front ++ entry :: back →
      justifies (chronicle ++ front) entry) : Justified justifies (chronicle ++ more) := by
  induction more using List.reverseRecOn with
  | nil =>
      rw [List.append_nil]
      exact justified
  | append_singleton more last ih =>
      rw [← List.append_assoc]
      apply Justified.snoc
      · apply ih
        intro front entry back split
        exact each front entry (back ++ [last]) (by rw [split, List.append_assoc, List.cons_append])
      · exact each more last [] rfl

end Justified

section Own

variable {cause effect : Entry → Option Key}

/-- The place of the cause that an effect follows. -/
theorem exists_cause
    (caused : Justified (fun before entry => ∀ key, effect entry = some key →
      Since (fun other => cause other = some key) (fun other => effect other = some key) before)
      chronicle) {index : ℕ} {entry : Entry} {key : Key}
    (found : chronicle[index]? = some entry) (isEffect : effect entry = some key) :
    ∃ place < index, (∃ other, chronicle[place]? = some other ∧ cause other = some key) ∧
      ∀ later other, place < later → later < index → chronicle[later]? = some other →
        effect other ≠ some key := by
  rcases List.getElem?_eq_some_iff.mp found with ⟨inside, rfl⟩
  have split : chronicle = chronicle.take index ++ chronicle[index] ::
      chronicle.drop (index + 1) := by
    rw [List.getElem_cons_drop, List.take_append_drop]
  rcases (caused _ _ _ split key isEffect).exists_index with
    ⟨place, other, otherFound, isCause, free⟩
  rw [List.getElem?_take] at otherFound
  split at otherFound
  · rename_i before
    refine ⟨place, before, ⟨other, otherFound, isCause⟩, ?_⟩
    intro later between beyond within laterFound
    apply free later between beyond
    rw [List.getElem?_take, if_pos within, laterFound]
  · cases otherFound

/-- Effects that each follow a cause since their last like have causes of their own. -/
theorem exists_own
    (caused : Justified (fun before entry => ∀ key, effect entry = some key →
      Since (fun other => cause other = some key) (fun other => effect other = some key) before)
      chronicle) :
    ∃ own : ℕ → ℕ,
      (∀ (index : ℕ) entry key, chronicle[index]? = some entry → effect entry = some key →
        own index < index ∧ ∃ other, chronicle[own index]? = some other ∧ cause other = some key) ∧
      ∀ first second : ℕ,
        (∃ entry key, chronicle[first]? = some entry ∧ effect entry = some key) →
        (∃ entry key, chronicle[second]? = some entry ∧ effect entry = some key) →
        own first = own second → first = second := by
  have placed : ∀ index : ℕ, ∃ place : ℕ, ∀ entry key, chronicle[index]? = some entry →
      effect entry = some key →
      place < index ∧ (∃ other, chronicle[place]? = some other ∧ cause other = some key) ∧
        ∀ later other, place < later → later < index → chronicle[later]? = some other →
          effect other ≠ some key := by
    intro index
    by_cases present : ∃ entry key, chronicle[index]? = some entry ∧ effect entry = some key
    · rcases present with ⟨entry, key, found, isEffect⟩
      rcases exists_cause caused found isEffect with ⟨place, before, isCause, free⟩
      refine ⟨place, ?_⟩
      intro same sameKey foundToo isEffectToo
      rw [found, Option.some.injEq] at foundToo
      rw [← foundToo, isEffect, Option.some.injEq] at isEffectToo
      subst isEffectToo
      exact ⟨before, isCause, free⟩
    · refine ⟨0, ?_⟩
      intro entry key found isEffect
      exact absurd ⟨entry, key, found, isEffect⟩ present
  choose own owns using placed
  -- The later of two effects with one cause has the earlier one in between.
  have ordered : ∀ first second : ℕ,
      (∃ entry key, chronicle[first]? = some entry ∧ effect entry = some key) →
      (∃ entry key, chronicle[second]? = some entry ∧ effect entry = some key) →
      own first = own second → ¬first < second := by
    rintro first second ⟨entry, key, found, isEffect⟩ ⟨entryToo, keyToo, foundToo, isEffectToo⟩
      same less
    rcases owns first entry key found isEffect with ⟨before, ⟨other, placed, isCause⟩, _⟩
    rcases owns second entryToo keyToo foundToo isEffectToo with
      ⟨_, ⟨otherToo, placedToo, isCauseToo⟩, free⟩
    rw [← same, placed, Option.some.injEq] at placedToo
    rw [← placedToo, isCause, Option.some.injEq] at isCauseToo
    subst isCauseToo
    exact free first entry (same ▸ before) less found isEffect
  refine ⟨own, ?_, ?_⟩
  · intro index entry key found isEffect
    rcases owns index entry key found isEffect with ⟨before, isCause, _⟩
    exact ⟨before, isCause⟩
  · intro first second isFirst isSecond same
    rcases lt_trichotomy first second with less | equal | greater
    · exact absurd less (ordered first second isFirst isSecond same)
    · exact equal
    · exact absurd greater (ordered second first isSecond isFirst same.symm)

end Own

end Chronicle
