import Mathlib

/-!
# Doubly linked lists

Cells that name the cell before and the cell after them; the null cell stands for none.  A new cell
put after another changes the links of two cells at most.
-/

namespace LinkedList

variable {Id : Type*} {null prev id newId : Id} {ids before after : List Id}
  {links newLinks : Id → Option (Id × Id)}

/-- The cells are linked in the order of the list, the first of them to `prev`. -/
def Linked (null : Id) (links : Id → Option (Id × Id)) : Id → List Id → Prop
  | _, [] => True
  | prev, id :: rest => links id = some (prev, rest.headD null) ∧ Linked null links id rest

theorem linked_congr (same : ∀ id ∈ ids, newLinks id = links id)
    (linked : Linked null links prev ids) : Linked null newLinks prev ids := by
  induction ids generalizing prev with
  | nil => trivial
  | cons id ids ih =>
      refine ⟨?_, ih (fun other otherMem => same other (List.mem_cons_of_mem _ otherMem)) linked.2⟩
      rw [same id List.mem_cons_self]
      exact linked.1

theorem Linked.next (linked : Linked null links prev (before ++ id :: after)) :
    ∃ prior, links id = some (prior, after.headD null) := by
  induction before generalizing prev with
  | nil => exact ⟨prev, linked.1⟩
  | cons first before ih => exact ih linked.2

theorem Linked.back (linked : Linked null links prev (before ++ id :: after)) :
    ∃ next, links id = some (before.getLastD prev, next) := by
  induction before generalizing prev with
  | nil => exact ⟨_, linked.1⟩
  | cons first before ih =>
      rcases ih linked.2 with ⟨next, link⟩
      refine ⟨next, ?_⟩
      cases before with
      | nil => exact link
      | cons second before => exact link

theorem Linked.suffix (linked : Linked null links prev (before ++ after)) :
    ∃ prior, Linked null links prior after := by
  induction before generalizing prev with
  | nil => exact ⟨prev, linked⟩
  | cons first before ih => exact ih linked.2

/-- What a new cell after `id` does to the links: `id` names it as the next, the cell after `id`
names it as the one before, and it names both. -/
structure Spliced (null : Id) (links newLinks : Id → Option (Id × Id)) (id newId : Id)
    (old : Id → Prop) : Prop where
  here : ∀ prior next, links id = some (prior, next) →
    newLinks id = some (prior, newId) ∧ newLinks newId = some (id, next)
  there : ∀ prior next, links id = some (prior, next) → next ≠ null →
    ∀ back further, links next = some (back, further) → newLinks next = some (newId, further)
  elsewhere : ∀ prior next, links id = some (prior, next) → ∀ other, old other → other ≠ id →
    other ≠ next → newLinks other = links other

variable {old : Id → Prop}

theorem Linked.splice (spliced : Spliced null links newLinks id newId old)
    (linked : Linked null links prev (before ++ id :: after))
    (nodup : (before ++ id :: after).Nodup) (real : ∀ other ∈ before ++ id :: after, other ≠ null)
    (areOld : ∀ other ∈ before ++ id :: after, old other) :
    Linked null newLinks prev (before ++ id :: newId :: after) := by
  induction before generalizing prev with
  | nil =>
      have link := linked.1
      refine ⟨(spliced.here _ _ link).1, (spliced.here _ _ link).2, ?_⟩
      cases after with
      | nil => trivial
      | cons next after =>
          have rest := linked.2
          have nextReal : next ≠ null := real next (by simp)
          refine ⟨spliced.there _ _ link nextReal _ _ rest.1, ?_⟩
          refine linked_congr ?_ rest.2
          intro other otherMem
          rw [List.nil_append, List.nodup_cons, List.nodup_cons] at nodup
          apply spliced.elsewhere _ _ link other
          · exact areOld other (by simp [otherMem])
          · rintro rfl
            exact nodup.1 (List.mem_cons_of_mem _ otherMem)
          · rintro rfl
            exact nodup.2.1 otherMem
  | cons first before ih =>
      rw [List.cons_append, List.nodup_cons] at nodup
      refine ⟨?_, ?_⟩
      · rcases linked.2.next with ⟨prior, link⟩
        have same : newLinks first = links first := by
          apply spliced.elsewhere _ _ link first
          · exact areOld first (by simp)
          · rintro rfl
            exact nodup.1 (by simp)
          · cases after with
            | nil => exact real first (by simp)
            | cons next after =>
                rintro rfl
                exact nodup.1 (by simp)
        rw [same, linked.1]
        cases before <;> rfl
      · apply ih linked.2 nodup.2
        · exact fun other otherMem => real other (List.mem_cons_of_mem _ otherMem)
        · exact fun other otherMem => areOld other (List.mem_cons_of_mem _ otherMem)

end LinkedList
