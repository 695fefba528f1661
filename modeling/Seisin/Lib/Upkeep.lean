import Seisin.Lib.Dispatch

/-!
# Keeping a listing in step

A listing of items is kept in step with what it lists by changes, each of which takes at most one
item out and then puts at most one in.  If every change is right about the items it names, and every
item whose place changes is named by one, the listing is right again after all of them, in whatever
order they come and however often they are made.
-/

namespace Upkeep

universe u v

variable {Item : Type u}

/-- One item goes, and then one comes. -/
structure Change (Item : Type u) where
  out : Option Item
  into : Option Item

namespace Change

/-- Nothing goes or comes. -/
def none : Change Item := ⟨.none, .none⟩

def apply (change : Change Item) (listing : Set Item) : Set Item :=
  {item | change.into = some item ∨ item ∈ listing ∧ change.out ≠ some item}

theorem mem_apply {change : Change Item} {listing : Set Item} {item : Item} :
    item ∈ change.apply listing ↔
      change.into = some item ∨ item ∈ listing ∧ change.out ≠ some item := Iff.rfl

@[simp]
theorem apply_none (listing : Set Item) : none.apply listing = listing := by
  ext item
  simp [mem_apply, none]

/-- A change may be made in two parts. -/
theorem apply_into_apply_out (change : Change Item) (listing : Set Item) :
    (Change.mk .none change.into).apply ((Change.mk change.out .none).apply listing) =
      change.apply listing := by
  ext item
  simp [mem_apply]

end Change

def applyAll (listing : Set Item) (changes : List (Change Item)) : Set Item :=
  changes.foldl (fun current change => change.apply current) listing

/-- What the changes have to say about one item, of which it is known whether it was listed rightly
and whether it has to be listed now. -/
structure Settles (changes : List (Change Item)) (item : Item) (before after : Prop) : Prop where
  comes : ∀ change ∈ changes, change.into = some item → after
  stays : ∀ change ∈ changes, change.out = some item → after → change.into = some item
  named : (∃ change ∈ changes,
      (before → change.out = some item) ∧ (after → change.into = some item)) ∨ (before ↔ after)

variable {changes : List (Change Item)} {item : Item} {before after : Prop}

/-- An item that has to be listed stays once it is. -/
theorem mem_applyAll_of_mem (stays : ∀ change ∈ changes, change.out = some item → after →
      change.into = some item) (wanted : after) {listing : Set Item} (listed : item ∈ listing) :
    item ∈ applyAll listing changes := by
  induction changes generalizing listing with
  | nil => exact listed
  | cons change changes ih =>
      apply ih fun other otherMem => stays other (List.mem_cons_of_mem _ otherMem)
      rw [Change.mem_apply]
      by_cases goes : change.out = some item
      · exact Or.inl (stays change List.mem_cons_self goes wanted)
      · exact Or.inr ⟨listed, goes⟩

/-- An item that no change brings does not come. -/
theorem mem_of_mem_applyAll (away : ∀ change ∈ changes, change.into ≠ some item)
    {listing : Set Item} (listed : item ∈ applyAll listing changes) : item ∈ listing := by
  induction changes generalizing listing with
  | nil => exact listed
  | cons change changes ih =>
      have later := ih (fun other otherMem => away other (List.mem_cons_of_mem _ otherMem)) listed
      rcases Change.mem_apply.mp later with comes | ⟨kept, _⟩
      · exact absurd comes (away change List.mem_cons_self)
      · exact kept

theorem applyAll_append (listing : Set Item) (left right : List (Change Item)) :
    applyAll listing (left ++ right) = applyAll (applyAll listing left) right :=
  List.foldl_append

theorem Settles.mem_applyAll_iff (settles : Settles changes item before after)
    {listing : Set Item} (right : item ∈ listing ↔ before) :
    item ∈ applyAll listing changes ↔ after := by
  constructor
  · intro listed
    by_contra unwanted
    have away : ∀ change ∈ changes, change.into ≠ some item :=
      fun change changeMem comes => unwanted (settles.comes change changeMem comes)
    have was := right.mp (mem_of_mem_applyAll away listed)
    rcases settles.named with ⟨change, changeMem, goes, _⟩ | same
    · -- the change that names the item takes it out, and none later brings it back
      rcases List.append_of_mem changeMem with ⟨earlier, later, rfl⟩
      rw [applyAll_append] at listed
      have awayLater : ∀ other ∈ later, other.into ≠ some item := fun other otherMem =>
        away other (List.mem_append_right _ (List.mem_cons_of_mem _ otherMem))
      have kept := mem_of_mem_applyAll awayLater listed
      rcases Change.mem_apply.mp kept with comes | ⟨_, stays⟩
      · exact away change changeMem comes
      · exact stays (goes was)
    · exact unwanted (same.mp was)
  · intro wanted
    rcases settles.named with ⟨change, changeMem, _, comes⟩ | same
    · rcases List.append_of_mem changeMem with ⟨earlier, later, rfl⟩
      rw [applyAll_append]
      have staysLater : ∀ other ∈ later, other.out = some item → after → other.into = some item :=
        fun other otherMem =>
          settles.stays other (List.mem_append_right _ (List.mem_cons_of_mem _ otherMem))
      exact mem_applyAll_of_mem staysLater wanted (Or.inl (comes wanted))
    · exact mem_applyAll_of_mem settles.stays wanted (right.mpr (same.mpr wanted))

/-! ## Servers that keep a listing -/

open Dispatch

section Servers

variable {Key Task Answer Server Client Piece : Type v}
  {protocol : Protocol Key Task Answer Server Client}

/-- If the tasks of each piece make its change, the tasks of all pieces make all the changes. -/
theorem serveAll_flatMap (Keeps : Server → Set Item → Prop) {Accepted : Answer → Prop}
    {pieces : List Piece} {tasks : Piece → List Task} {change : Piece → Change Item}
    (each : ∀ piece ∈ pieces, ∀ server listing, Keeps server listing →
      (∀ answered ∈ (protocol.serveAll server (tasks piece)).2, Accepted answered.2) →
        Keeps (protocol.serveAll server (tasks piece)).1 ((change piece).apply listing))
    {server : Server} {listing : Set Item} (keeps : Keeps server listing)
    (accepted : ∀ answered ∈ (protocol.serveAll server (pieces.flatMap tasks)).2,
      Accepted answered.2) :
    Keeps (protocol.serveAll server (pieces.flatMap tasks)).1
      (applyAll listing (pieces.map change)) := by
  induction pieces generalizing server listing with
  | nil => exact keeps
  | cons piece pieces ih =>
      rw [List.flatMap_cons, Protocol.serveAll_append] at accepted ⊢
      have first := each piece List.mem_cons_self server listing keeps
        fun answered answeredMem => accepted answered (List.mem_append_left _ answeredMem)
      exact ih (fun other otherMem => each other (List.mem_cons_of_mem _ otherMem)) first
        fun answered answeredMem => accepted answered (List.mem_append_right _ answeredMem)

end Servers

end Upkeep
