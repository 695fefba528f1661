import Mathlib

/-!
# Paging through a sorted list

A listing is read page by page: each page starts after the last element of the page before it, and
the first page that is short or empty is the last.  `collect_window` says that this reads the whole
list.
-/

namespace Paging

variable {α β : Type*} [LinearOrder α]

/-- Whether an element comes after the cursor. -/
def beyond (after : Option α) (element : α) : Bool :=
  match after with
  | none => true
  | some last => decide (last < element)

/-- One page of a sorted list. -/
def window (sorted : List α) (after : Option α) (limit : ℕ) : List α :=
  (sorted.filter (beyond after)).take limit

/-- Reads pages until one is short or empty, at most `fuel` of them. -/
def collect (page : Option α → List β) (key : β → α) (limit : ℕ) : ℕ → Option α → List β
  | 0, _ => []
  | fuel + 1, after =>
      let found := page after
      if found.length < limit ∨ found = [] then found
      else found ++ collect page key limit fuel (found.getLast?.map key)

/-- Reads pages that say of themselves whether they are the last, until one does or is empty, and
appends them to what was read before; `none` if that takes more than `fuel` pages. -/
def gather (page : Option α → List β × Bool) (key : β → α) :
    ℕ → Option α → List β → Option (List β)
  | 0, _, _ => none
  | fuel + 1, after, before =>
      let (found, done) := page after
      if done ∨ found = [] then some (before ++ found)
      else gather page key fuel (found.getLast?.map key) (before ++ found)

/-- What comes after the last element of a page is the rest of the list. -/
theorem filter_beyond_last {sorted rest : List α} {after : Option α} {limit : ℕ} {last : α}
    (ascending : sorted.Pairwise (· < ·)) (restEq : sorted.filter (beyond after) = rest)
    (lastIs : (rest.take limit).getLast? = some last) :
    sorted.filter (beyond (some last)) = rest.drop limit := by
  have restAscending : rest.Pairwise (· < ·) := restEq ▸ ascending.filter _
  have lastMem : last ∈ rest := List.mem_of_mem_take (List.mem_of_getLast? lastIs)
  have lastBeyond : beyond after last = true := by
    rw [← restEq] at lastMem
    exact (List.mem_filter.mp lastMem).2
  have refined : sorted.filter (beyond (some last)) = rest.filter (beyond (some last)) := by
    rw [← restEq, List.filter_filter]
    apply List.filter_congr
    intro element _
    cases after with
    | none => simp [beyond]
    | some cursor =>
        simp only [beyond, decide_eq_true_eq] at lastBeyond
        by_cases later : last < element
        · simp [beyond, later, lastBeyond.trans later]
        · simp [beyond, later]
  have parts : (rest.take limit).Pairwise (· < ·) ∧ (rest.drop limit).Pairwise (· < ·) ∧
      ∀ front ∈ rest.take limit, ∀ back ∈ rest.drop limit, front < back := by
    rw [← List.pairwise_append, List.take_append_drop]
    exact restAscending
  rcases parts with ⟨frontAscending, _, across⟩
  rw [refined]
  conv_lhs => rw [← List.take_append_drop limit rest]
  rw [List.filter_append]
  have noneInFront : (rest.take limit).filter (beyond (some last)) = [] := by
    rw [List.filter_eq_nil_iff]
    intro element elementMem
    rcases List.getLast?_eq_some_iff.mp lastIs with ⟨before, split⟩
    rw [split] at elementMem frontAscending
    rcases List.mem_append.mp elementMem with earlier | same
    · have below := (List.pairwise_append.mp frontAscending).2.2 element earlier last
        (List.mem_singleton_self last)
      simp [beyond, not_lt.mpr below.le]
    · simp [beyond, List.mem_singleton.mp same]
  have allBehind : (rest.drop limit).filter (beyond (some last)) = rest.drop limit := by
    rw [List.filter_eq_self]
    intro element elementMem
    simpa [beyond] using across last (List.mem_of_getLast? lastIs) element elementMem
  rw [noneInFront, allBehind, List.nil_append]

/-- A page that is short or empty holds all that is left. -/
theorem window_of_final {sorted : List α} {after : Option α} {limit : ℕ} (positive : 0 < limit)
    (final : (window sorted after limit).length < limit ∨ window sorted after limit = []) :
    window sorted after limit = sorted.filter (beyond after) := by
  apply List.take_of_length_le
  simp only [window, List.length_take, List.take_eq_nil_iff] at final
  rcases final with short | nothing | nothing
  · omega
  · omega
  · simp [nothing]

/-- Any other page is full, and what is left after its last element is what it lacks. -/
theorem exists_last_of_more {sorted : List α} (ascending : sorted.Pairwise (· < ·))
    {after : Option α} {limit : ℕ}
    (more : ¬((window sorted after limit).length < limit ∨ window sorted after limit = [])) :
    ∃ last, (window sorted after limit).getLast? = some last ∧
      sorted.filter (beyond after) =
        window sorted after limit ++ sorted.filter (beyond (some last)) ∧
      (sorted.filter (beyond after)).length =
        limit + (sorted.filter (beyond (some last))).length := by
  rw [not_or, Nat.not_lt] at more
  rcases more with ⟨full, nonempty⟩
  have lastIs := List.getLast?_eq_some_getLast nonempty
  have next := filter_beyond_last ascending rfl lastIs
  rw [window, List.length_take] at full
  refine ⟨_, lastIs, ?_, ?_⟩
  · rw [next, window, List.take_append_drop]
  · rw [next, List.length_drop]
    omega

/-- From any cursor on, paging reads what is left of the list. -/
theorem collect_window_from {sorted : List α} (ascending : sorted.Pairwise (· < ·)) {limit : ℕ}
    (positive : 0 < limit) (value : α → β) (key : β → α) (inverse : ∀ element,
      key (value element) = element) {fuel : ℕ} {after : Option α}
    (enough : (sorted.filter (beyond after)).length < fuel) :
    collect (fun cursor => (window sorted cursor limit).map value) key limit fuel after =
      (sorted.filter (beyond after)).map value := by
  induction fuel generalizing after with
  | zero => exact absurd enough (Nat.not_lt_zero _)
  | succ fuel ih =>
      simp only [collect, List.length_map, List.map_eq_nil_iff]
      split
      · rename_i final
        rw [window_of_final positive final]
      · rename_i more
        rcases exists_last_of_more ascending more with ⟨last, lastIs, split, shorter⟩
        rw [List.getLast?_map, lastIs, Option.map_some, Option.map_some, inverse, ih (by omega),
          split, List.map_append]

/-- Paging reads the whole list, in order and each element once. -/
theorem collect_window {sorted : List α} (ascending : sorted.Pairwise (· < ·)) {limit : ℕ}
    (positive : 0 < limit) (value : α → β) (key : β → α)
    (inverse : ∀ element, key (value element) = element) {fuel : ℕ}
    (enough : sorted.length < fuel) :
    collect (fun cursor => (window sorted cursor limit).map value) key limit fuel none =
      sorted.map value := by
  have whole : sorted.filter (beyond none) = sorted := List.filter_eq_self.mpr fun _ _ => rfl
  have read : collect (fun cursor => (window sorted cursor limit).map value) key limit fuel none =
      (sorted.filter (beyond none)).map value :=
    collect_window_from ascending positive value key inverse (whole.symm ▸ enough)
  rwa [whole] at read

/-- From any cursor on, a page for every `limit` elements left and one more are enough to gather
what is left of the list, and fewer are not. -/
theorem gather_window_from {sorted : List α} (ascending : sorted.Pairwise (· < ·)) {limit : ℕ}
    (positive : 0 < limit) (value : α → β) (key : β → α)
    (inverse : ∀ element, key (value element) = element) (fuel : ℕ) (after : Option α)
    (before : List β) :
    gather (fun cursor => ((window sorted cursor limit).map value,
        decide ((window sorted cursor limit).length < limit))) key fuel after before =
      if (sorted.filter (beyond after)).length < fuel * limit then
        some (before ++ (sorted.filter (beyond after)).map value)
      else none := by
  induction fuel generalizing after before with
  | zero => rw [Nat.zero_mul, if_neg (Nat.not_lt_zero _), gather]
  | succ fuel ih =>
      simp only [gather, List.map_eq_nil_iff, decide_eq_true_eq, Nat.succ_mul]
      split
      · rename_i final
        have whole := window_of_final positive final
        rw [whole] at final ⊢
        have short : (sorted.filter (beyond after)).length < limit := by
          rcases final with short | nothing
          · exact short
          · rw [nothing]
            exact positive
        rw [if_pos (by omega)]
      · rename_i more
        rcases exists_last_of_more ascending more with ⟨last, lastIs, split, shorter⟩
        have within : (sorted.filter (beyond after)).length < fuel * limit + limit ↔
            (sorted.filter (beyond (some last))).length < fuel * limit := by
          omega
        rw [List.getLast?_map, lastIs, Option.map_some, Option.map_some, inverse, ih]
        simp only [within]
        rw [split, List.map_append, List.append_assoc]

/-- Sorting what is left after a cursor leaves the same as filtering the sorted list. -/
theorem insertionSort_filter (elements : List α) (keep : α → Bool) :
    (elements.filter keep).insertionSort (· ≤ ·) = (elements.insertionSort (· ≤ ·)).filter keep := by
  apply List.Perm.eq_of_pairwise' (List.pairwise_insertionSort _ _)
  · exact (List.pairwise_insertionSort _ _).filter keep
  · exact (List.perm_insertionSort _ _).trans ((List.perm_insertionSort _ _).symm.filter keep)

/-- Distinct elements come out of sorting in strictly ascending order. -/
theorem insertionSort_ascending {elements : List α} (distinct : elements.Nodup) :
    (elements.insertionSort (· ≤ ·)).Pairwise (· < ·) := by
  have sorted := List.pairwise_insertionSort (· ≤ ·) elements
  have nodup := (List.perm_insertionSort (· ≤ ·) elements).nodup_iff.mpr distinct
  exact (sorted.and nodup).imp fun both => lt_of_le_of_ne both.1 both.2

end Paging
