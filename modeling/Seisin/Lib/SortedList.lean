import Mathlib

/-!
# Maps as sorted lists

A finite map as the list of its entries, ascending by key.  `upsert` puts an entry in its place and
`List.eraseP` takes one out; both act on the part of a concatenation whose keys surround the key.
A binary search may find any of equal keys: `upsertBy` and `removeBy` act on the entry it finds.
-/

namespace SortedList

variable {Key Value : Type*} [LinearOrder Key] {key : Key} {value : Value}
  {entries left right : List (Key × Value)} {r : Key → Key → Prop}

/-- Strictly ascending by key. -/
def Ascending (entries : List (Key × Value)) : Prop :=
  entries.Pairwise fun first second => first.1 < second.1

/-- Ascending by a comparison of keys. -/
def AscendingBy (r : Key → Key → Prop) (entries : List (Key × Value)) : Prop :=
  entries.Pairwise fun first second => r first.1 second.1

/-- A comparison that is `<` or `≤`, or something in between. -/
structure Comparison (r : Key → Key → Prop) : Prop where
  le : ∀ {first second}, r first second → first ≤ second
  of_lt : ∀ {first second}, first < second → r first second
  le_trans : ∀ {first second third}, first ≤ second → r second third → r first third
  trans_le : ∀ {first second third}, r first second → second ≤ third → r first third

theorem comparison_lt : Comparison ((· < ·) : Key → Key → Prop) :=
  ⟨le_of_lt, id, lt_of_le_of_lt, lt_of_lt_of_le⟩

theorem comparison_le : Comparison ((· ≤ ·) : Key → Key → Prop) :=
  ⟨id, le_of_lt, le_trans, le_trans⟩

/-- Puts an entry in its place, replacing the one with the same key. -/
def upsert (key : Key) (value : Value) : List (Key × Value) → List (Key × Value)
  | [] => [(key, value)]
  | entry :: rest =>
      if entry.1 < key then entry :: upsert key value rest
      else if key < entry.1 then (key, value) :: entry :: rest
      else (key, value) :: rest

/-- Puts entries in their places, one after the other. -/
def upsertAll (entries : List (Key × Value)) (added : List (Key × Value)) : List (Key × Value) :=
  added.foldl (fun entries entry => upsert entry.1 entry.2 entries) entries

/-- Whether there is an entry with the key. -/
def hasKey (key : Key) (entries : List (Key × Value)) : Bool :=
  entries.any fun entry => entry.1 = key

/-- Takes the entry with the key out. -/
def removeKey (key : Key) (entries : List (Key × Value)) : List (Key × Value) :=
  entries.eraseP fun entry => entry.1 = key

/-- The value of a key. -/
def find (key : Key) (entries : List (Key × Value)) : Option Value :=
  (entries.find? fun entry => entry.1 = key).map Prod.snd

/-- How many entries are before the one with the key. -/
def position (key : Key) (entries : List (Key × Value)) : Option ℕ :=
  entries.findIdx? fun entry => entry.1 = key

theorem Ascending.nil : Ascending ([] : List (Key × Value)) := List.Pairwise.nil

theorem ascending_append : Ascending (left ++ right) ↔ Ascending left ∧ Ascending right ∧
    ∀ first ∈ left, ∀ second ∈ right, first.1 < second.1 :=
  List.pairwise_append

/-! ## Concatenations -/

theorem upsert_append_left (below : ∀ entry ∈ left, entry.1 < key) :
    upsert key value (left ++ right) = left ++ upsert key value right := by
  induction left with
  | nil => rfl
  | cons entry left ih =>
      have first := below entry List.mem_cons_self
      simp only [List.cons_append, upsert, first, if_true]
      rw [ih fun other otherMem => below other (List.mem_cons_of_mem _ otherMem)]

theorem upsert_append_right (above : ∀ entry ∈ right, key < entry.1) :
    upsert key value (left ++ right) = upsert key value left ++ right := by
  induction left with
  | nil =>
      cases right with
      | nil => rfl
      | cons entry right =>
          have first := above entry List.mem_cons_self
          simp only [List.nil_append, upsert, first.not_gt, if_false, first, if_true,
            List.cons_append]
  | cons entry left ih =>
      simp only [List.cons_append, upsert, ih]
      split
      · rfl
      · split <;> rfl

theorem hasKey_append :
    hasKey key (left ++ right) = (hasKey key left || hasKey key right) :=
  List.any_append

theorem hasKey_eq_false (differ : ∀ entry ∈ entries, entry.1 ≠ key) :
    hasKey key entries = false := by
  rw [hasKey, List.any_eq_false]
  intro entry entryMem
  simpa using differ entry entryMem

theorem hasKey_iff : hasKey key entries = true ↔ ∃ value, (key, value) ∈ entries := by
  rw [hasKey, List.any_eq_true]
  constructor
  · rintro ⟨⟨other, value⟩, entryMem, same⟩
    have here : other = key := by simpa using same
    subst here
    exact ⟨value, entryMem⟩
  · rintro ⟨value, entryMem⟩
    exact ⟨(key, value), entryMem, by simp⟩

theorem removeKey_append_left (differ : ∀ entry ∈ left, entry.1 ≠ key) :
    removeKey key (left ++ right) = left ++ removeKey key right := by
  apply List.eraseP_append_right
  intro entry entryMem
  simpa using differ entry entryMem

theorem removeKey_of_differ (differ : ∀ entry ∈ entries, entry.1 ≠ key) :
    removeKey key entries = entries := by
  apply List.eraseP_of_forall_not
  intro entry entryMem
  simpa using differ entry entryMem

theorem removeKey_append_right (differ : ∀ entry ∈ right, entry.1 ≠ key) :
    removeKey key (left ++ right) = removeKey key left ++ right := by
  by_cases present : ∃ entry ∈ left, entry.1 = key
  · rcases present with ⟨entry, entryMem, same⟩
    unfold removeKey
    rw [List.eraseP_append_left (a := entry) (by simpa using same) right entryMem]
  · rw [not_exists] at present
    have absent : ∀ entry ∈ left, entry.1 ≠ key :=
      fun entry entryMem same => present entry ⟨entryMem, same⟩
    rw [removeKey_append_left absent, removeKey_of_differ differ, removeKey_of_differ absent]

/-- The keys that are left are those of the list without the key. -/
theorem map_fst_removeKey [BEq Key] [LawfulBEq Key] :
    (removeKey key entries).map Prod.fst = (entries.map Prod.fst).erase key := by
  rw [removeKey, List.erase_eq_eraseP', List.eraseP_map]
  congr 2
  funext entry
  exact Bool.eq_iff_iff.mpr (by simp)

/-! ## Lengths -/

theorem length_upsert (key : Key) (value : Value) (comparison : Comparison r)
    (ascending : AscendingBy r entries) :
    (upsert key value entries).length = entries.length + (!hasKey key entries).toNat := by
  induction entries with
  | nil => rfl
  | cons entry entries ih =>
      rw [AscendingBy, List.pairwise_cons] at ascending
      simp only [upsert]
      split
      · rename_i before
        rw [List.length_cons, ih ascending.2, List.length_cons]
        have same : hasKey key (entry :: entries) = hasKey key entries := by
          simp [hasKey, before.ne]
        rw [same]
        omega
      · rename_i notBefore
        split
        · rename_i after
          have absent : hasKey key (entry :: entries) = false := by
            apply hasKey_eq_false
            intro other otherMem
            rcases List.mem_cons.mp otherMem with rfl | later
            · exact after.ne'
            · exact (after.trans_le (comparison.le (ascending.1 other later))).ne'
          rw [absent]
          rfl
        · rename_i notAfter
          have same : entry.1 = key := le_antisymm (not_lt.mp notAfter) (not_lt.mp notBefore)
          have present : hasKey key (entry :: entries) = true := by simp [hasKey, same]
          rw [present]
          rfl

/-! ## Entries -/

theorem length_upsert_le (key : Key) (value : Value) (entries : List (Key × Value)) :
    (upsert key value entries).length ≤ entries.length + 1 := by
  induction entries with
  | nil => exact le_rfl
  | cons entry entries ih =>
      rw [upsert]
      split
      · exact Nat.succ_le_succ ih
      · split
        · exact le_rfl
        · exact Nat.le_succ _

theorem mem_upsert (ascending : Ascending entries) {entry : Key × Value} :
    entry ∈ upsert key value entries ↔
      entry = (key, value) ∨ entry ∈ entries ∧ entry.1 ≠ key := by
  induction entries with
  | nil => simp [upsert]
  | cons first entries ih =>
      rw [Ascending, List.pairwise_cons] at ascending
      simp only [upsert]
      split
      · rename_i before
        rw [List.mem_cons, ih ascending.2, List.mem_cons]
        constructor
        · rintro (rfl | same | later)
          · exact Or.inr ⟨Or.inl rfl, before.ne⟩
          · exact Or.inl same
          · exact Or.inr ⟨Or.inr later.1, later.2⟩
        · rintro (same | ⟨rfl | later, differ⟩)
          · exact Or.inr (Or.inl same)
          · exact Or.inl rfl
          · exact Or.inr (Or.inr ⟨later, differ⟩)
      · rename_i notBefore
        have others : ∀ other ∈ entries, other.1 ≠ key := by
          intro other later
          exact ((not_lt.mp notBefore).trans_lt (ascending.1 other later)).ne'
        split
        · rename_i after
          rw [List.mem_cons, List.mem_cons]
          constructor
          · rintro (same | rfl | later)
            · exact Or.inl same
            · exact Or.inr ⟨Or.inl rfl, after.ne'⟩
            · exact Or.inr ⟨Or.inr later, others entry later⟩
          · rintro (same | ⟨present, _⟩)
            · exact Or.inl same
            · exact Or.inr present
        · rename_i notAfter
          have same : first.1 = key := le_antisymm (not_lt.mp notAfter) (not_lt.mp notBefore)
          rw [List.mem_cons, List.mem_cons]
          constructor
          · rintro (isNew | later)
            · exact Or.inl isNew
            · exact Or.inr ⟨Or.inr later, others entry later⟩
          · rintro (isNew | ⟨rfl | later, differ⟩)
            · exact Or.inl isNew
            · exact absurd same differ
            · exact Or.inr later

theorem mem_keys_upsert (ascending : Ascending entries) {added : Key} :
    key ∈ (upsert added value entries).map Prod.fst ↔
      key ∈ entries.map Prod.fst ∨ key = added := by
  simp only [List.mem_map, mem_upsert ascending]
  constructor
  · rintro ⟨other, rfl | ⟨present, _⟩, rfl⟩
    · exact Or.inr rfl
    · exact Or.inl ⟨other, present, rfl⟩
  · rintro (⟨other, present, rfl⟩ | rfl)
    · by_cases same : other.1 = added
      · exact ⟨(added, value), Or.inl rfl, same.symm⟩
      · exact ⟨other, Or.inr ⟨present, same⟩, rfl⟩
    · exact ⟨(key, value), Or.inl rfl, rfl⟩

theorem mem_of_mem_upsert {entry : Key × Value} (entryMem : entry ∈ upsert key value entries) :
    entry = (key, value) ∨ entry ∈ entries := by
  induction entries with
  | nil => exact Or.inl (List.mem_singleton.mp entryMem)
  | cons first entries ih =>
      unfold upsert at entryMem
      split at entryMem
      · rcases List.mem_cons.mp entryMem with rfl | later
        · exact Or.inr List.mem_cons_self
        · exact (ih later).imp_right (List.mem_cons_of_mem _)
      · split at entryMem
        · exact List.mem_cons.mp entryMem
        · exact (List.mem_cons.mp entryMem).imp_right (List.mem_cons_of_mem _)

theorem AscendingBy.upsert (comparison : Comparison r) (ascending : AscendingBy r entries) :
    AscendingBy r (upsert key value entries) := by
  induction entries with
  | nil => exact List.pairwise_singleton _ _
  | cons first entries ih =>
      have rest := (List.pairwise_cons.mp ascending).2
      have beyond := (List.pairwise_cons.mp ascending).1
      unfold SortedList.upsert
      split
      · rename_i before
        refine List.pairwise_cons.mpr ⟨?_, ih rest⟩
        intro other otherMem
        rcases mem_of_mem_upsert otherMem with rfl | later
        · exact comparison.of_lt before
        · exact beyond other later
      · rename_i notBefore
        split
        · rename_i after
          refine List.pairwise_cons.mpr ⟨?_, ascending⟩
          intro other otherMem
          rcases List.mem_cons.mp otherMem with rfl | later
          · exact comparison.of_lt after
          · exact comparison.le_trans after.le (beyond other later)
        · refine List.pairwise_cons.mpr ⟨?_, rest⟩
          intro other otherMem
          exact comparison.le_trans (not_lt.mp notBefore) (beyond other otherMem)

theorem Ascending.upsert (ascending : Ascending entries) :
    Ascending (upsert key value entries) :=
  AscendingBy.upsert comparison_lt ascending

variable {added : List (Key × Value)}

theorem Ascending.upsertAll (ascending : Ascending entries) :
    Ascending (upsertAll entries added) := by
  induction added generalizing entries with
  | nil => exact ascending
  | cons entry added ih => exact ih ascending.upsert

theorem mem_keys_upsertAll (ascending : Ascending entries) :
    key ∈ (upsertAll entries added).map Prod.fst ↔
      key ∈ entries.map Prod.fst ∨ key ∈ added.map Prod.fst := by
  induction added generalizing entries with
  | nil => simp [upsertAll]
  | cons entry added ih =>
      rw [List.map_cons, List.mem_cons, ← or_assoc, ← mem_keys_upsert ascending]
      exact ih ascending.upsert

/-- Where every key is given once, all entries that were given are there. -/
theorem mem_upsertAll (ascending : Ascending entries) (distinct : (added.map Prod.fst).Nodup)
    (apart : ∀ entry ∈ entries, entry.1 ∉ added.map Prod.fst) {entry : Key × Value} :
    entry ∈ upsertAll entries added ↔ entry ∈ entries ∨ entry ∈ added := by
  induction added generalizing entries with
  | nil => simp [upsertAll]
  | cons first added ih =>
      rw [List.map_cons, List.nodup_cons] at distinct
      have later : ∀ other ∈ upsert first.1 first.2 entries, other.1 ∉ added.map Prod.fst := by
        intro other otherMem
        rcases mem_of_mem_upsert otherMem with rfl | present
        · exact distinct.1
        · exact fun again => apart other present (List.mem_cons_of_mem _ again)
      have new : ∀ other ∈ entries, other.1 ≠ first.1 :=
        fun other otherMem same => apart other otherMem (same ▸ List.mem_cons_self)
      have here : entry ∈ upsert first.1 first.2 entries ↔ entry ∈ entries ∨ entry = first := by
        rw [mem_upsert ascending, or_comm]
        exact or_congr_left ⟨And.left, fun present => ⟨present, new entry present⟩⟩
      rw [List.mem_cons, ← or_assoc, ← here]
      exact ih ascending.upsert distinct.2 later

/-- Ascending lists with the same entries are the same. -/
theorem Ascending.eq_of_mem_iff (leftAscending : Ascending left) (rightAscending : Ascending right)
    (same : ∀ entry, entry ∈ left ↔ entry ∈ right) : left = right := by
  have nodup : ∀ {entries : List (Key × Value)}, Ascending entries → entries.Nodup :=
    fun ascending => ascending.imp fun less => fun equal => less.ne (congrArg Prod.fst equal)
  refine List.Perm.eq_of_pairwise ?_ leftAscending rightAscending
    ((List.perm_ext_iff_of_nodup (nodup leftAscending) (nodup rightAscending)).mpr same)
  exact fun first second _ _ less greater => absurd greater less.asymm

theorem Ascending.removeKey (ascending : Ascending entries) :
    Ascending (removeKey key entries) :=
  ascending.sublist List.eraseP_sublist

theorem mem_removeKey (ascending : Ascending entries) {entry : Key × Value} :
    entry ∈ removeKey key entries ↔ entry ∈ entries ∧ entry.1 ≠ key := by
  induction entries with
  | nil => simp [removeKey]
  | cons first entries ih =>
      rw [Ascending, List.pairwise_cons] at ascending
      by_cases same : first.1 = key
      · have removed : removeKey key (first :: entries) = entries :=
          List.eraseP_cons_of_pos (by simpa using same)
        rw [removed, List.mem_cons]
        constructor
        · intro later
          have beyond := ascending.1 entry later
          rw [same] at beyond
          exact ⟨Or.inr later, beyond.ne'⟩
        · rintro ⟨rfl | later, differ⟩
          · exact absurd same differ
          · exact later
      · have kept : removeKey key (first :: entries) = first :: removeKey key entries :=
          List.eraseP_cons_of_neg (by simpa using same)
        rw [kept, List.mem_cons, List.mem_cons, ih ascending.2]
        constructor
        · rintro (rfl | ⟨later, differ⟩)
          · exact ⟨Or.inl rfl, same⟩
          · exact ⟨Or.inr later, differ⟩
        · rintro ⟨rfl | later, differ⟩
          · exact Or.inl rfl
          · exact Or.inr ⟨later, differ⟩

theorem Ascending.nodup_keys (ascending : Ascending entries) : (entries.map Prod.fst).Nodup := by
  rw [List.nodup_iff_pairwise_ne, List.pairwise_map]
  exact ascending.imp fun less => less.ne

theorem find_eq_some_iff (ascending : Ascending entries) :
    find key entries = some value ↔ (key, value) ∈ entries := by
  unfold find
  rw [Option.map_eq_some_iff]
  constructor
  · rintro ⟨⟨other, _⟩, found, rfl⟩
    have same : other = key := by simpa using List.find?_some found
    subst same
    exact List.mem_of_find?_eq_some found
  · intro entryMem
    cases found : entries.find? fun entry => entry.1 = key with
    | none => simpa using List.find?_eq_none.mp found (key, value) entryMem
    | some entry =>
        have same : entry.1 = key := by simpa using List.find?_some found
        have present := List.mem_of_find?_eq_some found
        have equal : entry = (key, value) :=
          List.inj_on_of_nodup_map ascending.nodup_keys present entryMem same
        exact ⟨entry, rfl, by rw [equal]⟩

theorem find_eq_none_iff : find key entries = none ↔ ∀ entry ∈ entries, entry.1 ≠ key := by
  simp [find, List.find?_eq_none]

theorem position_of_getElem? (ascending : Ascending entries) {index : ℕ}
    (present : entries[index]? = some (key, value)) : position key entries = some index := by
  rcases List.getElem?_eq_some_iff.mp present with ⟨inside, here⟩
  unfold position
  rw [List.findIdx?_eq_some_iff_getElem]
  refine ⟨inside, by simp [here], ?_⟩
  intro earlier before
  have less := List.pairwise_iff_getElem.mp ascending earlier index (by omega) inside before
  rw [here] at less
  simpa using less.ne

/-- A list of values of a function is the image of a list. -/
theorem exists_map_eq {Source Target : Type*} {property : Source → Prop} {f : Source → Target}
    {targets : List Target}
    (each : ∀ target ∈ targets, ∃ source, property source ∧ target = f source) :
    ∃ sources : List Source, (∀ source ∈ sources, property source) ∧ targets = sources.map f := by
  induction targets with
  | nil => exact ⟨[], nofun, rfl⟩
  | cons target targets ih =>
      rcases each target List.mem_cons_self with ⟨source, holds, rfl⟩
      rcases ih fun other otherMem => each other (List.mem_cons_of_mem _ otherMem) with
        ⟨sources, all, rfl⟩
      refine ⟨source :: sources, ?_, rfl⟩
      intro other otherMem
      rcases List.mem_cons.mp otherMem with rfl | later
      · exact holds
      · exact all other later

/-! ## Binary search -/

/-- Where a search finds a key; of several equal ones it may be any. -/
structure Search (Key : Type*) where
  index : Key → List Key → ℕ
  finds : ∀ {key keys}, key ∈ keys → keys[index key keys]? = some key

/-- The search that finds the first of equal keys. -/
def Search.first : Search Key where
  index key keys := keys.idxOf key
  finds present := List.getElem?_idxOf present

variable (search : Search Key)

/-- The place of an entry with the key. -/
def place (key : Key) (entries : List (Key × Value)) : ℕ :=
  search.index key (entries.map Prod.fst)

/-- Puts an entry in its place, replacing the one with the same key that the search finds. -/
def upsertBy (key : Key) (value : Value) (entries : List (Key × Value)) : List (Key × Value) :=
  if hasKey key entries then entries.set (place search key entries) (key, value)
  else upsert key value entries

/-- Takes the entry out that the search finds. -/
def removeBy (key : Key) (entries : List (Key × Value)) : List (Key × Value) :=
  if hasKey key entries then entries.eraseIdx (place search key entries) else entries

/-- The place is that of an entry with the key. -/
theorem getElem?_place (present : hasKey key entries = true) :
    ∃ value, entries[place search key entries]? = some (key, value) := by
  rcases hasKey_iff.mp present with ⟨value, entryMem⟩
  have found := search.finds (List.mem_map_of_mem (f := Prod.fst) entryMem)
  rw [List.getElem?_map, Option.map_eq_some_iff] at found
  rcases found with ⟨⟨other, old⟩, here, rfl⟩
  exact ⟨old, here⟩

theorem position_eq (ascending : Ascending entries) : position key entries =
    if hasKey key entries then some (place search key entries) else none := by
  cases present : hasKey key entries with
  | false =>
      rw [hasKey, List.any_eq_false] at present
      exact List.findIdx?_eq_none_iff.mpr fun entry entryMem => by
        simpa using present entry entryMem
  | true =>
      rcases getElem?_place search present with ⟨value, here⟩
      exact position_of_getElem? ascending here

/-- A search finds no entry, or one with the key between others. -/
theorem search_cases (key : Key) (value : Value) (entries : List (Key × Value)) :
    (hasKey key entries = false ∧
      upsertBy search key value entries = upsert key value entries ∧
      removeBy search key entries = entries) ∨
    ∃ before old after, hasKey key entries = true ∧ entries = before ++ (key, old) :: after ∧
      upsertBy search key value entries = before ++ (key, value) :: after ∧
      removeBy search key entries = before ++ after := by
  cases present : hasKey key entries with
  | false => exact Or.inl ⟨rfl, by simp [upsertBy, present], by simp [removeBy, present]⟩
  | true =>
      right
      rcases getElem?_place search present with ⟨old, here⟩
      rcases List.getElem?_eq_some_iff.mp here with ⟨inside, same⟩
      refine ⟨entries.take (place search key entries), old,
        entries.drop (place search key entries + 1), rfl, ?_, ?_, ?_⟩
      · rw [← same, List.cons_getElem_drop_succ, List.take_append_drop]
      · rw [upsertBy, if_pos present, List.set_eq_take_append_cons_drop, if_pos inside]
      · rw [removeBy, if_pos present, List.eraseIdx_eq_take_drop_succ]

theorem length_upsertBy (key : Key) (value : Value) (comparison : Comparison r)
    (ascending : AscendingBy r entries) : (upsertBy search key value entries).length =
      entries.length + (!hasKey key entries).toNat := by
  rcases search_cases search key value entries with
    ⟨_, upserted, _⟩ | ⟨before, old, after, present, whole, upserted, _⟩
  · rw [upserted, length_upsert key value comparison ascending]
  · rw [upserted, present, whole]
    simp

theorem length_upsertBy_le (key : Key) (value : Value) (entries : List (Key × Value)) :
    (upsertBy search key value entries).length ≤ entries.length + 1 := by
  rcases search_cases search key value entries with
    ⟨_, upserted, _⟩ | ⟨before, old, after, _, whole, upserted, _⟩
  · rw [upserted]
    exact length_upsert_le key value entries
  · rw [upserted, whole]
    simp

theorem mem_of_mem_upsertBy {entry : Key × Value}
    (entryMem : entry ∈ upsertBy search key value entries) :
    entry = (key, value) ∨ entry ∈ entries := by
  rcases search_cases search key value entries with
    ⟨_, upserted, _⟩ | ⟨before, old, after, _, whole, upserted, _⟩
  · rw [upserted] at entryMem
    exact mem_of_mem_upsert entryMem
  · rw [upserted, List.mem_append, List.mem_cons] at entryMem
    rw [whole, List.mem_append, List.mem_cons]
    rcases entryMem with earlier | here | later
    · exact Or.inr (Or.inl earlier)
    · exact Or.inl here
    · exact Or.inr (Or.inr (Or.inr later))

/-- The keys stay as they were. -/
theorem AscendingBy.upsertBy (comparison : Comparison r) (ascending : AscendingBy r entries) :
    AscendingBy r (upsertBy search key value entries) := by
  rcases search_cases search key value entries with
    ⟨_, upserted, _⟩ | ⟨before, old, after, _, whole, upserted, _⟩
  · rw [upserted]
    exact ascending.upsert comparison
  · rw [whole] at ascending
    rw [upserted]
    have keys : (before ++ (key, value) :: after).map Prod.fst =
        (before ++ (key, old) :: after).map Prod.fst := by simp
    have sorted : ((before ++ (key, old) :: after).map Prod.fst).Pairwise r :=
      List.pairwise_map.mpr ascending
    rw [← keys] at sorted
    exact List.pairwise_map.mp sorted

theorem removeBy_sublist : (removeBy search key entries).Sublist entries := by
  unfold removeBy
  split
  · exact List.eraseIdx_sublist _ _
  · exact List.Sublist.refl _

theorem length_removeBy (present : hasKey key entries = true) :
    (removeBy search key entries).length + 1 = entries.length := by
  rcases hasKey_iff.mp present with ⟨value, _⟩
  rcases search_cases search key value entries with
    ⟨absent, _⟩ | ⟨before, old, after, _, whole, _, removed⟩
  · rw [present] at absent
    cases absent
  · rw [removed, whole]
    simp
    omega

/-- Where every key is there once, the search finds that one. -/
theorem upsertBy_eq (ascending : Ascending entries) :
    upsertBy search key value entries = upsert key value entries := by
  rcases search_cases search key value entries with
    ⟨_, upserted, _⟩ | ⟨before, old, after, _, whole, upserted, _⟩
  · exact upserted
  · rw [upserted]
    rw [whole] at ascending ⊢
    have below := (ascending_append.mp ascending).2.2
    rw [upsert_append_left fun entry entryMem => below entry entryMem _ List.mem_cons_self]
    simp [upsert]

theorem removeBy_eq (ascending : Ascending entries) :
    removeBy search key entries = removeKey key entries := by
  cases present : hasKey key entries with
  | false =>
      rw [removeBy, if_neg (by simp [present]), removeKey_of_differ]
      intro entry entryMem same
      have there : hasKey key entries = true :=
        hasKey_iff.mpr ⟨entry.2, by rw [← same]; exact entryMem⟩
      rw [present] at there
      cases there
  | true =>
      rcases hasKey_iff.mp present with ⟨value, _⟩
      rcases search_cases search key value entries with
        ⟨absent, _⟩ | ⟨before, old, after, _, whole, _, removed⟩
      · rw [present] at absent
        cases absent
      · rw [removed]
        rw [whole] at ascending ⊢
        have below := (ascending_append.mp ascending).2.2
        rw [removeKey_append_left fun entry entryMem =>
          (below entry entryMem _ List.mem_cons_self).ne]
        simp [removeKey]

end SortedList
