import Seisin.Migrate.Plan
import Seisin.Storage.LogRefinement

/-!
# Listing the datums of a node

A storage node answers `ListIds` with the datums that come after a given one, at most as many as it
is asked for, and with a flag that says whether these were the last.  The driver asks again, after
the last datum of each page, until the flag is set or a page is empty.  Where the number of datums
is a multiple of the page length the flag comes with an empty page.
-/

namespace Seisin

namespace DatumLog

/-- The reply to `ListIds`: a page, and whether it is the last. -/
def idList (log : DatumLog) (after : Option DatumId) (limit : ℕ) : List (DatumId × ℕ) × Bool :=
  let ids := log.listIds after limit
  (ids, ids.length < limit)

theorem idList_eq_window (log : DatumLog) (after : Option DatumId) (limit : ℕ) :
    log.idList after limit =
      ((Paging.window (log.index.keys.insertionSort (· ≤ ·)) after limit).map
        (fun id => (id, ((log.index.lookup id).map LogRef.n).getD 0)),
        decide ((Paging.window (log.index.keys.insertionSort (· ≤ ·)) after limit).length <
          limit)) := by
  simp only [idList, listIds, Migrate.indexedIds_eq_window, List.length_map]

theorem get_eq_ok_none_iff {log : DatumLog} {id : DatumId} :
    log.get id = .ok none ↔ log.nOf id = none := by
  cases found : log.index.lookup id with
  | none => simp [get, nOf, found]
  | some ref => cases read : materialize log.file log.endOffset ref <;> simp [get, nOf, found, read]

end DatumLog

namespace Migrate

/-- Asks for pages of `limit` datums of a node that does not change meanwhile, at most `fuel`
times. -/
def gatherIds (log : DatumLog) (limit fuel : ℕ) : Option (List (DatumId × ℕ)) :=
  Paging.gather (fun after => log.idList after limit) Prod.fst fuel none []

/-- The datums of a log in ascending order, with their replication factors. -/
def listing (log : DatumLog) : List (DatumId × ℕ) :=
  (log.index.keys.insertionSort (· ≤ ·)).map
    fun id => (id, ((log.index.lookup id).map LogRef.n).getD 0)

theorem mem_listing {log : DatumLog} {id : DatumId} {n : ℕ} :
    (id, n) ∈ listing log ↔ log.nOf id = some n :=
  mem_map_lookup

theorem map_fst_listing (log : DatumLog) :
    (listing log).map Prod.fst = log.index.keys.insertionSort (· ≤ ·) := by
  rw [listing, List.map_map]
  exact List.map_id _

theorem length_listing (log : DatumLog) : (listing log).length = log.index.keys.length := by
  rw [listing, List.length_map, List.length_insertionSort]

/-- As many questions as there are full pages, and one more, are enough, and fewer are not. -/
theorem gatherIds_eq (log : DatumLog) {limit : ℕ} (positive : 0 < limit) (fuel : ℕ) :
    gatherIds log limit fuel =
      if (listing log).length / limit < fuel then some (listing log) else none := by
  have ascending := Paging.insertionSort_ascending log.index.keys_nodup
  have whole : (log.index.keys.insertionSort (· ≤ ·)).filter (Paging.beyond none) =
      log.index.keys.insertionSort (· ≤ ·) :=
    List.filter_eq_self.mpr fun _ _ => rfl
  simp only [gatherIds, DatumLog.idList_eq_window]
  rw [Paging.gather_window_from ascending positive _ _ (fun _ => rfl), whole, List.nil_append,
    List.length_insertionSort, ← length_listing]
  simp only [Nat.div_lt_iff_lt_mul positive]
  rfl

/-- The listing ends whatever the page length, and names every datum the log has once, in ascending
order and with the factor stored for it. -/
theorem list_all_ids_complete (log : DatumLog) {limit : ℕ} (positive : 0 < limit) :
    ∃ ids, (∀ fuel, gatherIds log limit fuel =
        if ids.length / limit < fuel then some ids else none) ∧
      (ids.map Prod.fst).Pairwise (· < ·) ∧
      (∀ id n, (id, n) ∈ ids ↔ log.nOf id = some n) ∧
      ∀ id, id ∈ ids.map Prod.fst ↔ log.get id ≠ .ok none := by
  refine ⟨listing log, gatherIds_eq log positive, ?_, fun id n => mem_listing, ?_⟩
  · rw [map_fst_listing]
    exact Paging.insertionSort_ascending log.index.keys_nodup
  · intro id
    rw [Ne, DatumLog.get_eq_ok_none_iff, ← Ne, Option.ne_none_iff_exists']
    constructor
    · intro listed
      rcases List.mem_map.mp listed with ⟨⟨id, n⟩, entryMem, rfl⟩
      exact ⟨n, mem_listing.mp entryMem⟩
    · rintro ⟨n, present⟩
      exact List.mem_map.mpr ⟨(id, n), mem_listing.mpr present, rfl⟩

/-- Two datums listed one at a time: the third page is empty. -/
theorem list_all_ids_complete_sample :
    ∃ ids, (∀ fuel, gatherIds
        (((DatumLog.create []).putFull 7 [1] 3).putFull 2 [5, 6] 1) 1 fuel =
        if ids.length / 1 < fuel then some ids else none) ∧
      (ids.map Prod.fst).Pairwise (· < ·) ∧
      (∀ id n, (id, n) ∈ ids ↔
        (((DatumLog.create []).putFull 7 [1] 3).putFull 2 [5, 6] 1).nOf id = some n) ∧
      ∀ id, id ∈ ids.map Prod.fst ↔
        (((DatumLog.create []).putFull 7 [1] 3).putFull 2 [5, 6] 1).get id ≠ .ok none :=
  list_all_ids_complete _ Nat.one_pos

/-- What the plan of a migration takes for the listing of a node is what asking it gives. -/
theorem gatherIds_eq_listAllIds {log : DatumLog} {content : Content}
    (stores : log.Stores content) {fuel : ℕ} (enough : content.keys.length / pageLen < fuel) :
    gatherIds log pageLen fuel = some (listAllIds content) := by
  have factors : ∀ id, (log.index.lookup id).map LogRef.n =
      (content.lookup id).map Prod.snd := by
    intro id
    cases held : content.lookup id with
    | none => rw [(stores.holds id).absent held, Option.map_none, Option.map_none]
    | some entry =>
        rcases (stores.holds id).present entry.1 entry.2 held with ⟨ref, found, -, -, factor⟩
        rw [found, Option.map_some, Option.map_some, factor]
  have same : listing log = listAllIds content := by
    have perm := (indexedIds_congr factors).1
    rw [listAllIds_eq, listing]
    simp only [factors]
    congr 1
    apply List.Perm.eq_of_pairwise' (List.pairwise_insertionSort _ _)
      (List.pairwise_insertionSort _ _)
    exact (List.perm_insertionSort _ _).trans (perm.trans (List.perm_insertionSort _ _).symm)
  have listedLength : (listAllIds content).length = content.keys.length := by
    rw [listAllIds_eq, List.length_map, List.length_insertionSort]
  rw [gatherIds_eq log (by decide), same, listedLength, if_pos enough]

end Migrate

end Seisin
