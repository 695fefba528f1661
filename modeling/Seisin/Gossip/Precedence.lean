import Mathlib
import Seisin.Gossip.Membership

/-!
# Reports that arrive in any order

A report about a member supersedes another by incarnation and then by severity, so what a table has
of a member is the greatest of everything it was told, in whatever order and however often.
-/

namespace Seisin

/-- Reports are compared by incarnation first, then by severity. -/
def MemberRecord.precedence (record : MemberRecord) : ℕ ×ₗ ℕ :=
  toLex (record.incarnation, record.status.severity)

theorem MemberStatus.severity_injective : Function.Injective MemberStatus.severity := by
  intro first second same
  cases first <;> cases second <;> first | rfl | cases same

/-- The precedence of a report determines what it says of the member's life. -/
theorem MemberRecord.precedence_inj {first second : MemberRecord} :
    first.precedence = second.precedence ↔
      first.incarnation = second.incarnation ∧ first.status = second.status := by
  rw [precedence, precedence, EmbeddingLike.apply_eq_iff_eq, Prod.mk.injEq,
    MemberStatus.severity_injective.eq_iff]

namespace MemberTable

variable {table : MemberTable} {nodeId : NodeId} {update : MemberRecord}

theorem accepts_iff {current : MemberRecord} :
    accepts update current = true ↔ current.precedence < update.precedence := by
  rw [MemberRecord.precedence, MemberRecord.precedence, Prod.Lex.toLex_lt_toLex]
  simp only [accepts, Bool.or_eq_true, Bool.and_eq_true, decide_eq_true_eq]
  rw [eq_comm (a := update.incarnation)]

/-- `merge_update` with its answer, whether the report changed the table. -/
def mergeReported (table : MemberTable) (nodeId : NodeId) (update : MemberRecord) :
    MemberTable × Bool :=
  match table.lookup nodeId with
  | none => (table.insert nodeId update, true)
  | some current =>
      if accepts update current then (table.insert nodeId update, true) else (table, false)

theorem mergeReported_fst (table : MemberTable) (nodeId : NodeId) (update : MemberRecord) :
    (table.mergeReported nodeId update).1 = table.mergeUpdate nodeId update := by
  unfold mergeReported mergeUpdate
  cases table.lookup nodeId with
  | none => rfl
  | some current =>
      by_cases accepted : accepts update current
      · simp only [accepted, if_true]
      · simp only [accepted, Bool.false_eq_true, if_false]

/-- The precedences of what a table had of a member and of what it was told. -/
def Told (table : MemberTable) (updates : List (NodeId × MemberRecord)) (nodeId : NodeId) :
    Set (ℕ ×ₗ ℕ) :=
  { precedence | ∃ record, (table.lookup nodeId = some record ∨ (nodeId, record) ∈ updates) ∧
      record.precedence = precedence }

/-- Nothing a table had or was told exceeds what it has. -/
theorem le_of_mergeUpdate {current : MemberRecord} (other : NodeId)
    (known : table.lookup other = some current) :
    ∃ record, (table.mergeUpdate nodeId update).lookup other = some record ∧
      current.precedence ≤ record.precedence := by
  rw [lookup_mergeUpdate]
  split
  · rename_i accepted
    rcases accepted with ⟨rfl, superseded⟩
    rw [known, Option.all_some, accepts_iff] at superseded
    exact ⟨update, rfl, superseded.le⟩
  · exact ⟨current, known, le_rfl⟩

theorem update_le_mergeUpdate (table : MemberTable) (nodeId : NodeId) (update : MemberRecord) :
    ∃ record, (table.mergeUpdate nodeId update).lookup nodeId = some record ∧
      update.precedence ≤ record.precedence := by
  rw [lookup_mergeUpdate]
  split
  · exact ⟨update, rfl, le_rfl⟩
  · rename_i refused
    cases known : table.lookup nodeId with
    | none => simp [known] at refused
    | some current =>
        simp only [known, Option.all_some, true_and, accepts_iff] at refused
        exact ⟨current, rfl, not_lt.mp refused⟩

theorem le_of_mergeAll {updates : List (NodeId × MemberRecord)} {current : MemberRecord}
    (known : table.lookup nodeId = some current ∨ (nodeId, current) ∈ updates) :
    ∃ record, (table.mergeAll updates).lookup nodeId = some record ∧
      current.precedence ≤ record.precedence := by
  induction updates generalizing table current with
  | nil =>
      rcases known with had | told
      · exact ⟨current, had, le_rfl⟩
      · cases told
  | cons told updates ih =>
      -- Whatever the first update leaves is carried through the others.
      have carried : ∀ {middle : MemberRecord},
          (table.mergeUpdate told.1 told.2).lookup nodeId = some middle →
          current.precedence ≤ middle.precedence →
          ∃ record, (table.mergeAll (told :: updates)).lookup nodeId = some record ∧
            current.precedence ≤ record.precedence := by
        intro middle found exceeds
        rcases ih (Or.inl found) with ⟨record, final, further⟩
        exact ⟨record, final, exceeds.trans further⟩
      rcases known with had | isTold
      · rcases le_of_mergeUpdate nodeId had with ⟨middle, found, exceeds⟩
        exact carried found exceeds
      · rcases List.mem_cons.mp isTold with rfl | later
        · rcases update_le_mergeUpdate table nodeId current with ⟨middle, found, exceeds⟩
          exact carried found exceeds
        · exact ih (Or.inr later)

/-- A record of a merged table that was not there before supersedes the one that was. -/
theorem precedence_lt_of_mergeAll {updates : List (NodeId × MemberRecord)} {record : MemberRecord}
    (found : (table.mergeAll updates).lookup nodeId = some record) :
    table.lookup nodeId = some record ∨ ((nodeId, record) ∈ updates ∧
      ∀ current, table.lookup nodeId = some current → current.precedence < record.precedence) := by
  induction updates generalizing table with
  | nil => exact Or.inl found
  | cons told updates ih =>
      rcases ih found with middle | ⟨isTold, supersedes⟩
      · rw [lookup_mergeUpdate] at middle
        split at middle
        · rename_i accepted
          cases middle
          rw [accepted.1]
          refine Or.inr ⟨List.mem_cons_self, ?_⟩
          intro current known
          have superseded := accepted.2
          rwa [known, Option.all_some, accepts_iff] at superseded
        · exact Or.inl middle
      · refine Or.inr ⟨List.mem_cons_of_mem _ isTold, ?_⟩
        intro current known
        rcases le_of_mergeUpdate nodeId known with ⟨middle, isMiddle, exceeds⟩
        exact exceeds.trans_lt (supersedes middle isMiddle)

/-- What a table has of a member is the greatest of all it had and was told. -/
theorem isGreatest_mergeAll {updates : List (NodeId × MemberRecord)} {record : MemberRecord}
    (found : (table.mergeAll updates).lookup nodeId = some record) :
    IsGreatest (table.Told updates nodeId) record.precedence := by
  refine ⟨⟨record, lookup_mergeAll found, rfl⟩, ?_⟩
  rintro _ ⟨current, known, rfl⟩
  rcases le_of_mergeAll known with ⟨other, again, exceeds⟩
  rw [found] at again
  cases again
  exact exceeds

theorem lookup_mergeAll_eq_none {updates : List (NodeId × MemberRecord)} :
    (table.mergeAll updates).lookup nodeId = none ↔ table.Told updates nodeId = ∅ := by
  constructor
  · intro unknown
    rw [Set.eq_empty_iff_forall_notMem]
    rintro _ ⟨current, known, rfl⟩
    rcases le_of_mergeAll known with ⟨record, found, _⟩
    rw [unknown] at found
    cases found
  · intro nothing
    by_contra known
    rcases Option.ne_none_iff_exists'.mp known with ⟨record, found⟩
    have told := (isGreatest_mergeAll found).1
    rw [nothing] at told
    exact told

/-- `merge_update` answers whether the member is new or its precedence rose. -/
theorem mergeReported_snd :
    (table.mergeReported nodeId update).2 = true ↔
      nodeId ∉ table ∨ ∃ before after, table.lookup nodeId = some before ∧
        (table.mergeReported nodeId update).1.lookup nodeId = some after ∧
          before.precedence < after.precedence := by
  rw [mergeReported_fst, lookup_mergeUpdate, ← AList.lookup_eq_none]
  unfold mergeReported
  cases known : table.lookup nodeId with
  | none => simp
  | some current =>
      by_cases accepted : accepts update current
      · have rises := accepts_iff.mp accepted
        simp [accepted, rises]
      · simp [accepted]

/-- What a table says of the lives of its members. -/
def lives (table : MemberTable) (nodeId : NodeId) : Option (ℕ × MemberStatus) :=
  (table.lookup nodeId).map fun record => (record.incarnation, record.status)

/-- Tables that had and were told the same precedences say the same. -/
theorem lives_mergeAll_congr {other : MemberTable} {updates others : List (NodeId × MemberRecord)}
    (same : table.Told updates nodeId = other.Told others nodeId) :
    (table.mergeAll updates).lives nodeId = (other.mergeAll others).lives nodeId := by
  unfold lives
  cases found : (table.mergeAll updates).lookup nodeId with
  | none =>
      rw [lookup_mergeAll_eq_none, same, ← lookup_mergeAll_eq_none] at found
      rw [found]
  | some record =>
      cases again : (other.mergeAll others).lookup nodeId with
      | none =>
          rw [lookup_mergeAll_eq_none, ← same, ← lookup_mergeAll_eq_none, found] at again
          cases again
      | some otherRecord =>
          have greatest := isGreatest_mergeAll found
          rw [same] at greatest
          have equal := greatest.unique (isGreatest_mergeAll again)
          rcases MemberRecord.precedence_inj.mp equal with ⟨incarnation, status⟩
          rw [Option.map_some, Option.map_some, incarnation, status]

/-- The order and the number of times in which reports are merged make no difference: every member
has the greatest precedence it had or was reported with, the answer of a merge tells whether that
rose, and tables that say the same of the lives of their members and are told the same reports
still do. -/
theorem merge_order_independent (table : MemberTable) (updates : List (NodeId × MemberRecord)) :
    (∀ nodeId record, (table.mergeAll updates).lookup nodeId = some record →
      IsGreatest (table.Told updates nodeId) record.precedence) ∧
    (∀ nodeId, (table.mergeAll updates).lookup nodeId = none ↔ table.Told updates nodeId = ∅) ∧
    (∀ nodeId update, ((table.mergeAll updates).mergeReported nodeId update).1 =
        table.mergeAll (updates ++ [(nodeId, update)]) ∧
      (((table.mergeAll updates).mergeReported nodeId update).2 = true ↔
        nodeId ∉ table.mergeAll updates ∨ ∃ before after,
          (table.mergeAll updates).lookup nodeId = some before ∧
          (table.mergeAll (updates ++ [(nodeId, update)])).lookup nodeId = some after ∧
            before.precedence < after.precedence)) ∧
    ∀ (other : MemberTable) (others : List (NodeId × MemberRecord)),
      (∀ nodeId, table.lives nodeId = other.lives nodeId) →
      (∀ update, update ∈ updates ↔ update ∈ others) →
        ∀ nodeId, (table.mergeAll updates).lives nodeId = (other.mergeAll others).lives nodeId := by
  have appended : ∀ nodeId update, ((table.mergeAll updates).mergeReported nodeId update).1 =
      table.mergeAll (updates ++ [(nodeId, update)]) := by
    intro nodeId update
    rw [mergeReported_fst, mergeAll, mergeAll, List.foldl_append]
    rfl
  refine ⟨fun _ _ => isGreatest_mergeAll, fun _ => lookup_mergeAll_eq_none, ?_, ?_⟩
  · intro nodeId update
    refine ⟨appended nodeId update, ?_⟩
    rw [← appended]
    exact mergeReported_snd
  · intro other others sameLives sameUpdates nodeId
    apply lives_mergeAll_congr
    ext precedence
    have hadSame : (∃ record, table.lookup nodeId = some record ∧
          record.precedence = precedence) ↔
        ∃ record, other.lookup nodeId = some record ∧ record.precedence = precedence := by
      have equal := sameLives nodeId
      unfold lives at equal
      cases first : table.lookup nodeId with
      | none =>
          rw [first, Option.map_none, eq_comm, Option.map_eq_none_iff] at equal
          rw [equal]
      | some record =>
          rw [first, Option.map_some, eq_comm, Option.map_eq_some_iff] at equal
          rcases equal with ⟨otherRecord, second, lives⟩
          have precedences : otherRecord.precedence = record.precedence :=
            MemberRecord.precedence_inj.mpr (Prod.mk.inj lives)
          rw [second]
          simp [precedences]
    simp only [Told, Set.mem_ofPred_eq, or_and_right, exists_or, hadSame, sameUpdates]

end MemberTable

end Seisin
