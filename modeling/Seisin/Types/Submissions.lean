import Seisin.Types.Standings

/-!
# Leaderboards over histories of requests

An update puts a score into both collections or leaves them alone, as the rule says; a removal takes
the player out of both.  Over a whole history of requests, what a player has on the board is
determined by the submissions since the player was last removed.
-/

namespace Seisin

open ByteString SortedList Stateful

/-! ## What updates do to the map -/

namespace Scores

/-- The map after a submission that is accepted. -/
def put (scores : Scores) (classDef : LbClassDef) (playerId : DatumId) (display : Bytes)
    (rankKey : RankKey) : Scores :=
  Function.update scores playerId (some (rankKey, display.take classDef.displayLen.toNat))

def drop (scores : Scores) (playerId : DatumId) : Scores := Function.update scores playerId none

def serve (classDef : LbClassDef) (scores : Scores) : LbRequest → Scores
  | .query _ => scores
  | .execute (.update playerId display rankKey _ _ _) =>
      if (scores playerId).all fun held => classDef.rule.improves held.1 rankKey then
        scores.put classDef playerId display rankKey
      else scores
  | .execute (.remove playerId) => scores.drop playerId

end Scores

/-- The query whose answer is the reply to a request. -/
def LbRequest.asks : LbRequest → LbQueryReq
  | .query req => req
  | .execute (.update playerId _ _ friendIds top window) =>
      ⟨top, 0, some playerId, window, friendIds⟩
  | .execute (.remove _) => ⟨0, 0, none, 0, []⟩

theorem encodeDisplay_take (display : Bytes) (displayLen : UInt16) :
    encodeDisplay (display.take displayLen.toNat) displayLen = encodeDisplay display displayLen := by
  simp only [encodeDisplay, List.take_take, min_self]

/-- A collection that holds the entries of a map has a ranking. -/
theorem exists_ranking {scores : Scores} {displayLen : UInt16} {pairs : List (Bytes × Bytes)}
    (ascending : Ascending pairs)
    (mem : ∀ pair, pair ∈ pairs ↔ ∃ entry : LbEntry,
      scores entry.playerId = some (entry.rankKey, entry.display) ∧ pair = entry.pair displayLen) :
    ∃ ranking, Ranks scores ranking ∧ pairs = ranking.map (LbEntry.pair displayLen) := by
  rcases exists_map_eq fun pair pairMem => (mem pair).mp pairMem with ⟨ranking, held, rfl⟩
  refine ⟨ranking, ⟨?_, ?_⟩, rfl⟩
  · rw [Ascending, List.pairwise_map] at ascending
    exact ascending.imp compositeKey_lt_iff.mp
  · intro entry
    constructor
    · exact held entry
    · intro isHeld
      rcases List.mem_map.mp ((mem (entry.pair displayLen)).mpr ⟨entry, isHeld, rfl⟩) with
        ⟨other, otherMem, same⟩
      have keys := compositeKey_inj.mp (Prod.mk.inj same).1
      have otherHeld := held other otherMem
      rw [keys.2, isHeld, Option.some.injEq, Prod.mk.injEq] at otherHeld
      have equal : other = entry := by
        cases other
        cases entry
        simp_all
      exact equal ▸ otherMem

namespace Coherent

variable {classDef : LbClassDef} {config : LbCacheConfig} {scores : Scores}
  {ranking : List LbEntry} {cache : LbCache}

variable (coherent : Coherent classDef config scores ranking cache)

include coherent

theorem ascending_removeRank (playerId : DatumId) (oldKey : Option RankKey) :
    Ascending ((cache.removeRank playerId oldKey).entries cache.rankId) := by
  cases oldKey with
  | none => exact coherent.ascendingRank
  | some oldKey =>
      rw [LbCache.removeRank, CollectionStore.entries_remove]
      exact coherent.ascendingRank.removeKey

theorem byPlayer_removeRank (playerId : DatumId) (oldKey : Option RankKey) :
    (cache.removeRank playerId oldKey).entries cache.byPlayerId =
      cache.store.entries cache.byPlayerId := by
  cases oldKey with
  | none => rfl
  | some oldKey => exact CollectionStore.entries_remove_ne coherent.distinct

theorem mem_removeRank {playerId : DatumId} {pair : Bytes × Bytes} :
    pair ∈ (cache.removeRank playerId ((scores playerId).map Prod.fst)).entries cache.rankId ↔
      ∃ entry ∈ ranking, entry.playerId ≠ playerId ∧ pair = entry.pair classDef.displayLen := by
  have stored : pair ∈ cache.store.entries cache.rankId ↔
      ∃ entry ∈ ranking, pair = entry.pair classDef.displayLen := by
    rw [coherent.rank, List.mem_map]
    simp only [eq_comm]
  cases held : scores playerId with
  | none =>
      simp only [Option.map_none, LbCache.removeRank, stored]
      refine exists_congr fun entry => and_congr_right fun present => ?_
      have differ : entry.playerId ≠ playerId := by
        rintro rfl
        rw [(coherent.ranks.mem entry).mp present] at held
        cases held
      simp only [differ, ne_eq, not_false_iff, true_and]
  | some score =>
      simp only [Option.map_some, LbCache.removeRank, CollectionStore.entries_remove,
        mem_removeKey coherent.ascendingRank, stored]
      constructor
      · rintro ⟨⟨entry, present, rfl⟩, differ⟩
        refine ⟨entry, present, ?_, rfl⟩
        rintro rfl
        rw [(coherent.ranks.mem entry).mp present] at held
        cases held
        exact differ rfl
      · rintro ⟨entry, present, differ, rfl⟩
        refine ⟨⟨entry, present, rfl⟩, ?_⟩
        intro same
        exact differ (compositeKey_inj.mp same).2

/-- Collections that hold a map that differs at one player, with nothing cached that may differ. -/
theorem rewritten {newScores : Scores} {playerId : DatumId} {store : CollectionStore}
    (others : ∀ other, other ≠ playerId → newScores other = scores other)
    (short : ∀ rankKey display, newScores playerId = some (rankKey, display) →
      display.length ≤ classDef.displayLen.toNat)
    (ascendingRank : Ascending (store.entries cache.rankId))
    (memRank : ∀ pair, pair ∈ store.entries cache.rankId ↔ ∃ entry : LbEntry,
      newScores entry.playerId = some (entry.rankKey, entry.display) ∧
        pair = entry.pair classDef.displayLen)
    (ascendingByPlayer : Ascending (store.entries cache.byPlayerId))
    (memByPlayer : ∀ pair, pair ∈ store.entries cache.byPlayerId ↔ ∃ entry : LbEntry,
      newScores entry.playerId = some (entry.rankKey, entry.display) ∧
        pair = (entry.playerId.asBytes, entry.rankKey.val)) :
    ∃ newRanking, Coherent classDef config newScores newRanking
      (({ cache with store := store } : LbCache).invalidate.withMiddle
        (cache.state.middle.remove playerId)) := by
  rcases exists_ranking ascendingRank memRank with ⟨newRanking, ranks, rank⟩
  refine ⟨newRanking, ?_⟩
  exact
    { sameClass := coherent.sameClass
      sameConfig := coherent.sameConfig
      distinct := coherent.distinct
      ranks := ranks
      short := by
        intro other rankKey display held
        by_cases same : other = playerId
        · subst same
          exact short rankKey display held
        · rw [others other same] at held
          exact coherent.short other rankKey display held
      rank := rank
      ascending := ascendingByPlayer
      byPlayer := by
        intro pair
        refine (memByPlayer pair).trans (exists_congr fun entry => ?_)
        rw [ranks.mem]
      top := nofun
      bottom := nofun
      total := nofun
      middle := by
        intro other entry seq found
        simp only [LbCache.withMiddle, LbCache.withState, LruMiddle.remove] at found
        by_cases same : other = playerId
        · rw [same, AList.lookup_erase] at found
          cases found
        · rw [AList.lookup_erase_ne same] at found
          rcases coherent.middle other entry seq found with ⟨rfl, present⟩
          refine ⟨rfl, (ranks.mem entry).mpr ?_⟩
          rw [others _ same]
          exact (coherent.ranks.mem entry).mp present }

/-- The entries of the map where a player's is new. -/
theorem held_put_iff {playerId : DatumId} {display : Bytes} {rankKey : RankKey} {entry : LbEntry} :
    scores.put classDef playerId display rankKey entry.playerId =
        some (entry.rankKey, entry.display) ↔
      entry = ⟨rankKey, playerId, display.take classDef.displayLen.toNat⟩ ∨
        entry ∈ ranking ∧ entry.playerId ≠ playerId := by
  rw [coherent.ranks.mem]
  rcases entry with ⟨entryKey, entryId, entryDisplay⟩
  by_cases same : entryId = playerId
  · subst same
    simp only [Scores.put, Function.update_self, Option.some.injEq, Prod.mk.injEq, LbEntry.mk.injEq,
      ne_eq, not_true_eq_false, and_false, or_false, true_and]
    exact and_congr eq_comm eq_comm
  · simp only [Scores.put, Function.update_of_ne same, LbEntry.mk.injEq, same, false_and, and_false,
      false_or, ne_eq, not_false_iff, and_true]

theorem held_drop_iff {playerId : DatumId} {entry : LbEntry} :
    scores.drop playerId entry.playerId = some (entry.rankKey, entry.display) ↔
      entry ∈ ranking ∧ entry.playerId ≠ playerId := by
  rw [coherent.ranks.mem]
  by_cases same : entry.playerId = playerId
  · simp [Scores.drop, same]
  · simp [Scores.drop, same]

theorem replaceScore (playerId : DatumId) (display : Bytes) (rankKey : RankKey) :
    ∃ newRanking, Coherent classDef config (scores.put classDef playerId display rankKey) newRanking
      (cache.replaceScore playerId display ((scores playerId).map Prod.fst) rankKey) := by
  have differ := coherent.distinct
  have rankEntries : ∀ key value,
      (((cache.removeRank playerId ((scores playerId).map Prod.fst)).insert
      cache.rankId key value).insert cache.byPlayerId playerId.asBytes rankKey.val).entries
        cache.rankId = upsert key value
          ((cache.removeRank playerId ((scores playerId).map Prod.fst)).entries cache.rankId) := by
    intro key value
    rw [CollectionStore.entries_insert_ne differ.symm, CollectionStore.entries_insert]
  have byPlayerEntries : ∀ key value, (((cache.removeRank playerId
      ((scores playerId).map Prod.fst)).insert cache.rankId key value).insert cache.byPlayerId
        playerId.asBytes rankKey.val).entries cache.byPlayerId =
          upsert playerId.asBytes rankKey.val (cache.store.entries cache.byPlayerId) := by
    intro key value
    rw [CollectionStore.entries_insert, CollectionStore.entries_insert_ne differ,
      coherent.byPlayer_removeRank]
  refine coherent.rewritten ?_ ?_ ?_ ?_ ?_ ?_
  · intro other differs
    exact Function.update_of_ne differs _ _
  · intro newKey newDisplay held
    rw [Scores.put, Function.update_self] at held
    cases held
    exact List.length_take_le _ _
  · rw [rankEntries]
    exact (coherent.ascending_removeRank _ _).upsert
  · intro pair
    rw [rankEntries, mem_upsert (coherent.ascending_removeRank _ _), coherent.mem_removeRank,
      coherent.sameClass, ← encodeDisplay_take]
    simp only [coherent.held_put_iff]
    constructor
    · rintro (rfl | ⟨⟨entry, present, differs, rfl⟩, _⟩)
      · exact ⟨_, Or.inl rfl, rfl⟩
      · exact ⟨entry, Or.inr ⟨present, differs⟩, rfl⟩
    · rintro ⟨entry, rfl | ⟨present, differs⟩, rfl⟩
      · exact Or.inl rfl
      · refine Or.inr ⟨⟨entry, present, differs, rfl⟩, ?_⟩
        intro same
        exact differs (compositeKey_inj.mp same).2
  · rw [byPlayerEntries]
    exact coherent.ascending.upsert
  · intro pair
    rw [byPlayerEntries, mem_upsert coherent.ascending, coherent.byPlayer]
    simp only [coherent.held_put_iff]
    constructor
    · rintro (rfl | ⟨⟨entry, present, rfl⟩, differs⟩)
      · exact ⟨_, Or.inl rfl, rfl⟩
      · refine ⟨entry, Or.inr ⟨present, ?_⟩, rfl⟩
        rintro rfl
        exact differs rfl
    · rintro ⟨entry, rfl | ⟨present, differs⟩, rfl⟩
      · exact Or.inl rfl
      · refine Or.inr ⟨⟨entry, present, rfl⟩, ?_⟩
        intro same
        exact differs (DatumId.asBytes_injective same)

theorem removePlayer {playerId : DatumId} {score : RankKey × Bytes}
    (held : scores playerId = some score) :
    ∃ newRanking, Coherent classDef config (scores.drop playerId) newRanking
      (cache.removePlayer playerId score.1) := by
  have differ := coherent.distinct
  have mapped : some score.1 = (scores playerId).map Prod.fst := by
    rw [held]
    rfl
  have rankEntries : ((cache.removeRank playerId (some score.1)).remove cache.byPlayerId
      playerId.asBytes).entries cache.rankId =
        (cache.removeRank playerId ((scores playerId).map Prod.fst)).entries cache.rankId := by
    rw [CollectionStore.entries_remove_ne differ.symm, mapped]
  have byPlayerEntries : ((cache.removeRank playerId (some score.1)).remove cache.byPlayerId
      playerId.asBytes).entries cache.byPlayerId =
        removeKey playerId.asBytes (cache.store.entries cache.byPlayerId) := by
    rw [CollectionStore.entries_remove, coherent.byPlayer_removeRank]
  refine coherent.rewritten ?_ ?_ ?_ ?_ ?_ ?_
  · intro other differs
    exact Function.update_of_ne differs _ _
  · intro newKey newDisplay dropped
    rw [Scores.drop, Function.update_self] at dropped
    cases dropped
  · rw [rankEntries]
    exact coherent.ascending_removeRank _ _
  · intro pair
    rw [rankEntries, coherent.mem_removeRank]
    simp only [coherent.held_drop_iff, and_assoc]
  · rw [byPlayerEntries]
    exact coherent.ascending.removeKey
  · intro pair
    rw [byPlayerEntries, mem_removeKey coherent.ascending, coherent.byPlayer]
    simp only [coherent.held_drop_iff]
    constructor
    · rintro ⟨⟨entry, present, rfl⟩, differs⟩
      refine ⟨entry, ⟨present, ?_⟩, rfl⟩
      rintro rfl
      exact differs rfl
    · rintro ⟨entry, ⟨present, differs⟩, rfl⟩
      refine ⟨⟨entry, present, rfl⟩, ?_⟩
      intro same
      exact differs (DatumId.asBytes_injective same)

theorem submit (playerId : DatumId) (display : Bytes) (rankKey : RankKey)
    (friendIds : List DatumId) (top window : UInt32) :
    ∃ newRanking, Coherent classDef config
      (scores.serve classDef (.execute (.update playerId display rankKey friendIds top window)))
      newRanking
      (cache.submit playerId display rankKey ((scores playerId).map Prod.fst)) := by
  have sameRule : ∀ oldKey, cache.applyRule oldKey rankKey =
      classDef.rule.improves oldKey rankKey := by
    intro oldKey
    rw [LbCache.applyRule, coherent.sameClass]
  have sameDecision : ((scores playerId).map Prod.fst).all
      (fun oldKey => cache.applyRule oldKey rankKey) =
        (scores playerId).all fun held => classDef.rule.improves held.1 rankKey := by
    cases scores playerId with
    | none => rfl
    | some held => exact sameRule held.1
  simp only [LbCache.submit, Scores.serve, sameDecision]
  split
  · exact coherent.replaceScore playerId display rankKey
  · exact ⟨ranking, coherent⟩

theorem withdraw (playerId : DatumId) :
    ∃ newRanking, Coherent classDef config (scores.drop playerId) newRanking
      (cache.withdraw playerId ((scores playerId).map Prod.fst)) := by
  cases held : scores playerId with
  | none =>
      refine ⟨ranking, ?_⟩
      have same : scores.drop playerId = scores := by
        rw [Scores.drop, ← held, Function.update_eq_self]
      rw [same]
      exact coherent
  | some score => exact coherent.removePlayer held

/-- A request is answered from the map as it leaves it. -/
theorem serve (request : LbRequest) :
    Returns (LbCache.serve request) cache fun result next => ∃ newRanking,
      result = answerOf config newRanking request.asks ∧
        Coherent classDef config (scores.serve classDef request) newRanking next := by
  cases request with
  | query req =>
      refine (coherent.query req).mono ?_
      rintro _ next ⟨rfl, coherentNext⟩
      exact ⟨ranking, rfl, coherentNext⟩
  | execute op =>
      cases op with
      | update playerId display rankKey friendIds top window =>
          unfold LbCache.serve LbCache.execute
          refine (coherent.playerRankKey playerId).bind ?_
          rintro _ _ ⟨rfl, rfl⟩
          refine Returns.get (Returns.set ?_)
          rcases coherent.submit playerId display rankKey friendIds top window with
            ⟨newRanking, submitted⟩
          refine (submitted.query _).mono ?_
          rintro _ next ⟨rfl, coherentNext⟩
          exact ⟨newRanking, rfl, coherentNext⟩
      | remove playerId =>
          unfold LbCache.serve LbCache.execute
          refine (coherent.playerRankKey playerId).bind ?_
          rintro _ _ ⟨rfl, rfl⟩
          refine Returns.get (Returns.set ?_)
          rcases coherent.withdraw playerId with ⟨newRanking, withdrawn⟩
          refine (withdrawn.query _).mono ?_
          rintro _ next ⟨rfl, coherentNext⟩
          exact ⟨newRanking, rfl, coherentNext⟩

end Coherent

/-! ## Histories -/

/-- What a player has submitted since the last removal. -/
def submitted (playerId : DatumId) (before : List (RankKey × Bytes)) :
    LbRequest → List (RankKey × Bytes)
  | .query _ => before
  | .execute (.update other display rankKey _ _ _) =>
      if other = playerId then before ++ [(rankKey, display)] else before
  | .execute (.remove other) => if other = playerId then [] else before

def submissions (requests : List LbRequest) (playerId : DatumId) : List (RankKey × Bytes) :=
  requests.foldl (submitted playerId) []

/-- The submission after `before` set the score, and none in `after` changed it. -/
def LbRule.SetBetween (before : List (RankKey × Bytes)) (rankKey : RankKey)
    (after : List (RankKey × Bytes)) : LbRule → Prop
  | .max => (∀ earlier ∈ before, earlier.1 < rankKey) ∧ ∀ later ∈ after, later.1 ≤ rankKey
  | .min => (∀ earlier ∈ before, rankKey < earlier.1) ∧ ∀ later ∈ after, rankKey ≤ later.1
  | .replace =>
      (∀ earlier ∈ before.getLast?, earlier.1 ≠ rankKey) ∧ ∀ later ∈ after, later.1 = rankKey

/-- What a player has on the board after the given submissions: nothing after none, and otherwise
the highest, lowest or last score, with the display of the submission that set it. -/
def Stands (classDef : LbClassDef) (submissions : List (RankKey × Bytes)) :
    Option (RankKey × Bytes) → Prop
  | none => submissions = []
  | some held => ∃ before display after, submissions = before ++ (held.1, display) :: after ∧
      held.2 = display.take classDef.displayLen.toNat ∧
      classDef.rule.SetBetween before held.1 after

theorem setBetween_improved {rule : LbRule} {before after : List (RankKey × Bytes)}
    {oldKey newKey : RankKey} {display : Bytes} (set : rule.SetBetween before oldKey after)
    (improved : rule.improves oldKey newKey = true) :
    rule.SetBetween (before ++ (oldKey, display) :: after) newKey [] := by
  cases rule with
  | max =>
      have less : oldKey < newKey := by simpa [LbRule.improves] using improved
      refine ⟨?_, nofun⟩
      intro earlier earlierMem
      rcases List.mem_append.mp earlierMem with inBefore | inRest
      · exact (set.1 earlier inBefore).trans less
      · rcases List.mem_cons.mp inRest with rfl | inAfter
        · exact less
        · exact (set.2 earlier inAfter).trans_lt less
  | min =>
      have less : newKey < oldKey := by simpa [LbRule.improves] using improved
      refine ⟨?_, nofun⟩
      intro earlier earlierMem
      rcases List.mem_append.mp earlierMem with inBefore | inRest
      · exact less.trans (set.1 earlier inBefore)
      · rcases List.mem_cons.mp inRest with rfl | inAfter
        · exact less
        · exact less.trans_le (set.2 earlier inAfter)
  | replace =>
      have differ : newKey ≠ oldKey := by simpa [LbRule.improves] using improved
      refine ⟨?_, nofun⟩
      intro earlier isLast
      have inRest : earlier ∈ (oldKey, display) :: after := by
        rw [Option.mem_def, List.getLast?_append_of_ne_nil _ (List.cons_ne_nil _ _)] at isLast
        exact List.mem_of_getLast? isLast
      rcases List.mem_cons.mp inRest with rfl | inAfter
      · exact differ.symm
      · rw [set.2 earlier inAfter]
        exact differ.symm

theorem setBetween_rejected {rule : LbRule} {before after : List (RankKey × Bytes)}
    {oldKey newKey : RankKey} {display : Bytes} (set : rule.SetBetween before oldKey after)
    (rejected : rule.improves oldKey newKey = false) :
    rule.SetBetween before oldKey (after ++ [(newKey, display)]) := by
  have extended : ∀ property : RankKey → Prop, (∀ later ∈ after, property later.1) →
      property newKey → ∀ later ∈ after ++ [(newKey, display)], property later.1 := by
    intro property all new later laterMem
    rcases List.mem_append.mp laterMem with inAfter | isNew
    · exact all later inAfter
    · rw [List.mem_singleton.mp isNew]
      exact new
  cases rule with
  | max =>
      have atMost : newKey ≤ oldKey := by simpa [LbRule.improves] using rejected
      exact ⟨set.1, extended (· ≤ oldKey) set.2 atMost⟩
  | min =>
      have atLeast : oldKey ≤ newKey := by simpa [LbRule.improves] using rejected
      exact ⟨set.1, extended (oldKey ≤ ·) set.2 atLeast⟩
  | replace =>
      have same : newKey = oldKey := by simpa [LbRule.improves] using rejected
      exact ⟨set.1, extended (· = oldKey) set.2 same⟩

/-- One more request keeps what players have on the board in line with what they submitted. -/
theorem Stands.serve {classDef : LbClassDef} {scores : Scores} {playerId : DatumId}
    {before : List (RankKey × Bytes)} (stands : Stands classDef before (scores playerId))
    (request : LbRequest) :
    Stands classDef (submitted playerId before request) (scores.serve classDef request playerId) := by
  cases request with
  | query req => exact stands
  | execute op =>
      cases op with
      | remove other =>
          by_cases same : other = playerId
          · subst same
            simp [submitted, Scores.serve, Scores.drop, Stands]
          · simp only [submitted, if_neg same, Scores.serve, Scores.drop,
              Function.update_of_ne (Ne.symm same)]
            exact stands
      | update other display rankKey friendIds top window =>
          by_cases same : other = playerId
          · subst same
            simp only [submitted, if_true, Scores.serve]
            cases held : scores other with
            | none =>
                rw [held] at stands
                have none : before = [] := stands
                subst none
                simp only [Option.all_none, if_true, Scores.put, Function.update_self]
                refine ⟨[], display, [], rfl, rfl, ?_⟩
                cases classDef.rule <;> exact ⟨nofun, nofun⟩
            | some score =>
                rw [held] at stands
                rcases stands with ⟨earlier, setDisplay, after, rfl, cut, set⟩
                cases improved : classDef.rule.improves score.1 rankKey with
                | true =>
                    simp only [Option.all_some, improved, if_true, Scores.put, Function.update_self]
                    exact ⟨_, display, [], rfl, rfl, setBetween_improved set improved⟩
                | false =>
                    simp only [Option.all_some, improved, Bool.false_eq_true, if_false, held]
                    exact ⟨earlier, setDisplay, after ++ [(rankKey, display)], by simp, cut,
                      setBetween_rejected set improved⟩
          · simp only [submitted, if_neg same, Scores.serve]
            split
            · rw [Scores.put, Function.update_of_ne (Ne.symm same)]
              exact stands
            · exact stands

theorem stands_foldl (classDef : LbClassDef) (requests : List LbRequest) {scores : Scores}
    {playerId : DatumId} {before : List (RankKey × Bytes)}
    (stands : Stands classDef before (scores playerId)) :
    Stands classDef (requests.foldl (submitted playerId) before)
      (requests.foldl (Scores.serve classDef) scores playerId) := by
  induction requests generalizing scores before with
  | nil => exact stands
  | cons request requests ih => exact ih (stands.serve request)

/-! ## The cached board -/

/-- The cache after a sequence of requests. -/
def LbCache.run (cache : LbCache) (requests : List LbRequest) : LbCache :=
  requests.foldl (fun cache request => (LbCache.serve request cache).2) cache

theorem Coherent.run {classDef : LbClassDef} {config : LbCacheConfig} (requests : List LbRequest)
    {scores : Scores} {ranking : List LbEntry} {cache : LbCache}
    (coherent : Coherent classDef config scores ranking cache) :
    ∃ newRanking, Coherent classDef config (requests.foldl (Scores.serve classDef) scores)
      newRanking (cache.run requests) := by
  induction requests generalizing scores ranking cache with
  | nil => exact ⟨ranking, coherent⟩
  | cons request requests ih =>
      rcases coherent.serve request with ⟨result, next, served, _, _, coherentNext⟩
      have after : (LbCache.serve request cache).2 = next := by rw [served]
      rw [List.foldl_cons, LbCache.run, List.foldl_cons, after]
      exact ih coherentNext

/-- A board that starts empty. -/
theorem coherent_new {classDef : LbClassDef} {config : LbCacheConfig}
    {fromName : DatumId → Bytes → DatumId} {store : CollectionStore} {boardId : DatumId}
    (distinct : fromName boardId (ofString "by_player") ≠ boardId)
    (emptyRank : store.entries boardId = [])
    (emptyByPlayer : store.entries (fromName boardId (ofString "by_player")) = []) :
    Coherent classDef config (fun _ => none) []
      (LbCache.new classDef fromName store boardId config) where
  sameClass := rfl
  sameConfig := rfl
  distinct := distinct
  ranks := ⟨List.Pairwise.nil, fun _ => ⟨nofun, nofun⟩⟩
  short := nofun
  rank := by simp [LbCache.new, emptyRank]
  ascending := by simp [LbCache.new, emptyByPlayer, Ascending]
  byPlayer := by simp [LbCache.new, emptyByPlayer]
  top := nofun
  bottom := nofun
  total := nofun
  middle := nofun

/-- Both collections have one entry for each entry of the ranking. -/
structure InBijection (classDef : LbClassDef) (ranking : List LbEntry) (cache : LbCache) : Prop where
  rank : cache.store.entries cache.rankId = ranking.map (LbEntry.pair classDef.displayLen)
  byPlayer : (cache.store.entries cache.byPlayerId).Perm
    (ranking.map fun entry => (entry.playerId.asBytes, entry.rankKey.val))
  single : (ranking.map LbEntry.playerId).Nodup

theorem Ranks.nodup {scores : Scores} {ranking : List LbEntry} (ranks : Ranks scores ranking) :
    (ranking.map LbEntry.playerId).Nodup := by
  rw [List.nodup_iff_pairwise_ne, List.pairwise_map]
  have differ : ranking.Pairwise (· ≠ ·) := ranks.sorted.imp fun below same => by
    subst same
    exact LbEntry.below_irrefl _ below
  refine differ.imp_of_mem ?_
  intro first second firstMem secondMem unequal same
  exact unequal (ranks.eq_of_playerId firstMem secondMem same)

theorem Coherent.inBijection {classDef : LbClassDef} {config : LbCacheConfig} {scores : Scores}
    {ranking : List LbEntry} {cache : LbCache}
    (coherent : Coherent classDef config scores ranking cache) :
    InBijection classDef ranking cache where
  rank := coherent.rank
  byPlayer := by
    have nodupStored : (cache.store.entries cache.byPlayerId).Nodup :=
      coherent.ascending.nodup_keys.of_map
    have nodupRanked : (ranking.map fun entry =>
        (entry.playerId.asBytes, entry.rankKey.val)).Nodup := by
      refine List.Nodup.of_map Prod.fst ?_
      rw [List.map_map]
      have players := coherent.ranks.nodup.map DatumId.asBytes_injective
      rwa [List.map_map] at players
    rw [List.perm_ext_iff_of_nodup nodupStored nodupRanked]
    intro pair
    rw [coherent.byPlayer, List.mem_map]
    simp only [eq_comm]
  single := coherent.ranks.nodup

/-- A block of consecutive entries, as wide as asked for or the whole board, with the player's. -/
structure WindowAbout (ranking : List LbEntry) (playerId : DatumId) (window : ℕ)
    (around : List LbEntry) : Prop where
  block : around <:+: ranking.reverse
  length : around.length = min window ranking.length
  contains : 0 < window → ∃ entry ∈ around, entry.playerId = playerId

theorem windowAbout_aroundOf {ranking : List LbEntry} {playerId : DatumId} {rank : ℕ}
    (ranked : rankOf ranking playerId = some rank) (window : ℕ) :
    WindowAbout ranking playerId window (aroundOf ranking rank window) where
  block := (List.take_prefix _ _).isInfix.trans (List.drop_suffix _ _).isInfix
  length := by
    simp only [aroundOf, windowStart, List.length_take, List.length_drop, List.length_reverse]
    omega
  contains := by
    intro wide
    rcases List.findIdx?_eq_some_iff_getElem.mp ranked with ⟨insideReversed, here, _⟩
    have inside : rank < ranking.length := by rwa [List.length_reverse] at insideReversed
    rcases windowStart_spec inside wide with ⟨starts, ends, _⟩
    refine ⟨ranking.reverse[rank], ?_, of_decide_eq_true here⟩
    rw [aroundOf, List.mem_take_iff_getElem]
    refine ⟨rank - windowStart rank window ranking.length, ?_, ?_⟩
    · rw [List.length_drop, List.length_reverse]
      omega
    · rw [List.getElem_drop]
      congr 1
      omega

/-- Whatever was asked of a board before, a request succeeds, leaves both collections with one entry
for each player on the board, each of whom has the score and the display that the rule takes from
the submissions, and is answered as from the map of these scores. -/
theorem answers_plain_map (classDef : LbClassDef) (config : LbCacheConfig)
    (fromName : DatumId → Bytes → DatumId) (store : CollectionStore) (boardId : DatumId)
    (distinct : fromName boardId (ofString "by_player") ≠ boardId)
    (emptyRank : store.entries boardId = [])
    (emptyByPlayer : store.entries (fromName boardId (ofString "by_player")) = [])
    (served : List LbRequest) (request : LbRequest) :
    ∃ scores ranking result next,
      LbCache.serve request
        ((LbCache.new classDef fromName store boardId config).run served) = (.ok result, next) ∧
      (∀ playerId,
        Stands classDef (submissions (served ++ [request]) playerId) (scores playerId)) ∧
      Ranks scores ranking ∧ InBijection classDef ranking next ∧
      result = answerOf config ranking request.asks ∧
      ∀ playerId rank, request.asks.aroundPlayer = some playerId →
        rankOf ranking playerId = some rank →
          WindowAbout ranking playerId request.asks.window.toNat result.around := by
  let final : Scores := (served ++ [request]).foldl (Scores.serve classDef) fun _ => none
  rcases (coherent_new distinct emptyRank emptyByPlayer).run served with ⟨_, coherent⟩
  rcases coherent.serve request with ⟨result, next, ran, ranking, rfl, coherentNext⟩
  have scoresIs : Scores.serve classDef (served.foldl (Scores.serve classDef) fun _ => none)
      request = final := by
    simp only [final, List.foldl_append, List.foldl_cons, List.foldl_nil]
  rw [scoresIs] at coherentNext
  refine ⟨final, ranking, _, next, ran, ?_, coherentNext.ranks, coherentNext.inBijection, rfl, ?_⟩
  · intro playerId
    exact stands_foldl classDef _ rfl
  · intro playerId rank asked ranked
    have around : (answerOf config ranking request.asks).around =
        aroundOf ranking rank request.asks.window.toNat := by
      simp only [answerOf, asked, Option.bind_some, ranked, Option.map_some, Option.getD_some]
    rw [around]
    exact windowAbout_aroundOf ranked _

/-- The id of board 1's `by_player` collection. -/
def byPlayerOfFirst : DatumId := 233346478994544278646800845669608632361

/-- Two players of equal score; the second improves, and the first is asked about. -/
def threeRequests : List LbRequest :=
  [.execute (.update 5 [1] ⟨[128, 0, 0, 0, 0, 0, 0, 9], rfl⟩ [] 10 3),
    .execute (.update 6 [2, 3] ⟨[128, 0, 0, 0, 0, 0, 0, 9], rfl⟩ [5] 10 3),
    .execute (.update 6 [4] ⟨[128, 0, 0, 0, 0, 0, 1, 0], rfl⟩ [5] 10 3)]

theorem answers_plain_map_three : ∃ scores ranking result next,
    LbCache.serve (.query ⟨1, 1, some 5, 1, [6, 7]⟩)
      ((LbCache.new ⟨1, .max⟩ (fun _ _ => byPlayerOfFirst) (fun _ => none) 1 ⟨20, 20, 200⟩).run
        threeRequests) = (.ok result, next) ∧
    (∀ playerId, Stands ⟨1, .max⟩ (submissions
      (threeRequests ++ [.query ⟨1, 1, some 5, 1, [6, 7]⟩]) playerId) (scores playerId)) ∧
    Ranks scores ranking ∧ InBijection ⟨1, .max⟩ ranking next ∧
    result = answerOf ⟨20, 20, 200⟩ ranking ⟨1, 1, some 5, 1, [6, 7]⟩ ∧
    ∀ playerId rank, some 5 = some playerId → rankOf ranking playerId = some rank →
      WindowAbout ranking playerId 1 result.around :=
  answers_plain_map ⟨1, .max⟩ ⟨20, 20, 200⟩ (fun _ _ => byPlayerOfFirst) (fun _ => none) 1
    (by decide) rfl rfl threeRequests (.query ⟨1, 1, some 5, 1, [6, 7]⟩)

end Seisin
