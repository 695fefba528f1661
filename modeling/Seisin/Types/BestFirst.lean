import Seisin.Types.Submissions

/-!
# Best first

A class's rule decides which of two scores is the better one for a player.  The lists of a board, and
the ranks that it gives, are decided by the order of the keys alone: the top is the far end of the
`rank` collection whatever the rule is.  Under `Max`, and where the last score counts, that is the
best first; under `Min` it is the worst first.
-/

namespace Seisin

open ByteString Stateful

/-! ## Orders from best to worst -/

/-- Of two scores the better is the one that the rule keeps for a player; where the rule keeps the
last, it is the higher. -/
def LbRule.Better (rule : LbRule) (first second : RankKey) : Prop :=
  match rule with
  | .replace => second < first
  | rule => rule.improves second first = true

/-- No entry comes after a worse one. -/
def BestToWorst (rule : LbRule) (order : List LbEntry) : Prop :=
  order.Pairwise fun first second => ¬rule.Better second.rankKey first.rankKey

/-- Where a player is in an order. -/
def placeIn (order : List LbEntry) (playerId : DatumId) : Option ℕ :=
  order.findIdx? fun entry => entry.playerId = playerId

/-- The answer of a board that lists its players in an order: the top is its beginning, the bottom
its end, and the rank and the window are about the place of the player in it. -/
structure ReadsOff (config : LbCacheConfig) (order : List LbEntry) (req : LbQueryReq)
    (result : LbResult) : Prop where
  top : result.top = order.take (min req.top.toNat config.topWindow)
  bottom : result.bottom = order.reverse.take (min req.bottom.toNat config.bottomWindow)
  playerRank : result.playerRank = req.aroundPlayer.bind (placeIn order)
  around : ∀ playerId rank, req.aroundPlayer = some playerId → placeIn order playerId = some rank →
    WindowAbout order.reverse playerId req.window.toNat result.around

/-- The entries on a board, as they are stored. -/
def LbCache.entries (cache : LbCache) : Except LbFailure (List LbEntry) :=
  (cache.store.entries cache.rankId).mapM entryFrom

/-- The requests that are answered from the board as a sequence of requests leaves it: the last of
them, and queries after it. -/
def AnsweredFrom (served earlier : List LbRequest) (request : LbRequest) : Prop :=
  served = earlier ++ [request] ∨ earlier = served ∧ ∃ req, request = .query req

/-- All answers from a board read off one order of its entries, from best to worst. -/
def ListsBestFirst (rule : LbRule) (config : LbCacheConfig) (start : LbCache)
    (served : List LbRequest) : Prop :=
  ∃ entries order, (start.run served).entries = .ok entries ∧ order.Perm entries ∧
    BestToWorst rule order ∧
    ∀ earlier request, AnsweredFrom served earlier request →
      ∃ result next, LbCache.serve request (start.run earlier) = (.ok result, next) ∧
        ReadsOff config order request.asks result

/-- All players on the board have the same score. -/
def SameScores (cache : LbCache) : Prop :=
  ∀ entries, cache.entries = .ok entries →
    ∀ first ∈ entries, ∀ second ∈ entries, first.rankKey = second.rankKey

/-! ## The order of the keys -/

theorem Coherent.entries {classDef : LbClassDef} {config : LbCacheConfig} {scores : Scores}
    {ranking : List LbEntry} {cache : LbCache}
    (coherent : Coherent classDef config scores ranking cache) : cache.entries = .ok ranking := by
  rw [LbCache.entries, coherent.rank]
  exact mapM_entryFrom fun entry entryMem => coherent.shortEntry entryMem

/-- The answers read off the ranking, from its far end. -/
theorem readsOff_answerOf (config : LbCacheConfig) (ranking : List LbEntry) (req : LbQueryReq) :
    ReadsOff config ranking.reverse req (answerOf config ranking req) where
  top := rfl
  bottom := by
    rw [List.reverse_reverse]
    rfl
  playerRank := rfl
  around := by
    intro playerId rank asked placed
    have ranked : rankOf ranking playerId = some rank := placed
    have around : (answerOf config ranking req).around =
        aroundOf ranking rank req.window.toNat := by
      simp only [answerOf, asked, Option.bind_some, ranked, Option.map_some, Option.getD_some]
    rw [around, List.reverse_reverse]
    exact windowAbout_aroundOf ranked _

section Boards

variable {classDef : LbClassDef} {config : LbCacheConfig} {scores : Scores}
  {ranking : List LbEntry} {start : LbCache}

/-- What is answered from a board is answered from its entries. -/
theorem Coherent.answered (coherent : Coherent classDef config scores ranking start)
    {served earlier : List LbRequest} {request : LbRequest}
    (answered : AnsweredFrom served earlier request) :
    ∃ entries result next, (start.run served).entries = .ok entries ∧
      LbCache.serve request (start.run earlier) = (.ok result, next) ∧
      result = answerOf config entries request.asks := by
  rcases coherent.run earlier with ⟨before, coherentBefore⟩
  rcases answered with rfl | ⟨rfl, req, rfl⟩
  · rcases coherentBefore.serve request with ⟨result, next, ran, entries, answer, coherentNext⟩
    have last : start.run (earlier ++ [request]) = next := by
      simp only [LbCache.run, List.foldl_append, List.foldl_cons, List.foldl_nil]
      rw [← LbCache.run, ran]
    refine ⟨entries, result, next, ?_, ran, answer⟩
    rw [last]
    exact coherentNext.entries
  · rcases coherentBefore.query req with ⟨result, next, ran, answer, _⟩
    exact ⟨before, result, next, coherentBefore.entries, ran, answer⟩

/-- From the far end, the entries come best first unless the rule prefers low scores. -/
theorem Ranks.bestToWorst (ranks : Ranks scores ranking) {rule : LbRule}
    (high : rule = .min → ∀ first ∈ ranking, ∀ second ∈ ranking,
      first.rankKey = second.rankKey) : BestToWorst rule ranking.reverse := by
  have descending := List.pairwise_reverse.mpr ranks.sorted
  refine descending.imp_of_mem ?_
  intro first second firstMem secondMem below better
  have level : second.rankKey ≤ first.rankKey := by
    rcases below with less | ⟨same, _⟩
    · exact less.le
    · exact same.le
  cases rule with
  | max =>
      have less : first.rankKey < second.rankKey := of_decide_eq_true better
      exact absurd less level.not_gt
  | replace => exact absurd better level.not_gt
  | min =>
      have less : second.rankKey < first.rankKey := of_decide_eq_true better
      exact less.ne (high rfl second (List.mem_reverse.mp secondMem) first
        (List.mem_reverse.mp firstMem))

/-- Of two players the one of the lower score has the higher rank. -/
theorem Ranks.rankOf_lt (ranks : Ranks scores ranking) {first second : LbEntry}
    (firstMem : first ∈ ranking) (secondMem : second ∈ ranking)
    (lower : first.rankKey < second.rankKey) :
    ∃ low high, rankOf ranking first.playerId = some low ∧
      rankOf ranking second.playerId = some high ∧ high < low := by
  rcases List.mem_iff_getElem?.mp firstMem with ⟨i, firstHere⟩
  rcases List.mem_iff_getElem?.mp secondMem with ⟨j, secondHere⟩
  refine ⟨_, _, (ranks.rankOf_of_getElem? firstHere).1, (ranks.rankOf_of_getElem? secondHere).1, ?_⟩
  rcases List.getElem?_eq_some_iff.mp firstHere with ⟨firstInside, rfl⟩
  rcases List.getElem?_eq_some_iff.mp secondHere with ⟨secondInside, rfl⟩
  have before : i < j := by
    by_contra notBefore
    rcases Nat.eq_or_lt_of_le (not_lt.mp notBefore) with same | after
    · subst same
      exact lt_irrefl _ lower
    · rcases List.pairwise_iff_getElem.mp ranks.sorted j i secondInside firstInside after with
        less | ⟨same, _⟩
      · exact lt_asymm lower less
      · exact lower.ne same.symm
  omega

/-- An order of the entries has at the place of a player the entry of the player. -/
theorem Ranks.getElem?_placeIn (ranks : Ranks scores ranking) {order : List LbEntry}
    (perm : order.Perm ranking) {entry : LbEntry} (entryMem : entry ∈ ranking) {place : ℕ}
    (placed : placeIn order entry.playerId = some place) : order[place]? = some entry := by
  rcases List.findIdx?_eq_some_iff_getElem.mp placed with ⟨inside, here, _⟩
  have found : order[place] ∈ ranking := perm.subset (List.getElem_mem inside)
  rw [List.getElem?_eq_getElem inside,
    ranks.eq_of_playerId found entryMem (of_decide_eq_true here)]

/-- An order that the ranks are read off has the higher scores before the lower ones. -/
theorem Ranks.not_bestToWorst (ranks : Ranks scores ranking) {order : List LbEntry}
    (perm : order.Perm ranking) (read : ∀ playerId, rankOf ranking playerId = placeIn order playerId)
    {first second : LbEntry} (firstMem : first ∈ ranking) (secondMem : second ∈ ranking)
    (lower : first.rankKey < second.rankKey) : ¬BestToWorst .min order := by
  intro sorted
  rcases ranks.rankOf_lt firstMem secondMem lower with ⟨low, high, firstRank, secondRank, less⟩
  rw [read] at firstRank secondRank
  have firstHere := ranks.getElem?_placeIn perm firstMem firstRank
  have secondHere := ranks.getElem?_placeIn perm secondMem secondRank
  rcases List.getElem?_eq_some_iff.mp firstHere with ⟨firstInside, rfl⟩
  rcases List.getElem?_eq_some_iff.mp secondHere with ⟨secondInside, rfl⟩
  have notBetter := List.pairwise_iff_getElem.mp sorted high low secondInside firstInside less
  exact notBetter (decide_eq_true lower)

/-- A board that lists best first under `Min` has one score only. -/
theorem Coherent.sameScores (coherent : Coherent classDef config scores ranking start)
    {served : List LbRequest} (lists : ListsBestFirst .min config start served) :
    SameScores (start.run served) := by
  rcases lists with ⟨entries, order, stored, perm, sorted, answers⟩
  rcases coherent.run served with ⟨final, coherentFinal⟩
  have same : final = entries := Except.ok.inj (coherentFinal.entries.symm.trans stored)
  subst same
  have read : ∀ playerId, rankOf final playerId = placeIn order playerId := by
    intro playerId
    have asked : AnsweredFrom served served (.query ⟨0, 0, some playerId, 0, []⟩) :=
      Or.inr ⟨rfl, _, rfl⟩
    rcases answers _ _ asked with ⟨result, next, ran, reads⟩
    rcases coherentFinal.query ⟨0, 0, some playerId, 0, []⟩ with ⟨_, _, ranAgain, rfl, _⟩
    have agree := ran.symm.trans ranAgain
    rw [Prod.mk.injEq, Except.ok.injEq] at agree
    have rank := reads.playerRank
    rw [agree.1] at rank
    exact rank
  intro others otherStored first firstMem second secondMem
  have again : others = final := Except.ok.inj (otherStored.symm.trans stored)
  subst again
  rcases lt_trichotomy first.rankKey second.rankKey with lower | same | higher
  · exact absurd sorted (coherentFinal.ranks.not_bestToWorst perm read firstMem secondMem lower)
  · exact same
  · exact absurd sorted (coherentFinal.ranks.not_bestToWorst perm read secondMem firstMem higher)

/-- A board lists best first if its rule does not prefer low scores, or there is one score only. -/
theorem Coherent.listsBestFirst (coherent : Coherent classDef config scores ranking start)
    {rule : LbRule} (served : List LbRequest)
    (high : rule = .min → SameScores (start.run served)) :
    ListsBestFirst rule config start served := by
  rcases coherent.run served with ⟨final, coherentFinal⟩
  refine ⟨final, final.reverse, coherentFinal.entries, List.reverse_perm final, ?_, ?_⟩
  · exact coherentFinal.ranks.bestToWorst fun low => high low final coherentFinal.entries
  · intro earlier request answered
    rcases coherent.answered answered with ⟨entries, result, next, stored, ran, rfl⟩
    have same : entries = final := Except.ok.inj (stored.symm.trans coherentFinal.entries)
    subst same
    exact ⟨_, next, ran, readsOff_answerOf config entries request.asks⟩

end Boards

/-- Whatever was asked of a board, it lists the players best first in its top, its windows and its
ranks, and the bottom the other way round, if and only if its rule is not `Min` or all players on it
have the same score. -/
theorem lists_best_first_iff (classDef : LbClassDef) (config : LbCacheConfig)
    (fromName : DatumId → Bytes → DatumId) (store : CollectionStore) (boardId : DatumId)
    (distinct : fromName boardId (ofString "by_player") ≠ boardId)
    (emptyRank : store.entries boardId = [])
    (emptyByPlayer : store.entries (fromName boardId (ofString "by_player")) = [])
    (served : List LbRequest) :
    ListsBestFirst classDef.rule config (LbCache.new classDef fromName store boardId config)
        served ↔
      (classDef.rule = .min →
        SameScores ((LbCache.new classDef fromName store boardId config).run served)) := by
  have coherent : Coherent classDef config (fun _ => none) []
      (LbCache.new classDef fromName store boardId config) :=
    coherent_new distinct emptyRank emptyByPlayer
  constructor
  · intro lists low
    rw [low] at lists
    exact coherent.sameScores lists
  · exact coherent.listsBestFirst served

/-- The times of two players of a race, in seconds: 600 and 522. -/
def slowTime : RankKey := ⟨[128, 0, 0, 0, 0, 0, 2, 88], rfl⟩

def fastTime : RankKey := ⟨[128, 0, 0, 0, 0, 0, 2, 10], rfl⟩

def raceRequests : List LbRequest :=
  [.execute (.update 5 [1] slowTime [] 10 3), .execute (.update 6 [2] fastTime [] 10 3)]

theorem lists_best_first_iff_race :
    ListsBestFirst .max ⟨20, 20, 200⟩
      (LbCache.new ⟨1, .max⟩ (fun _ _ => byPlayerOfFirst) (fun _ => none) 1 ⟨20, 20, 200⟩)
      raceRequests :=
  (lists_best_first_iff ⟨1, .max⟩ ⟨20, 20, 200⟩ (fun _ _ => byPlayerOfFirst) (fun _ => none) 1
    (by decide) rfl rfl raceRequests).mpr nofun

/-- Where the shorter time is the better one, the board has the slower player first. -/
theorem slowest_listed_first : ¬ListsBestFirst .min ⟨20, 20, 200⟩
    (LbCache.new ⟨1, .min⟩ (fun _ _ => byPlayerOfFirst) (fun _ => none) 1 ⟨20, 20, 200⟩)
    raceRequests := by
  intro lists
  have coherent : Coherent ⟨1, .min⟩ ⟨20, 20, 200⟩ (fun _ => none) []
      (LbCache.new ⟨1, .min⟩ (fun _ _ => byPlayerOfFirst) (fun _ => none) 1 ⟨20, 20, 200⟩) :=
    coherent_new (by decide) rfl rfl
  rcases coherent.run raceRequests with ⟨ranking, final⟩
  have slow : ⟨slowTime, 5, [1]⟩ ∈ ranking :=
    (final.ranks.mem _).mpr rfl
  have fast : ⟨fastTime, 6, [2]⟩ ∈ ranking :=
    (final.ranks.mem _).mpr rfl
  have same := coherent.sameScores lists ranking final.entries _ slow _ fast
  exact absurd same (by decide)

end Seisin
