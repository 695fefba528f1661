import Seisin.Lib.Transition
import Seisin.Types.Submissions
import Mathlib

/-!
# Leaderboards and fail-stops

An op on a board makes its collection writes one call at a time, with nothing that ties them
together.  A worker that fail-stops in one of these calls leaves the collections with the writes that
took effect so far, the failed one included or not; the board is then opened again over what the
collections hold.  The collections match exactly if no write of the op took effect or all did.
-/

namespace Seisin

open ByteString SortedList Stateful Transition

/-! ## The writes of an op -/

/-- A write call to the storage tier. -/
inductive CollectionWrite where
  | insert (collectionId : DatumId) (key value : Bytes)
  | remove (collectionId : DatumId) (key : Bytes)

namespace CollectionStore

def write (store : CollectionStore) : CollectionWrite → CollectionStore
  | .insert collectionId key value => store.insert collectionId key value
  | .remove collectionId key => store.remove collectionId key

def writeAll (store : CollectionStore) (writes : List CollectionWrite) : CollectionStore :=
  writes.foldl write store

end CollectionStore

namespace LbCache

def replaceScoreWrites (cache : LbCache) (playerId : DatumId) (display : Bytes)
    (oldKey : Option RankKey) (rankKey : RankKey) : List CollectionWrite :=
  (oldKey.map fun oldKey =>
      .remove cache.rankId (compositeKey oldKey.val playerId)).toList ++
    [.insert cache.rankId (compositeKey rankKey.val playerId)
        (encodeDisplay display cache.classDef.displayLen),
      .insert cache.byPlayerId playerId.asBytes rankKey.val]

def removePlayerWrites (cache : LbCache) (playerId : DatumId) (oldKey : RankKey) :
    List CollectionWrite :=
  [.remove cache.rankId (compositeKey oldKey.val playerId),
    .remove cache.byPlayerId playerId.asBytes]

/-- The write calls of an op in their order, as long as none fails. -/
def executeWrites (cache : LbCache) : LbExecuteOp → List CollectionWrite
  | .update playerId display rankKey _ _ _ =>
      match (playerRankKey playerId cache).1 with
      | .ok oldKey =>
          if oldKey.all fun oldKey => cache.applyRule oldKey rankKey then
            cache.replaceScoreWrites playerId display oldKey rankKey
          else []
      | .error _ => []
  | .remove playerId =>
      match (playerRankKey playerId cache).1 with
      | .ok (some oldKey) => cache.removePlayerWrites playerId oldKey
      | _ => []

/-- What the collections hold after a fail-stop in an op, `landed` of whose writes took effect. -/
def interrupted (cache : LbCache) (op : LbExecuteOp) (landed : ℕ) : CollectionStore :=
  cache.store.writeAll ((cache.executeWrites op).take landed)

/-! ## An op that is not interrupted makes these writes -/

/-- The collections of a board and what they hold. -/
def collections (cache : LbCache) : CollectionStore × DatumId × DatumId :=
  (cache.store, cache.rankId, cache.byPlayerId)

theorem lift_keeps {Result Observed : Type} {observe : LbCache → Observed}
    (result : Except LbFailure Result) (cache : LbCache) : Keeps (lift result) cache observe :=
  rfl

theorem throw_keeps {Result : Type} (failure : LbFailure) (cache : LbCache) :
    Keeps (throw failure : LbM Result) cache collections :=
  rfl

theorem ensureTop_keeps (cache : LbCache) : Keeps ensureTop cache collections := by
  unfold ensureTop
  refine Keeps.get ?_
  split
  · exact Keeps.pure
  · refine (lift_keeps _ cache).bind fun entries middle same => ?_
    exact Keeps.set same.symm Keeps.pure

theorem ensureBottom_keeps (cache : LbCache) : Keeps ensureBottom cache collections := by
  unfold ensureBottom
  refine Keeps.get ?_
  split
  · exact Keeps.pure
  · refine (lift_keeps _ cache).bind fun entries middle same => ?_
    exact Keeps.set same.symm Keeps.pure

theorem ensureTotal_keeps (cache : LbCache) : Keeps ensureTotal cache collections := by
  unfold ensureTotal
  refine Keeps.get ?_
  split
  · exact Keeps.pure
  · exact Keeps.set rfl Keeps.pure

theorem playerRankKey_keeps {Observed : Type} {observe : LbCache → Observed} (playerId : DatumId)
    (cache : LbCache) : Keeps (playerRankKey playerId) cache observe := by
  unfold playerRankKey
  refine Keeps.get ?_
  split
  · exact Keeps.pure
  · exact (lift_keeps _ _).bind fun rankKey _ _ => Keeps.pure

theorem rankOfMapped_keeps (playerId : DatumId) (rankKey : RankKey) (divergence : String)
    (cache : LbCache) : Keeps (rankOfMapped playerId rankKey divergence) cache collections := by
  unfold rankOfMapped
  refine Keeps.get ?_
  split
  · exact throw_keeps _ _
  · exact Keeps.pure

theorem around_keeps (playerId : DatumId) (window : UInt32) (cache : LbCache) :
    Keeps (around playerId window) cache collections := by
  unfold around
  refine (playerRankKey_keeps playerId cache).bind fun rankKey _ _ => ?_
  cases rankKey with
  | none => exact Keeps.pure
  | some rankKey =>
      refine (ensureTotal_keeps _).bind fun total _ _ => ?_
      refine (rankOfMapped_keeps _ _ _ _).bind fun asc _ _ => ?_
      refine (lift_keeps _ _).bind fun rank _ _ => ?_
      split
      · exact Keeps.pure
      · refine Keeps.get ?_
        refine (lift_keeps _ _).bind fun entries _ same => ?_
        exact Keeps.set same.symm Keeps.pure

theorem aroundOptional_keeps (aroundPlayer : Option DatumId) (window : UInt32) (cache : LbCache) :
    Keeps (aroundOptional aroundPlayer window) cache collections := by
  cases aroundPlayer with
  | some playerId => exact around_keeps playerId window cache
  | none => exact Keeps.pure

theorem friendRank_keeps (total : ℕ) (friendId : DatumId) (cache : LbCache) :
    Keeps (friendRank total friendId) cache collections := by
  unfold friendRank
  refine Keeps.get ?_
  dsimp only
  refine Keeps.set rfl ?_
  split
  · refine (rankOfMapped_keeps _ _ _ _).bind fun asc _ _ => ?_
    exact (lift_keeps _ _).bind fun rank _ _ => Keeps.pure
  · refine (playerRankKey_keeps friendId _).bind fun rankKey _ _ => ?_
    cases rankKey with
    | none => exact Keeps.pure
    | some rankKey =>
        refine (rankOfMapped_keeps _ _ _ _).bind fun asc _ _ => ?_
        refine Keeps.get ?_
        split
        · exact throw_keeps _ _
        · refine (lift_keeps _ _).bind fun entry _ same => ?_
          refine Keeps.set same.symm ?_
          exact (lift_keeps _ _).bind fun rank _ _ => Keeps.pure

theorem friendRanksFrom_keeps (total : ℕ) (friendIds : List DatumId) (cache : LbCache) :
    Keeps (friendRanksFrom total friendIds) cache collections := by
  induction friendIds generalizing cache with
  | nil => exact Keeps.pure
  | cons friendId friendIds ih =>
      refine (friendRank_keeps total friendId cache).bind fun friend middle _ => ?_
      exact (ih middle).bind fun friends _ _ => Keeps.pure

theorem query_keeps (req : LbQueryReq) (cache : LbCache) : Keeps (query req) cache collections := by
  unfold query
  refine (ensureTop_keeps _).bind fun top _ _ => ?_
  refine (ensureBottom_keeps _).bind fun bottom _ _ => ?_
  refine (ensureTotal_keeps _).bind fun total _ _ => ?_
  refine (aroundOptional_keeps _ _ _).bind fun around _ _ => ?_
  have friendsKept : ∀ cache, Keeps (friendRanks req.friendIds) cache collections := fun cache =>
    (ensureTotal_keeps cache).bind fun total middle _ => friendRanksFrom_keeps total _ middle
  exact (friendsKept _).bind fun friends _ _ => Keeps.pure

/-- Reading a player's score changes nothing. -/
theorem playerRankKey_apply (playerId : DatumId) (cache : LbCache) :
    playerRankKey playerId cache = ((playerRankKey playerId cache).1, cache) := by
  have same : Keeps (playerRankKey playerId) cache id := playerRankKey_keeps playerId cache
  exact Prod.ext rfl same

theorem replaceScore_collections (cache : LbCache) (playerId : DatumId) (display : Bytes)
    (oldKey : Option RankKey) (rankKey : RankKey) :
    (cache.replaceScore playerId display oldKey rankKey).collections =
      (cache.store.writeAll (cache.replaceScoreWrites playerId display oldKey rankKey),
        cache.rankId, cache.byPlayerId) := by
  cases oldKey with
  | none => rfl
  | some oldKey => rfl

/-- An op leaves the collections with all of its writes, whatever is read for its answer. -/
theorem execute_collections (op : LbExecuteOp) (cache : LbCache) :
    (execute op cache).2.collections =
      (cache.store.writeAll (cache.executeWrites op), cache.rankId, cache.byPlayerId) := by
  cases op with
  | update playerId display rankKey friendIds top window =>
      have read := playerRankKey_apply playerId cache
      simp only [execute, executeWrites]
      cases outcome : (playerRankKey playerId cache).1 with
      | error failure =>
          rw [outcome] at read
          rw [bind_of_error read]
          rfl
      | ok oldKey =>
          rw [outcome] at read
          rw [bind_of_ok read]
          refine (query_keeps _ _).trans ?_
          simp only [submit]
          split
          · exact replaceScore_collections cache playerId display oldKey rankKey
          · rfl
  | remove playerId =>
      have read := playerRankKey_apply playerId cache
      simp only [execute, executeWrites]
      cases outcome : (playerRankKey playerId cache).1 with
      | error failure =>
          rw [outcome] at read
          rw [bind_of_error read]
          rfl
      | ok oldKey =>
          rw [outcome] at read
          rw [bind_of_ok read]
          refine (query_keeps _ _).trans ?_
          cases oldKey with
          | none => rfl
          | some oldKey => rfl

end LbCache

/-! ## Matching collections -/

namespace CollectionStore

/-- The player has an entry with the score in the `rank` collection. -/
def Ranked (store : CollectionStore) (rankId playerId : DatumId) (rankKey : RankKey) : Prop :=
  ∃ value, (compositeKey rankKey.val playerId, value) ∈ store.entries rankId

/-- Every player is in the `rank` collection at most once, and the player's entry in the `by_player`
collection is the score of that entry. -/
structure Paired (store : CollectionStore) (rankId byPlayerId : DatumId) : Prop where
  once : ∀ playerId firstKey secondKey, store.Ranked rankId playerId firstKey →
    store.Ranked rankId playerId secondKey → firstKey = secondKey
  pointed : ∀ playerId value, store.get byPlayerId playerId.asBytes = some value ↔
    ∃ rankKey : RankKey, rankKey.val = value ∧ store.Ranked rankId playerId rankKey

/-- Creating a collection does not change whether the collections match. -/
theorem Paired.of_create {store : CollectionStore} {collectionId rankId byPlayerId : DatumId}
    (paired : (store.create collectionId).Paired rankId byPlayerId) :
    store.Paired rankId byPlayerId where
  once := by
    simpa only [Ranked, entries_create] using paired.once
  pointed := by
    simpa only [Ranked, get, entries_create] using paired.pointed

end CollectionStore

namespace LbCache

def Paired (cache : LbCache) : Prop := cache.store.Paired cache.rankId cache.byPlayerId

/-- No rule lets a score take its own place. -/
theorem applyRule_irrefl (cache : LbCache) (rankKey : RankKey) :
    ¬cache.applyRule rankKey rankKey = true := by
  unfold applyRule
  cases cache.classDef.rule with
  | max => simp [LbRule.improves]
  | min => simp [LbRule.improves]
  | replace => simp [LbRule.improves]

end LbCache

section Coherence

variable {classDef : LbClassDef} {config : LbCacheConfig} {scores : Scores}
  {ranking : List LbEntry} {cache : LbCache}

namespace Coherent

variable (coherent : Coherent classDef config scores ranking cache)

include coherent

theorem ranked_iff {playerId : DatumId} {rankKey : RankKey} :
    cache.store.Ranked cache.rankId playerId rankKey ↔
      (scores playerId).map Prod.fst = some rankKey := by
  unfold CollectionStore.Ranked
  rw [coherent.rank]
  constructor
  · rintro ⟨value, stored⟩
    rcases List.mem_map.mp stored with ⟨entry, present, same⟩
    rcases compositeKey_inj.mp (Prod.mk.inj same).1 with ⟨sameKey, samePlayer⟩
    rw [← sameKey, ← samePlayer, (coherent.ranks.mem entry).mp present]
    rfl
  · intro held
    rcases Option.map_eq_some_iff.mp held with ⟨⟨heldKey, display⟩, isHeld, rfl⟩
    let entry : LbEntry := ⟨heldKey, playerId, display⟩
    exact ⟨_, List.mem_map.mpr ⟨entry, (coherent.ranks.mem entry).mpr isHeld, rfl⟩⟩

theorem byPlayer_get {playerId : DatumId} :
    cache.store.get cache.byPlayerId playerId.asBytes =
      (scores playerId).map fun score => score.1.val := by
  apply Option.ext
  intro value
  rw [CollectionStore.get, find_eq_some_iff coherent.ascending, coherent.byPlayer,
    Option.map_eq_some_iff]
  constructor
  · rintro ⟨entry, present, same⟩
    rw [Prod.mk.injEq] at same
    refine ⟨(entry.rankKey, entry.display), ?_, same.2.symm⟩
    rw [DatumId.asBytes_injective same.1]
    exact (coherent.ranks.mem entry).mp present
  · rintro ⟨⟨rankKey, display⟩, held, rfl⟩
    exact ⟨⟨rankKey, playerId, display⟩, (coherent.ranks.mem _).mpr held, rfl⟩

theorem paired : cache.Paired where
  once := by
    intro playerId firstKey secondKey first second
    rw [coherent.ranked_iff] at first second
    rw [first, Option.some.injEq] at second
    exact second
  pointed := by
    intro playerId value
    simp only [coherent.byPlayer_get, coherent.ranked_iff, Option.map_eq_some_iff]
    constructor
    · rintro ⟨score, held, rfl⟩
      exact ⟨score.1, rfl, score, held, rfl⟩
    · rintro ⟨_, rfl, score, held, rfl⟩
      exact ⟨score, held, rfl⟩

/-- A board opened over collections that match has what was there before. -/
theorem reopen {fromName : DatumId → Bytes → DatumId} {boardId : DatumId}
    (newConfig : LbCacheConfig) (sameRank : cache.rankId = boardId)
    (sameByPlayer : cache.byPlayerId = fromName boardId (ofString "by_player")) :
    Coherent classDef newConfig scores ranking
      (LbCache.new classDef fromName cache.store boardId newConfig) where
  sameClass := rfl
  sameConfig := rfl
  distinct := by
    have differ := coherent.distinct
    rwa [sameRank, sameByPlayer] at differ
  ranks := coherent.ranks
  short := coherent.short
  rank := by
    simp only [LbCache.new, CollectionStore.entries_create, ← sameRank]
    exact coherent.rank
  ascending := by
    simp only [LbCache.new, CollectionStore.entries_create, ← sameByPlayer]
    exact coherent.ascending
  byPlayer := by
    simp only [LbCache.new, CollectionStore.entries_create, ← sameByPlayer]
    exact coherent.byPlayer
  top := nofun
  bottom := nofun
  total := nofun
  middle := nofun

/-! ## Between the first write and the last -/

theorem playerRankKey_ok (playerId : DatumId) :
    (LbCache.playerRankKey playerId cache).1 = .ok ((scores playerId).map Prod.fst) := by
  rcases coherent.playerRankKey playerId with ⟨_, _, ran, rfl, rfl⟩
  rw [ran]

/-- Without the entry of a player who still has a score in the point index. -/
theorem not_paired_removed {playerId : DatumId} {score : RankKey × Bytes}
    (held : scores playerId = some score) :
    ¬(cache.removeRank playerId (some score.1)).Paired cache.rankId cache.byPlayerId := by
  intro paired
  have indexed : (cache.removeRank playerId (some score.1)).get cache.byPlayerId
      playerId.asBytes = some score.1.val := by
    rw [CollectionStore.get, coherent.byPlayer_removeRank, ← CollectionStore.get,
      coherent.byPlayer_get, held]
    rfl
  rcases (paired.pointed playerId _).mp indexed with ⟨rankKey, same, value, stored⟩
  rw [LbCache.removeRank, CollectionStore.entries_remove,
    mem_removeKey coherent.ascendingRank] at stored
  rw [same] at stored
  exact stored.2 rfl

/-- With an entry for a score that the point index does not have yet. -/
theorem not_paired_inserted {playerId : DatumId} {rankKey : RankKey}
    (differs : (scores playerId).map Prod.fst ≠ some rankKey) (value : Bytes) :
    ¬((cache.removeRank playerId ((scores playerId).map Prod.fst)).insert cache.rankId
      (compositeKey rankKey.val playerId) value).Paired cache.rankId cache.byPlayerId := by
  intro paired
  have ranked : ((cache.removeRank playerId ((scores playerId).map Prod.fst)).insert cache.rankId
      (compositeKey rankKey.val playerId) value).Ranked cache.rankId playerId rankKey := by
    refine ⟨value, ?_⟩
    rw [CollectionStore.entries_insert, mem_upsert (coherent.ascending_removeRank _ _)]
    exact Or.inl rfl
  have indexed := (paired.pointed playerId rankKey.val).mpr ⟨rankKey, rfl, ranked⟩
  rw [CollectionStore.get, CollectionStore.entries_insert_ne coherent.distinct,
    coherent.byPlayer_removeRank, ← CollectionStore.get, coherent.byPlayer_get] at indexed
  rcases Option.map_eq_some_iff.mp indexed with ⟨score, held, same⟩
  apply differs
  rw [held, Option.map_some, Subtype.ext same]

/-- A fail-stop between the first write of an op and the last leaves collections that do not
match. -/
theorem not_paired_interrupted {op : LbExecuteOp} {landed : ℕ} (some_ : landed ≠ 0)
    (notAll : landed < (cache.executeWrites op).length) :
    ¬(cache.interrupted op landed).Paired cache.rankId cache.byPlayerId := by
  cases op with
  | update playerId display rankKey friendIds top window =>
      simp only [LbCache.interrupted, LbCache.executeWrites, coherent.playerRankKey_ok] at notAll ⊢
      split at notAll
      · rename_i accepted
        rw [if_pos accepted]
        have differs : (scores playerId).map Prod.fst ≠ some rankKey := by
          intro same
          rw [same, Option.all_some] at accepted
          exact LbCache.applyRule_irrefl cache rankKey accepted
        cases held : scores playerId with
        | none =>
            have inserted := coherent.not_paired_inserted differs
              (encodeDisplay display cache.classDef.displayLen)
            rw [held] at notAll inserted
            simp only [LbCache.replaceScoreWrites, Option.map_none, Option.toList_none,
              List.nil_append, List.length_cons, List.length_nil] at notAll
            have last : landed = 1 := by omega
            subst last
            exact inserted
        | some score =>
            have removed := coherent.not_paired_removed held
            have inserted := coherent.not_paired_inserted differs
              (encodeDisplay display cache.classDef.displayLen)
            rw [held] at notAll inserted
            simp only [LbCache.replaceScoreWrites, Option.map_some, Option.toList_some,
              List.cons_append, List.nil_append, List.length_cons, List.length_nil] at notAll
            rcases (by omega : landed = 1 ∨ landed = 2) with rfl | rfl
            · exact removed
            · exact inserted
      · simp at notAll
  | remove playerId =>
      simp only [LbCache.interrupted, LbCache.executeWrites, coherent.playerRankKey_ok] at notAll ⊢
      cases held : scores playerId with
      | none =>
          rw [held] at notAll
          simp at notAll
      | some score =>
          have removed := coherent.not_paired_removed held
          rw [held] at notAll
          simp only [Option.map_some, LbCache.removePlayerWrites, List.length_cons,
            List.length_nil] at notAll
          have last : landed = 1 := by omega
          subst last
          exact removed

end Coherent

end Coherence

/-! ## Boards that are opened again -/

/-- None of the writes of the op takes effect before the fail-stop, or all of them do. -/
def LbCache.WholeOp (cache : LbCache) (op : LbExecuteOp) (landed : ℕ) : Prop :=
  landed = 0 ∨ (cache.executeWrites op).length ≤ landed

/-- A board serves a request, or its worker fail-stops in an op and the board is opened again. -/
inductive BoardEvent where
  | serve (request : LbRequest)
  | failStop (op : LbExecuteOp) (landed : ℕ) (config : LbCacheConfig)

/-- Every fail-stop so far is one between ops. -/
def WholeOps (cache : LbCache) : BoardEvent → Prop
  | .serve _ => True
  | .failStop op landed _ => cache.WholeOp op landed

section Boards

variable (classDef : LbClassDef) (fromName : DatumId → Bytes → DatumId) (boardId : DatumId)

/-- A board, from its first opening over empty collections on. -/
def boardSystem : System LbCache BoardEvent where
  init := fun cache => ∃ store config, CollectionStore.entries store boardId = [] ∧
    CollectionStore.entries store (fromName boardId (ofString "by_player")) = [] ∧
    cache = LbCache.new classDef fromName store boardId config
  step := fun cache event =>
    match event with
    | .serve request => some (LbCache.serve request cache).2
    | .failStop op landed config =>
        some (LbCache.new classDef fromName (cache.interrupted op landed) boardId config)

/-- The board is open over its two collections, which match. -/
structure OpenBoard (cache : LbCache) : Prop where
  rankId : cache.rankId = boardId
  byPlayerId : cache.byPlayerId = fromName boardId (ofString "by_player")
  coherent : ∃ config scores ranking, Coherent classDef config scores ranking cache

variable {classDef} {fromName} {boardId} {cache : LbCache}

theorem LbCache.serve_ids (request : LbRequest) (cache : LbCache) :
    (LbCache.serve request cache).2.rankId = cache.rankId ∧
      (LbCache.serve request cache).2.byPlayerId = cache.byPlayerId := by
  have ids : (LbCache.serve request cache).2.collections.2 = cache.collections.2 := by
    cases request with
    | query req => exact congrArg Prod.snd (LbCache.query_keeps req cache)
    | execute op =>
        have written := LbCache.execute_collections op cache
        exact (Prod.mk.inj written).2
  exact Prod.mk.inj ids

namespace OpenBoard

variable (openBoard : OpenBoard classDef fromName boardId cache)

include openBoard

theorem serve (request : LbRequest) :
    OpenBoard classDef fromName boardId (LbCache.serve request cache).2 := by
  rcases LbCache.serve_ids request cache with ⟨sameRank, sameByPlayer⟩
  rcases openBoard.coherent with ⟨config, scores, ranking, coherent⟩
  rcases coherent.serve request with ⟨result, next, served, newRanking, _, coherentNext⟩
  refine ⟨sameRank.trans openBoard.rankId, sameByPlayer.trans openBoard.byPlayerId, ?_⟩
  rw [served]
  exact ⟨config, _, newRanking, coherentNext⟩

theorem reopen (config : LbCacheConfig) : OpenBoard classDef fromName boardId
    (LbCache.new classDef fromName cache.store boardId config) := by
  rcases openBoard.coherent with ⟨_, scores, ranking, coherent⟩
  exact ⟨rfl, rfl, config, scores, ranking,
    coherent.reopen config openBoard.rankId openBoard.byPlayerId⟩

/-- A fail-stop that does not tear an op apart is survived. -/
theorem failStop {op : LbExecuteOp} {landed : ℕ} (whole : cache.WholeOp op landed)
    (config : LbCacheConfig) : OpenBoard classDef fromName boardId
      (LbCache.new classDef fromName (cache.interrupted op landed) boardId config) := by
  rcases whole with rfl | all
  · exact openBoard.reopen config
  · have written : cache.interrupted op landed = (LbCache.execute op cache).2.store := by
      have collections := LbCache.execute_collections op cache
      rw [LbCache.interrupted, List.take_of_length_le all]
      exact (congrArg Prod.fst collections).symm
    rw [written]
    exact (openBoard.serve (.execute op)).reopen config

theorem paired : cache.Paired := by
  rcases openBoard.coherent with ⟨_, _, _, coherent⟩
  exact coherent.paired

theorem run (requests : List LbRequest) :
    OpenBoard classDef fromName boardId (cache.run requests) := by
  induction requests generalizing cache with
  | nil => exact openBoard
  | cons request requests ih => exact ih (openBoard.serve request)

end OpenBoard

theorem openBoard_of_reachable (distinct : fromName boardId (ofString "by_player") ≠ boardId)
    (reached : (boardSystem classDef fromName boardId).ReachableVia WholeOps cache) :
    OpenBoard classDef fromName boardId cache := by
  refine reached.induction ?_ ?_
  · rintro _ ⟨store, config, emptyRank, emptyByPlayer, rfl⟩
    exact ⟨rfl, rfl, config, _, [], coherent_new distinct emptyRank emptyByPlayer⟩
  · intro state event next openBoard whole stepped
    cases event with
    | serve request =>
        cases stepped
        exact openBoard.serve request
    | failStop op landed config =>
        cases stepped
        exact openBoard.failStop whole config

/-- Whatever a board went through before, a fail-stop in an op is survived, however the board is used
afterwards, exactly if no write of the op took effect or all of them did. -/
theorem survives_fail_stop_iff (distinct : fromName boardId (ofString "by_player") ≠ boardId)
    (reached : (boardSystem classDef fromName boardId).ReachableVia WholeOps cache) :
    cache.Paired ∧ ∀ op landed config,
      (∀ requests, ((LbCache.new classDef fromName (cache.interrupted op landed) boardId
        config).run requests).Paired) ↔ cache.WholeOp op landed := by
  have openBoard := openBoard_of_reachable distinct reached
  refine ⟨openBoard.paired, fun op landed config => ⟨?_, ?_⟩⟩
  · intro survives
    by_contra torn
    rw [LbCache.WholeOp, not_or, not_le] at torn
    rcases openBoard.coherent with ⟨_, scores, ranking, coherent⟩
    apply coherent.not_paired_interrupted torn.1 torn.2
    rw [openBoard.rankId, openBoard.byPlayerId]
    exact CollectionStore.Paired.of_create (CollectionStore.Paired.of_create (survives []))
  · intro whole requests
    exact ((openBoard.failStop whole config).run requests).paired

end Boards

theorem length_lowKey : [(128 : UInt8), 0, 0, 0, 0, 0, 0, 9].length = 8 := rfl

theorem length_highKey : [(128 : UInt8), 0, 0, 0, 0, 0, 1, 0].length = 8 := rfl

def lowKey : RankKey := ⟨[128, 0, 0, 0, 0, 0, 0, 9], length_lowKey⟩

def highKey : RankKey := ⟨[128, 0, 0, 0, 0, 0, 1, 0], length_highKey⟩

/-- Player 5 submits a score and then a higher one. -/
def firstScore : LbExecuteOp := .update 5 [1] lowKey [] 10 3

def higherScore : LbExecuteOp := .update 5 [2] highKey [] 10 3

/-- A fail-stop after the last write of a replacement is survived. -/
theorem survives_fail_stop_replaced : ∃ cache,
    (boardSystem ⟨1, .max⟩ (fun _ _ => byPlayerOfFirst) 1).ReachableVia WholeOps cache ∧
    (cache.executeWrites higherScore).length = 3 ∧
    ∀ requests, ((LbCache.new ⟨1, .max⟩ (fun _ _ => byPlayerOfFirst)
      (cache.interrupted higherScore 3) 1 ⟨20, 20, 200⟩).run requests).Paired := by
  let start := LbCache.new ⟨1, .max⟩ (fun _ _ => byPlayerOfFirst) (fun _ => none) 1 ⟨20, 20, 200⟩
  let board := (LbCache.serve (.execute firstScore) start).2
  have reached : (boardSystem ⟨1, .max⟩ (fun _ _ => byPlayerOfFirst) 1).ReachableVia WholeOps
      board := by
    refine ⟨start, ⟨fun _ => none, ⟨20, 20, 200⟩, rfl, rfl, rfl⟩, ?_⟩
    exact .tail (.serve (.execute firstScore)) (.refl _) trivial rfl
  have three : (board.executeWrites higherScore).length = 3 := by decide +kernel
  refine ⟨board, reached, three, ?_⟩
  exact ((survives_fail_stop_iff (by decide) reached).2 higherScore 3 ⟨20, 20, 200⟩).mpr
    (Or.inr three.le)

/-- A first score is interrupted after it got into the `rank` collection; once the board is open
again, the player's next score gets there too, and the old one stays. -/
theorem interrupted_first_score_ranks_twice :
    ¬∀ cache, (boardSystem ⟨1, .max⟩ (fun _ _ => byPlayerOfFirst) 1).Reachable cache →
      ∀ op landed config requests, ((LbCache.new ⟨1, .max⟩ (fun _ _ => byPlayerOfFirst)
        (cache.interrupted op landed) 1 config).run requests).Paired := by
  intro survives
  let start := LbCache.new ⟨1, .max⟩ (fun _ _ => byPlayerOfFirst) (fun _ => none) 1 ⟨20, 20, 200⟩
  let board := (LbCache.new ⟨1, .max⟩ (fun _ _ => byPlayerOfFirst)
    (start.interrupted firstScore 1) 1 ⟨20, 20, 200⟩).run [.execute higherScore]
  have reached : (boardSystem ⟨1, .max⟩ (fun _ _ => byPlayerOfFirst) 1).Reachable start :=
    ⟨start, ⟨fun _ => none, ⟨20, 20, 200⟩, rfl, rfl, rfl⟩, .refl _⟩
  have paired : board.Paired :=
    survives start reached firstScore 1 ⟨20, 20, 200⟩ [.execute higherScore]
  have low : board.store.Ranked 1 5 lowKey := ⟨[1, 0, 1], by decide +kernel⟩
  have high : board.store.Ranked 1 5 highKey := ⟨[1, 0, 2], by decide +kernel⟩
  have same := paired.once 5 lowKey highKey low high
  exact absurd same (by decide)

end Seisin
