import Seisin.Lib.Returns
import Seisin.Types.Leaderboard

/-!
# Leaderboards refine maps from players to scores

The plain model of a board is a map from players to scores and displays, kept by the rule of the
class.  Its answers are read off the ranking, the list of the entries by score.  The invariant of the
cached board says that both collections hold the map, and that whatever is cached is what a fetch
would give.
-/

namespace Seisin

open ByteString SortedList Stateful

/-! ## The plain model -/

/-- The score and the display of every player on the board. -/
abbrev Scores := DatumId → Option (RankKey × Bytes)

/-- Lower in score, or in player where the scores are equal. -/
def LbEntry.Below (first second : LbEntry) : Prop :=
  first.rankKey < second.rankKey ∨
    first.rankKey = second.rankKey ∧ first.playerId < second.playerId

/-- The entries of the map, the lowest first. -/
structure Ranks (scores : Scores) (ranking : List LbEntry) : Prop where
  sorted : ranking.Pairwise LbEntry.Below
  mem : ∀ entry, entry ∈ ranking ↔
    scores entry.playerId = some (entry.rankKey, entry.display)

/-- The rank of a player, counted from the highest. -/
def rankOf (ranking : List LbEntry) (playerId : DatumId) : Option ℕ :=
  ranking.reverse.findIdx? fun entry => entry.playerId = playerId

def friendOf (ranking : List LbEntry) (friendId : DatumId) : Option LbFriendRank :=
  (rankOf ranking friendId).bind fun rank =>
    ranking.reverse[rank]?.map fun entry => ⟨friendId, rank, entry.rankKey, entry.display⟩

/-- Where the window about a rank begins: half the window before it, within the board. -/
def windowStart (rank window total : ℕ) : ℕ := min (rank - window / 2) (total - window)

def aroundOf (ranking : List LbEntry) (rank window : ℕ) : List LbEntry :=
  (ranking.reverse.drop (windowStart rank window ranking.length)).take window

/-- The number of entries that a window at an end of the board is filled with. -/
def LbCacheConfig.topWindow (config : LbCacheConfig) : ℕ := config.pinnedTop % 2 ^ 32

def LbCacheConfig.bottomWindow (config : LbCacheConfig) : ℕ := config.pinnedBottom % 2 ^ 32

/-- What a query is answered with. -/
def answerOf (config : LbCacheConfig) (ranking : List LbEntry) (req : LbQueryReq) : LbResult :=
  let rank := req.aroundPlayer.bind (rankOf ranking)
  { total := ranking.length
    playerRank := rank
    top := ranking.reverse.take (min req.top.toNat config.topWindow)
    bottom := ranking.take (min req.bottom.toNat config.bottomWindow)
    around := (rank.map fun rank => aroundOf ranking rank req.window.toNat).getD []
    friends := req.friendIds.filterMap (friendOf ranking) }

theorem LbEntry.below_irrefl (entry : LbEntry) : ¬entry.Below entry := by
  rintro (less | ⟨_, less⟩)
  · exact lt_irrefl _ less
  · exact lt_irrefl _ less

namespace Ranks

variable {scores : Scores} {ranking : List LbEntry} (ranks : Ranks scores ranking)

include ranks

theorem eq_of_playerId {first second : LbEntry} (firstMem : first ∈ ranking)
    (secondMem : second ∈ ranking) (same : first.playerId = second.playerId) : first = second := by
  have left := (ranks.mem first).mp firstMem
  have right := (ranks.mem second).mp secondMem
  rw [same, right, Option.some.injEq, Prod.mk.injEq] at left
  cases first
  cases second
  simp_all

/-- The rank of the player whose entry is at an index. -/
theorem rankOf_of_getElem? {index : ℕ} {entry : LbEntry} (present : ranking[index]? = some entry) :
    rankOf ranking entry.playerId = some (ranking.length - 1 - index) ∧
      ranking.reverse[ranking.length - 1 - index]? = some entry := by
  rcases List.getElem?_eq_some_iff.mp present with ⟨inside, here⟩
  have reversed : ranking.reverse[ranking.length - 1 - index]? = some entry := by
    rw [List.getElem?_reverse (by omega)]
    have twice : ranking.length - 1 - (ranking.length - 1 - index) = index := by omega
    rw [twice, present]
  refine ⟨?_, reversed⟩
  rcases List.getElem?_eq_some_iff.mp reversed with ⟨insideReversed, hereReversed⟩
  unfold rankOf
  rw [List.findIdx?_eq_some_iff_getElem]
  refine ⟨insideReversed, by simp [hereReversed], ?_⟩
  intro earlier before
  have descending := List.pairwise_reverse.mpr ranks.sorted
  have above := List.pairwise_iff_getElem.mp descending earlier _ (by omega) insideReversed before
  rw [hereReversed] at above
  simp only [decide_eq_true_eq]
  intro same
  have equal := ranks.eq_of_playerId (List.mem_reverse.mp (List.getElem_mem _))
    (List.mem_of_getElem? present) same
  rw [equal] at above
  exact entry.below_irrefl above

theorem rankOf_of_none {playerId : DatumId} (absent : scores playerId = none) :
    rankOf ranking playerId = none := by
  unfold rankOf
  rw [List.findIdx?_eq_none_iff]
  intro entry entryMem
  simp only [decide_eq_false_iff_not]
  rintro rfl
  rw [(ranks.mem entry).mp (List.mem_reverse.mp entryMem)] at absent
  cases absent

end Ranks

/-- The window is a block of consecutive entries, of its width or the whole board, and has the rank
in it. -/
theorem windowStart_spec {rank window total : ℕ} (ranked : rank < total) (wide : 0 < window) :
    windowStart rank window total ≤ rank ∧
      rank < windowStart rank window total + min window total ∧
      windowStart rank window total + min window total ≤ total := by
  unfold windowStart
  omega

/-! ## Entries in the collections -/

/-- The entry of the `rank` collection. -/
def LbEntry.pair (displayLen : UInt16) (entry : LbEntry) : Bytes × Bytes :=
  (compositeKey entry.rankKey.val entry.playerId, encodeDisplay entry.display displayLen)

@[simp]
theorem length_compositeKey (rankKey : RankKey) (playerId : DatumId) :
    (compositeKey rankKey.val playerId).length = 24 := by
  rw [compositeKey, List.length_append, rankKey.property, DatumId.length_asBytes]

theorem asBytes_lt_iff {first second : DatumId} :
    first.asBytes < second.asBytes ↔ first < second := by
  rw [lt_iff_beNat_lt (by simp), beNat_eq_leNat_reverse, beNat_eq_leNat_reverse,
    DatumId.reverse_asBytes, DatumId.reverse_asBytes, leNat_leBytes first.isLt,
    leNat_leBytes second.isLt, Fin.lt_def]

theorem compositeKey_lt_iff {firstKey secondKey : RankKey} {first second : DatumId} :
    compositeKey firstKey.val first < compositeKey secondKey.val second ↔
      firstKey < secondKey ∨ firstKey = secondKey ∧ first < second := by
  rw [compositeKey, compositeKey,
    append_lt_append_iff (firstKey.property.trans secondKey.property.symm), asBytes_lt_iff,
    Subtype.val_inj, Subtype.coe_lt_coe]

theorem compositeKey_inj {firstKey secondKey : RankKey} {first second : DatumId} :
    compositeKey firstKey.val first = compositeKey secondKey.val second ↔
      firstKey = secondKey ∧ first = second := by
  constructor
  · intro same
    rcases List.append_inj same (firstKey.property.trans secondKey.property.symm) with
      ⟨sameKey, sameId⟩
    exact ⟨Subtype.ext sameKey, DatumId.asBytes_injective sameId⟩
  · rintro ⟨rfl, rfl⟩
    rfl

/-- A display is read back as it was cut. -/
theorem decodeDisplay_encodeDisplay (display : Bytes) (displayLen : UInt16) :
    decodeDisplay (encodeDisplay display displayLen) = .ok (display.take displayLen.toNat) := by
  have narrow := displayLen.toNat_lt
  have small : (display.take displayLen.toNat).length < 256 ^ 2 := by
    rw [List.length_take]
    omega
  unfold encodeDisplay
  generalize display.take displayLen.toNat = capped at small
  dsimp only
  have head : (leBytes 2 capped.length ++ capped ++
      List.replicate (displayLen.toNat - capped.length) 0).take 2 = leBytes 2 capped.length := by
    rw [List.append_assoc, List.take_left' (length_leBytes _ _)]
  have body : (leBytes 2 capped.length ++ capped ++
      List.replicate (displayLen.toNat - capped.length) 0).drop 2 =
        capped ++ List.replicate (displayLen.toNat - capped.length) 0 := by
    rw [List.append_assoc, List.drop_left' (length_leBytes _ _)]
  have length : (leBytes 2 capped.length ++ capped ++
      List.replicate (displayLen.toNat - capped.length) (0 : UInt8)).length =
        2 + capped.length + (displayLen.toNat - capped.length) := by
    simp [Nat.add_assoc]
  have least : min capped.length
      (2 + capped.length + (displayLen.toNat - capped.length) - 2) = capped.length := by omega
  rw [decodeDisplay, length, if_neg (by omega), head, body, leNat_leBytes small, least,
    List.take_left]

theorem entryFrom_pair {displayLen : UInt16} {entry : LbEntry}
    (short : entry.display.length ≤ displayLen.toNat) :
    entryFrom (entry.pair displayLen) = .ok entry := by
  have key : (compositeKey entry.rankKey.val entry.playerId).take 8 = entry.rankKey.val :=
    List.take_left' entry.rankKey.property
  have id : ((compositeKey entry.rankKey.val entry.playerId).drop 8).take 16 =
      entry.playerId.asBytes := by
    rw [compositeKey, List.drop_left' entry.rankKey.property,
      List.take_of_length_le (by simp)]
  have long : ¬(compositeKey entry.rankKey.val entry.playerId).length < 24 := by simp
  simp only [entryFrom, LbEntry.pair, key, id, long, if_false, rankKeyOf, entry.rankKey.property,
    dite_true, decodeDisplay_encodeDisplay, List.take_of_length_le short,
    DatumId.fromBytes_asBytes]
  rfl

theorem mapM_entryFrom {displayLen : UInt16} {entries : List LbEntry}
    (short : ∀ entry ∈ entries, entry.display.length ≤ displayLen.toNat) :
    (entries.map (LbEntry.pair displayLen)).mapM entryFrom = .ok entries := by
  rw [List.mapM_map]
  have each : entries.mapM (fun entry => entryFrom (entry.pair displayLen)) =
      .ok (entries.map id) :=
    BPlusTree.mapM_eq_ok fun entry entryMem => entryFrom_pair (short entry entryMem)
  rwa [List.map_id] at each

/-! ## The invariant -/

namespace LruMiddle

/-- What is kept was there before. -/
theorem lookup_evict {cap : ℕ} {entries : AList fun _ : DatumId => LbEntry × ℕ}
    {playerId : DatumId} {held : LbEntry × ℕ}
    (kept : (evict cap entries).lookup playerId = some held) :
    entries.lookup playerId = some held := by
  unfold evict at kept
  split at kept
  · cases kept
  · split at kept
    · split at kept
      · rename_i oldest _
        by_cases same : playerId = oldest
        · rw [same, AList.lookup_erase] at kept
          cases kept
        · rwa [AList.lookup_erase_ne same] at kept
      · exact kept
    · exact kept

/-- The entries of the cache are on the board. -/
def On (ranking : List LbEntry) (middle : LruMiddle) : Prop :=
  ∀ playerId entry seq, middle.entries.lookup playerId = some (entry, seq) →
    entry.playerId = playerId ∧ entry ∈ ranking

variable {ranking : List LbEntry} {middle : LruMiddle}

theorem On.insert (on : middle.On ranking) {entry : LbEntry} (present : entry ∈ ranking)
    (seq : ℕ) : On ranking
      { middle with entries := middle.entries.insert entry.playerId (entry, seq) } := by
  intro playerId other otherSeq found
  by_cases same : playerId = entry.playerId
  · subst same
    rw [AList.lookup_insert, Option.some.injEq, Prod.mk.injEq] at found
    exact ⟨found.1 ▸ rfl, found.1 ▸ present⟩
  · rw [AList.lookup_insert_ne same] at found
    exact on playerId other otherSeq found

theorem On.touch (on : middle.On ranking) {entry : LbEntry} (present : entry ∈ ranking) :
    (middle.touch entry).On ranking := by
  intro playerId other seq found
  exact on.insert present middle.nextSeq playerId other seq (lookup_evict found)

theorem On.touchAll (on : middle.On ranking) {entries : List LbEntry}
    (present : ∀ entry ∈ entries, entry ∈ ranking) :
    (entries.foldl LruMiddle.touch middle).On ranking := by
  induction entries generalizing middle with
  | nil => exact on
  | cons entry entries ih =>
      exact ih (on.touch (present entry List.mem_cons_self))
        fun other otherMem => present other (List.mem_cons_of_mem _ otherMem)

theorem On.get (on : middle.On ranking) (playerId : DatumId) :
    (middle.get playerId).2.On ranking ∧
      ∀ entry, (middle.get playerId).1 = some entry →
        entry.playerId = playerId ∧ entry ∈ ranking := by
  unfold LruMiddle.get
  cases found : middle.entries.lookup playerId with
  | none => exact ⟨on, nofun⟩
  | some held =>
      rcases on playerId held.1 held.2 found with ⟨rfl, present⟩
      refine ⟨on.insert present middle.nextSeq, ?_⟩
      intro entry isHeld
      cases isHeld
      exact ⟨rfl, present⟩

end LruMiddle

/-- Both collections hold the map, and what is cached is what would be fetched. -/
structure Coherent (classDef : LbClassDef) (config : LbCacheConfig) (scores : Scores)
    (ranking : List LbEntry) (cache : LbCache) : Prop where
  sameClass : cache.classDef = classDef
  sameConfig : cache.config = config
  distinct : cache.byPlayerId ≠ cache.rankId
  ranks : Ranks scores ranking
  short : ∀ playerId rankKey display, scores playerId = some (rankKey, display) →
    display.length ≤ classDef.displayLen.toNat
  rank : cache.store.entries cache.rankId = ranking.map (LbEntry.pair classDef.displayLen)
  ascending : Ascending (cache.store.entries cache.byPlayerId)
  byPlayer : ∀ pair, pair ∈ cache.store.entries cache.byPlayerId ↔
    ∃ entry ∈ ranking, pair = (entry.playerId.asBytes, entry.rankKey.val)
  top : ∀ entries, cache.state.pinnedTop = some entries →
    entries = ranking.reverse.take config.topWindow
  bottom : ∀ entries, cache.state.pinnedBottom = some entries →
    entries = ranking.take config.bottomWindow
  total : ∀ total, cache.state.total = some total → total = ranking.length
  middle : cache.state.middle.On ranking

/-! ## Queries -/

section Queries

variable {classDef : LbClassDef} {config : LbCacheConfig} {scores : Scores}
  {ranking : List LbEntry} {cache : LbCache}

theorem returns_lift {Result Next : Type} {result : Except LbFailure Result} {value : Result}
    {rest : Result → LbM Next} {post : Next → LbCache → Prop} (succeeds : result = .ok value)
    (later : Returns (rest value) cache post) :
    Returns (LbCache.lift result >>= rest) cache post := by
  subst succeeds
  exact later

theorem checkedSub_ok {left right : ℕ} (enough : right ≤ left) :
    checkedSub left right = .ok (left - right) :=
  if_pos enough

namespace Coherent

variable (coherent : Coherent classDef config scores ranking cache)

include coherent

/-- The invariant where only the cached parts change. -/
theorem withState {state : LbCacheState}
    (top : ∀ entries, state.pinnedTop = some entries →
      entries = ranking.reverse.take config.topWindow)
    (bottom : ∀ entries, state.pinnedBottom = some entries →
      entries = ranking.take config.bottomWindow)
    (total : ∀ total, state.total = some total → total = ranking.length)
    (middle : state.middle.On ranking) :
    Coherent classDef config scores ranking (cache.withState state) :=
  { coherent with top := top, bottom := bottom, total := total, middle := middle }

theorem withMiddle {middle : LruMiddle} (on : middle.On ranking) :
    Coherent classDef config scores ranking (cache.withMiddle middle) :=
  coherent.withState coherent.top coherent.bottom coherent.total on

theorem shortEntry {entry : LbEntry} (present : entry ∈ ranking) :
    entry.display.length ≤ classDef.displayLen.toNat :=
  coherent.short _ _ _ ((coherent.ranks.mem entry).mp present)

theorem ascendingRank : Ascending (cache.store.entries cache.rankId) := by
  rw [coherent.rank, Ascending, List.pairwise_map]
  exact coherent.ranks.sorted.imp compositeKey_lt_iff.mpr

theorem ensureTop : Returns LbCache.ensureTop cache fun entries next =>
    entries = ranking.reverse.take config.topWindow ∧
      Coherent classDef config scores ranking next := by
  unfold LbCache.ensureTop
  refine Returns.get ?_
  cases pinned : cache.state.pinnedTop with
  | some entries => exact Returns.pure ⟨coherent.top entries pinned, coherent⟩
  | none =>
      have scanned : (cache.store.scanForward cache.rankId (cache.config.pinnedTop % 2 ^ 32)).mapM
          entryFrom = .ok (ranking.reverse.take config.topWindow) := by
        rw [CollectionStore.scanForward, coherent.rank, coherent.sameConfig, ← List.map_reverse,
          ← List.map_take]
        refine mapM_entryFrom ?_
        intro entry entryMem
        exact coherent.shortEntry (List.mem_reverse.mp (List.mem_of_mem_take entryMem))
      refine returns_lift scanned (Returns.set (Returns.pure ⟨rfl, ?_⟩))
      refine coherent.withState ?_ coherent.bottom coherent.total coherent.middle
      rintro entries ⟨⟩
      rfl

theorem ensureBottom : Returns LbCache.ensureBottom cache fun entries next =>
    entries = ranking.take config.bottomWindow ∧
      Coherent classDef config scores ranking next := by
  unfold LbCache.ensureBottom
  refine Returns.get ?_
  cases pinned : cache.state.pinnedBottom with
  | some entries => exact Returns.pure ⟨coherent.bottom entries pinned, coherent⟩
  | none =>
      have scanned : (cache.store.scanBackward cache.rankId
          (cache.config.pinnedBottom % 2 ^ 32)).mapM entryFrom =
            .ok (ranking.take config.bottomWindow) := by
        rw [CollectionStore.scanBackward, coherent.rank, coherent.sameConfig, ← List.map_take]
        refine mapM_entryFrom ?_
        intro entry entryMem
        exact coherent.shortEntry (List.mem_of_mem_take entryMem)
      refine returns_lift scanned (Returns.set (Returns.pure ⟨rfl, ?_⟩))
      refine coherent.withState coherent.top ?_ coherent.total coherent.middle
      rintro entries ⟨⟩
      rfl

theorem ensureTotal : Returns LbCache.ensureTotal cache fun total next =>
    total = ranking.length ∧ Coherent classDef config scores ranking next := by
  unfold LbCache.ensureTotal
  refine Returns.get ?_
  cases cached : cache.state.total with
  | some total => exact Returns.pure ⟨coherent.total total cached, coherent⟩
  | none =>
      have counted : cache.store.count cache.rankId = ranking.length := by
        rw [CollectionStore.count, coherent.rank, List.length_map]
      refine Returns.set (Returns.pure ⟨counted, ?_⟩)
      refine coherent.withState coherent.top coherent.bottom ?_ coherent.middle
      rintro total ⟨⟩
      exact counted

/-- The point index has the scores of the map. -/
theorem playerRankKey (playerId : DatumId) :
    Returns (LbCache.playerRankKey playerId) cache fun rankKey next =>
      rankKey = (scores playerId).map Prod.fst ∧ next = cache := by
  unfold LbCache.playerRankKey
  refine Returns.get ?_
  cases found : cache.store.get cache.byPlayerId playerId.asBytes with
  | none =>
      refine Returns.pure ⟨?_, rfl⟩
      cases held : scores playerId with
      | none => rfl
      | some score =>
          have present : (playerId.asBytes, score.1.val) ∈ cache.store.entries cache.byPlayerId :=
            (coherent.byPlayer _).mpr
              ⟨⟨score.1, playerId, score.2⟩, (coherent.ranks.mem _).mpr held, rfl⟩
          exact absurd rfl (find_eq_none_iff.mp found _ present)
  | some value =>
      rcases (coherent.byPlayer _).mp ((find_eq_some_iff coherent.ascending).mp found) with
        ⟨entry, present, same⟩
      rw [Prod.mk.injEq] at same
      have player := DatumId.asBytes_injective same.1
      have held := (coherent.ranks.mem entry).mp present
      have parsed : rankKeyOf value = .ok entry.rankKey := by
        rw [same.2, rankKeyOf, dif_pos entry.rankKey.property]
      refine returns_lift parsed (Returns.pure ⟨?_, rfl⟩)
      rw [player, held]
      rfl

theorem exists_index {entry : LbEntry} (present : entry ∈ ranking) : ∃ index,
    ranking[index]? = some entry ∧ index < ranking.length ∧
      cache.store.rankOfKey cache.rankId (compositeKey entry.rankKey.val entry.playerId) =
        some index := by
  rcases List.mem_iff_getElem?.mp present with ⟨index, here⟩
  have stored : (cache.store.entries cache.rankId)[index]? =
      some (entry.pair classDef.displayLen) := by
    rw [coherent.rank, List.getElem?_map, here]
    rfl
  exact ⟨index, here, (List.getElem?_eq_some_iff.mp here).1,
    position_of_getElem? coherent.ascendingRank stored⟩

theorem rankOfMapped {entry : LbEntry} (present : entry ∈ ranking) (divergence : String) :
    Returns (LbCache.rankOfMapped entry.playerId entry.rankKey divergence) cache fun asc next =>
      ranking[asc]? = some entry ∧ next = cache := by
  rcases coherent.exists_index present with ⟨index, here, _, found⟩
  unfold LbCache.rankOfMapped
  refine Returns.get ?_
  rw [found]
  exact Returns.pure ⟨here, rfl⟩

omit coherent in
theorem bestRank_ok {total asc : ℕ} (inside : asc < total) :
    LbCache.bestRank total asc = .ok (total - 1 - asc) := by
  unfold LbCache.bestRank
  rw [checkedSub_ok (by omega)]
  exact checkedSub_ok (by omega)

omit coherent in
/-- A window counted from the worst, reversed, is the window counted from the best. -/
theorem reverse_window (ranking : List LbEntry) (first count window : ℕ)
    (inside : first + count ≤ ranking.length)
    (clipped : count = min window (ranking.length - (ranking.length - first - count))) :
    ((ranking.drop first).take count).reverse =
      (ranking.reverse.drop (ranking.length - first - count)).take window := by
  apply List.ext_getElem
  · simp
    omega
  · intro index insideLeft insideRight
    simp only [List.length_reverse, List.length_take, List.length_drop] at insideLeft
    simp only [List.getElem_reverse, List.getElem_take, List.getElem_drop, List.length_take,
      List.length_drop]
    congr 1
    omega

theorem scanAround {rank window : ℕ} (ranked : rank < ranking.length) (wide : 0 < window)
    (narrow : window < 2 ^ 32) :
    cache.scanAround ranking.length rank window = .ok (aroundOf ranking rank window) := by
  have ascStart : min (rank - window / 2 + window) ranking.length ≤ ranking.length :=
    min_le_right _ _
  generalize bestEndIs : min (rank - window / 2 + window) ranking.length = bestEnd at ascStart
  have count : (bestEnd - (bestEnd - window)) % 2 ^ 32 = bestEnd - (bestEnd - window) :=
    Nat.mod_eq_of_lt (by omega)
  have scanned : (cache.store.scanFromRank cache.rankId (ranking.length - bestEnd)
      (bestEnd - (bestEnd - window))).mapM entryFrom =
        .ok ((ranking.drop (ranking.length - bestEnd)).take (bestEnd - (bestEnd - window))) := by
    rw [CollectionStore.scanFromRank, coherent.rank, ← List.map_drop, ← List.map_take]
    refine mapM_entryFrom ?_
    intro entry entryMem
    exact coherent.shortEntry (List.mem_of_mem_drop (List.mem_of_mem_take entryMem))
  have start : windowStart rank window ranking.length =
      ranking.length - (ranking.length - bestEnd) - (bestEnd - (bestEnd - window)) := by
    unfold windowStart
    omega
  have reversed := reverse_window ranking (ranking.length - bestEnd) (bestEnd - (bestEnd - window))
    window (by omega) (by omega)
  simp only [LbCache.scanAround, bestEndIs, checkedSub_ok ascStart,
    checkedSub_ok (Nat.sub_le bestEnd window), aroundOf, start, ← reversed]
  change ((cache.store.scanFromRank cache.rankId (ranking.length - bestEnd)
    ((bestEnd - (bestEnd - window)) % 2 ^ 32)).mapM entryFrom >>= fun entries =>
      .ok entries.reverse) = _
  rw [count, scanned]
  rfl

theorem around (playerId : DatumId) (window : UInt32) :
    Returns (LbCache.around playerId window) cache fun result next =>
      result = (rankOf ranking playerId).map
        (fun rank => (rank, aroundOf ranking rank window.toNat)) ∧
          Coherent classDef config scores ranking next := by
  unfold LbCache.around
  refine (coherent.playerRankKey playerId).bind ?_
  rintro _ _ ⟨rfl, rfl⟩
  cases held : scores playerId with
  | none =>
      refine Returns.pure ⟨?_, coherent⟩
      rw [coherent.ranks.rankOf_of_none held]
      rfl
  | some score =>
      let entry : LbEntry := ⟨score.1, playerId, score.2⟩
      have present : entry ∈ ranking := (coherent.ranks.mem entry).mpr held
      refine coherent.ensureTotal.bind ?_
      rintro _ counted ⟨rfl, coherentCounted⟩
      refine (coherentCounted.rankOfMapped present _).bind ?_
      rintro asc _ ⟨here, rfl⟩
      have inside := (List.getElem?_eq_some_iff.mp here).1
      have rank := (coherent.ranks.rankOf_of_getElem? here).1
      refine returns_lift (bestRank_ok inside) ?_
      have rankIs : rankOf ranking playerId = some (ranking.length - 1 - asc) := rank
      rw [rankIs]
      by_cases zero : window = 0
      · simp only [zero, if_true]
        refine Returns.pure ⟨?_, coherentCounted⟩
        simp [aroundOf]
      · have wide : 0 < window.toNat := by
          rw [Nat.pos_iff_ne_zero]
          intro isZero
          exact zero (UInt32.toNat_inj.mp isZero)
        simp only [zero, if_false]
        refine Returns.get ?_
        refine returns_lift (coherentCounted.scanAround (by omega) wide window.toNat_lt) ?_
        refine Returns.set (Returns.pure ⟨rfl, coherentCounted.withMiddle ?_⟩)
        refine coherentCounted.middle.touchAll ?_
        intro other otherMem
        exact List.mem_reverse.mp (List.mem_of_mem_drop (List.mem_of_mem_take otherMem))

theorem aroundOptional (aroundPlayer : Option DatumId) (window : UInt32) :
    Returns (LbCache.aroundOptional aroundPlayer window) cache fun result next =>
      result = (aroundPlayer.bind (rankOf ranking)).map
        (fun rank => (rank, aroundOf ranking rank window.toNat)) ∧
          Coherent classDef config scores ranking next := by
  cases aroundPlayer with
  | none => exact Returns.pure ⟨rfl, coherent⟩
  | some playerId => exact coherent.around playerId window

/-- The rank, score and display of the player of an entry. -/
theorem friendOf_of_getElem? {index : ℕ} {entry : LbEntry}
    (present : ranking[index]? = some entry) :
    friendOf ranking entry.playerId = some
      ⟨entry.playerId, ranking.length - 1 - index, entry.rankKey, entry.display⟩ := by
  rcases coherent.ranks.rankOf_of_getElem? present with ⟨rank, reversed⟩
  rw [friendOf, rank, Option.bind_some, reversed]
  rfl

theorem friendRank (friendId : DatumId) :
    Returns (LbCache.friendRank ranking.length friendId) cache fun result next =>
      result = friendOf ranking friendId ∧ Coherent classDef config scores ranking next := by
  unfold LbCache.friendRank
  refine Returns.get ?_
  rcases coherent.middle.get friendId with ⟨on, hit⟩
  rcases middleIs : cache.state.middle.get friendId with ⟨cached, middle⟩
  rw [middleIs] at on hit
  have used := coherent.withMiddle on
  refine Returns.set ?_
  cases cached with
  | some entry =>
      rcases hit entry rfl with ⟨rfl, present⟩
      refine (used.rankOfMapped present _).bind ?_
      rintro asc _ ⟨here, rfl⟩
      refine returns_lift (bestRank_ok (List.getElem?_eq_some_iff.mp here).1) ?_
      exact Returns.pure ⟨(coherent.friendOf_of_getElem? here).symm, used⟩
  | none =>
      refine (used.playerRankKey friendId).bind ?_
      rintro _ _ ⟨rfl, rfl⟩
      cases held : scores friendId with
      | none =>
          refine Returns.pure ⟨?_, used⟩
          rw [friendOf, coherent.ranks.rankOf_of_none held]
          rfl
      | some score =>
          let entry : LbEntry := ⟨score.1, friendId, score.2⟩
          have present : entry ∈ ranking := (coherent.ranks.mem entry).mpr held
          refine (used.rankOfMapped present _).bind ?_
          rintro asc _ ⟨here, rfl⟩
          refine Returns.get ?_
          have scanned : ((cache.withMiddle middle).store.scanFromRank
              (cache.withMiddle middle).rankId asc 1).head? =
                some (entry.pair classDef.displayLen) := by
            rw [CollectionStore.scanFromRank, used.rank, List.head?_take, if_neg Nat.one_ne_zero,
              List.head?_drop, List.getElem?_map, here]
            rfl
          rw [scanned]
          refine returns_lift (entryFrom_pair (coherent.shortEntry present)) (Returns.set ?_)
          refine returns_lift (bestRank_ok (List.getElem?_eq_some_iff.mp here).1) ?_
          exact Returns.pure ⟨(coherent.friendOf_of_getElem? here).symm,
            used.withMiddle (on.touch present)⟩

omit coherent in
theorem friendRanksFrom (coherent : Coherent classDef config scores ranking cache)
    (friendIds : List DatumId) :
    Returns (LbCache.friendRanksFrom ranking.length friendIds) cache fun result next =>
      result = friendIds.filterMap (friendOf ranking) ∧
        Coherent classDef config scores ranking next := by
  induction friendIds generalizing cache with
  | nil => exact Returns.pure ⟨rfl, coherent⟩
  | cons friendId friendIds ih =>
      unfold LbCache.friendRanksFrom
      refine (coherent.friendRank friendId).bind ?_
      rintro _ next ⟨rfl, coherentNext⟩
      refine (ih coherentNext).bind ?_
      rintro _ last ⟨rfl, coherentLast⟩
      refine Returns.pure ⟨?_, coherentLast⟩
      rw [List.filterMap_cons]
      cases friendOf ranking friendId <;> rfl

theorem friendRanks (friendIds : List DatumId) :
    Returns (LbCache.friendRanks friendIds) cache fun result next =>
      result = friendIds.filterMap (friendOf ranking) ∧
        Coherent classDef config scores ranking next := by
  unfold LbCache.friendRanks
  refine coherent.ensureTotal.bind ?_
  rintro _ next ⟨rfl, coherentNext⟩
  exact coherentNext.friendRanksFrom friendIds

/-- Queries are answered from the map, and never fail. -/
theorem query (req : LbQueryReq) :
    Returns (LbCache.query req) cache fun result next =>
      result = answerOf config ranking req ∧ Coherent classDef config scores ranking next := by
  unfold LbCache.query
  refine coherent.ensureTop.bind ?_
  rintro _ topped ⟨rfl, coherentTopped⟩
  refine coherentTopped.ensureBottom.bind ?_
  rintro _ bottomed ⟨rfl, coherentBottomed⟩
  refine coherentBottomed.ensureTotal.bind ?_
  rintro _ counted ⟨rfl, coherentCounted⟩
  refine (coherentCounted.aroundOptional req.aroundPlayer req.window).bind ?_
  rintro _ next ⟨rfl, coherentNext⟩
  refine (coherentNext.friendRanks req.friendIds).bind ?_
  rintro _ last ⟨rfl, coherentLast⟩
  refine Returns.pure ⟨?_, coherentLast⟩
  simp only [answerOf, List.take_take]
  cases req.aroundPlayer.bind (rankOf ranking) <;> rfl

end Coherent

end Queries

end Seisin
