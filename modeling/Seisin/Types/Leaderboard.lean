import Mathlib
import Seisin.Lib.SortedList
import Seisin.Types.Residents

/-!
# Leaderboards

A board has two ordered collections in the storage tier: `rank`, by score and player, and
`by_player`, a point index from players to scores.  The compute node that owns the board keeps a
bounded cache in front of them: windows at both ends, the number of entries, and the least recently
used others.  Requests and results are modelled decoded.
-/

namespace Seisin

open ByteString SortedList

/-! ## The collection store -/

/-- The ordered collections of the storage tier as sorted maps, with calls that succeed.  How many
nodes hold a collection makes no difference then. -/
abbrev CollectionStore := DatumId → Option (List (Bytes × Bytes))

namespace CollectionStore

variable (store : CollectionStore) (collectionId : DatumId)

def entries : List (Bytes × Bytes) := (store collectionId).getD []

/-- Leaves a collection that exists as it is. -/
def create : CollectionStore :=
  Function.update store collectionId (some (store.entries collectionId))

def insert (key value : Bytes) : CollectionStore :=
  Function.update store collectionId (some (upsert key value (store.entries collectionId)))

def remove (key : Bytes) : CollectionStore :=
  Function.update store collectionId (some (removeKey key (store.entries collectionId)))

def get (key : Bytes) : Option Bytes := find key (store.entries collectionId)

/-- The highest keys, from the highest down. -/
def scanForward (limit : ℕ) : List (Bytes × Bytes) :=
  (store.entries collectionId).reverse.take limit

/-- The lowest keys, from the lowest up. -/
def scanBackward (limit : ℕ) : List (Bytes × Bytes) := (store.entries collectionId).take limit

/-- How many keys are lower. -/
def rankOfKey (key : Bytes) : Option ℕ := position key (store.entries collectionId)

def scanFromRank (rank limit : ℕ) : List (Bytes × Bytes) :=
  ((store.entries collectionId).drop rank).take limit

def count : ℕ := (store.entries collectionId).length

variable {store} {collectionId} {other : DatumId} {key value : Bytes}

@[simp]
theorem entries_create : (store.create collectionId).entries other = store.entries other := by
  by_cases same : other = collectionId
  · simp [same, create, entries]
  · simp [create, entries, Function.update_of_ne same]

@[simp]
theorem entries_insert : (store.insert collectionId key value).entries collectionId =
    upsert key value (store.entries collectionId) := by
  simp [insert, entries]

theorem entries_insert_ne (differ : other ≠ collectionId) :
    (store.insert collectionId key value).entries other = store.entries other := by
  simp [insert, entries, Function.update_of_ne differ]

@[simp]
theorem entries_remove : (store.remove collectionId key).entries collectionId =
    removeKey key (store.entries collectionId) := by
  simp [remove, entries]

theorem entries_remove_ne (differ : other ≠ collectionId) :
    (store.remove collectionId key).entries other = store.entries other := by
  simp [remove, entries, Function.update_of_ne differ]

end CollectionStore

/-! ## Classes and entries -/

inductive LbRule where
  | max
  | min
  | replace
  deriving DecidableEq

/-- What a board's cache reads of its class. -/
structure LbClassDef where
  displayLen : UInt16
  rule : LbRule

/-- Eight bytes, ordered as the scores they encode. -/
abbrev RankKey := {bytes : Bytes // bytes.length = 8}

/-- Whether a new score takes the place of an old one. -/
def LbRule.improves : LbRule → RankKey → RankKey → Bool
  | .max, oldKey, newKey => oldKey < newKey
  | .min, oldKey, newKey => newKey < oldKey
  | .replace, oldKey, newKey => newKey ≠ oldKey

structure LbEntry where
  rankKey : RankKey
  playerId : DatumId
  display : Bytes
  deriving DecidableEq

/-- A panic is a subtraction below zero, or a slice or an array of the wrong length. -/
inductive LbFailure where
  | error (message : String)
  | panic
  deriving DecidableEq

def checkedSub (left right : ℕ) : Except LbFailure ℕ :=
  if right ≤ left then .ok (left - right) else .error .panic

/-- The length of the display, the display cut to the width of the class, and padding. -/
def encodeDisplay (display : Bytes) (displayLen : UInt16) : Bytes :=
  let capped := display.take displayLen.toNat
  leBytes 2 capped.length ++ capped ++ List.replicate (displayLen.toNat - capped.length) 0

def decodeDisplay (value : Bytes) : Except LbFailure Bytes :=
  if value.length < 2 then .error .panic
  else .ok ((value.drop 2).take (min (leNat (value.take 2)) (value.length - 2)))

def rankKeyOf (bytes : Bytes) : Except LbFailure RankKey :=
  if exact : bytes.length = 8 then .ok ⟨bytes, exact⟩ else .error .panic

def entryFrom (pair : Bytes × Bytes) : Except LbFailure LbEntry := do
  let rankKey ← rankKeyOf (pair.1.take 8)
  if pair.1.length < 24 then throw .panic
  let display ← decodeDisplay pair.2
  return ⟨rankKey, DatumId.fromBytes ((pair.1.drop 8).take 16), display⟩

/-! ## The cache of entries -/

/-- Entries by player, each with the time of its last use. -/
structure LruMiddle where
  entries : AList fun _ : DatumId => LbEntry × ℕ
  nextSeq : ℕ
  cap : ℕ

namespace LruMiddle

def new (cap : ℕ) : LruMiddle := ⟨∅, 0, cap⟩

def oldest (entries : AList fun _ : DatumId => LbEntry × ℕ) : Option DatumId :=
  (entries.entries.argmin fun entry => entry.2.2).map Sigma.fst

/-- What is kept of a map that has got an entry more. -/
def evict (cap : ℕ) (entries : AList fun _ : DatumId => LbEntry × ℕ) :
    AList fun _ : DatumId => LbEntry × ℕ :=
  if cap = 0 then ∅
  else if cap < entries.entries.length then
    match oldest entries with
    | some playerId => entries.erase playerId
    | none => entries
  else entries

def touch (middle : LruMiddle) (entry : LbEntry) : LruMiddle where
  entries := evict middle.cap (middle.entries.insert entry.playerId (entry, middle.nextSeq))
  nextSeq := middle.nextSeq + 1
  cap := middle.cap

def get (middle : LruMiddle) (playerId : DatumId) : Option LbEntry × LruMiddle :=
  match middle.entries.lookup playerId with
  | none => (none, { middle with nextSeq := middle.nextSeq + 1 })
  | some (entry, _) =>
      (some entry, { middle with
        entries := middle.entries.insert playerId (entry, middle.nextSeq)
        nextSeq := middle.nextSeq + 1 })

def remove (middle : LruMiddle) (playerId : DatumId) : LruMiddle :=
  { middle with entries := middle.entries.erase playerId }

end LruMiddle

/-! ## The cache of a board -/

/-- How many entries the cache may hold, the windows at both ends included. -/
structure LbCacheConfig where
  pinnedTop : ℕ
  pinnedBottom : ℕ
  maxCachedEntries : ℕ

/-- A window or total that is `none` is fetched before it is read next. -/
structure LbCacheState where
  pinnedTop : Option (List LbEntry)
  pinnedBottom : Option (List LbEntry)
  total : Option ℕ
  middle : LruMiddle

structure LbCache where
  classDef : LbClassDef
  store : CollectionStore
  rankId : DatumId
  byPlayerId : DatumId
  config : LbCacheConfig
  state : LbCacheState

structure LbQueryReq where
  top : UInt32
  bottom : UInt32
  aroundPlayer : Option DatumId
  window : UInt32
  friendIds : List DatumId

structure LbFriendRank where
  playerId : DatumId
  rank : ℕ
  rankKey : RankKey
  display : Bytes
  deriving DecidableEq

structure LbResult where
  total : ℕ
  playerRank : Option ℕ
  top : List LbEntry
  bottom : List LbEntry
  around : List LbEntry
  friends : List LbFriendRank
  deriving DecidableEq

inductive LbExecuteOp where
  | update (playerId : DatumId) (display : Bytes) (rankKey : RankKey) (friendIds : List DatumId)
      (top window : UInt32)
  | remove (playerId : DatumId)

/-- A request to a board. -/
inductive LbRequest where
  | query (query : LbQueryReq)
  | execute (op : LbExecuteOp)

/-- Code that changes the cache and may fail; what it changed before stays. -/
abbrev LbM := ExceptT LbFailure (StateM LbCache)

namespace LbCache

def new (classDef : LbClassDef) (fromName : DatumId → Bytes → DatumId) (store : CollectionStore)
    (boardId : DatumId) (config : LbCacheConfig) : LbCache where
  classDef := classDef
  store := (store.create boardId).create (fromName boardId (ofString "by_player"))
  rankId := boardId
  byPlayerId := fromName boardId (ofString "by_player")
  config := config
  state := ⟨none, none, none, .new
    (config.maxCachedEntries - (config.pinnedTop + config.pinnedBottom) % 2 ^ 64)⟩

def withState (cache : LbCache) (state : LbCacheState) : LbCache := { cache with state := state }

def withMiddle (cache : LbCache) (middle : LruMiddle) : LbCache :=
  cache.withState { cache.state with middle := middle }

/-- A step that changes nothing. -/
def lift {Result : Type} (result : Except LbFailure Result) : LbM Result :=
  fun cache => (result, cache)

/-- The limit of a scan is a 32-bit number. -/
def ensureTop : LbM (List LbEntry) := do
  let cache ← get
  match cache.state.pinnedTop with
  | some entries => return entries
  | none =>
      let entries ← lift ((cache.store.scanForward cache.rankId
        (cache.config.pinnedTop % 2 ^ 32)).mapM entryFrom)
      set (cache.withState { cache.state with pinnedTop := some entries })
      return entries

def ensureBottom : LbM (List LbEntry) := do
  let cache ← get
  match cache.state.pinnedBottom with
  | some entries => return entries
  | none =>
      let entries ← lift ((cache.store.scanBackward cache.rankId
        (cache.config.pinnedBottom % 2 ^ 32)).mapM entryFrom)
      set (cache.withState { cache.state with pinnedBottom := some entries })
      return entries

def ensureTotal : LbM ℕ := do
  let cache ← get
  match cache.state.total with
  | some total => return total
  | none =>
      let total := cache.store.count cache.rankId
      set (cache.withState { cache.state with total := some total })
      return total

def invalidate (cache : LbCache) : LbCache :=
  cache.withState
    { cache.state with pinnedTop := none, pinnedBottom := none, total := none }

def applyRule (cache : LbCache) (oldKey newKey : RankKey) : Bool :=
  cache.classDef.rule.improves oldKey newKey

def playerRankKey (playerId : DatumId) : LbM (Option RankKey) := do
  let cache ← get
  match cache.store.get cache.byPlayerId playerId.asBytes with
  | none => return none
  | some value => return some (← lift (rankKeyOf value))

/-- The rank from the best, of the rank from the worst. -/
def bestRank (total asc : ℕ) : Except LbFailure ℕ := do
  checkedSub (← checkedSub total 1) asc

/-- The window of entries about a rank, best first; it is moved to lie within the board. -/
def scanAround (cache : LbCache) (total rank window : ℕ) : Except LbFailure (List LbEntry) := do
  let half := window / 2
  let bestStart := rank - half
  let bestEnd := min (bestStart + window) total
  let bestStart := bestEnd - window
  let ascStart ← checkedSub total bestEnd
  let count ← checkedSub bestEnd bestStart
  let entries ← (cache.store.scanFromRank cache.rankId ascStart (count % 2 ^ 32)).mapM entryFrom
  return entries.reverse

def rankOfMapped (playerId : DatumId) (rankKey : RankKey) (divergence : String) : LbM ℕ := do
  let cache ← get
  match cache.store.rankOfKey cache.rankId (compositeKey rankKey.val playerId) with
  | none => throw (.error divergence)
  | some asc => return asc

def around (playerId : DatumId) (window : UInt32) : LbM (Option (ℕ × List LbEntry)) := do
  match ← playerRankKey playerId with
  | none => return none
  | some rankKey =>
      let total ← ensureTotal
      let asc ← rankOfMapped playerId rankKey "board map/collection divergence: mapped key missing"
      let rank ← lift (bestRank total asc)
      if window = 0 then return some (rank, [])
      let cache ← get
      let entries ← lift (cache.scanAround total rank window.toNat)
      set (cache.withMiddle (entries.foldl LruMiddle.touch cache.state.middle))
      return some (rank, entries)

def aroundOptional (aroundPlayer : Option DatumId) (window : UInt32) :
    LbM (Option (ℕ × List LbEntry)) :=
  match aroundPlayer with
  | some playerId => around playerId window
  | none => return none

/-- A player that is not on the board has no rank. -/
def friendRank (total : ℕ) (friendId : DatumId) : LbM (Option LbFriendRank) := do
  let cache ← get
  let (cached, middle) := cache.state.middle.get friendId
  set (cache.withMiddle middle)
  match cached with
  | some cached =>
      let asc ← rankOfMapped friendId cached.rankKey
        "board map/collection divergence: cached key missing"
      let rank ← lift (bestRank total asc)
      return some ⟨friendId, rank, cached.rankKey, cached.display⟩
  | none =>
      match ← playerRankKey friendId with
      | none => return none
      | some rankKey =>
          let asc ← rankOfMapped friendId rankKey
            "board map/collection divergence: mapped key missing"
          let cache ← get
          match (cache.store.scanFromRank cache.rankId asc 1).head? with
          | none => throw (.error "board map/collection divergence: rank scan empty")
          | some pair =>
              let entry ← lift (entryFrom pair)
              set (cache.withMiddle (cache.state.middle.touch entry))
              let rank ← lift (bestRank total asc)
              return some ⟨friendId, rank, rankKey, entry.display⟩

def friendRanksFrom (total : ℕ) : List DatumId → LbM (List LbFriendRank)
  | [] => return []
  | friendId :: friendIds => do
      let friend ← friendRank total friendId
      let friends ← friendRanksFrom total friendIds
      return friend.toList ++ friends

def friendRanks (friendIds : List DatumId) : LbM (List LbFriendRank) := do
  let total ← ensureTotal
  friendRanksFrom total friendIds

/-- At most what is pinned of either end is returned. -/
def query (req : LbQueryReq) : LbM LbResult := do
  let topEntries ← ensureTop
  let bottomEntries ← ensureBottom
  let total ← ensureTotal
  let around ← aroundOptional req.aroundPlayer req.window
  let friends ← friendRanks req.friendIds
  return ⟨total, around.map Prod.fst, topEntries.take req.top.toNat,
    bottomEntries.take req.bottom.toNat, (around.map Prod.snd).getD [], friends⟩

/-- The store without the player's entry in the `rank` collection. -/
def removeRank (cache : LbCache) (playerId : DatumId) (oldKey : Option RankKey) : CollectionStore :=
  match oldKey with
  | some oldKey => cache.store.remove cache.rankId (compositeKey oldKey.val playerId)
  | none => cache.store

/-- Both collections get the player's new score; what may be stale is no longer cached. -/
def replaceScore (cache : LbCache) (playerId : DatumId) (display : Bytes) (oldKey : Option RankKey)
    (rankKey : RankKey) : LbCache :=
  let ranked := (cache.removeRank playerId oldKey).insert cache.rankId
    (compositeKey rankKey.val playerId)
    (encodeDisplay display cache.classDef.displayLen)
  let written := { cache with store := ranked.insert cache.byPlayerId playerId.asBytes rankKey.val }
  written.invalidate.withMiddle (cache.state.middle.remove playerId)

def removePlayer (cache : LbCache) (playerId : DatumId) (oldKey : RankKey) : LbCache :=
  let removed := { cache with
    store := (cache.removeRank playerId (some oldKey)).remove cache.byPlayerId playerId.asBytes }
  removed.invalidate.withMiddle (cache.state.middle.remove playerId)

/-- A player's first score is always accepted. -/
def submit (cache : LbCache) (playerId : DatumId) (display : Bytes) (rankKey : RankKey)
    (oldKey : Option RankKey) : LbCache :=
  if oldKey.all fun oldKey => cache.applyRule oldKey rankKey then
    cache.replaceScore playerId display oldKey rankKey
  else cache

def withdraw (cache : LbCache) (playerId : DatumId) (oldKey : Option RankKey) : LbCache :=
  match oldKey with
  | some oldKey => cache.removePlayer playerId oldKey
  | none => cache

def execute : LbExecuteOp → LbM LbResult
  | .update playerId display rankKey friendIds top window => do
      let oldKey ← playerRankKey playerId
      let cache ← get
      set (cache.submit playerId display rankKey oldKey)
      query ⟨top, 0, some playerId, window, friendIds⟩
  | .remove playerId => do
      let oldKey ← playerRankKey playerId
      let cache ← get
      set (cache.withdraw playerId oldKey)
      query ⟨0, 0, none, 0, []⟩

def serve : LbRequest → LbM LbResult
  | .query req => query req
  | .execute op => execute op

end LbCache

end Seisin
