import Mathlib
import Seisin.Protocol.Fields

/-!
# Operations and queries on the wire

The nested codecs: what requests ask of an index, and what it answers.  Requests carry these bytes
through to the index kinds, so each codec stands alone.
-/

namespace Seisin.Protocol

open ByteString Cursor

def trailingBytes (what : String) (count : ℕ) : String :=
  what ++ " " ++ toString count ++ " trailing bytes"

/-- A tag, the fields it calls for, and nothing after them. -/
def decodeTagged {Value : Type} (what : String) (takeFields : UInt8 → Take Value) (buf : Bytes) :
    Except String Value :=
  match buf with
  | [] => .error ("empty " ++ what)
  | tag :: _ => run (whole (trailingBytes (what ++ " has")) (takeFields tag)) buf 1

/-! ## Rank queries -/

inductive RkQueryKind where
  | topN (n : UInt32)
  | bottomN (n : UInt32)
  | percentileSample (n : UInt32)
  deriving DecidableEq

def encodeRkQueryKind : RkQueryKind → Bytes
  | .topN n => 0 :: leBytes 4 n.toNat
  | .bottomN n => 1 :: leBytes 4 n.toNat
  | .percentileSample n => 2 :: leBytes 4 n.toNat

def rkQueryKindOf (n : UInt32) : UInt8 → Take RkQueryKind
  | 0 => return .topN n
  | 1 => return .bottomN n
  | 2 => return .percentileSample n
  | tag => fail ("unknown rk query kind tag: " ++ toString tag.toNat)

def takeRkQueryKind : Take RkQueryKind := do
  let tag ← takeByte outOfRange
  let n ← u32Field outOfRange
  rkQueryKindOf n tag

def decodeRkQueryKind (buf : Bytes) : Except String RkQueryKind :=
  run (sized 5 (fun length => "rk query kind must be exactly 5 bytes, got " ++ toString length)
    takeRkQueryKind) buf 0

abbrev RkEntry := Bytes × DatumId

def putRkEntry (entry : RkEntry) : Bytes := entry.1 ++ entry.2.asBytes

def takeRkEntry : Take RkEntry := do
  let rankKey ← window 8 outOfRange
  let pkId ← idField outOfRange
  return (rankKey, pkId)

def encodeRkEntries : List RkEntry → Bytes := putCounted putRkEntry

def rkEntriesMismatch (count length : ℕ) : String :=
  "rk entries length mismatch: " ++ toString count ++ " entries need " ++
    toString (4 + count * (8 + 16)) ++ " bytes, got " ++ toString length

def decodeRkEntries (buf : Bytes) : Except String (List RkEntry) :=
  if buf.length < 4 then .error "rk entries buffer too short for a count"
  else
    let count := leNat (buf.take 4)
    run (sized (4 + count * (8 + 16)) (rkEntriesMismatch count) (times takeRkEntry count)) buf 4

/-! ## Leaderboards -/

def encodeLbExecuteOp : LbExecuteOp → Bytes
  | .update playerId display rankKey friendIds top window =>
      0 :: (playerId.asBytes ++ rankKey.val ++ putBytes display ++ putIdList friendIds ++
        leBytes 4 top.toNat ++ leBytes 4 window.toNat)
  | .remove playerId => 1 :: playerId.asBytes

def takeLbExecuteOp : UInt8 → Take LbExecuteOp
  | 0 => do
      let playerId ← takeId
      let rankKey ← takeRankKey
      let display ← takeBytes
      let friendIds ← takeIdList
      let top ← takeU32
      let window ← takeU32
      return .update playerId display rankKey friendIds top window
  | 1 => do
      let playerId ← takeId
      return .remove playerId
  | tag => fail ("unknown lb execute op tag: " ++ toString tag.toNat)

def decodeLbExecuteOp : Bytes → Except String LbExecuteOp :=
  decodeTagged "lb execute op" takeLbExecuteOp

def encodeLbQueryReq (query : LbQueryReq) : Bytes :=
  leBytes 4 query.top.toNat ++ leBytes 4 query.bottom.toNat ++
    putOption DatumId.asBytes query.aroundPlayer ++ leBytes 4 query.window.toNat ++
    putIdList query.friendIds

def takeLbQueryReq : Take LbQueryReq := do
  let top ← takeU32
  let bottom ← takeU32
  let aroundPlayer ← takeOption (fun _ => "lb query truncated at around_player flag")
    "unknown around_player flag: " takeId
  let window ← takeU32
  let friendIds ← takeIdList
  return ⟨top, bottom, aroundPlayer, window, friendIds⟩

def decodeLbQueryReq (buf : Bytes) : Except String LbQueryReq :=
  run (whole (trailingBytes "lb query has") takeLbQueryReq) buf 0

def putLbEntry (entry : LbEntry) : Bytes :=
  entry.rankKey.val ++ entry.playerId.asBytes ++ putBytes entry.display

def takeLbEntry : Take LbEntry := do
  let rankKey ← takeRankKey
  let playerId ← takeId
  let display ← takeBytes
  return ⟨rankKey, playerId, display⟩

def putLbEntries : List LbEntry → Bytes := putCounted putLbEntry

def takeLbEntries : Take (List LbEntry) := takeCounted takeLbEntry

def putLbFriendRank (friend : LbFriendRank) : Bytes :=
  friend.playerId.asBytes ++ leBytes 8 friend.rank ++ friend.rankKey.val ++ putBytes friend.display

/-- Ranks and totals are 64-bit numbers in the source. -/
def takeLbFriendRank : Take LbFriendRank := do
  let playerId ← takeId
  let rank ← number 8 (truncatedAt "u64")
  let rankKey ← takeRankKey
  let display ← takeBytes
  return ⟨playerId, rank, rankKey, display⟩

def encodeLbResult (result : LbResult) : Bytes :=
  leBytes 8 result.total ++ putOption (leBytes 8) result.playerRank ++ putLbEntries result.top ++
    putLbEntries result.bottom ++ putLbEntries result.around ++
    putCounted putLbFriendRank result.friends

def takeLbResult : Take LbResult := do
  let total ← number 8 (truncatedAt "u64")
  let playerRank ← takeOption (fun _ => "lb result truncated at player_rank flag")
    "unknown player_rank flag: " (number 8 (truncatedAt "u64"))
  let top ← takeLbEntries
  let bottom ← takeLbEntries
  let around ← takeLbEntries
  let friends ← takeCounted takeLbFriendRank
  return ⟨total, playerRank, top, bottom, around, friends⟩

def decodeLbResult (buf : Bytes) : Except String LbResult :=
  run (whole (trailingBytes "lb result has") takeLbResult) buf 0

/-! ## Valid-time histories -/

def encodeTkOp : TkOp → Bytes
  | .set subKey asOf value => 0 :: (putBytes subKey ++ putOptI64 asOf ++ putBytes value)
  | .clear subKey asOf => 1 :: (putBytes subKey ++ putOptI64 asOf)

def takeTkOp : UInt8 → Take TkOp
  | 0 => do
      let subKey ← takeBytes
      let asOf ← takeOptI64
      let value ← takeBytes
      return .set subKey asOf value
  | 1 => do
      let subKey ← takeBytes
      let asOf ← takeOptI64
      return .clear subKey asOf
  | tag => fail ("unknown tk op tag: " ++ toString tag.toNat)

def decodeTkOp : Bytes → Except String TkOp := decodeTagged "tk op" takeTkOp

def encodeTkQueryReq : TkQueryReq → Bytes
  | .asOf subKey t => 0 :: (putBytes subKey ++ putI64 t)
  | .current subKey => 1 :: putBytes subKey
  | .history subKey => 2 :: putBytes subKey
  | .range subKey lower upper => 3 :: (putBytes subKey ++ putI64 lower ++ putI64 upper)
  | .snapshotAt t => 4 :: putI64 t

def takeTkQueryReq : UInt8 → Take TkQueryReq
  | 0 => do
      let subKey ← takeBytes
      let t ← takeI64
      return .asOf subKey t
  | 1 => do
      let subKey ← takeBytes
      return .current subKey
  | 2 => do
      let subKey ← takeBytes
      return .history subKey
  | 3 => do
      let subKey ← takeBytes
      let lower ← takeI64
      let upper ← takeI64
      return .range subKey lower upper
  | 4 => do
      let t ← takeI64
      return .snapshotAt t
  | tag => fail ("unknown tk query tag: " ++ toString tag.toNat)

def decodeTkQueryReq : Bytes → Except String TkQueryReq := decodeTagged "tk query" takeTkQueryReq

structure TkResult where
  spans : List TkSpan

def putTkSpan (span : TkSpan) : Bytes :=
  putBytes span.subKey ++ putI64 span.lower ++ putOptI64 span.upper ++ putBytes span.value

def takeTkSpan : Take TkSpan := do
  let subKey ← takeBytes
  let lower ← takeI64
  let upper ← takeOptI64
  let value ← takeBytes
  return ⟨subKey, lower, upper, value⟩

def encodeTkResult (result : TkResult) : Bytes := putCounted putTkSpan result.spans

def takeTkResult : Take TkResult := do
  let spans ← takeCounted takeTkSpan
  return ⟨spans⟩

def decodeTkResult (buf : Bytes) : Except String TkResult :=
  run (whole (trailingBytes "tk result has") takeTkResult) buf 0

/-! ## Pages of an extent -/

def encodeExtentPage (offset : UInt64) (limit : UInt32) : Bytes :=
  leBytes 8 offset.toNat ++ leBytes 4 limit.toNat

def takeExtentPage : Take (UInt64 × UInt32) := do
  let offset ← u64Field outOfRange
  let limit ← u32Field outOfRange
  return (offset, limit)

def decodeExtentPage (buf : Bytes) : Except String (UInt64 × UInt32) :=
  run (sized 12 (fun length => "extent page query must be 12 bytes, got " ++ toString length)
    takeExtentPage) buf 0

def encodeExtentResult (total : UInt64) (pks : List DatumId) : Bytes :=
  leBytes 8 total.toNat ++ putIdList pks

def takeExtentResult : Take (UInt64 × List DatumId) := do
  let total ← takeU64
  let pks ← takeIdList
  return (total, pks)

def decodeExtentResult (buf : Bytes) : Except String (UInt64 × List DatumId) :=
  run (whole (trailingBytes "extent result has") takeExtentResult) buf 0

/-! ## What fits -/

def RkEntryFits (entry : RkEntry) : Prop := entry.1.length = 8

def LbOpFits : LbExecuteOp → Prop
  | .update _ display _ friendIds _ _ => BytesFit display ∧ IdsFit friendIds
  | .remove _ => True

def LbQueryFits (query : LbQueryReq) : Prop := IdsFit query.friendIds

def LbEntryFits (entry : LbEntry) : Prop := BytesFit entry.display

def LbFriendFits (friend : LbFriendRank) : Prop := friend.rank < 2 ^ 64 ∧ BytesFit friend.display

def LbResultFits (result : LbResult) : Prop :=
  result.total < 2 ^ 64 ∧ OptionFits (fun rank => rank < 2 ^ 64) result.playerRank ∧
    CountedFit LbEntryFits result.top ∧ CountedFit LbEntryFits result.bottom ∧
    CountedFit LbEntryFits result.around ∧ CountedFit LbFriendFits result.friends

def TkOpFits : TkOp → Prop
  | .set subKey _ value => BytesFit subKey ∧ BytesFit value
  | .clear subKey _ => BytesFit subKey

def TkQueryFits : TkQueryReq → Prop
  | .asOf subKey _ => BytesFit subKey
  | .current subKey => BytesFit subKey
  | .history subKey => BytesFit subKey
  | .range subKey _ _ => BytesFit subKey
  | .snapshotAt _ => True

def TkSpanFits (span : TkSpan) : Prop := BytesFit span.subKey ∧ BytesFit span.value

def TkResultFits (result : TkResult) : Prop := CountedFit TkSpanFits result.spans

/-! ## What the decoders accept -/

theorem decodeTagged_eq_ok {Value : Type} {what : String} {takeFields : UInt8 → Take Value}
    {fits : Value → Prop} {encode : Value → Bytes}
    (accepts : ∀ tag, Accepts (takeFields tag) fun value word _ =>
      fits value ∧ encode value = tag :: word)
    (nonempty : ∀ value, encode value ≠ []) {buf : Bytes} {value : Value} :
    decodeTagged what takeFields buf = .ok value ↔ fits value ∧ buf = encode value := by
  cases buf with
  | nil =>
      constructor
      · intro read
        cases read
      · rintro ⟨-, empty⟩
        exact (nonempty value empty.symm).elim
  | cons tag fields =>
      have read : decodeTagged what takeFields (tag :: fields) = .ok value ↔ _ :=
        ((accepts tag).whole _).run_eq_ok [tag]
      rw [read]
      constructor
      · rintro ⟨word, rest, rfl, ⟨fitting, spelled⟩, rfl⟩
        exact ⟨fitting, by rw [spelled, List.append_nil]⟩
      · rintro ⟨fitting, spelled⟩
        exact ⟨fields, [], (List.append_nil _).symm, ⟨fitting, spelled.symm⟩, rfl⟩

theorem rkQueryKindOf_accepts (n : UInt32) (tag : UInt8) :
    Accepts (rkQueryKindOf n tag) fun kind word _ =>
      encodeRkQueryKind kind = tag :: leBytes 4 n.toNat ∧ word = [] := by
  have same : ∀ m : UInt32, leBytes 4 m.toNat = leBytes 4 n.toNat ↔ m = n := by
    intro m
    constructor
    · intro same
      have read := congrArg leNat same
      rw [leNat_leBytes_four m.toNat_lt, leNat_leBytes_four n.toNat_lt] at read
      exact UInt32.toNat_inj.mp read
    · rintro rfl
      rfl
  unfold rkQueryKindOf
  split
  · refine (Accepts.pure _).congr fun kind word rest => ?_
    cases kind <;> simp [encodeRkQueryKind, same]
  · refine (Accepts.pure _).congr fun kind word rest => ?_
    cases kind <;> simp [encodeRkQueryKind, same]
  · refine (Accepts.pure _).congr fun kind word rest => ?_
    cases kind <;> simp [encodeRkQueryKind, same]
  · rename_i notTop notBottom notSample
    refine (Accepts.fail _).congr fun kind word rest => ⟨False.elim, ?_⟩
    rintro ⟨spelled, -⟩
    cases kind with
    | topN => exact notTop (List.cons.inj spelled).1.symm
    | bottomN => exact notBottom (List.cons.inj spelled).1.symm
    | percentileSample => exact notSample (List.cons.inj spelled).1.symm

theorem takeRkQueryKind_accepts :
    Accepts takeRkQueryKind (Exactly Always encodeRkQueryKind) := by
  refine ((takeByte_accepts _).then fun tag => (u32Field_accepts _).then fun n =>
    rkQueryKindOf_accepts n tag).congr fun kind word rest => ?_
  constructor
  · rintro ⟨tag, _, -, rfl, n, _, -, rfl, spelled, rfl⟩
    exact ⟨trivial, by rw [spelled]; simp⟩
  · rintro ⟨-, rfl⟩
    cases kind with
    | topN n =>
        exact ⟨0, leBytes 4 n.toNat, trivial, rfl, n, [], trivial, (List.append_nil _).symm, rfl, rfl⟩
    | bottomN n =>
        exact ⟨1, leBytes 4 n.toNat, trivial, rfl, n, [], trivial, (List.append_nil _).symm, rfl, rfl⟩
    | percentileSample n =>
        exact ⟨2, leBytes 4 n.toNat, trivial, rfl, n, [], trivial, (List.append_nil _).symm, rfl, rfl⟩

theorem decodeRkQueryKind_eq_ok {buf : Bytes} {kind : RkQueryKind} :
    decodeRkQueryKind buf = .ok kind ↔ buf = encodeRkQueryKind kind := by
  have read : decodeRkQueryKind buf = .ok kind ↔ _ :=
    takeRkQueryKind_accepts.sized_eq_ok (fun _ _ _ => id) (fun _ fitting => ⟨fitting, rfl⟩) []
      fun kind _ => by cases kind <;> simp [encodeRkQueryKind]
  rw [read, Always, true_and]

theorem takeLbExecuteOp_accepts (tag : UInt8) :
    Accepts (takeLbExecuteOp tag) fun op word _ =>
      LbOpFits op ∧ encodeLbExecuteOp op = tag :: word := by
  unfold takeLbExecuteOp
  split
  · refine (takeId_accepts.then fun playerId => takeRankKey_accepts.then fun rankKey =>
      takeBytes_accepts.then fun display => takeIdList_accepts.then fun friendIds =>
      takeU32_accepts.then fun top => takeU32_accepts.then fun window => .pure _).congr
      fun op word rest => ?_
    cases op with
    | update => simp [LbOpFits, encodeLbExecuteOp, Always, eq_comm, and_assoc, and_left_comm]
    | remove => simp [encodeLbExecuteOp]
  · refine (takeId_accepts.then fun playerId => .pure _).congr fun op word rest => ?_
    cases op with
    | update => simp [encodeLbExecuteOp]
    | remove => simp [LbOpFits, encodeLbExecuteOp, Always, eq_comm]
  · rename_i notUpdate notRemove
    refine (Accepts.fail _).congr fun op word rest => ⟨False.elim, ?_⟩
    rintro ⟨-, spelled⟩
    cases op with
    | update => exact notUpdate (List.cons.inj spelled).1.symm
    | remove => exact notRemove (List.cons.inj spelled).1.symm

theorem decodeLbExecuteOp_eq_ok {buf : Bytes} {op : LbExecuteOp} :
    decodeLbExecuteOp buf = .ok op ↔ LbOpFits op ∧ buf = encodeLbExecuteOp op :=
  decodeTagged_eq_ok takeLbExecuteOp_accepts fun op => by cases op <;> simp [encodeLbExecuteOp]

theorem takeRkEntry_accepts : Accepts takeRkEntry (Exactly RkEntryFits putRkEntry) := by
  refine ((window_accepts 8 _).then fun rankKey => (idField_accepts _).then fun pkId =>
    .pure _).congr fun entry word rest => ?_
  cases entry
  simp [Exactly, RkEntryFits, putRkEntry, Always, and_left_comm]

theorem length_flatMap_putRkEntry {entries : List RkEntry}
    (fit : ∀ entry ∈ entries, RkEntryFits entry) :
    (entries.flatMap putRkEntry).length = entries.length * (8 + 16) := by
  induction entries with
  | nil => rfl
  | cons entry entries ih =>
      rw [List.forall_mem_cons] at fit
      have one : (putRkEntry entry).length = 8 + 16 := by
        rw [putRkEntry, List.length_append, DatumId.length_asBytes, fit.1]
      rw [List.flatMap_cons, List.length_append, one, ih fit.2, List.length_cons]
      omega

theorem decodeRkEntries_eq_ok {buf : Bytes} {entries : List RkEntry} :
    decodeRkEntries buf = .ok entries ↔
      CountedFit RkEntryFits entries ∧ buf = encodeRkEntries entries := by
  by_cases short : buf.length < 4
  · rw [decodeRkEntries, if_pos short]
    constructor
    · intro read
      cases read
    · rintro ⟨-, rfl⟩
      simp [encodeRkEntries, putCounted] at short
  · have four : (buf.take 4).length = 4 := List.length_take_of_le (Nat.le_of_not_lt short)
    have counted : ∀ entries : List RkEntry,
        (entries.length = leNat (buf.take 4) ∧ ∀ entry ∈ entries, RkEntryFits entry) →
        (buf.take 4).length + (entries.flatMap putRkEntry).length =
          4 + leNat (buf.take 4) * (8 + 16) := by
      rintro entries ⟨length, fit⟩
      rw [length_flatMap_putRkEntry fit, length, four]
    have read : run (sized _ (rkEntriesMismatch (leNat (buf.take 4))) (times takeRkEntry _))
        (buf.take 4 ++ buf.drop 4) (buf.take 4).length = .ok entries ↔ _ :=
      (times_accepts takeRkEntry_accepts (leNat (buf.take 4))).sized_eq_ok (fun _ _ _ => id)
        (fun _ fitting => ⟨fitting, rfl⟩) (buf.take 4) counted
    rw [List.take_append_drop, four] at read
    rw [decodeRkEntries, if_neg short, read]
    constructor
    · rintro ⟨⟨length, fit⟩, spelled⟩
      have small := leNat_lt (buf.take 4)
      rw [four, ← length] at small
      have front := leBytes_leNat (buf.take 4)
      rw [four] at front
      refine ⟨⟨small, fit⟩, ?_⟩
      rw [encodeRkEntries, putCounted, length, front, ← spelled, List.take_append_drop]
    · rintro ⟨⟨small, fit⟩, rfl⟩
      have front : (encodeRkEntries entries).take 4 = leBytes 4 entries.length :=
        List.take_left' (length_leBytes ..)
      rw [front, leNat_leBytes_four small]
      exact ⟨⟨rfl, fit⟩, List.drop_left' (length_leBytes ..)⟩

theorem takeLbQueryReq_accepts : Accepts takeLbQueryReq (Exactly LbQueryFits encodeLbQueryReq) := by
  refine (takeU32_accepts.then fun top => takeU32_accepts.then fun bottom =>
    (takeOption_accepts takeId_accepts _ _).then fun aroundPlayer =>
    takeU32_accepts.then fun window => takeIdList_accepts.then fun friendIds => .pure _).congr
    fun query word rest => ?_
  cases query
  simp [Exactly, LbQueryFits, encodeLbQueryReq, Always, and_left_comm]

theorem decodeLbQueryReq_eq_ok {buf : Bytes} {query : LbQueryReq} :
    decodeLbQueryReq buf = .ok query ↔ LbQueryFits query ∧ buf = encodeLbQueryReq query :=
  takeLbQueryReq_accepts.whole_eq_ok []

theorem takeLbEntry_accepts : Accepts takeLbEntry (Exactly LbEntryFits putLbEntry) := by
  refine (takeRankKey_accepts.then fun rankKey => takeId_accepts.then fun playerId =>
    takeBytes_accepts.then fun display => .pure _).congr fun entry word rest => ?_
  cases entry
  simp [Exactly, LbEntryFits, putLbEntry, Always, and_left_comm]

theorem takeLbEntries_accepts :
    Accepts takeLbEntries (Exactly (CountedFit LbEntryFits) putLbEntries) :=
  takeCounted_accepts takeLbEntry_accepts

theorem takeLbFriendRank_accepts :
    Accepts takeLbFriendRank (Exactly LbFriendFits putLbFriendRank) := by
  refine (takeId_accepts.then fun playerId => (number_accepts 8 _).then fun rank =>
    takeRankKey_accepts.then fun rankKey => takeBytes_accepts.then fun display => .pure _).congr
    fun friend word rest => ?_
  cases friend
  simp [Exactly, LbFriendFits, putLbFriendRank, Always, and_assoc, and_left_comm]

theorem takeLbResult_accepts : Accepts takeLbResult (Exactly LbResultFits encodeLbResult) := by
  refine ((number_accepts 8 _).then fun total =>
    (takeOption_accepts (number_accepts 8 _) _ _).then fun playerRank =>
    takeLbEntries_accepts.then fun top => takeLbEntries_accepts.then fun bottom =>
    takeLbEntries_accepts.then fun around =>
    (takeCounted_accepts takeLbFriendRank_accepts).then fun friends => .pure _).congr
    fun result word rest => ?_
  cases result
  simp [Exactly, LbResultFits, encodeLbResult, and_assoc, and_comm, and_left_comm]

theorem decodeLbResult_eq_ok {buf : Bytes} {result : LbResult} :
    decodeLbResult buf = .ok result ↔ LbResultFits result ∧ buf = encodeLbResult result :=
  takeLbResult_accepts.whole_eq_ok []

theorem takeTkOp_accepts (tag : UInt8) :
    Accepts (takeTkOp tag) fun op word _ => TkOpFits op ∧ encodeTkOp op = tag :: word := by
  unfold takeTkOp
  split
  · refine (takeBytes_accepts.then fun subKey => takeOptI64_accepts.then fun asOf =>
      takeBytes_accepts.then fun value => .pure _).congr fun op word rest => ?_
    cases op with
    | set => simp [TkOpFits, encodeTkOp, Always, eq_comm, and_assoc, and_left_comm]
    | clear => simp [encodeTkOp]
  · refine (takeBytes_accepts.then fun subKey => takeOptI64_accepts.then fun asOf =>
      .pure _).congr fun op word rest => ?_
    cases op with
    | set => simp [encodeTkOp]
    | clear => simp [TkOpFits, encodeTkOp, Always, eq_comm, and_left_comm]
  · rename_i notSet notClear
    refine (Accepts.fail _).congr fun op word rest => ⟨False.elim, ?_⟩
    rintro ⟨-, spelled⟩
    cases op with
    | set => exact notSet (List.cons.inj spelled).1.symm
    | clear => exact notClear (List.cons.inj spelled).1.symm

theorem decodeTkOp_eq_ok {buf : Bytes} {op : TkOp} :
    decodeTkOp buf = .ok op ↔ TkOpFits op ∧ buf = encodeTkOp op :=
  decodeTagged_eq_ok takeTkOp_accepts fun op => by cases op <;> simp [encodeTkOp]

theorem takeTkQueryReq_accepts (tag : UInt8) :
    Accepts (takeTkQueryReq tag) fun query word _ =>
      TkQueryFits query ∧ encodeTkQueryReq query = tag :: word := by
  unfold takeTkQueryReq
  split
  · refine (takeBytes_accepts.then fun subKey => takeI64_accepts.then fun t => .pure _).congr
      fun query word rest => ?_
    cases query <;> simp [TkQueryFits, encodeTkQueryReq, Always, eq_comm, and_left_comm]
  · refine (takeBytes_accepts.then fun subKey => .pure _).congr fun query word rest => ?_
    cases query <;> simp [TkQueryFits, encodeTkQueryReq, eq_comm]
  · refine (takeBytes_accepts.then fun subKey => .pure _).congr fun query word rest => ?_
    cases query <;> simp [TkQueryFits, encodeTkQueryReq, eq_comm]
  · refine (takeBytes_accepts.then fun subKey => takeI64_accepts.then fun lower =>
      takeI64_accepts.then fun upper => .pure _).congr fun query word rest => ?_
    cases query <;> simp [TkQueryFits, encodeTkQueryReq, Always, eq_comm, and_left_comm]
  · refine (takeI64_accepts.then fun t => .pure _).congr fun query word rest => ?_
    cases query <;> simp [TkQueryFits, encodeTkQueryReq, Always, eq_comm]
  · rename_i notAsOf notCurrent notHistory notRange notSnapshot
    refine (Accepts.fail _).congr fun query word rest => ⟨False.elim, ?_⟩
    rintro ⟨-, spelled⟩
    cases query with
    | asOf => exact notAsOf (List.cons.inj spelled).1.symm
    | current => exact notCurrent (List.cons.inj spelled).1.symm
    | history => exact notHistory (List.cons.inj spelled).1.symm
    | range => exact notRange (List.cons.inj spelled).1.symm
    | snapshotAt => exact notSnapshot (List.cons.inj spelled).1.symm

theorem decodeTkQueryReq_eq_ok {buf : Bytes} {query : TkQueryReq} :
    decodeTkQueryReq buf = .ok query ↔ TkQueryFits query ∧ buf = encodeTkQueryReq query :=
  decodeTagged_eq_ok takeTkQueryReq_accepts fun query => by
    cases query <;> simp [encodeTkQueryReq]

theorem takeTkSpan_accepts : Accepts takeTkSpan (Exactly TkSpanFits putTkSpan) := by
  refine (takeBytes_accepts.then fun subKey => takeI64_accepts.then fun lower =>
    takeOptI64_accepts.then fun upper => takeBytes_accepts.then fun value => .pure _).congr
    fun span word rest => ?_
  cases span
  simp [Exactly, TkSpanFits, putTkSpan, Always, and_assoc, and_left_comm, and_comm]

theorem takeTkResult_accepts : Accepts takeTkResult (Exactly TkResultFits encodeTkResult) := by
  refine ((takeCounted_accepts takeTkSpan_accepts).then fun spans => .pure _).congr
    fun result word rest => ?_
  cases result
  simp [Exactly, TkResultFits, encodeTkResult]

theorem decodeTkResult_eq_ok {buf : Bytes} {result : TkResult} :
    decodeTkResult buf = .ok result ↔ TkResultFits result ∧ buf = encodeTkResult result :=
  takeTkResult_accepts.whole_eq_ok []

theorem takeExtentPage_accepts :
    Accepts takeExtentPage (Exactly Always fun page => encodeExtentPage page.1 page.2) := by
  refine ((u64Field_accepts _).then fun offset => (u32Field_accepts _).then fun limit =>
    .pure _).congr fun page word rest => ?_
  cases page
  simp [Exactly, encodeExtentPage, Always]

theorem decodeExtentPage_eq_ok {buf : Bytes} {page : UInt64 × UInt32} :
    decodeExtentPage buf = .ok page ↔ buf = encodeExtentPage page.1 page.2 := by
  have read : decodeExtentPage buf = .ok page ↔ _ :=
    takeExtentPage_accepts.sized_eq_ok (fun _ _ _ => id) (fun _ fitting => ⟨fitting, rfl⟩) []
      fun page _ => by simp [encodeExtentPage]
  rw [read, Always, true_and]

theorem takeExtentResult_accepts : Accepts takeExtentResult
    (Exactly (fun result => IdsFit result.2) fun result => encodeExtentResult result.1 result.2) := by
  refine (takeU64_accepts.then fun total => takeIdList_accepts.then fun pks => .pure _).congr
    fun result word rest => ?_
  cases result
  simp [Exactly, encodeExtentResult, Always, and_left_comm]

theorem decodeExtentResult_eq_ok {buf : Bytes} {result : UInt64 × List DatumId} :
    decodeExtentResult buf = .ok result ↔
      IdsFit result.2 ∧ buf = encodeExtentResult result.1 result.2 :=
  takeExtentResult_accepts.whole_eq_ok []

/-! ## The codecs of the index kinds -/

theorem takeIdPair_accepts : Accepts takeIdPair
    (Exactly Always fun pair => pair.1.asBytes ++ pair.2.asBytes) := by
  refine (takeId_accepts.then fun first => takeId_accepts.then fun second =>
    .pure _).congr fun pair word rest => ?_
  cases pair
  simp [Exactly, Always]

theorem takeIdPair_one {tag : UInt8} {fields : Bytes} {pair : DatumId × DatumId} {next : ℕ} :
    takeIdPair (tag :: fields) 1 = .ok (pair, next) ↔
      ∃ rest, fields = pair.1.asBytes ++ pair.2.asBytes ++ rest ∧ next = 33 := by
  have read : takeIdPair (tag :: fields) 1 = .ok (pair, next) ↔ _ :=
    takeIdPair_accepts [tag] fields pair next
  rw [read]
  simp [Exactly, Always]

theorem decodeFkPendingOp_eq_ok {buf : Bytes} {op : FkPendingOp} :
    decodeFkPendingOp buf = .ok op ↔ buf = encodeFkPendingOp op := by
  have ended : ∀ {tag : UInt8} {pair : DatumId × DatumId} {rest : Bytes},
      33 = (tag :: (pair.1.asBytes ++ pair.2.asBytes ++ rest)).length → rest = [] := by
    intro tag pair rest length
    apply List.eq_nil_of_length_eq_zero
    simp only [List.length_cons, List.length_append, DatumId.length_asBytes] at length
    omega
  constructor
  · intro decoded
    simp only [decodeFkPendingOp] at decoded
    split at decoded
    · cases decoded
    · split at decoded
      · cases decoded
      · rename_i atEnd
        cases decoded
        simpa [encodeFkPendingOp, eq_comm] using atEnd
    · split at decoded
      · cases decoded
      · rename_i read
        rcases takeIdPair_one.mp read with ⟨rest, rfl, rfl⟩
        split at decoded
        · cases decoded
        · rename_i atEnd
          cases decoded
          rw [ended (not_not.mp atEnd), List.append_nil, encodeFkPendingOp]
    · split at decoded
      · cases decoded
      · rename_i read
        rcases takeIdPair_one.mp read with ⟨rest, rfl, rfl⟩
        split at decoded
        · cases decoded
        · rename_i atEnd
          cases decoded
          rw [ended (not_not.mp atEnd), List.append_nil, encodeFkPendingOp]
    · cases decoded
  · rintro rfl
    cases op with
    | list => rfl
    | remove referencingPk target =>
        have read : takeIdPair (1 :: (referencingPk.asBytes ++ target.asBytes)) 1 =
            .ok ((referencingPk, target), 33) :=
          takeIdPair_one.mpr ⟨[], (List.append_nil _).symm, rfl⟩
        simp [decodeFkPendingOp, encodeFkPendingOp, read]
    | insert referencingPk target =>
        have read : takeIdPair (2 :: (referencingPk.asBytes ++ target.asBytes)) 1 =
            .ok ((referencingPk, target), 33) :=
          takeIdPair_one.mpr ⟨[], (List.append_nil _).symm, rfl⟩
        simp [decodeFkPendingOp, encodeFkPendingOp, read]

theorem decodeFkEntriesFrom_eq (buf : Bytes) (count offset : ℕ) :
    decodeFkEntriesFrom buf count offset = times takeIdPair count buf offset := by
  induction count generalizing offset with
  | zero => rfl
  | succ count ih =>
      change _ = (takeIdPair buf offset >>= _)
      unfold decodeFkEntriesFrom
      cases takeIdPair buf offset with
      | error message => rfl
      | ok read =>
          rcases read with ⟨entry, next⟩
          change _ = (times takeIdPair count buf next >>= _)
          simp only [ih]
          cases times takeIdPair count buf next <;> rfl

theorem decodeFkEntries_eq_ok {buf : Bytes} {entries : FkEntries} :
    decodeFkEntries buf = .ok entries ↔
      entries.length < 2 ^ 32 ∧ buf = encodeFkEntries entries := by
  by_cases short : buf.length < 4
  · rw [decodeFkEntries, if_pos short]
    constructor
    · intro read
      cases read
    · rintro ⟨-, rfl⟩
      simp [encodeFkEntries] at short
  · have four : (buf.take 4).length = 4 := List.length_take_of_le (Nat.le_of_not_lt short)
    have front := leBytes_leNat (buf.take 4)
    rw [four] at front
    have read := times_accepts takeIdPair_accepts (leNat (buf.take 4)) (buf.take 4) (buf.drop 4)
    simp only [List.take_append_drop, four, ← decodeFkEntriesFrom_eq] at read
    rw [decodeFkEntries, if_neg short]
    constructor
    · intro decoded
      split at decoded
      · cases decoded
      · rename_i taken
        rcases (read _ _).mp taken with ⟨word, rest, split, ⟨⟨length, -⟩, rfl⟩, rfl⟩
        split at decoded
        · cases decoded
        · rename_i atEnd
          cases decoded
          have whole := congrArg List.length split
          rw [List.length_drop, List.length_append] at whole
          have nothing : rest = [] := List.eq_nil_of_length_eq_zero (by omega)
          have small := leNat_lt (buf.take 4)
          rw [four, ← length] at small
          refine ⟨small, ?_⟩
          rw [encodeFkEntries, length, front, ← List.append_nil (List.flatMap _ _), ← nothing,
            ← split, List.take_append_drop]
    · rintro ⟨small, rfl⟩
      have count : leNat ((encodeFkEntries entries).take 4) = entries.length := by
        rw [encodeFkEntries, List.take_left' (length_leBytes ..), leNat_leBytes_four small]
      have taken := (read entries (encodeFkEntries entries).length).mpr
        ⟨entries.flatMap fun entry => entry.1.asBytes ++ entry.2.asBytes, [],
          (List.drop_left' (length_leBytes ..)).trans (List.append_nil _).symm,
          ⟨⟨count.symm, fun _ _ => trivial⟩, rfl⟩,
          by rw [encodeFkEntries, List.length_append, length_leBytes]⟩
      rw [taken]
      exact if_neg (not_not_intro rfl)

theorem decodeExtentOp_eq_ok {buf : Bytes} {op : ExtentOp} :
    decodeExtentOp buf = .ok op ↔ buf = encodeExtentOp op := by
  constructor
  · intro decoded
    unfold decodeExtentOp at decoded
    split at decoded
    · cases decoded
    · rename_i tag rest
      split at decoded
      · cases decoded
      · rename_i known
        split at decoded
        · cases decoded
        · split at decoded
          · cases decoded
          · rename_i sixteen
            have spelled := DatumId.asBytes_fromBytes (not_not.mp sixteen)
            split at decoded
            · rename_i inserting
              cases decoded
              rw [encodeExtentOp, spelled, inserting]
            · rename_i notInsert
              cases decoded
              have removing : tag = 1 := by
                by_contra notRemove
                exact known ⟨notInsert, notRemove⟩
              rw [encodeExtentOp, spelled, removing]
  · rintro rfl
    exact decodeExtentOp_encode op

end Seisin.Protocol
