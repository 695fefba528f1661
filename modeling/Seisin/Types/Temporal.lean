import Mathlib
import Seisin.Lib.Timeline
import Seisin.Storage.BTree.Ranks
import Seisin.Types.Field

/-!
# Temporal histories

The `tk` index of an entity: a tree of spans, under keys made of a sub-key and the instant the span
begins at.  Writes are `Set` and `Clear` at an instant, which may be past or future; without one the
server's clock gives it.  Requests and results are modelled decoded.
-/

namespace Seisin

open ByteString Timeline

/-! ## Instants -/

instance instantLinearOrder : LinearOrder Int64 where
  le := (· ≤ ·)
  lt := (· < ·)
  le_refl := Int64.le_refl
  le_trans _ _ _ := Int64.le_trans
  lt_iff_le_not_ge first second := by
    rw [Int64.lt_iff_toInt_lt, Int64.le_iff_toInt_le, Int64.le_iff_toInt_le]
    exact lt_iff_le_not_ge
  le_antisymm _ _ := Int64.le_antisymm
  le_total := Int64.le_total
  toDecidableLE := inferInstance
  toDecidableLT := inferInstance
  toDecidableEq := inferInstance

def encodeTs (t : Int64) : Bytes :=
  (leBytes 8 (t.toUInt64 ^^^ 0x8000000000000000).toNat).reverse

def decodeTs (key : Bytes) : Int64 := (UInt64.ofNat (beNat key) ^^^ 0x8000000000000000).toInt64

/-! ## Classes -/

structure TkClassDef where
  /-- As error messages show it, quoted and escaped. -/
  name : String
  valueType : FieldType
  valueWidth : UInt16
  subKeyWidth : UInt16

abbrev TkSpan := Span Bytes Int64 Bytes

inductive TkOp where
  | set (subKey : Bytes) (asOf : Option Int64) (value : Bytes)
  | clear (subKey : Bytes) (asOf : Option Int64)

inductive TkQueryReq where
  | asOf (subKey : Bytes) (t : Int64)
  | current (subKey : Bytes)
  | history (subKey : Bytes)
  | range (subKey : Bytes) (lower upper : Int64)
  | snapshotAt (t : Int64)

def PrimitiveFieldType.debug : PrimitiveFieldType → String
  | .bool => "Bool"
  | .i64 => "I64"
  | .f64 => "F64"
  | .string => "String"
  | .bytes => "Bytes"

def FieldType.debug : FieldType → String
  | .bool => "Bool"
  | .i64 => "I64"
  | .f64 => "F64"
  | .string => "String"
  | .bytes => "Bytes"
  | .array items => "Array(" ++ items.debug ++ ")"
  | .dict keys values => "Dict(" ++ keys.debug ++ ", " ++ values.debug ++ ")"

/-- Slicing beyond the end panics. -/
def slice (bytes : Bytes) (first last : ℕ) : Except TreeFailure Bytes :=
  if last ≤ bytes.length then .ok ((bytes.drop first).take (last - first)) else .error .panic

/-- Code that changes the tree and may fail; what it changed before stays. -/
abbrev TkM := ExceptT TreeFailure (StateM BPlusTree)

/-- A step that changes nothing. -/
def TkM.read {Result : Type} (reads : BPlusTree → Except TreeFailure Result) : TkM Result :=
  fun tree => (reads tree, tree)

/-- A step that writes the tree. -/
def TkM.write (writes : BPlusTree → Except TreeFailure BPlusTree) : TkM PUnit :=
  fun tree =>
    match writes tree with
    | .error failure => (.error failure, tree)
    | .ok written => (.ok ⟨⟩, written)

def tkPageSize : ℕ := 4096

def upperBytes : Option Int64 → Bytes
  | some upper => 1 :: encodeTs upper
  | none => List.replicate 9 0

def composite (subKey : Bytes) (t : Int64) : Bytes := subKey ++ encodeTs t

def entryAt (tree : BPlusTree) (rank : ℕ) : Except TreeFailure (Option (Bytes × Bytes)) := do
  let entries ← tree.scanFromRank rank 1
  return entries.head?

/-- The last entry up to an instant of a sub-key, under whatever sub-key it is, with its rank. -/
def rawFloor (tree : BPlusTree) (subKey : Bytes) (t : Int64) :
    Except TreeFailure (Option (ℕ × Bytes × Bytes)) := do
  match ← tree.rankOfFloor (composite subKey t) with
  | none => return none
  | some rank =>
      match ← entryAt tree rank with
      | none => throw (.error "floor rank out of range")
      | some entry => return some (rank, entry)

/-- The rank after that of the last entry up to an instant of a sub-key. -/
def successorRank (tree : BPlusTree) (subKey : Bytes) (t : Int64) : Except TreeFailure ℕ := do
  match ← rawFloor tree subKey t with
  | some (rank, _) => return rank + 1
  | none => return 0

/-- No loop reads more than the entries there are. -/
def loopFailure : TreeFailure := .error "loop does not end"

namespace TkClassDef

variable (classDef : TkClassDef)

def subW : ℕ := classDef.subKeyWidth.toNat

/-- A flag and the upper bound or zeros, the length of the value as a 16-bit number, the value, and
zeros up to the width of the class. -/
def record (upper : Option Int64) (value : Bytes) : Except TreeFailure Bytes :=
  if classDef.valueWidth.toNat < value.length then .error .panic
  else .ok (upperBytes upper ++ leBytes 2 value.length ++ value ++
    List.replicate (classDef.valueWidth.toNat - value.length) 0)

def upperFrom (rec : Bytes) : Except TreeFailure (Option Int64) := do
  let flag ← slice rec 0 1
  if flag = [1] then
    let upper ← slice rec 1 9
    return some (decodeTs upper)
  else return none

def spanFrom (entry : Bytes × Bytes) : Except TreeFailure TkSpan := do
  let lower ← slice entry.1 classDef.subW (classDef.subW + 8)
  let upper ← upperFrom entry.2
  let len ← slice entry.2 9 11
  let subKey ← slice entry.1 0 classDef.subW
  let value ← slice entry.2 11 (11 + leNat len)
  return ⟨subKey, decodeTs lower, upper, value⟩

/-- The span over an instant of a sub-key, with its rank. -/
def covering (tree : BPlusTree) (subKey : Bytes) (t : Int64) :
    Except TreeFailure (Option (ℕ × TkSpan)) := do
  match ← rawFloor tree subKey t with
  | none => return none
  | some (rank, entry) =>
      let entrySubKey ← slice entry.1 0 classDef.subW
      if entrySubKey = subKey then
        let span ← classDef.spanFrom entry
        return if span.upper.all fun upper => t < upper then some (rank, span) else none
      else return none

/-! ## Writes -/

def checkSubKey (subKey : Bytes) : Except TreeFailure Unit :=
  if subKey.length ≠ classDef.subW then
    .error (.error ("sub_key must be exactly " ++ toString classDef.subKeyWidth.toNat ++
      " bytes for class " ++ classDef.name ++ ", got " ++ toString subKey.length))
  else .ok ()

def validateSet (subKey value : Bytes) : Except TreeFailure Unit := do
  classDef.checkSubKey subKey
  match decodeFieldValue value classDef.valueType 0 with
  | .error message =>
      throw (.error ("value does not decode as " ++ classDef.valueType.debug ++ ": " ++ message))
  | .ok (_, offset) =>
      if offset ≠ value.length then
        throw (.error ("value has " ++ toString (value.length - offset) ++ " trailing bytes"))
      else if classDef.valueWidth.toNat < value.length then
        throw (.error ("encoded value is " ++ toString value.length ++ " bytes but class " ++
          classDef.name ++ " caps values at " ++ toString classDef.valueWidth.toNat ++
          " — rejected, never truncated (tk is primary data)"))
      else return ()

def insert (subKey : Bytes) (lower : Int64) (upper : Option Int64) (value : Bytes) : TkM PUnit :=
  TkM.write fun tree => do
    let rec ← classDef.record upper value
    tree.insert (composite subKey lower) rec

def remove (subKey : Bytes) (lower : Int64) : TkM PUnit :=
  TkM.write fun tree => do
    let removed ← tree.remove (composite subKey lower)
    return removed.2

/-- Where the next span of the sub-key begins, of the entry that follows an instant. -/
def successorLower (tree : BPlusTree) (subKey : Bytes) (t : Int64) :
    Except TreeFailure (Option Int64) := do
  let rank ← successorRank tree subKey t
  match ← entryAt tree rank with
  | none => return none
  | some (key, _) =>
      let entrySubKey ← slice key 0 classDef.subW
      if entrySubKey = subKey then
        let lower ← slice key classDef.subW (classDef.subW + 8)
        return some (decodeTs lower)
      else return none

/-- At the beginning of a span its value is corrected; inside one it is closed and the new span takes
its upper bound; over a gap the new span ends where the gap does. -/
def doSet (subKey : Bytes) (asOf : Int64) (value : Bytes) : TkM (List TkSpan) := do
  match ← TkM.read fun tree => classDef.covering tree subKey asOf with
  | some (_, span) =>
      if span.lower = asOf then
        classDef.insert subKey asOf span.upper value
        return [{ span with value := value }]
      else
        classDef.insert subKey span.lower (some asOf) span.value
        classDef.insert subKey asOf span.upper value
        return [⟨subKey, asOf, span.upper, value⟩]
  | none =>
      let upper ← TkM.read fun tree => classDef.successorLower tree subKey asOf
      classDef.insert subKey asOf upper value
      return [⟨subKey, asOf, upper, value⟩]

/-- A span that would end where it begins is removed. -/
def doClear (subKey : Bytes) (asOf : Int64) : TkM (List TkSpan) := do
  match ← TkM.read fun tree => classDef.covering tree subKey asOf with
  | none => return []
  | some (_, span) =>
      if span.lower = asOf then
        remove subKey span.lower
        return []
      else
        classDef.insert subKey span.lower (some asOf) span.value
        return [{ span with upper := some asOf }]

/-- `now` is what the clock says when the op arrives. -/
def execute (now : Int64) : TkOp → TkM (List TkSpan)
  | .set subKey asOf value => do
      TkM.read fun _ => classDef.validateSet subKey value
      classDef.doSet subKey (asOf.getD now) value
  | .clear subKey asOf => do
      TkM.read fun _ => classDef.checkSubKey subKey
      classDef.doClear subKey (asOf.getD now)

/-! ## Queries -/

/-- The first rank of a sub-key, which need not have an entry. -/
def firstRankOf (tree : BPlusTree) (subKey : Bytes) : Except TreeFailure ℕ := do
  match ← rawFloor tree subKey Int64.minValue with
  | some (rank, key, _) =>
      return if key = composite subKey Int64.minValue then rank else rank + 1
  | none => return 0

def collectWhile (tree : BPlusTree) (keep : TkSpan → Bool) :
    ℕ → ℕ → Except TreeFailure (List TkSpan)
  | 0, _ => .error loopFailure
  | bound + 1, rank => do
      match ← entryAt tree rank with
      | none => return []
      | some entry =>
          let span ← classDef.spanFrom entry
          if keep span then
            let spans ← collectWhile tree keep bound (rank + 1)
            return span :: spans
          else return []

/-- The span over an instant under each sub-key, which is left by a jump to its greatest key. -/
def snapshotFrom (tree : BPlusTree) (t : Int64) : ℕ → ℕ → Except TreeFailure (List TkSpan)
  | 0, _ => .error loopFailure
  | bound + 1, rank => do
      match ← entryAt tree rank with
      | none => return []
      | some (key, _) =>
          let sub ← slice key 0 classDef.subW
          let found ← classDef.covering tree sub t
          match ← tree.rankOfFloor (composite sub Int64.maxValue) with
          | none => throw (.error "snapshot: sub-key vanished mid-walk")
          | some last =>
              let spans ← snapshotFrom tree t bound (last + 1)
              return (found.map Prod.snd).toList ++ spans

def currentSpan (tree : BPlusTree) (subKey : Bytes) : Except TreeFailure (List TkSpan) := do
  match ← rawFloor tree subKey Int64.maxValue with
  | none => return []
  | some (_, entry) =>
      let entrySubKey ← slice entry.1 0 classDef.subW
      if entrySubKey = subKey then
        let span ← classDef.spanFrom entry
        return if span.upper.isNone then [span] else []
      else return []

/-- The rank of the span over an instant of a sub-key, or of the entry that follows the instant. -/
def rangeStart (tree : BPlusTree) (subKey : Bytes) (t : Int64) : Except TreeFailure ℕ := do
  match ← classDef.covering tree subKey t with
  | some (rank, _) => return rank
  | none => successorRank tree subKey t

def rangeSpans (tree : BPlusTree) (subKey : Bytes) (lower upper : Int64) :
    Except TreeFailure (List TkSpan) :=
  if upper ≤ lower then return []
  else do
    let start ← classDef.rangeStart tree subKey lower
    classDef.collectWhile tree (fun span => span.subKey = subKey ∧ span.lower < upper)
      (tree.totalCount + 1) start

def query (tree : BPlusTree) : TkQueryReq → Except TreeFailure (List TkSpan)
  | .asOf subKey t => do
      classDef.checkSubKey subKey
      let found ← classDef.covering tree subKey t
      return (found.map Prod.snd).toList
  | .current subKey => do
      classDef.checkSubKey subKey
      classDef.currentSpan tree subKey
  | .history subKey => do
      classDef.checkSubKey subKey
      let start ← firstRankOf tree subKey
      classDef.collectWhile tree (fun span => span.subKey = subKey) (tree.totalCount + 1) start
  | .range subKey lower upper => do
      classDef.checkSubKey subKey
      classDef.rangeSpans tree subKey lower upper
  | .snapshotAt t => classDef.snapshotFrom tree t (tree.totalCount + 1) 0

/-! ## Runs -/

/-- The history file of an entity, when it is opened first. -/
def create : Except TreeFailure BPlusTree :=
  BPlusTree.create (classDef.subKeyWidth.toNat + 8) (1 + 8 + 2 + classDef.valueWidth.toNat)
    tkPageSize

/-- The tree after a request, whether it succeeds or fails. -/
def step (tree : BPlusTree) (request : Int64 × TkOp) : BPlusTree :=
  ((classDef.execute request.1 request.2).run tree).2

def run (tree : BPlusTree) (requests : List (Int64 × TkOp)) : BPlusTree :=
  requests.foldl classDef.step tree

/-- The spans of a tree in order. -/
def spansOf (tree : BPlusTree) : Except TreeFailure (List TkSpan) := do
  let entries ← tree.allEntries
  entries.mapM classDef.spanFrom

end TkClassDef

end Seisin
