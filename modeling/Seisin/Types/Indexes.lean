import Seisin.Lib.Cursor
import Seisin.Types.Schema
import Seisin.Worker

/-!
# Index datums: derived ids, updates and the blob-persisted kinds

An index datum's id is derived from a name by `from_name`, here the parameter `fromName`, so the
derivations are generic in the type of ids.  The updates an op sends to an index travel as bytes;
the `sk` and `fk_pending` kinds keep a decoded entry list resident and persist it whole.
-/

namespace Seisin

open ByteString Cursor

/-! ## Derived ids -/

section Keys

variable {Id : Type} (fromName : Bytes → Id)

/-- The bytes a primitive value is keyed by; arrays and dictionaries have none. -/
def skValueBytes : FieldValue → Option Bytes
  | .bool value => some [if value then 1 else 0]
  | .i64 value => some (leBytes 8 value.toUInt64.toNat)
  | .f64 value => some (leBytes 8 value.bits.toNat)
  | .string value => some (ofString value)
  | .bytes value => some value
  | .array _ | .dict _ => none

def skKey (typeName fieldName : String) (value : FieldValue) : Option Id :=
  (skValueBytes value).map fun bytes =>
    fromName (ofString ("sk:" ++ typeName ++ "." ++ fieldName ++ ":") ++ bytes)

def rkKey (typeName fieldName : String) : Id :=
  fromName (ofString ("rk:" ++ typeName ++ "." ++ fieldName))

def partitionKey (typeName partition : String) : Id :=
  fromName (ofString ("partition:" ++ typeName ++ ":" ++ partition))

def extentKey (typeName : String) : Id := partitionKey fromName typeName "all"

def invalidKey (typeName : String) : Id := partitionKey fromName typeName "invalid"

def fkPendingKey (typeName field : String) : Id :=
  fromName (ofString ("fk_pending:" ++ typeName ++ "." ++ field))

def fkDeletedKey (typeName field : String) : Id :=
  fromName (ofString ("deleted_refs:" ++ typeName ++ "." ++ field))

end Keys

/-! ## The `sk` kind -/

/-- Where a datum currently lives. -/
inductive AuthorityIdx where
  | native
  | foreign (nodeId : ℕ) (threadId : ℕ)
  deriving DecidableEq

namespace AuthorityIdx

def encode : AuthorityIdx → Bytes
  | .native => List.replicate 13 0
  | .foreign nodeId threadId => 1 :: (leBytes 8 nodeId ++ leBytes 4 threadId)

def decode (buf : Bytes) : Except String AuthorityIdx :=
  match buf with
  | 0 :: _ => .ok .native
  | 1 :: rest => .ok (.foreign (leNat (rest.take 8)) (leNat ((rest.drop 8).take 4)))
  | tag :: _ => .error ("invalid authority_idx tag byte: " ++ toString tag.toNat)
  | [] => .error "invalid authority_idx tag byte: 0"

end AuthorityIdx

abbrev SkEntries := List (DatumId × AuthorityIdx)

def skEntryLen : ℕ := 29

def encodeSkEntries (entries : SkEntries) : Bytes :=
  leBytes 4 entries.length ++ entries.flatMap fun entry => entry.1.asBytes ++ entry.2.encode

/-- Decodes `count` entries off the front of a buffer. -/
def decodeSkEntriesFrom : ℕ → Bytes → Except String SkEntries
  | 0, _ => .ok []
  | count + 1, buf =>
      match AuthorityIdx.decode ((buf.drop 16).take 13) with
      | .error message => .error message
      | .ok authority =>
          match decodeSkEntriesFrom count (buf.drop skEntryLen) with
          | .error message => .error message
          | .ok entries => .ok ((DatumId.fromBytes (buf.take 16), authority) :: entries)

def decodeSkEntries (buf : Bytes) : Except String SkEntries :=
  if buf.length < 4 then .error "sk entry list truncated: missing count prefix"
  else
    let count := leNat (buf.take 4)
    if buf.length ≠ 4 + count * skEntryLen then
      .error ("sk entry list length mismatch: expected " ++ toString (4 + count * skEntryLen) ++
        " bytes for " ++ toString count ++ " entries, got " ++ toString buf.length)
    else decodeSkEntriesFrom count (buf.drop 4)

inductive SkIndexOp where
  | insert (pkId : DatumId) (uniqueConflictOp : Option String)
  | remove (pkId : DatumId)
  deriving DecidableEq

def encodeSkIndexOp : SkIndexOp → Bytes
  | .insert pkId none => 0 :: (pkId.asBytes ++ [0])
  | .insert pkId (some name) =>
      0 :: (pkId.asBytes ++ (1 :: (leBytes 4 (ofString name).length ++ ofString name)))
  | .remove pkId => 1 :: pkId.asBytes

def decodeSkIndexOp (buf : Bytes) : Except String SkIndexOp :=
  match buf with
  | [] => .error "sk index op payload is empty"
  | tag :: body =>
      if body.length < 16 then .error "sk index op payload too short for a pk_id"
      else
        let pkId := DatumId.fromBytes (body.take 16)
        if tag = 1 then .ok (.remove pkId)
        else if tag = 0 then
          match body.drop 16 with
          | [] => .error "sk insert op payload too short for its conflict_op flag"
          | flag :: rest =>
              if flag = 0 then .ok (.insert pkId none)
              else if flag = 1 then
                if rest.length < 4 then
                  .error "sk insert op payload too short for its conflict_op length"
                else if rest.length ≠ 4 + leNat (rest.take 4) then
                  .error "sk insert op payload length mismatch for its conflict_op name"
                else
                  match toString? (rest.drop 4) with
                  | none => .error "sk insert op's conflict_op name was not valid utf8"
                  | some name => .ok (.insert pkId (some name))
              else .error ("unknown sk insert op conflict_op flag: " ++ toString flag.toNat)
        else .error ("unknown sk index op tag: " ++ toString tag.toNat)

namespace SkResidentIndex

/-- What an accepted update leaves to persist: an emptied entry list deletes the datum. -/
def persist (entries : SkEntries) : IndexApplyOutcome :=
  ⟨none, if entries = [] then .delete else .put (encodeSkEntries entries)⟩

def apply (entries : SkEntries) (payload : Bytes) : SkEntries × IndexApplyOutcome :=
  match decodeSkIndexOp payload with
  | .error message => (entries, ⟨some ("malformed sk index payload: " ++ message), .none⟩)
  | .ok (.remove pkId) =>
      let remaining := entries.filter fun entry => entry.1 ≠ pkId
      (remaining, persist remaining)
  | .ok (.insert pkId conflictOp) =>
      let inserted :=
        if entries.any fun entry => entry.1 = pkId then entries else entries ++ [(pkId, .native)]
      match conflictOp with
      | some name =>
          if entries.any fun entry => entry.1 ≠ pkId then (entries, ⟨some name, .none⟩)
          else (inserted, persist inserted)
      | none => (inserted, persist inserted)

def openStored (target : DatumId) : Option Bytes → Except String SkEntries
  | none => .ok []
  | some bytes =>
      match decodeSkEntries bytes with
      | .error message =>
          .error ("stored sk entries for " ++ target.debug ++ " failed to decode: " ++ message)
      | .ok entries => .ok entries

end SkResidentIndex

/-! ## The `fk_pending` kind -/

inductive FkPendingOp where
  | list
  | remove (referencingPk target : DatumId)
  | insert (referencingPk target : DatumId)
  deriving DecidableEq

/-- The debug rendering of an op, as error messages show it. -/
def FkPendingOp.debug : FkPendingOp → String
  | .list => "List"
  | .remove referencingPk target =>
      "Remove \x7b referencing_pk: " ++ referencingPk.debug ++ ", target: " ++ target.debug ++ " \x7d"
  | .insert referencingPk target =>
      "Insert \x7b referencing_pk: " ++ referencingPk.debug ++ ", target: " ++ target.debug ++ " \x7d"

def encodeFkPendingOp : FkPendingOp → Bytes
  | .list => [0]
  | .remove referencingPk target => 1 :: (referencingPk.asBytes ++ target.asBytes)
  | .insert referencingPk target => 2 :: (referencingPk.asBytes ++ target.asBytes)

def truncatedAt (what : String) (offset : ℕ) : String :=
  "truncated " ++ what ++ " at offset " ++ toString offset

def idField (truncated : ℕ → String) : Take DatumId := DatumId.fromBytes <$> window 16 truncated

def takeId : Take DatumId := idField (truncatedAt "datum id")

def takeIdPair : Take (DatumId × DatumId) := do
  let first ← takeId
  let second ← takeId
  return (first, second)

def decodeFkPendingOp (buf : Bytes) : Except String FkPendingOp :=
  let finish (op : FkPendingOp) (offset : ℕ) : Except String FkPendingOp :=
    if offset ≠ buf.length then
      .error ("fk pending op has " ++ toString (buf.length - offset) ++ " trailing bytes")
    else .ok op
  match buf with
  | [] => .error "empty fk pending op"
  | 0 :: _ => finish .list 1
  | 1 :: _ =>
      match takeIdPair buf 1 with
      | .error message => .error message
      | .ok (pair, offset) => finish (.remove pair.1 pair.2) offset
  | 2 :: _ =>
      match takeIdPair buf 1 with
      | .error message => .error message
      | .ok (pair, offset) => finish (.insert pair.1 pair.2) offset
  | tag :: _ => .error ("unknown fk pending op tag: " ++ toString tag.toNat)

abbrev FkEntries := List (DatumId × DatumId)

def encodeFkEntries (entries : FkEntries) : Bytes :=
  leBytes 4 entries.length ++ entries.flatMap fun entry => entry.1.asBytes ++ entry.2.asBytes

def decodeFkEntriesFrom (buf : Bytes) : ℕ → ℕ → Except String (FkEntries × ℕ)
  | 0, offset => .ok ([], offset)
  | count + 1, offset =>
      match takeIdPair buf offset with
      | .error message => .error message
      | .ok (entry, next) =>
          match decodeFkEntriesFrom buf count next with
          | .error message => .error message
          | .ok (entries, last) => .ok (entry :: entries, last)

def decodeFkEntries (buf : Bytes) : Except String FkEntries :=
  if buf.length < 4 then .error "truncated u32 at offset 0"
  else
    match decodeFkEntriesFrom buf (leNat (buf.take 4)) 4 with
    | .error message => .error message
    | .ok (entries, offset) =>
        if offset ≠ buf.length then
          .error ("fk entries have " ++ toString (buf.length - offset) ++ " trailing bytes")
        else .ok entries

namespace FkPendingResident

def outcome (entries : FkEntries) : IndexApplyOutcome :=
  ⟨none, if entries = [] then .delete else .put (encodeFkEntries entries)⟩

def apply (entries : FkEntries) (payload : Bytes) : FkEntries × IndexApplyOutcome :=
  match decodeFkPendingOp payload with
  | .error message => (entries, ⟨some ("malformed fk_pending payload: " ++ message), .none⟩)
  | .ok (.insert referencingPk target) =>
      let inserted :=
        if (referencingPk, target) ∈ entries then entries
        else entries ++ [(referencingPk, target)]
      (inserted, outcome inserted)
  | .ok (.remove referencingPk target) =>
      let remaining := entries.filter fun pair => pair ≠ (referencingPk, target)
      (remaining, outcome remaining)
  | .ok .list => (entries, ⟨some "fk_pending List is a query, not an apply", .none⟩)

def query (entries : FkEntries) (payload : Bytes) : Except String Bytes :=
  match decodeFkPendingOp payload with
  | .error message => .error message
  | .ok .list => .ok (encodeFkEntries entries)
  | .ok other => .error ("fk_pending query supports only List, got " ++ other.debug)

/-- The driver's removal; it has no write-through. -/
def execute (entries : FkEntries) (payload : Bytes) : FkEntries × Except String Bytes :=
  match decodeFkPendingOp payload with
  | .error message => (entries, .error message)
  | .ok (.remove referencingPk target) =>
      let remaining := entries.filter fun pair => pair ≠ (referencingPk, target)
      (remaining, .ok (encodeFkEntries remaining))
  | .ok other => (entries, .error ("fk_pending execute supports only Remove, got " ++ other.debug))

def openStored (target : DatumId) : Option Bytes → Except String FkEntries
  | none => .ok []
  | some bytes =>
      match decodeFkEntries bytes with
      | .error message =>
          .error ("stored fk_pending entries for " ++ target.debug ++ " failed to decode: " ++
            message)
      | .ok entries => .ok entries

end FkPendingResident

/-! ## Updates of the self-persisted kinds -/

/-- Eight bytes whose lexicographic order is the numeric order of the value. -/
def encodeRankKey : FieldValue → Option Bytes
  | .i64 value => some (leBytes 8 (value.toUInt64 ^^^ 0x8000000000000000).toNat).reverse
  | .f64 value =>
      let mask : UInt64 :=
        if value.bits.toNat < 2 ^ 63 then 0x8000000000000000 else 0xffffffffffffffff
      some (leBytes 8 (value.bits ^^^ mask).toNat).reverse
  | _ => none

structure RkIndexOp where
  pkId : DatumId
  oldRankKey : Option Bytes
  newRankKey : Option Bytes

def encodeOptionalKey : Option Bytes → Bytes
  | none => [0]
  | some key => 1 :: key

def encodeRkIndexOp (op : RkIndexOp) : Bytes :=
  op.pkId.asBytes ++ encodeOptionalKey op.oldRankKey ++ encodeOptionalKey op.newRankKey

inductive ExtentOp where
  | insert (pk : DatumId)
  | remove (pk : DatumId)

def encodeExtentOp : ExtentOp → Bytes
  | .insert pk => 0 :: pk.asBytes
  | .remove pk => 1 :: pk.asBytes

/-! ## The registry -/

/-- Resident structures of a node that registers the blob kinds beside others. -/
inductive TypedResident (Other : Type) where
  | sk (entries : SkEntries)
  | fkPending (entries : FkEntries)
  | other (resident : Other)
  deriving DecidableEq

/-- The registry with `sk` and `fk_pending` registered beside the kinds of `others`. -/
def typedIndexKinds {Other : Type} (others : IndexKinds Other) :
    IndexKinds (TypedResident Other) where
  kinds := fun kind =>
    if kind = "sk" then
      some fun target stored => (SkResidentIndex.openStored target stored).map .sk
    else if kind = "fk_pending" then
      some fun target stored => (FkPendingResident.openStored target stored).map .fkPending
    else
      (others.kinds kind).map fun openKind target stored => (openKind target stored).map .other
  apply := fun resident payload =>
    match resident with
    | .sk entries =>
        let (applied, outcome) := SkResidentIndex.apply entries payload
        (.sk applied, outcome)
    | .fkPending entries =>
        let (applied, outcome) := FkPendingResident.apply entries payload
        (.fkPending applied, outcome)
    | .other inner =>
        let (applied, outcome) := others.apply inner payload
        (.other applied, outcome)
  query := fun resident payload =>
    match resident with
    | .sk _ => .error "this index kind supports no queries"
    | .fkPending entries => FkPendingResident.query entries payload
    | .other inner => others.query inner payload
  execute := fun resident payload =>
    match resident with
    | .sk entries => (.sk entries, .error "this index kind supports no execute ops")
    | .fkPending entries =>
        let (executed, result) := FkPendingResident.execute entries payload
        (.fkPending executed, result)
    | .other inner =>
        let (executed, result) := others.execute inner payload
        (.other executed, result)

end Seisin
