import Seisin.Storage.BTree.Refinement
import Seisin.Types.Codec
import Seisin.Types.Indexes

/-!
# Resident indexes

The `rk` and `partition` kinds keep their entries in a B+tree file that stays open while the thread
lives; here its tree is the resident structure itself.  For each kind that typed writes maintain,
this says what an update does to the entries.
-/

namespace Seisin

open ByteString

/-! ## The tree kinds -/

/-- The rendering of a failure in a message; insertions and removals do not panic. -/
def TreeFailure.message : TreeFailure → String
  | .error message => message
  | .panic => "panic"

def readOptionalKey (buf : Bytes) (offset : ℕ) : Except String (Option Bytes × ℕ) :=
  if buf.length < offset + 1 then .error "rk index op truncated at an option flag"
  else
    match buf.getD offset 0 with
    | 0 => .ok (none, offset + 1)
    | 1 =>
        if buf.length < offset + 1 + 8 then .error "rk index op truncated inside a rank key"
        else .ok (some ((buf.drop (offset + 1)).take 8), offset + 1 + 8)
    | flag => .error ("unknown rk index op option flag: " ++ toString flag.toNat)

def decodeRkIndexOp (buf : Bytes) : Except String RkIndexOp :=
  if buf.length < 16 then .error "rk index op payload too short for a pk_id"
  else
    match readOptionalKey buf 16 with
    | .error message => .error message
    | .ok (oldRankKey, middle) =>
        match readOptionalKey buf middle with
        | .error message => .error message
        | .ok (newRankKey, offset) =>
            if offset ≠ buf.length then
              .error ("rk index op has " ++ toString (buf.length - offset) ++ " trailing bytes")
            else .ok ⟨DatumId.fromBytes (buf.take 16), oldRankKey, newRankKey⟩

def decodeExtentOp (buf : Bytes) : Except String ExtentOp :=
  match buf with
  | [] => .error "empty extent op"
  | tag :: rest =>
      if tag ≠ 0 ∧ tag ≠ 1 then .error ("unknown extent op tag: " ++ toString tag.toNat)
      else if rest.length < 16 then .error "truncated datum id at offset 1"
      else if rest.length ≠ 16 then
        .error ("extent op has " ++ toString (rest.length - 16) ++ " trailing bytes")
      else if tag = 0 then .ok (.insert (DatumId.fromBytes rest))
      else .ok (.remove (DatumId.fromBytes rest))

def rkKeySize : ℕ := 24

def rkValueSize : ℕ := 16

def rkPageSize : ℕ := 4096

def partitionPageSize : ℕ := 4096

/-- The pk breaks ties between equal ranks. -/
def compositeKey (rankKey : Bytes) (pkId : DatumId) : Bytes := rankKey ++ pkId.asBytes

namespace RkResidentIndex

def accepted : IndexApplyOutcome := ⟨none, .none⟩

/-- Takes the pk off its old rank, if it had one. -/
def removeOld (tree : BPlusTree) (op : RkIndexOp) : Except TreeFailure BPlusTree :=
  match op.oldRankKey with
  | none => .ok tree
  | some rankKey => (tree.remove (compositeKey rankKey op.pkId)).map Prod.snd

def insertNew (tree : BPlusTree) (op : RkIndexOp) : Except TreeFailure BPlusTree :=
  match op.newRankKey with
  | none => .ok tree
  | some rankKey => tree.insert (compositeKey rankKey op.pkId) op.pkId.asBytes

def apply (tree : BPlusTree) (payload : Bytes) : BPlusTree × IndexApplyOutcome :=
  match decodeRkIndexOp payload with
  | .error message => (tree, ⟨some ("malformed rk index payload: " ++ message), .none⟩)
  | .ok op =>
      match removeOld tree op with
      | .error failure => (tree, ⟨some ("rk remove failed: " ++ failure.message), .none⟩)
      | .ok removed =>
          match insertNew removed op with
          | .error failure => (removed, ⟨some ("rk insert failed: " ++ failure.message), .none⟩)
          | .ok inserted => (inserted, accepted)

end RkResidentIndex

namespace PartitionResident

def change (tree : BPlusTree) : ExtentOp → Except TreeFailure BPlusTree
  | .insert pk => tree.insert pk.asBytes [0]
  | .remove pk => (tree.remove pk.asBytes).map Prod.snd

def apply (tree : BPlusTree) (payload : Bytes) : BPlusTree × IndexApplyOutcome :=
  match decodeExtentOp payload with
  | .error message => (tree, ⟨some ("malformed partition payload: " ++ message), .none⟩)
  | .ok op =>
      match change tree op with
      | .error failure => (tree, ⟨some ("partition apply failed: " ++ failure.message), .none⟩)
      | .ok changed => (changed, ⟨none, .none⟩)

end PartitionResident

/-- The resident structures of the kinds that persist in files of their own. -/
inductive TreeResident where
  | rk (tree : BPlusTree)
  | partition (tree : BPlusTree)

/-- The tree kinds.  Their queries and executions are no part of typed writes and stay parameters;
a file is opened before its first update, so that opening creates it. -/
def treeKinds (query : TreeResident → Bytes → Except String Bytes)
    (execute : TreeResident → Bytes → TreeResident × Except String Bytes) :
    IndexKinds TreeResident where
  kinds := fun kind =>
    if kind = "rk" then
      some fun _ _ =>
        match BPlusTree.create rkKeySize rkValueSize rkPageSize with
        | .error failure => .error failure.message
        | .ok tree => .ok (.rk tree)
    else if kind = "partition" then
      some fun _ _ =>
        match BPlusTree.create 16 1 partitionPageSize with
        | .error failure => .error failure.message
        | .ok tree => .ok (.partition tree)
    else none
  apply := fun resident payload =>
    match resident with
    | .rk tree => ((RkResidentIndex.apply tree payload).map .rk id)
    | .partition tree => ((PartitionResident.apply tree payload).map .partition id)
  query := query
  execute := execute

/-! ## Payloads -/

theorem decodeSkIndexOp_remove (pkId : DatumId) :
    decodeSkIndexOp (encodeSkIndexOp (.remove pkId)) = .ok (.remove pkId) := by
  have whole : pkId.asBytes.take 16 = pkId.asBytes :=
    List.take_of_length_le (DatumId.length_asBytes pkId).le
  simp [decodeSkIndexOp, encodeSkIndexOp, whole]

theorem decodeSkIndexOp_insert (pkId : DatumId) {conflictOp : Option String}
    (named : ∀ name, conflictOp = some name → (ofString name).length < 2 ^ 32) :
    decodeSkIndexOp (encodeSkIndexOp (.insert pkId conflictOp)) =
      .ok (.insert pkId conflictOp) := by
  have front : ∀ rest : Bytes, (pkId.asBytes ++ rest).take 16 = pkId.asBytes :=
    fun rest => List.take_left' (DatumId.length_asBytes pkId)
  have back : ∀ rest : Bytes, (pkId.asBytes ++ rest).drop 16 = rest :=
    fun rest => List.drop_left' (DatumId.length_asBytes pkId)
  cases conflictOp with
  | none => simp [decodeSkIndexOp, encodeSkIndexOp, front, back]
  | some name =>
      have size : leNat (leBytes 4 (ofString name).length) = (ofString name).length :=
        leNat_leBytes_four (named name rfl)
      have sizeField : (leBytes 4 (ofString name).length ++ ofString name).take 4 =
          leBytes 4 (ofString name).length := List.take_left' (length_leBytes 4 _)
      have nameField : (leBytes 4 (ofString name).length ++ ofString name).drop 4 =
          ofString name := List.drop_left' (length_leBytes 4 _)
      have pkLong : ¬16 + (4 + (ofString name).length + 1) < 16 := by omega
      have nameLong : ¬4 + (ofString name).length < 4 := by omega
      simp [decodeSkIndexOp, encodeSkIndexOp, front, back, sizeField, nameField, size,
        toString?_ofString, pkLong, nameLong]

theorem readOptionalKey_encode (before after : Bytes) {key : Option Bytes}
    (sized : ∀ bytes, key = some bytes → bytes.length = 8) :
    readOptionalKey (before ++ encodeOptionalKey key ++ after) before.length =
      .ok (key, before.length + (encodeOptionalKey key).length) := by
  cases key with
  | none => simp [readOptionalKey, encodeOptionalKey, List.getD]
  | some bytes =>
      have length := sized bytes rfl
      have flag : (before ++ encodeOptionalKey (some bytes) ++ after).getD before.length 0 = 1 := by
        simp [encodeOptionalKey, List.getD]
      have body : ((before ++ encodeOptionalKey (some bytes) ++ after).drop
          (before.length + 1)).take 8 = bytes := by
        simp [encodeOptionalKey, ← length]
      have total : (before ++ encodeOptionalKey (some bytes) ++ after).length =
          before.length + 1 + 8 + after.length := by
        simp only [encodeOptionalKey, List.length_append, List.length_cons, length]
      unfold readOptionalKey
      rw [if_neg (by omega), flag]
      simp only
      rw [if_neg (by omega), body]
      simp only [encodeOptionalKey, List.length_cons, length]

theorem decodeRkIndexOp_encode {op : RkIndexOp}
    (oldSized : ∀ bytes, op.oldRankKey = some bytes → bytes.length = 8)
    (newSized : ∀ bytes, op.newRankKey = some bytes → bytes.length = 8) :
    decodeRkIndexOp (encodeRkIndexOp op) = .ok op := by
  have first := readOptionalKey_encode op.pkId.asBytes (encodeOptionalKey op.newRankKey) oldSized
  have second := readOptionalKey_encode (op.pkId.asBytes ++ encodeOptionalKey op.oldRankKey) []
    newSized
  rw [List.append_nil, List.length_append] at second
  rw [DatumId.length_asBytes] at first second
  have pkField : (encodeRkIndexOp op).take 16 = op.pkId.asBytes := by
    rw [encodeRkIndexOp, List.append_assoc]
    exact List.take_left' (DatumId.length_asBytes op.pkId)
  have total : (encodeRkIndexOp op).length =
      16 + (encodeOptionalKey op.oldRankKey).length + (encodeOptionalKey op.newRankKey).length := by
    simp only [encodeRkIndexOp, List.length_append, DatumId.length_asBytes]
  unfold decodeRkIndexOp
  rw [if_neg (by omega), pkField, total, DatumId.fromBytes_asBytes]
  unfold encodeRkIndexOp
  simp only [first, second, ne_eq, not_true_eq_false, if_false]

theorem decodeExtentOp_encode (op : ExtentOp) : decodeExtentOp (encodeExtentOp op) = .ok op := by
  cases op with
  | insert pk => simp [decodeExtentOp, encodeExtentOp]
  | remove pk => simp [decodeExtentOp, encodeExtentOp]

theorem encodeRankKey_length {value : FieldValue} {rankKey : Bytes}
    (encoded : encodeRankKey value = some rankKey) : rankKey.length = 8 := by
  cases value with
  | i64 value =>
      simp only [encodeRankKey, Option.some.injEq] at encoded
      rw [← encoded, List.length_reverse, length_leBytes]
  | f64 value =>
      simp only [encodeRankKey, Option.some.injEq] at encoded
      rw [← encoded, List.length_reverse, length_leBytes]
  | _ => cases encoded

/-! ## What updates do to a tree -/

namespace BPlusTree

/-- A tree of keys and values of fixed sizes whose entries are those of a map. -/
structure Keeps (tree : BPlusTree) (keySize valueSize : ℕ) (contents : Bytes → Option Bytes) :
    Prop where
  keySize : tree.keySize = keySize
  valueSize : tree.valueSize = valueSize
  represents : ∃ (depth : ℕ) (shape : Shape depth), Represents tree shape ∧
    ∀ key value, (key, value) ∈ shape.entries ↔ contents key = some value

variable {tree : BPlusTree} {keySize valueSize : ℕ} {contents : Bytes → Option Bytes}

theorem Keeps.entries (keeps : tree.Keeps keySize valueSize contents) :
    ∃ entries, tree.allEntries = .ok entries ∧ (entries.map Prod.fst).Nodup ∧
      ∀ key value, (key, value) ∈ entries ↔ contents key = some value := by
  rcases keeps.represents with ⟨depth, shape, represents, same⟩
  refine ⟨shape.entries, ?_, represents.ordered.ascending.nodup_keys, same⟩
  rw [allEntries, represents.root]
  exact collectAll_eq represents.deep represents.stored

theorem keeps_create {pageSize : ℕ} (created : create keySize valueSize pageSize = .ok tree) :
    tree.Keeps keySize valueSize fun _ => none := by
  rcases create_ok created with ⟨represents, sameKey, sameValue⟩
  exact ⟨sameKey, sameValue, 0, _, represents, by simp⟩

theorem Keeps.insert (keeps : tree.Keeps keySize valueSize contents) {key value : Bytes}
    (keySized : key.length = keySize) (valueSized : value.length = valueSize) :
    ∃ inserted, tree.insert key value = .ok inserted ∧
      inserted.Keeps keySize valueSize (Function.update contents key (some value)) := by
  rcases keeps.represents with ⟨depth, shape, represents, same⟩
  rcases insert_ok represents (keySized.trans keeps.keySize.symm)
    (valueSized.trans keeps.valueSize.symm) with
    ⟨newTree, newDepth, newShape, inserted, final, sameKey, sameValue, entries⟩
  refine ⟨newTree, inserted, sameKey.trans keeps.keySize, sameValue.trans keeps.valueSize,
    newDepth, newShape, final, ?_⟩
  intro other otherValue
  rw [entries, SortedList.mem_upsert represents.ordered.ascending]
  rcases eq_or_ne other key with rfl | differ
  · simp [eq_comm]
  · simp [differ, same]

theorem Keeps.remove (keeps : tree.Keeps keySize valueSize contents) {key : Bytes}
    (keySized : key.length = keySize) :
    ∃ found removed, tree.remove key = .ok (found, removed) ∧
      removed.Keeps keySize valueSize (Function.update contents key none) := by
  rcases keeps.represents with ⟨depth, shape, represents, same⟩
  rcases remove_ok represents (keySized.trans keeps.keySize.symm) with
    ⟨newTree, newShape, removed, final, sameKey, sameValue, entries⟩
  refine ⟨_, newTree, removed, sameKey.trans keeps.keySize, sameValue.trans keeps.valueSize,
    depth, newShape, final, ?_⟩
  intro other otherValue
  rw [entries, SortedList.mem_removeKey represents.ordered.ascending]
  rcases eq_or_ne other key with rfl | differ
  · simp
  · simp [differ, same]

end BPlusTree

end Seisin
