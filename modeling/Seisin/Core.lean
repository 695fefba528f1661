import Mathlib
import Seisin.Lib.Bytes

/-!
# Identifiers, stores and caches

The vocabulary of `seisin-core`: datum ids are UUIDs and compare as 128-bit numbers, the store is
the durable map from ids to content, and every owning thread keeps a write-through cache over it.
The store here is the single-process one, which keeps one copy whatever the replication factor.
-/

namespace Seisin

/-- A UUID; the derived order of the source compares the sixteen bytes, most significant first. -/
abbrev DatumId := Fin (2 ^ 128)

abbrev NodeId := ℕ

abbrev ThreadId := ℕ

abbrev Bytes := List UInt8

namespace DatumId

instance neZero : NeZero (2 ^ 128) := ⟨by decide⟩

instance lawfulBEq : LawfulBEq DatumId := inferInstance

/-- The sixteen bytes of an id, most significant first. -/
def asBytes (id : DatumId) : Bytes :=
  (List.range 16).map fun position => UInt8.ofNat (id.val / 2 ^ (8 * (15 - position)))

/-- The id with the given sixteen bytes. -/
def fromBytes (bytes : Bytes) : DatumId :=
  Fin.ofNat (2 ^ 128) (ByteString.beNat bytes)

@[simp]
theorem length_asBytes (id : DatumId) : id.asBytes.length = 16 := by
  simp [asBytes]

theorem reverse_asBytes (id : DatumId) : (asBytes id).reverse = ByteString.leBytes 16 id.val := by
  simp only [asBytes, List.range_succ, List.range_zero, List.map_cons, List.map_nil,
    List.reverse_cons, List.reverse_nil, List.nil_append, List.cons_append, ByteString.leBytes,
    Nat.div_div_eq_div_mul, List.cons.injEq]
  simp

@[simp]
theorem fromBytes_asBytes (id : DatumId) : fromBytes id.asBytes = id := by
  rw [fromBytes, ByteString.beNat_eq_leNat_reverse, reverse_asBytes,
    ByteString.leNat_leBytes id.isLt]
  simp

theorem asBytes_injective : Function.Injective asBytes := by
  intro first second same
  rw [← fromBytes_asBytes first, same, fromBytes_asBytes]

theorem asBytes_fromBytes {bytes : Bytes} (sixteen : bytes.length = 16) :
    (fromBytes bytes).asBytes = bytes := by
  have small : ByteString.beNat bytes < 2 ^ 128 := by
    have bound := ByteString.beNat_lt bytes
    rw [sixteen] at bound
    exact bound
  have value : (fromBytes bytes).val = ByteString.leNat bytes.reverse := by
    rw [fromBytes, ← ByteString.beNat_eq_leNat_reverse]
    exact Nat.mod_eq_of_lt small
  have reversed := ByteString.leBytes_leNat bytes.reverse
  rw [List.length_reverse, sixteen, ← value, ← reverse_asBytes] at reversed
  exact List.reverse_injective reversed

def hexDigits (id : DatumId) (from_ count : ℕ) : String :=
  String.ofList ((List.range count).map fun position =>
    Nat.digitChar (id.val / 2 ^ (4 * (31 - (from_ + position))) % 16))

/-- The debug rendering of an id, as it appears in error messages. -/
def debug (id : DatumId) : String :=
  "DatumId(" ++ hexDigits id 0 8 ++ "-" ++ hexDigits id 8 4 ++ "-" ++ hexDigits id 12 4 ++ "-" ++
    hexDigits id 16 4 ++ "-" ++ hexDigits id 20 12 ++ ")"

end DatumId

/-- The durable content of the single-process store. -/
abbrev Store := DatumId → Option Bytes

namespace Store

def putReplicated (store : Store) (id : DatumId) (content : Bytes) (_n : ℕ) : Store :=
  Function.update store id (some content)

def deleteReplicated (store : Store) (id : DatumId) (_n : ℕ) : Store :=
  Function.update store id none

end Store

/-- An owning thread's working copies. -/
abbrev Cache := DatumId → Option Bytes

namespace Cache

def empty : Cache := fun _ => none

/-- Serves a hit from the cache and loads a miss through to the store. -/
def getReplicated (cache : Cache) (store : Store) (id : DatumId) (_n : ℕ) :
    Option Bytes × Cache :=
  match cache id with
  | some content => (some content, cache)
  | none =>
      match store id with
      | some loaded => (some loaded, Function.update cache id (some loaded))
      | none => (none, cache)

/-- Writes through to the store, then updates the cache.  The single-process store ignores the
value being overwritten. -/
def putReplicated (cache : Cache) (store : Store) (id : DatumId) (content : Bytes) (n : ℕ) :
    Cache × Store :=
  (Function.update cache id (some content), store.putReplicated id content n)

def deleteReplicated (cache : Cache) (store : Store) (id : DatumId) (n : ℕ) : Cache × Store :=
  (Function.update cache id none, store.deleteReplicated id n)

def get (cache : Cache) (store : Store) (id : DatumId) : Option Bytes × Cache :=
  cache.getReplicated store id 1

def put (cache : Cache) (store : Store) (id : DatumId) (content : Bytes) : Cache × Store :=
  cache.putReplicated store id content 1

def delete (cache : Cache) (store : Store) (id : DatumId) : Cache × Store :=
  cache.deleteReplicated store id 1

/-- Evicts a cache entry without touching the store. -/
def invalidate (cache : Cache) (id : DatumId) : Cache :=
  Function.update cache id none

def evictNonNative (cache : Cache) (isNative : DatumId → Bool) : Cache :=
  fun id => if isNative id then cache id else none

theorem getReplicated_fst (cache : Cache) (store : Store) (id : DatumId) (n : ℕ) :
    (cache.getReplicated store id n).1 = (cache id).or (store id) := by
  unfold getReplicated
  cases cached : cache id with
  | some content => simp
  | none => cases stored : store id <;> simp

end Cache

end Seisin
