import Seisin.Core

/-!
# Operations

A solution-defined operation runs against an `OpContext`: it reads the datums collated onto its
thread, stages writes, and schedules index updates and existence checks.  A handler can do nothing
else, so it is embedded as the tree of its context calls (`OpProg`); a tree is finite along every
path, which is what "terminating handler" means.  `OpRegistry.invoke` looks a handler up, runs it and
turns an unknown name or a panic into an error message.
-/

namespace Seisin

/-- One index update an op wants applied before it may commit. -/
structure PendingIndexUpdate where
  target : DatumId
  indexKind : String
  payload : Bytes
  deriving DecidableEq

/-- What happens when a referenced datum is missing. -/
inductive FkMissingPolicy where
  | reject
  | track (pendingDatum : DatumId) (indexKind : String) (entry : Bytes)
  deriving DecidableEq

/-- The polarity a scheduled existence check asserts. -/
inductive Expectation where
  | present (onMissing : FkMissingPolicy)
  | absent (message : String)
  deriving DecidableEq

structure PendingExistsCheck where
  target : DatumId
  expect : Expectation
  deriving DecidableEq

/-- A staged write with the datum's replication factor; no content stands for a delete. -/
structure StagedWrite where
  id : DatumId
  content : Option Bytes
  n : ℕ
  deriving DecidableEq

structure OpContext where
  cache : Cache
  staged : AList (fun _ : DatumId => Option Bytes × ℕ)
  pendingIndexUpdates : List PendingIndexUpdate
  pendingExistsChecks : List PendingExistsCheck

namespace OpContext

def new (cache : Cache) : OpContext where
  cache := cache
  staged := ∅
  pendingIndexUpdates := []
  pendingExistsChecks := []

/-- A value staged earlier in the same op is visible at once. -/
def getReplicated (ctx : OpContext) (store : Store) (id : DatumId) (n : ℕ) :
    Option Bytes × OpContext :=
  match ctx.staged.lookup id with
  | some (content, _) => (content, ctx)
  | none =>
      let (value, cache) := ctx.cache.getReplicated store id n
      (value, { ctx with cache := cache })

def putReplicated (ctx : OpContext) (id : DatumId) (content : Bytes) (n : ℕ) : OpContext :=
  { ctx with staged := ctx.staged.insert id (some content, n) }

def deleteReplicated (ctx : OpContext) (id : DatumId) (n : ℕ) : OpContext :=
  { ctx with staged := ctx.staged.insert id (none, n) }

def scheduleIndexUpdate (ctx : OpContext) (update : PendingIndexUpdate) : OpContext :=
  { ctx with pendingIndexUpdates := ctx.pendingIndexUpdates ++ [update] }

def scheduleExistsCheck (ctx : OpContext) (check : PendingExistsCheck) : OpContext :=
  { ctx with pendingExistsChecks := ctx.pendingExistsChecks ++ [check] }

def takeStagedWrites (ctx : OpContext) : List StagedWrite :=
  ctx.staged.entries.map fun entry => ⟨entry.1, entry.2.1, entry.2.2⟩

end OpContext

/-- The context calls of a handler, in order; what follows a read depends on the value read. -/
inductive OpProg where
  | done (result : Bytes)
  | panic
  | get (id : DatumId) (n : ℕ) (next : Option Bytes → OpProg)
  | put (id : DatumId) (content : Bytes) (n : ℕ) (next : OpProg)
  | delete (id : DatumId) (n : ℕ) (next : OpProg)
  | scheduleIndexUpdate (update : PendingIndexUpdate) (next : OpProg)
  | scheduleExistsCheck (check : PendingExistsCheck) (next : OpProg)

namespace OpProg

/-- Runs a handler; a panic has no result. -/
def run (store : Store) : OpProg → OpContext → OpContext × Option Bytes
  | .done result, ctx => (ctx, some result)
  | .panic, ctx => (ctx, none)
  | .get id n next, ctx =>
      let (value, read) := ctx.getReplicated store id n
      run store (next value) read
  | .put id content n next, ctx => run store next (ctx.putReplicated id content n)
  | .delete id n next, ctx => run store next (ctx.deleteReplicated id n)
  | .scheduleIndexUpdate update next, ctx => run store next (ctx.scheduleIndexUpdate update)
  | .scheduleExistsCheck check next, ctx => run store next (ctx.scheduleExistsCheck check)

end OpProg

/-- A handler, given the datum ids it was collated for and its payload. -/
abbrev OpHandler := List DatumId → Bytes → OpProg

abbrev OpRegistry := String → Option OpHandler

namespace OpRegistry

/-- Invokes the named op; an unknown name and a panicking handler are errors. -/
def invoke (ops : OpRegistry) (store : Store) (name : String) (ctx : OpContext)
    (datumIds : List DatumId) (payload : Bytes) : OpContext × Except String Bytes :=
  match ops name with
  | none => (ctx, .error ("unknown op: " ++ name))
  | some handler =>
      match (handler datumIds payload).run store ctx with
      | (after, some result) => (after, .ok result)
      | (after, none) => (after, .error ("op '" ++ name ++ "' panicked"))

end OpRegistry

end Seisin
