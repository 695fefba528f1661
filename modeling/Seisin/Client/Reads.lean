import Seisin.Client
import Seisin.Types.Exactness

/-!
# Reads

What clients read of the indexes that typed ops maintain.  A read opens a structure and leaves it
open, which changes nothing of what an index lists, so that reads between the ops keep the indexes
exact and each of them is answered with a part of the exact listing.  What is stored a thread reads
through its cache, whose copies are taken to be current here; between an op and its last release
they need not be.
-/

namespace Seisin

open Protocol Transition

namespace Database

variable {Resident : Type} (kinds : IndexKinds Resident) (target : DatumId) (indexKind : String)
  (bytes : Bytes) (database : Database Resident)

/-- The database after a query. -/
def queried : Database Resident :=
  Function.update database target ((database target).query kinds target indexKind bytes).1

theorem store_queried : (database.queried kinds target indexKind bytes).store = database.store := by
  funext id
  unfold store queried
  by_cases here : id = target
  · subst here
    rw [Function.update_self]
    exact Slot.stored_query
  · rw [Function.update_of_ne here]

end Database

/-! ## The listings -/

section Listings

variable {query : TreeResident → Bytes → Except String Bytes}
  {execute : TreeResident → Bytes → TreeResident × Except String Bytes} {schema : Schema}
  {fromName : Bytes → DatumId} {occurring : Set Bytes}
  {database next : Database (TypedResident TreeResident)}

theorem fieldValue_of_stored (stored : next.store = database.store) (typeDef : DatumTypeDef)
    (field : String) (pkId : DatumId) :
    next.fieldValue typeDef field pkId = database.fieldValue typeDef field pkId := by
  rw [Database.fieldValue, Database.fieldValue, Database.valueOf, Database.valueOf, stored]

theorem Legible.of_stored (legible : Legible schema occurring database)
    (stored : next.store = database.store) : Legible schema occurring next := by
  intro pkId typeDef typed
  rw [stored]
  exact legible pkId typeDef typed

/-- Whether the indexes are exact depends only on the datums and on what the homes find open or
open. -/
theorem Exact.of_same_openings (exact_ : Exact query execute schema fromName occurring database)
    (stored : next.store = database.store)
    (opens : ∀ key, schema.Derives occurring key →
      (next (key.id fromName)).openFor (Slot.typedKinds query execute) (key.id fromName) key.word =
        (database (key.id fromName)).openFor (Slot.typedKinds query execute) (key.id fromName)
          key.word) :
    Exact query execute schema fromName occurring next := by
  refine ⟨?_, ?_, ?_⟩
  · intro pkId typeDef field unique typed indexed bytes occurs
    have lists := exact_.sk pkId typeDef field unique typed indexed bytes occurs
    have same := opens _ (.sk typed indexed occurs)
    simp only [Slot.SkLists, Database.skListing, fieldValue_of_stored stored] at lists ⊢
    rcases lists with ⟨entries, opened, listed⟩
    exact ⟨entries, same.trans opened, listed⟩
  · intro pkId typeDef field typed indexed
    have lists := exact_.rk pkId typeDef field typed indexed
    have same := opens _ (.rk typed indexed)
    simp only [Slot.RkLists, Database.rkListing, fieldValue_of_stored stored] at lists ⊢
    rcases lists with ⟨tree, opened, listed⟩
    exact ⟨tree, same.trans opened, listed⟩
  · intro pkId typeDef typed tracks
    have lists := exact_.extent pkId typeDef typed tracks
    have same := opens _ (.extent typed tracks)
    simp only [Slot.PartitionLists, Database.extentListing, stored] at lists ⊢
    rcases lists with ⟨tree, opened, listed⟩
    exact ⟨tree, same.trans opened, listed⟩

/-- A query of an index datum by the word of its key. -/
theorem Exact.queried (exact_ : Exact query execute schema fromName occurring database)
    {target : DatumId} {word : String} {bytes : Bytes}
    (own : ∀ key, schema.Derives occurring key → key.id fromName = target → key.word = word) :
    Exact query execute schema fromName occurring (database.queried (Slot.typedKinds query execute)
      target word bytes) := by
  refine exact_.of_same_openings (Database.store_queried _ _ _ _ _) fun key derives => ?_
  by_cases here : key.id fromName = target
  · subst here
    rw [own key derives rfl, Database.queried, Function.update_self]
    exact Slot.openFor_query
  · rw [Database.queried, Function.update_of_ne here]

end Listings

/-! ## What native threads have -/

namespace QuietCluster

variable {Resident : Type} (native : DatumId → NodeId × ThreadId) (cluster : QuietCluster Resident)

theorem database_withDatabase (database : Database Resident) :
    (cluster.withDatabase native database).database native = database := by
  funext id
  simp [QuietCluster.database, slot, withDatabase, Database.store]

theorem database_record (node : NodeId) (request : ClientRequest) :
    (cluster.record node request).database native = cluster.database native := rfl

theorem database_keep (id : DatumId) (resident : Option Resident) :
    (cluster.keep (native id) id resident).database native =
      Function.update (cluster.database native) id
        ⟨(cluster.database native id).stored, resident⟩ := by
  funext other
  by_cases same : other = id
  · subst same
    simp [QuietCluster.database, slot, keep]
  · rw [Function.update_of_ne same]
    simp only [QuietCluster.database, slot, keep]
    by_cases together : native other = native id
    · rw [together, Function.update_self, Function.update_of_ne same]
    · rw [Function.update_of_ne together]

end QuietCluster

/-! ## Typed ops -/

/-- A typed op that commits does so as an op of the registry. -/
theorem Database.runOp_of_commit {env : TypedEnv} {kinds : IndexKinds (TypedResident TreeResident)}
    {typed : String → Option (List DatumId → Bytes → TypedProg)} {opName : String}
    {body : List DatumId → Bytes → TypedProg} {datumIds : List DatumId} {payload : Bytes}
    {cache : Cache} {choices : List Dispatch.Choice}
    {database next : Database (TypedResident TreeResident)} (registered : typed opName = some body)
    (commits : (⟨body datumIds payload, cache, choices⟩ : TypedOp).commit env kinds database =
      some next) :
    ∃ result, database.runOp (env.ops typed) kinds opName datumIds payload cache choices =
      some (.ok result, next) := by
  unfold TypedOp.commit at commits
  split at commits
  · rename_i result left transacts
    cases commits
    unfold transact at transacts
    unfold Database.runOp OpRegistry.invoke TypedEnv.ops
    simp only [registered, Option.map_some, TypedEnv.handler]
    split at transacts
    · cases transacts
    · rename_i ctx opResult ran
      simp only [ran]
      split at transacts
      · rename_i nothing
        rw [if_pos nothing]
        cases transacts
        exact ⟨_, rfl⟩
      · rename_i something
        rw [if_neg something, transacts]
        exact ⟨_, rfl⟩
  · cases commits

/-! ## Nodes that agree -/

section Agreed

variable {Resident : Type} {nodes : ComputeCluster Resident} {ring : Ring} {call : ClientCall}
  {cluster : QuietCluster Resident} {node : NodeId}

/-- A node whose ring is that of all. -/
structure ComputeCluster.Member (nodes : ComputeCluster Resident) (ring : Ring) (node : NodeId) :
    Prop where
  ring : (nodes.frontends node).ring = ring
  self : (nodes.frontends node).selfNodeId = node

theorem ComputeCluster.Member.native (member : nodes.Member ring node) :
    nodes.native node = ring.native nodes.hash := by
  funext id
  rw [ComputeCluster.native, member.ring]

theorem ComputeCluster.Member.localHome (member : nodes.Member ring node) {target : DatumId}
    (servesHere : (nodes.frontends node).ServesHere nodes.hash [target]) :
    nodes.localHome node target = ring.native nodes.hash target := by
  have here := servesHere _ (Frontend.nativeNodes_singleton nodes.hash _ target)
  rw [member.self, member.ring] at here
  unfold ComputeCluster.localHome
  rw [member.native, ← here]

/-- A proper call is served by a node that has a thread for it. -/
theorem ClientCall.Proper.served (proper : call.Proper nodes) (agreed : nodes.Agreed ring) :
    ∃ node, nodes.Member ring node ∧
      (nodes.frontends node).ServesHere nodes.hash call.request.datumIds ∧
      nodes.Staffed node call.request ∧
      ∀ cluster, call.run nodes cluster =
        (nodes.respond node call call.request.serve cluster).map fun (response, next) =>
          (ClientCall.delivered response, next) := by
  rcases ClientCall.run_of_agreed agreed proper with ⟨node, place, there, servesHere, staffed, runs⟩
  exact ⟨node, ⟨agreed.same _ _ there, agreed.self _ _ there⟩, servesHere, staffed, runs⟩

/-- Where there is the thread, it runs the request. -/
theorem ComputeCluster.onThread_of_staffed {request : Request} {asked : ClientRequest}
    (staffed : nodes.Staffed node request) (asks : request.asks = some asked)
    (run : QuietCluster Resident → Option (Response × QuietCluster Resident)) :
    nodes.onThread node asked cluster run =
      (run (cluster.record node asked)).map fun (response, next) => (some response, next) :=
  if_pos (staffed asked asks)

/-- A call that is a query is answered by the native thread of its target. -/
theorem ClientCall.Proper.run_query (proper : call.Proper nodes) (agreed : nodes.Agreed ring)
    {target : DatumId} {indexKind : String} {bytes : Bytes}
    {makes : Except String Bytes → Response}
    (serves : call.request.serve = .runIndexQuery target indexKind bytes makes)
    (routed : call.request.datumIds = [target]) (cluster : QuietCluster Resident)
    (current : call.cache.Copies cluster.store) :
    let database := cluster.database (ring.native nodes.hash)
    ∃ next, call.run nodes cluster = some (ClientCall.delivered
        (some (makes ((database target).query nodes.kinds target indexKind bytes).2)), next) ∧
      next.database (ring.native nodes.hash) =
        database.queried nodes.kinds target indexKind bytes := by
  intro database
  rcases proper.served agreed with ⟨node, member, servesHere, staffed, runs⟩
  rw [routed] at servesHere
  have home := member.localHome servesHere
  let recorded := cluster.record node (.indexQuery target indexKind bytes)
  refine ⟨recorded.keep (ring.native nodes.hash target) target
    ((database target).query nodes.kinds target indexKind bytes).1.resident, ?_, ?_⟩
  · have asks : call.request.asks = some (.indexQuery target indexKind bytes) := by
      rw [Request.asks, serves]
      rfl
    have read : ComputeCluster.slotRead call (ring.native nodes.hash target) target recorded =
        database target := ComputeCluster.slotRead_eq_slot current _ _
    rw [runs, serves]
    simp only [ComputeCluster.respond, ComputeCluster.onThread_of_staffed staffed asks,
      ComputeCluster.runIndexQuery, home, Option.map_some]
    rw [read]
  · rw [QuietCluster.database_keep]
    unfold Database.queried
    rw [QuietCluster.database_record]
    congr 1
    have stored : ((database target).query nodes.kinds target indexKind bytes).1.stored =
        (database target).stored := Slot.stored_query
    exact Slot.eq_of_parts stored.symm rfl

/-- A check through a current cache is answered as from the store. -/
theorem ClientCall.Proper.run_check (proper : call.Proper nodes) (agreed : nodes.Agreed ring)
    {datumId : DatumId} (checks : call.request = .existsCheck datumId)
    (cluster : QuietCluster Resident) (current : call.cache.Copies cluster.store) :
    ∃ next, call.run nodes cluster = some (ClientCall.delivered
        (some (.exists_ (cluster.store datumId).isSome)), next) ∧
      next.database (ring.native nodes.hash) = cluster.database (ring.native nodes.hash) := by
  rcases proper.served agreed with ⟨node, member, servesHere, staffed, runs⟩
  refine ⟨cluster.record node (.existsCheck datumId), ?_, rfl⟩
  have asks : call.request.asks = some (.existsCheck datumId) := by
    rw [checks]
    rfl
  have read : (call.cache.get cluster.store datumId).1 = cluster.store datumId :=
    current.read datumId 1
  rw [runs, checks]
  simp only [Request.serve, ComputeCluster.respond,
    ComputeCluster.onThread_of_staffed staffed asks, Option.map_some]
  rw [← read]
  rfl

/-- A call that is an op runs on what the native threads have. -/
theorem ClientCall.Proper.run_op (proper : call.Proper nodes) (agreed : nodes.Agreed ring)
    {opId : DatumId} {opName : String} {datumIds : List DatumId} {payload : Bytes}
    (isOp : call.request = .op opId opName datumIds payload) (cluster : QuietCluster Resident)
    {result : Except String Bytes} {left : Database Resident}
    (ran : (cluster.database (ring.native nodes.hash)).runOp nodes.ops nodes.kinds opName datumIds
      payload call.cache call.choices = some (result, left)) :
    ∃ next, call.run nodes cluster =
        some (ClientCall.delivered (some (opResponse result)), next) ∧
      next.database (ring.native nodes.hash) = left := by
  rcases proper.served agreed with ⟨node, member, servesHere, staffed, runs⟩
  have asks : call.request.asks = some (.op opId opName datumIds payload) := by
    rw [isOp]
    rfl
  let recorded := cluster.record node (.op opId opName datumIds payload)
  refine ⟨recorded.withDatabase (ring.native nodes.hash) left, ?_,
    QuietCluster.database_withDatabase _ _ _⟩
  rw [runs, isOp]
  simp only [Request.serve, ComputeCluster.respond,
    ComputeCluster.onThread_of_staffed staffed asks, ComputeCluster.runOp, member.native,
    QuietCluster.database_record, ran, Option.map_some]
  rfl

end Agreed

/-! ## Reads between typed ops -/

/-- The typed op of a call. -/
def ClientCall.typedOp (call : ClientCall) (prog : TypedProg) : TypedOp :=
  ⟨prog, call.cache, call.choices⟩

/-- A call that leaves the indexes to typed ops: a typed op that commits and swaps no zeros, a query
that takes no index for one of another kind, or a check. -/
inductive ClientCall.Orderly (env : TypedEnv)
    (typed : String → Option (List DatumId → Bytes → TypedProg)) (schema : Schema)
    (occurring : Set Bytes) (database : Database (TypedResident TreeResident))
    (call : ClientCall) : Prop where
  | op {opId : DatumId} {opName : String} {datumIds : List DatumId} {payload : Bytes}
      {body : List DatumId → Bytes → TypedProg} {next : Database (TypedResident TreeResident)}
      (isOp : call.request = .op opId opName datumIds payload)
      (registered : typed opName = some body)
      (admitted : (call.typedOp (body datumIds payload)).Admitted env schema occurring database)
      (steady : ¬(call.typedOp (body datumIds payload)).SwapsZeros env schema database)
      (commits : (call.typedOp (body datumIds payload)).commit env residentKinds database =
        some next) : ClientCall.Orderly env typed schema occurring database call
  | rank {target : DatumId} {kind : RkQueryKind} (isQuery : call.request = .rkQuery target kind)
      (own : ∀ key, schema.Derives occurring key → key.id env.fromName = target →
        key.word = "rk") : ClientCall.Orderly env typed schema occurring database call
  | extent {target : DatumId} {offset : UInt64} {limit : UInt32}
      (isQuery : call.request = .extentQuery target offset limit)
      (own : ∀ key, schema.Derives occurring key → key.id env.fromName = target →
        key.word = "partition") : ClientCall.Orderly env typed schema occurring database call
  | check {datumId : DatumId} (isCheck : call.request = .existsCheck datumId) :
      ClientCall.Orderly env typed schema occurring database call

/-- The nodes run typed ops and keep the indexes that these maintain. -/
structure ComputeCluster.RunsTyped (nodes : ComputeCluster (TypedResident TreeResident))
    (env : TypedEnv) (typed : String → Option (List DatumId → Bytes → TypedProg)) : Prop where
  kinds : nodes.kinds = residentKinds
  ops : nodes.ops = env.ops typed

/-- Whichever node is asked, this is the answer, if it can be sent and the thread that is asked has
nothing outdated in its cache. -/
def ComputeCluster.Answers {Resident : Type} (nodes : ComputeCluster Resident)
    (cluster : QuietCluster Resident) (request : Request) (response : Response) : Prop :=
  ∀ call : ClientCall, call.Proper nodes → call.cache.Copies cluster.store →
    call.request = request → response.Sendable →
    ∃ next, call.run nodes cluster = some (.ok response, next)

/-- Every rank query, page of an extent and check is answered from what it has to list, in order. -/
structure ComputeCluster.ReadsExactly (nodes : ComputeCluster (TypedResident TreeResident))
    (ring : Ring) (schema : Schema) (fromName : Bytes → DatumId)
    (cluster : QuietCluster (TypedResident TreeResident)) : Prop where
  ranks : ∀ pkId typeDef field, schema pkId = some typeDef → .rk field ∈ typeDef.indexes →
    ∃ items, Ranked (fun item => (rkEntry item).1)
        ((cluster.database (ring.native nodes.hash)).rkListing schema typeDef field) items ∧
      ∀ kind, nodes.Answers cluster (.rkQuery (rkKey fromName typeDef.name field) kind)
        (.rkQueryResult (kind.select items))
  extents : ∀ pkId typeDef, schema pkId = some typeDef → typeDef.trackExtent = true →
    ∃ pks, Ranked DatumId.asBytes
        ((cluster.database (ring.native nodes.hash)).extentListing schema typeDef) pks ∧
      ∀ offset limit, nodes.Answers cluster
        (.extentQuery (extentKey fromName typeDef.name) offset limit)
        (.extentResult (UInt64.ofNat pks.length) ((pks.drop offset.toNat).take limit.toNat))
  checks : ∀ datumId, nodes.Answers cluster (.existsCheck datumId)
    (.exists_ (cluster.store datumId).isSome)

section Reads

variable {nodes : ComputeCluster (TypedResident TreeResident)} {ring : Ring} {env : TypedEnv}
  {typed : String → Option (List DatumId → Bytes → TypedProg)} {schema : Schema}
  {occurring : Set Bytes} {call : ClientCall}
  {cluster next : QuietCluster (TypedResident TreeResident)}

/-- An orderly call leaves the indexes exact and the datums legible. -/
theorem ClientCall.Orderly.exact_legible (agreed : nodes.Agreed ring)
    (runsTyped : nodes.RunsTyped env typed)
    (drains : ∀ entries, (env.drainOrder entries).Perm entries)
    (separate : schema.Separate env.fromName occurring) (proper : call.Proper nodes)
    (current : call.cache.Copies cluster.store)
    (orderly : call.Orderly env typed schema occurring (cluster.database (ring.native nodes.hash)))
    (exact_ : Exact TreeResident.query TreeResident.execute schema env.fromName occurring
      (cluster.database (ring.native nodes.hash)))
    (legible : Legible schema occurring (cluster.database (ring.native nodes.hash)))
    (stepped : (clientSystem nodes).step cluster call = some next) :
    Exact TreeResident.query TreeResident.execute schema env.fromName occurring
        (next.database (ring.native nodes.hash)) ∧
      Legible schema occurring (next.database (ring.native nodes.hash)) := by
  rcases Option.map_eq_some_iff.mp stepped with ⟨⟨outcome, after⟩, ran, rfl⟩
  cases orderly with
  | op isOp registered admitted steady commits =>
      rcases Database.runOp_of_commit registered commits with ⟨result, committed⟩
      rw [← runsTyped.ops, ← runsTyped.kinds] at committed
      rcases proper.run_op agreed isOp cluster committed with ⟨left, runs, same⟩
      cases runs.symm.trans ran
      rw [same]
      exact exact_.commit legible drains separate admitted steady commits
  | rank isQuery own =>
      rcases proper.run_query agreed (by rw [isQuery]; rfl) (by rw [isQuery]; rfl) cluster current
        with ⟨left, runs, same⟩
      cases runs.symm.trans ran
      rw [same, runsTyped.kinds]
      exact ⟨exact_.queried own, legible.of_stored (Database.store_queried _ _ _ _ _)⟩
  | extent isQuery own =>
      rcases proper.run_query agreed (by rw [isQuery]; rfl) (by rw [isQuery]; rfl) cluster current
        with ⟨left, runs, same⟩
      cases runs.symm.trans ran
      rw [same, runsTyped.kinds]
      exact ⟨exact_.queried own, legible.of_stored (Database.store_queried _ _ _ _ _)⟩
  | check isCheck =>
      rcases proper.run_check agreed isCheck cluster current with ⟨left, runs, same⟩
      cases runs.symm.trans ran
      rw [same]
      exact ⟨exact_, legible⟩

/-- Where the indexes are exact, what is read of them is. -/
theorem Exact.reads (agreed : nodes.Agreed ring) (kinds : nodes.kinds = residentKinds)
    (exact_ : Exact TreeResident.query TreeResident.execute schema env.fromName occurring
      (cluster.database (ring.native nodes.hash))) :
    nodes.ReadsExactly ring schema env.fromName cluster := by
  refine ⟨?_, ?_, ?_⟩
  · intro pkId typeDef field isTyped indexed
    rcases exact_.rk pkId typeDef field isTyped indexed with ⟨tree, opened, lists⟩
    rcases RkResidentIndex.query_eq lists with ⟨items, ranked, eight, answered⟩
    refine ⟨items, ranked, fun kind call proper current isQuery sendable => ?_⟩
    rcases proper.run_query agreed (by rw [isQuery]; rfl) (by rw [isQuery]; rfl) cluster current
      with ⟨next, runs, -⟩
    refine ⟨next, runs.trans ?_⟩
    have result : (Slot.query nodes.kinds (rkKey env.fromName typeDef.name field) "rk"
        (encodeRkQueryKind kind) (cluster.database (ring.native nodes.hash)
          (rkKey env.fromName typeDef.name field))).2 =
        .ok (encodeRkEntries (kind.select items)) := by
      rw [kinds, Slot.query_of_opens opened]
      exact answered kind
    have decoded : decodeRkEntries (encodeRkEntries (kind.select items)) =
        .ok (kind.select items) := decodeRkEntries_eq_ok.mpr ⟨sendable.fits, rfl⟩
    rw [result]
    simp only [rkResultResponse, resultResponse, decoded]
    rw [ClientCall.delivered_of_sendable sendable (by rintro _ ⟨⟩)]
  · intro pkId typeDef isTyped tracks
    rcases exact_.extent pkId typeDef isTyped tracks with ⟨tree, opened, lists⟩
    rcases PartitionResident.query_eq lists with ⟨pks, ranked, answered⟩
    refine ⟨pks, ranked, fun offset limit call proper current isQuery sendable => ?_⟩
    rcases proper.run_query agreed (by rw [isQuery]; rfl) (by rw [isQuery]; rfl) cluster current
      with ⟨next, runs, -⟩
    refine ⟨next, runs.trans ?_⟩
    have result : (Slot.query nodes.kinds (extentKey env.fromName typeDef.name) "partition"
        (encodeExtentPage offset limit) (cluster.database (ring.native nodes.hash)
          (extentKey env.fromName typeDef.name))).2 =
        .ok (encodeExtentResult (UInt64.ofNat pks.length)
          ((pks.drop offset.toNat).take limit.toNat)) := by
      rw [kinds, Slot.query_of_opens opened]
      exact answered offset limit
    have decoded : decodeExtentResult (encodeExtentResult (UInt64.ofNat pks.length)
        ((pks.drop offset.toNat).take limit.toNat)) =
        .ok (UInt64.ofNat pks.length, (pks.drop offset.toNat).take limit.toNat) :=
      decodeExtentResult_eq_ok.mpr ⟨sendable.fits, rfl⟩
    rw [result]
    simp only [extentResponse, resultResponse, decoded]
    rw [ClientCall.delivered_of_sendable sendable (by rintro _ ⟨⟩)]
  · intro datumId call proper current isCheck sendable
    rcases proper.run_check agreed isCheck cluster current with ⟨next, runs, -⟩
    rw [ClientCall.delivered_of_sendable sendable (by rintro _ ⟨⟩)] at runs
    exact ⟨next, runs⟩

end Reads

/-- In every run of typed ops that commit and of reads, through whichever nodes and with caches that
have nothing outdated, every rank query, page of an extent and check that a client makes next is
answered exactly. -/
theorem reads_exact (nodes : ComputeCluster (TypedResident TreeResident)) (ring : Ring)
    (env : TypedEnv) (typed : String → Option (List DatumId → Bytes → TypedProg)) (schema : Schema)
    (occurring : Set Bytes) (agreed : nodes.Agreed ring) (runsTyped : nodes.RunsTyped env typed)
    (drains : ∀ entries, (env.drainOrder entries).Perm entries)
    (separate : schema.Separate env.fromName occurring)
    {cluster : QuietCluster (TypedResident TreeResident)}
    (reached : (clientSystem nodes).ReachableVia (fun before call => call.Proper nodes ∧
      call.cache.Copies before.store ∧
      call.Orderly env typed schema occurring (before.database (ring.native nodes.hash))) cluster) :
    nodes.ReadsExactly ring schema env.fromName cluster := by
  have both : Exact TreeResident.query TreeResident.execute schema env.fromName occurring
        (cluster.database (ring.native nodes.hash)) ∧
      Legible schema occurring (cluster.database (ring.native nodes.hash)) := by
    apply reached.induction
    · rintro _ rfl
      exact ⟨exact_empty schema env.fromName occurring, legible_empty schema occurring⟩
    · intro before call after holds meets steps
      exact meets.2.2.exact_legible agreed runsTyped drains separate meets.1 meets.2.1 holds.1 holds.2
        steps
  exact both.1.reads agreed runsTyped.kinds

/-! ## A gauge -/

def gaugeId : DatumId := 0x70 * 2 ^ 72

def gaugeType : DatumTypeDef :=
  { DatumTypeDef.new "gauge" with
    fields := [("level", .f64)], indexes := [.rk "level"], trackExtent := true }

def gaugeSchema : Schema := fun pkId => if pkId = gaugeId then some gaugeType else none

def raise : TypedProg := .set gaugeId gaugeType [.f64 ⟨1⟩] fun _ => .done []

def gaugeOps (name : String) : Option (List DatumId → Bytes → TypedProg) :=
  if name = "raise" then some fun _ _ => raise else none

def gaugeNodes : ComputeCluster (TypedResident TreeResident) :=
  { frontNodes with ops := readingEnv.ops gaugeOps }

/-- The gauge is set through one node and its rank read through the other. -/
def gaugeCalls : List ClientCall :=
  [⟨"a", .op 0 "raise" [gaugeId] [], Cache.empty, [.serve 0, .serve 0, .hear 0, .hear 0]⟩,
    ⟨"b", .rkQuery (rkKey lastEight "gauge" "level") (.topN 3), Cache.empty, []⟩]

theorem gaugeSchema_typed {pkId : DatumId} {typeDef : DatumTypeDef}
    (isTyped : gaugeSchema pkId = some typeDef) : pkId = gaugeId ∧ typeDef = gaugeType := by
  unfold gaugeSchema at isTyped
  split at isTyped
  · rename_i same
    exact ⟨same, (Option.some.inj isTyped).symm⟩
  · cases isTyped

theorem gauge_derives {occurring : Set Bytes} {key : DerivedKey}
    (derives : gaugeSchema.Derives occurring key) :
    key = .rk "gauge" "level" ∨ key = .partition "gauge" "all" := by
  cases derives with
  | sk declared indexed occurs =>
      rcases gaugeSchema_typed declared with ⟨rfl, rfl⟩
      cases List.mem_singleton.mp indexed
  | rk declared indexed =>
      rcases gaugeSchema_typed declared with ⟨rfl, rfl⟩
      cases List.mem_singleton.mp indexed
      exact Or.inl rfl
  | extent declared tracks =>
      rcases gaugeSchema_typed declared with ⟨rfl, rfl⟩
      exact Or.inr rfl
  | pending declared constrained =>
      rcases gaugeSchema_typed declared with ⟨rfl, rfl⟩
      cases constrained
  | deleted declared guarded =>
      rcases gaugeSchema_typed declared with ⟨rfl, rfl⟩
      cases guarded

theorem separate_gauge (occurring : Set Bytes) : gaugeSchema.Separate lastEight occurring := by
  have differ : (DerivedKey.rk "gauge" "level").id lastEight ≠
      (DerivedKey.partition "gauge" "all").id lastEight := by decide +kernel
  refine ⟨?_, ?_, ?_, ?_⟩
  · intro pkId typeDef declared
    rcases gaugeSchema_typed declared with ⟨rfl, rfl⟩
    decide
  · intro one other typeDef otherDef declared otherDeclared _
    rw [(gaugeSchema_typed declared).2, (gaugeSchema_typed otherDeclared).2]
  · intro one other oneDerives otherDerives sameId
    rcases gauge_derives oneDerives with rfl | rfl
    · rcases gauge_derives otherDerives with rfl | rfl
      · rfl
      · exact absurd sameId differ
    · rcases gauge_derives otherDerives with rfl | rfl
      · exact absurd sameId.symm differ
      · rfl
  · intro key derives
    rcases gauge_derives derives with rfl | rfl <;> decide +kernel

theorem admitted_raise (database : Database (TypedResident TreeResident)) {op : TypedOp}
    (isRaise : op.prog = raise) (fresh : op.cache = Cache.empty) :
    op.Admitted readingEnv gaugeSchema {levelBytes ⟨1⟩} database := by
  refine ⟨?_, ?_⟩
  · rw [fresh]
    rintro _ _ ⟨⟩
  · rw [isRaise]
    intro access accessMem
    rcases accesses_set _ _ _ _ _ _ access accessMem with ⟨isId, isType, isValue⟩
    refine ⟨⟨by rw [isId, isType]; exact if_pos rfl, ?_⟩, ?_⟩
    · intro values written value valueMem
      rw [isValue values written] at valueMem
      cases List.mem_singleton.mp valueMem
      trivial
    · intro values written value valueMem bytes hasBytes
      rw [isValue values written] at valueMem
      cases List.mem_singleton.mp valueMem
      cases hasBytes
      exact rfl

theorem steady_empty (env : TypedEnv) (schema : Schema) (op : TypedOp) :
    ¬op.SwapsZeros env schema Database.empty := by
  rintro ⟨pkId, typeDef, index, _, _, _, _, _, _, isZero, _⟩
  rw [fieldValue_empty] at isZero
  cases isZero

theorem agreed_gauge : gaugeNodes.Agreed frontRing :=
  ⟨agreed_front.same, agreed_front.self, agreed_front.serving, agreed_front.addressed,
    agreed_front.threads⟩

theorem proper_gaugeCalls : ∀ call ∈ gaugeCalls, call.Proper gaugeNodes := by
  intro call callMem
  rcases List.mem_cons.mp callMem with rfl | rest
  · refine ⟨⟨0, rfl⟩, rfl, ⟨⟨?_, ?_⟩, by decide +kernel⟩, fun _ _ spread => absurd rfl (spread _)⟩
    · change (ByteString.ofString "raise").length < 2 ^ 32
      decide +kernel
    · change [gaugeId].length < 2 ^ 32
      decide
  · cases List.mem_singleton.mp rest
    exact ⟨⟨1, rfl⟩, rfl, ⟨trivial, by decide +kernel⟩, fun _ _ spread => absurd rfl (spread _)⟩

theorem reads_exact_gauge : ∃ cluster,
    (clientSystem gaugeNodes).exec QuietCluster.empty gaugeCalls = some cluster ∧
    gaugeNodes.ReadsExactly frontRing gaugeSchema lastEight cluster := by
  have runs : ((clientSystem gaugeNodes).exec QuietCluster.empty gaugeCalls).isSome = true := by
    decide +kernel
  have commits : ((⟨raise, Cache.empty, [.serve 0, .serve 0, .hear 0, .hear 0]⟩ : TypedOp).commit
      readingEnv residentKinds Database.empty).isSome = true := by decide +kernel
  rcases Option.isSome_iff_exists.mp commits with ⟨left, commits⟩
  rcases Option.isSome_iff_exists.mp runs with ⟨cluster, executed⟩
  refine ⟨cluster, executed, ?_⟩
  rcases Option.bind_eq_some_iff.mp executed with ⟨middle, first, rest⟩
  rcases Option.bind_eq_some_iff.mp rest with ⟨last, second, same⟩
  cases same
  refine reads_exact gaugeNodes frontRing readingEnv gaugeOps gaugeSchema {levelBytes ⟨1⟩}
    agreed_gauge ⟨rfl, rfl⟩ (fun _ => .refl _) (separate_gauge _)
    ⟨QuietCluster.empty, rfl,
      .tail _ (.tail _ (.refl _) ⟨?_, ?_, ?_⟩ first) ⟨?_, ?_, ?_⟩ second⟩
  · exact proper_gaugeCalls _ (List.mem_cons_self ..)
  · rintro _ _ ⟨⟩
  · exact .op rfl rfl (admitted_raise _ rfl rfl) (steady_empty _ _ _) commits
  · exact proper_gaugeCalls _ (List.mem_cons_of_mem _ (List.mem_singleton_self _))
  · rintro _ _ ⟨⟩
  · refine .rank rfl fun key derives here => ?_
    rcases gauge_derives derives with rfl | rfl
    · rfl
    · exact absurd here (by decide +kernel)

end Seisin
