import Seisin.Lib.Forwarding
import Seisin.Node.Frontend
import Seisin.Protocol.Framing
import Seisin.Types.Queries

/-!
# Clients

A client sends a request to some node of the cluster and follows the redirects that it is given, up
to a number of hops.  Here nothing else goes on in the cluster while a client's request is served:
what there is between requests is the storage and what every thread keeps open.  A node may have
fewer threads than its ring says, and an op may count for a thread that only other nodes have; the
handler then panics, and the connection ends without a response.
-/

namespace Seisin

open Protocol

variable {Resident : Type}

/-! ## The cluster between requests -/

/-- The storage, the index structures that the threads of the nodes keep open, and, for the record,
what the threads have been asked so far. -/
structure QuietCluster (Resident : Type) where
  store : Store
  residentIndexes : NodeId × ThreadId → DatumId → Option Resident
  asked : List (NodeId × ClientRequest)

namespace QuietCluster

def empty : QuietCluster Resident := ⟨fun _ => none, fun _ _ => none, []⟩

/-- What a thread has of an index datum. -/
def slot (cluster : QuietCluster Resident) (home : NodeId × ThreadId) (id : DatumId) :
    Slot Resident :=
  ⟨cluster.store id, cluster.residentIndexes home id⟩

/-- A thread keeps a structure open. -/
def keep (cluster : QuietCluster Resident) (home : NodeId × ThreadId) (id : DatumId)
    (resident : Option Resident) : QuietCluster Resident :=
  { cluster with
    residentIndexes := Function.update cluster.residentIndexes home
      (Function.update (cluster.residentIndexes home) id resident) }

/-- What the native threads of the datums have of them. -/
def database (native : DatumId → NodeId × ThreadId) (cluster : QuietCluster Resident) :
    Database Resident :=
  fun id => cluster.slot (native id) id

/-- The native threads have this of the datums. -/
def withDatabase (native : DatumId → NodeId × ThreadId) (database : Database Resident)
    (cluster : QuietCluster Resident) : QuietCluster Resident :=
  { cluster with
    store := database.store
    residentIndexes := fun home id =>
      if home = native id then (database id).resident else cluster.residentIndexes home id }

def record (cluster : QuietCluster Resident) (node : NodeId) (request : ClientRequest) :
    QuietCluster Resident :=
  { cluster with asked := cluster.asked ++ [(node, request)] }

end QuietCluster

/-! ## Ops -/

/-- Runs an op from its call to its reply, if the choices lead that far. -/
def Database.runOp (ops : OpRegistry) (kinds : IndexKinds Resident) (opName : String)
    (datumIds : List DatumId) (payload : Bytes) (cache : Cache) (choices : List Dispatch.Choice)
    (database : Database Resident) : Option (Except String Bytes × Database Resident) :=
  match ops.invoke database.store opName (OpContext.new cache) datumIds payload with
  | (_, .error message) => some (.error message, database)
  | (ctx, .ok opResult) =>
      if ctx.pendingIndexUpdates = [] ∧ ctx.pendingExistsChecks = [] then
        some (.ok opResult, database.commit ctx.takeStagedWrites)
      else
        (((indexProtocol kinds).system.exec (ctx.phase opResult database) choices).bind
          Phase.settle).map fun settled =>
            match settled.1 with
            | .committed result => (.ok result, settled.2)
            | .refused message => (.error message, settled.2)
            | .panicked => (.error ("op '" ++ opName ++ "' panicked"), settled.2)

/-! ## Nodes -/

/-- What the nodes run, how many threads their pools have, and the node that listens at an address. -/
structure ComputeCluster (Resident : Type) where
  hash : ℕ → ℕ → ℕ
  kinds : IndexKinds Resident
  ops : OpRegistry
  frontends : NodeId → Frontend
  threads : NodeId → ℕ
  listener : String → Option NodeId

/-- A request of a client with what the threads that run it had cached, and the order in which the
index requests of an op are served. -/
structure ClientCall where
  address : String
  request : Request
  cache : Cache
  choices : List Dispatch.Choice

namespace ComputeCluster

variable (nodes : ComputeCluster Resident)

/-- The home of a datum as a node sees it. -/
def native (node : NodeId) (id : DatumId) : NodeId × ThreadId :=
  (nodes.frontends node).ring.native nodes.hash id

/-- The local thread that a datum is native to. -/
def localHome (node : NodeId) (id : DatumId) : NodeId × ThreadId := (node, (nodes.native node id).2)

/-- The number of the thread that is to run a request. -/
def destination (node : NodeId) : ClientRequest → ThreadId
  | .op _ _ datumIds _ => pickDestinationThread nodes.hash (nodes.frontends node).ring datumIds
  | .indexQuery target _ _ | .indexExecute target _ _ | .existsCheck target =>
      (nodes.localHome node target).2

/-- What the thread has of an index datum, as it reads the stored content through its cache. -/
def slotRead (call : ClientCall) (home : NodeId × ThreadId) (target : DatumId)
    (cluster : QuietCluster Resident) : Slot Resident :=
  { cluster.slot home target with stored := (call.cache.get cluster.store target).1 }

def runIndexQuery (node : NodeId) (call : ClientCall) (target : DatumId) (indexKind : String)
    (query : Bytes) (cluster : QuietCluster Resident) :
    Except String Bytes × QuietCluster Resident :=
  let home := nodes.localHome node target
  let (answered, result) :=
    (slotRead call home target cluster).query nodes.kinds target indexKind query
  (result, cluster.keep home target answered.resident)

def runIndexExecute (node : NodeId) (call : ClientCall) (target : DatumId) (indexKind : String)
    (payload : Bytes) (cluster : QuietCluster Resident) :
    Except String Bytes × QuietCluster Resident :=
  let home := nodes.localHome node target
  let (executed, result) :=
    (slotRead call home target cluster).execute nodes.kinds target indexKind payload
  (result, cluster.keep home target executed.resident)

def runOp (node : NodeId) (call : ClientCall) (opName : String) (datumIds : List DatumId)
    (payload : Bytes) (cluster : QuietCluster Resident) :
    Option (Except String Bytes × QuietCluster Resident) :=
  ((cluster.database (nodes.native node)).runOp nodes.ops nodes.kinds opName datumIds payload
    call.cache call.choices).map fun (result, database) =>
      (result, cluster.withDatabase (nodes.native node) database)

/-- Has a thread of the node's pool run a request; without such a thread the handler panics. -/
def onThread (node : NodeId) (request : ClientRequest) (cluster : QuietCluster Resident)
    (run : QuietCluster Resident → Option (Response × QuietCluster Resident)) :
    Option (Option Response × QuietCluster Resident) :=
  if nodes.destination node request < nodes.threads node then
    (run (cluster.record node request)).map fun (response, next) => (some response, next)
  else some (none, cluster)

/-- What a node responds, if anything; the control plane is not part of this. -/
def respond (node : NodeId) (call : ClientCall) (served : Served)
    (cluster : QuietCluster Resident) : Option (Option Response × QuietCluster Resident) :=
  match served with
  | .respond response => some (some response, cluster)
  | .runOp opId opName datumIds payload =>
      nodes.onThread node (.op opId opName datumIds payload) cluster fun asked =>
        (nodes.runOp node call opName datumIds payload asked).map fun (result, next) =>
          (opResponse result, next)
  | .runIndexQuery target indexKind query respond =>
      nodes.onThread node (.indexQuery target indexKind query) cluster fun asked =>
        let (result, next) := nodes.runIndexQuery node call target indexKind query asked
        some (respond result, next)
  | .runIndexExecute target indexKind payload respond =>
      nodes.onThread node (.indexExecute target indexKind payload) cluster fun asked =>
        let (result, next) := nodes.runIndexExecute node call target indexKind payload asked
        some (respond result, next)
  | .runExistsCheck datumId =>
      nodes.onThread node (.existsCheck datumId) cluster fun asked =>
        some (.exists_ (call.cache.get asked.store datumId).1.isSome, asked)
  | .admin => none
  | .drop => some (none, cluster)

/-- What is written of a response; a connection that is dropped or cannot be written has nothing. -/
def written : Option Response → Bytes
  | none => []
  | some response =>
      match writeFrame [] (encodeResponse response) with
      | .error _ => []
      | .ok bytes => bytes

/-- What a node writes to a connection on which it was sent something. -/
def handleConnection (node : NodeId) (call : ClientCall) (sent : Bytes)
    (cluster : QuietCluster Resident) : Option (Bytes × QuietCluster Resident) :=
  match (readFrame sent).1 with
  | .error _ => some ([], cluster)
  | .ok payload =>
      match decodeRequest payload with
      | .error _ => some ([], cluster)
      | .ok request =>
          (nodes.respond node call ((nodes.frontends node).handle nodes.hash request) cluster).map
            fun (response, next) => (written response, next)

end ComputeCluster

/-! ## The threads' turns -/

namespace ComputeCluster

variable {nodes : ComputeCluster Resident} {env : Env Resident} {worker : Worker Resident}
  {cluster : QuietCluster Resident} {target : DatumId} {indexKind : String}

/-- Through a cache whose copies are current a thread finds what is stored. -/
theorem slotRead_eq_slot {call : ClientCall} (current : call.cache.Copies cluster.store)
    (home : NodeId × ThreadId) (target : DatumId) :
    slotRead call home target cluster = cluster.slot home target :=
  Slot.eq_of_parts (current.read target 1) rfl

/-- What a node answers to a query, and what it keeps open, is what its thread does. -/
theorem runIndexQuery_eq_serve {call : ClientCall} (kinds : env.indexKinds = nodes.kinds)
    (cached : worker.cache = call.cache) (current : call.cache.Copies cluster.store) (node : NodeId)
    (residents : worker.residentIndexes = cluster.residentIndexes (nodes.localHome node target))
    (query : Bytes) :
    let turn := env.serveIndexQuery worker cluster.store target indexKind query
    let run := nodes.runIndexQuery node call target indexKind query cluster
    turn.effects = [.answer run.1] ∧
      (⟨turn.store target, turn.worker.residentIndexes target⟩ : Slot Resident) =
        run.2.slot (nodes.localHome node target) target := by
  rcases env.serveIndexQuery_eq_query (cached ▸ current) target indexKind query with
    ⟨slot, answered⟩
  rw [kinds, residents] at slot answered
  simp only [runIndexQuery, slotRead_eq_slot current]
  refine ⟨answered, slot.trans ?_⟩
  refine Slot.eq_of_parts Slot.stored_query ?_
  simp [QuietCluster.slot, QuietCluster.keep]

theorem runIndexExecute_eq_serve {call : ClientCall} (kinds : env.indexKinds = nodes.kinds)
    (cached : worker.cache = call.cache) (current : call.cache.Copies cluster.store) (node : NodeId)
    (residents : worker.residentIndexes = cluster.residentIndexes (nodes.localHome node target))
    (payload : Bytes) :
    let turn := env.serveIndexExecute worker cluster.store target indexKind payload
    let run := nodes.runIndexExecute node call target indexKind payload cluster
    turn.effects = [.answer run.1] ∧
      (⟨turn.store target, turn.worker.residentIndexes target⟩ : Slot Resident) =
        run.2.slot (nodes.localHome node target) target := by
  rcases env.serveIndexExecute_eq_execute (cached ▸ current) target indexKind payload with
    ⟨slot, answered⟩
  rw [kinds, residents] at slot answered
  simp only [runIndexExecute, slotRead_eq_slot current]
  refine ⟨answered, slot.trans ?_⟩
  refine Slot.eq_of_parts Slot.stored_execute ?_
  simp [QuietCluster.slot, QuietCluster.keep]

end ComputeCluster

/-! ## Calls -/

inductive CallFailure where
  | unreachable (address : String)
  | io (failure : IoError)
  | malformed (message : String)
  | gaveUp (address : String)

def maxRedirects : ℕ := 8

namespace ClientCall

/-- What a client makes of what it reads: it goes on or is done. -/
def received (written : Bytes) : Forwarding.Reply String (Except CallFailure Response) :=
  match (readFrame written).1 with
  | .error failure => .answer (.error (.io failure))
  | .ok payload =>
      match decodeResponse payload with
      | .error message => .answer (.error (.malformed message))
      | .ok (.redirect next) => .forward next
      | .ok response => .answer (.ok response)

variable (nodes : ComputeCluster Resident) (call : ClientCall)

/-- One connection. -/
def visit (address : String) (cluster : QuietCluster Resident) :
    Option (Forwarding.Reply String (Except CallFailure Response) × QuietCluster Resident) :=
  match nodes.listener address with
  | none => some (.answer (.error (.unreachable address)), cluster)
  | some node =>
      match writeFrame [] (encodeRequest call.request) with
      | .error failure => some (.answer (.error (.io failure)), cluster)
      | .ok sent =>
          (nodes.handleConnection node call sent cluster).map fun (written, next) =>
            (received written, next)

/-- Sends the request and follows the redirects. -/
def run (cluster : QuietCluster Resident) :
    Option (Except CallFailure Response × QuietCluster Resident) :=
  (Forwarding.follow (call.visit nodes) maxRedirects call.address cluster).map fun (reply, next) =>
    (match reply with
      | .forward address => .error (.gaveUp address)
      | .answer outcome => outcome, next)

end ClientCall

/-! ## What is read -/

/-- What is written is read again, or fails to be read. -/
theorem readFrame_writeFrame {payload bytes : Bytes} (wrote : writeFrame [] payload = .ok bytes) :
    (readFrame bytes).1 = .ok payload ∨ ∃ failure, (readFrame bytes).1 = .error failure := by
  rcases writeFrame_eq_ok.mp wrote with ⟨fits, rfl⟩
  have read := readFrame_frame fits []
  rw [List.append_nil] at read
  rw [List.nil_append, read]
  split
  · exact Or.inl rfl
  · exact Or.inr ⟨_, rfl⟩

theorem readFrame_writeFrame_short {payload bytes : Bytes}
    (wrote : writeFrame [] payload = .ok bytes) (short : payload.length ≤ Protocol.maxFrameLen) :
    (readFrame bytes).1 = .ok payload := by
  rcases writeFrame_eq_ok.mp wrote with ⟨fits, rfl⟩
  have read := readFrame_frame fits []
  rw [List.append_nil] at read
  rw [List.nil_append, read, if_pos short]

theorem writeFrame_short {payload : Bytes} (short : payload.length ≤ Protocol.maxFrameLen) :
    ∃ bytes, writeFrame [] payload = .ok bytes := by
  have fits : payload.length < 2 ^ 32 := Nat.lt_of_le_of_lt short (by decide)
  exact ⟨_, writeFrame_eq_ok.mpr ⟨fits, rfl⟩⟩

/-- A response whose lengths fit and that fits in a frame. -/
structure Protocol.Response.Sendable (response : Response) : Prop where
  fits : response.Fits
  short : (encodeResponse response).length ≤ Protocol.maxFrameLen

/-- A request whose lengths fit and that fits in a frame. -/
structure Protocol.Request.Sendable (request : Request) : Prop where
  fits : request.Fits
  short : (encodeRequest request).length ≤ Protocol.maxFrameLen

theorem decodeRequest_encodeRequest {request : Request} (fits : request.Fits) :
    decodeRequest (encodeRequest request) = .ok request :=
  decodeRequest_eq_ok.mpr ⟨fits, [], (List.append_nil _).symm, Or.inl rfl⟩

theorem decodeResponse_encodeResponse {response : Response} (fits : response.Fits) :
    decodeResponse (encodeResponse response) = .ok response :=
  decodeResponse_eq_ok.mpr ⟨fits, [], (List.append_nil _).symm, Or.inl rfl⟩

theorem length_le_putBytes (bytes : Bytes) : bytes.length ≤ (putBytes bytes).length := by
  simp [putBytes]

theorem length_le_putIdList (ids : List DatumId) : ids.length ≤ (putIdList ids).length := by
  have each : ids.length ≤ (ids.map fun id => id.asBytes.length).sum := by
    induction ids with
    | nil => simp
    | cons id ids ih =>
        rw [List.map_cons, List.sum_cons, DatumId.length_asBytes, List.length_cons]
        omega
  simp only [putIdList, putCounted, List.length_append, List.length_flatMap]
  omega

/-- A request that a node serves and whose encoding can be written has lengths that fit. -/
theorem fits_of_written {request : Request} {sent : Bytes}
    (wrote : writeFrame [] (encodeRequest request) = .ok sent) :
    request.Fits ∨ request.serve = .drop := by
  have short := (writeFrame_eq_ok.mp wrote).1
  simp only [encodeRequest, List.length_cons] at short
  cases request with
  | op opId opName datumIds payload =>
      left
      have name := length_le_putBytes (ByteString.ofString opName)
      have ids := length_le_putIdList datumIds
      simp only [Request.fields, putText, List.length_append] at short
      exact ⟨by unfold TextFits BytesFit; omega, by unfold IdsFit; omega⟩
  | lbExecute boardId className operation =>
      left
      have name := length_le_putBytes (ByteString.ofString className)
      simp only [Request.fields, putText, List.length_append] at short
      refine ⟨by unfold TextFits BytesFit; omega, ?_⟩
      cases operation with
      | update playerId display rankKey friendIds top window =>
          have shown := length_le_putBytes display
          have ids := length_le_putIdList friendIds
          simp only [encodeLbExecuteOp, List.length_cons, List.length_append] at short
          exact ⟨by unfold BytesFit; omega, by unfold IdsFit; omega⟩
      | remove playerId => trivial
  | lbQuery boardId className query =>
      left
      have name := length_le_putBytes (ByteString.ofString className)
      have ids := length_le_putIdList query.friendIds
      simp only [Request.fields, putText, List.length_append, encodeLbQueryReq] at short
      exact ⟨by unfold TextFits BytesFit; omega, by unfold LbQueryFits IdsFit; omega⟩
  | tkExecute entityDatumId className operation =>
      left
      have name := length_le_putBytes (ByteString.ofString className)
      simp only [Request.fields, putText, List.length_append] at short
      refine ⟨by unfold TextFits BytesFit; omega, ?_⟩
      cases operation with
      | set subKey asOf value =>
          have key := length_le_putBytes subKey
          have content := length_le_putBytes value
          simp only [encodeTkOp, List.length_cons, List.length_append] at short
          exact ⟨by unfold BytesFit; omega, by unfold BytesFit; omega⟩
      | clear subKey asOf =>
          have key := length_le_putBytes subKey
          simp only [encodeTkOp, List.length_cons, List.length_append] at short
          change subKey.length < 2 ^ 32
          omega
  | tkQuery entityDatumId className query =>
      left
      have name := length_le_putBytes (ByteString.ofString className)
      simp only [Request.fields, putText, List.length_append] at short
      refine ⟨by unfold TextFits BytesFit; omega, ?_⟩
      cases query with
      | snapshotAt => trivial
      | asOf subKey | current subKey | history subKey | range subKey =>
          have key := length_le_putBytes subKey
          simp only [encodeTkQueryReq, List.length_cons, List.length_append] at short
          change subKey.length < 2 ^ 32
          omega
  | rkQuery | existsCheck | fkPending | extentQuery | partitionUpdate | pause => exact Or.inl trivial
  | _ => exact Or.inr rfl

/-- Requests that no handler of clients serves are told from the others by their opcodes. -/
theorem serve_eq_drop_iff {request : Request} :
    request.serve = .drop ↔ request.opcode ∈ [2, 3, 4, 5, 15, 16, 17, 18, 19] := by
  cases request with
  | fkPending target operation => cases operation <;> simp [Request.serve, Request.opcode]
  | _ => simp [Request.serve, Request.opcode]

/-- A node reads what was written, or a request that no handler of clients serves. -/
theorem Protocol.Request.decoded_cases {request read : Request} {sent : Bytes}
    (wrote : writeFrame [] (encodeRequest request) = .ok sent)
    (decoded : decodeRequest (encodeRequest request) = .ok read) :
    read = request ∨ read.serve = .drop := by
  rcases fits_of_written wrote with fits | dropped
  · rw [decodeRequest_encodeRequest fits] at decoded
    cases decoded
    exact Or.inl rfl
  · right
    rcases decodeRequest_eq_ok.mp decoded with ⟨-, rest, same, -⟩
    have opcodes : request.opcode = read.opcode := (List.cons.inj (List.cons.inj same).2).1
    rw [serve_eq_drop_iff] at dropped ⊢
    rwa [← opcodes]

/-- Only a redirect is taken for one. -/
theorem redirect_of_decoded {response : Response} {next : String}
    (decoded : decodeResponse (encodeResponse response) = .ok (.redirect next)) :
    ∃ address, response = .redirect address := by
  rcases decodeResponse_eq_ok.mp decoded with ⟨-, rest, same, -⟩
  have opcodes : response.opcode = 1 := (List.cons.inj (List.cons.inj same).2).1
  cases response with
  | redirect address => exact ⟨address, rfl⟩
  | _ => cases opcodes

namespace ClientCall

theorem redirect_of_forward {response : Option Response} {next : String}
    (forwards : received (ComputeCluster.written response) = .forward next) :
    ∃ address, response = some (.redirect address) := by
  cases response with
  | none => cases forwards
  | some response =>
      unfold ComputeCluster.written at forwards
      dsimp only at forwards
      split at forwards
      · cases forwards
      · rename_i bytes wrote
        unfold received at forwards
        rcases readFrame_writeFrame wrote with read | ⟨failure, read⟩
        · rw [read] at forwards
          dsimp only at forwards
          split at forwards
          · cases forwards
          · rename_i decoded
            rcases redirect_of_decoded decoded with ⟨address, rfl⟩
            exact ⟨address, rfl⟩
          · cases forwards
        · rw [read] at forwards
          cases forwards

theorem received_redirect {address : String} (sendable : (Response.redirect address).Sendable) :
    received (ComputeCluster.written (some (.redirect address))) = .forward address := by
  rcases writeFrame_short sendable.short with ⟨bytes, wrote⟩
  simp only [received, ComputeCluster.written, wrote, readFrame_writeFrame_short wrote
    sendable.short, decodeResponse_encodeResponse sendable.fits]

theorem received_response {response : Response} (sendable : response.Sendable)
    (final : ∀ address, response ≠ .redirect address) :
    received (ComputeCluster.written (some response)) = .answer (.ok response) := by
  rcases writeFrame_short sendable.short with ⟨bytes, wrote⟩
  simp only [received, ComputeCluster.written, wrote, readFrame_writeFrame_short wrote
    sendable.short, decodeResponse_encodeResponse sendable.fits]

end ClientCall

/-! ## One call -/

/-- No response is a redirect. -/
def Served.Final : Served → Prop
  | .respond response => ∀ address, response ≠ .redirect address
  | .runIndexQuery _ _ _ makes => ∀ outcome address, makes outcome ≠ .redirect address
  | .runIndexExecute _ _ _ makes => ∀ outcome address, makes outcome ≠ .redirect address
  | _ => True

/-- What a worker thread is asked for a request, if it gets that far. -/
def Protocol.Request.asks (request : Request) : Option ClientRequest := request.serve.asked

/-- The datums by which a request is routed. -/
def ClientRequest.datumIds : ClientRequest → List DatumId
  | .op _ _ datumIds _ => datumIds
  | .indexQuery target _ _ => [target]
  | .indexExecute target _ _ => [target]
  | .existsCheck datumId => [datumId]

theorem Protocol.Request.final_serve (request : Request) : request.serve.Final := by
  cases request with
  | rkQuery | lbExecute | lbQuery | tkExecute | tkQuery | extentQuery | partitionUpdate =>
      exact resultResponse_ne_redirect (by rintro _ _ ⟨⟩)
  | fkPending target operation =>
      cases operation with
      | list | remove => exact resultResponse_ne_redirect (by rintro _ _ ⟨⟩)
      | insert => rintro _ ⟨⟩
  | _ => exact trivial

theorem Protocol.Request.datumIds_of_asks {request : Request} {asked : ClientRequest}
    (asks : request.asks = some asked) : asked.datumIds = request.datumIds := by
  cases request with
  | fkPending target operation =>
      cases operation with
      | insert => cases asks
      | list =>
          cases asks
          rfl
      | remove =>
          cases asks
          rfl
  | _ =>
      cases asks
      try rfl

namespace ComputeCluster

variable {nodes : ComputeCluster Resident} {node : NodeId} {call : ClientCall} {served : Served}
  {response : Option Response} {cluster next : QuietCluster Resident}

/-- A thread has run the request, or there is none. -/
theorem onThread_cases {request : ClientRequest}
    {run : QuietCluster Resident → Option (Response × QuietCluster Resident)}
    (ran : nodes.onThread node request cluster run = some (response, next)) :
    (response = none ∧ next = cluster ∧ ¬nodes.destination node request < nodes.threads node) ∨
    ∃ reply, response = some reply ∧ run (cluster.record node request) = some (reply, next) := by
  unfold onThread at ran
  split at ran
  · rcases Option.map_eq_some_iff.mp ran with ⟨⟨reply, after⟩, answered, same⟩
    cases same
    exact Or.inr ⟨reply, rfl, answered⟩
  · rename_i none_
    cases ran
    exact Or.inl ⟨rfl, rfl, none_⟩

theorem final_of_respond (final : served.Final)
    (responds : nodes.respond node call served cluster = some (response, next)) (address : String) :
    response ≠ some (.redirect address) := by
  unfold respond at responds
  cases served with
  | respond own =>
      cases responds
      exact fun same => final address (Option.some.inj same)
  | runOp opId opName datumIds payload =>
      rcases onThread_cases responds with ⟨rfl, -⟩ | ⟨reply, rfl, ran⟩
      · rintro ⟨⟩
      · rcases Option.map_eq_some_iff.mp ran with ⟨⟨result, after⟩, -, same⟩
        cases same
        cases result <;> rintro ⟨⟩
  | runIndexQuery target indexKind query respond =>
      rcases onThread_cases responds with ⟨rfl, -⟩ | ⟨reply, rfl, ran⟩
      · rintro ⟨⟩
      · cases ran
        exact fun same => final _ address (Option.some.inj same)
  | runIndexExecute target indexKind payload respond =>
      rcases onThread_cases responds with ⟨rfl, -⟩ | ⟨reply, rfl, ran⟩
      · rintro ⟨⟩
      · cases ran
        exact fun same => final _ address (Option.some.inj same)
  | runExistsCheck datumId =>
      rcases onThread_cases responds with ⟨rfl, -⟩ | ⟨reply, rfl, ran⟩
      · rintro ⟨⟩
      · cases ran
        rintro ⟨⟩
  | admin => cases responds
  | drop =>
      cases responds
      rintro ⟨⟩

/-- The record grows by what a thread was asked, or by nothing if the node has no such thread. -/
theorem asked_of_respond
    (responds : nodes.respond node call served cluster = some (response, next)) :
    (next = cluster ∧ ∃ request, served.asked = some request ∧
      ¬nodes.destination node request < nodes.threads node) ∨
    next.asked = cluster.asked ++ (served.asked.map fun request => (node, request)).toList := by
  unfold respond at responds
  cases served with
  | runOp opId opName datumIds payload =>
      rcases onThread_cases responds with ⟨-, rfl, none_⟩ | ⟨reply, -, ran⟩
      · exact Or.inl ⟨rfl, _, rfl, none_⟩
      · rcases Option.map_eq_some_iff.mp ran with ⟨⟨result, after⟩, runs, same⟩
        cases same
        rcases Option.map_eq_some_iff.mp runs with ⟨⟨outcome, database⟩, -, withDatabase⟩
        cases withDatabase
        exact Or.inr rfl
  | admin => cases responds
  | respond =>
      cases responds
      exact Or.inr (List.append_nil _).symm
  | drop =>
      cases responds
      exact Or.inr (List.append_nil _).symm
  | _ =>
      rcases onThread_cases responds with ⟨-, rfl, none_⟩ | ⟨reply, -, ran⟩
      · exact Or.inl ⟨rfl, _, rfl, none_⟩
      · cases ran
        exact Or.inr rfl

end ComputeCluster

namespace ClientCall

variable {nodes : ComputeCluster Resident} {node : NodeId} {call : ClientCall} {address : String}
  {cluster next : QuietCluster Resident}

/-- A visit fails before anything is done, or a node has handled what it has read. -/
theorem visit_cases {reply : Forwarding.Reply String (Except CallFailure Response)}
    (visited : call.visit nodes address cluster = some (reply, next)) :
    ((∃ failure, reply = .answer (.error failure)) ∧ next = cluster) ∨
    reply = received (ComputeCluster.written none) ∧ next = cluster ∨
    ∃ node request response, nodes.listener address = some node ∧
      (request = call.request ∨ request.serve = .drop) ∧
      nodes.respond node call ((nodes.frontends node).handle nodes.hash request) cluster =
        some (response, next) ∧ reply = received (ComputeCluster.written response) := by
  unfold visit at visited
  split at visited
  · cases visited
    exact Or.inl ⟨⟨_, rfl⟩, rfl⟩
  · rename_i node listens
    split at visited
    · cases visited
      exact Or.inl ⟨⟨_, rfl⟩, rfl⟩
    · rename_i sent wrote
      rcases Option.map_eq_some_iff.mp visited with ⟨⟨bytes, after⟩, handled, same⟩
      cases same
      unfold ComputeCluster.handleConnection at handled
      rcases readFrame_writeFrame wrote with read | ⟨failure, read⟩
      · rw [read] at handled
        dsimp only at handled
        split at handled
        · cases handled
          exact Or.inr (Or.inl ⟨rfl, rfl⟩)
        · rename_i request decoded
          rcases Option.map_eq_some_iff.mp handled with ⟨⟨response, after⟩, responds, same⟩
          cases same
          exact Or.inr (Or.inr ⟨node, request, response, listens,
            Protocol.Request.decoded_cases wrote decoded, responds, rfl⟩)
      · rw [read] at handled
        cases handled
        exact Or.inr (Or.inl ⟨rfl, rfl⟩)

/-- A node that redirects does nothing else. -/
theorem idle_visit : Forwarding.Idle (call.visit nodes) := by
  intro place cluster onward after forwards
  rcases visit_cases forwards with ⟨⟨failure, impossible⟩, -⟩ | ⟨-, rfl⟩ |
    ⟨node, request, response, listens, -, responds, received⟩
  · cases impossible
  · rfl
  · rcases redirect_of_forward received.symm with ⟨address, rfl⟩
    rcases Frontend.handle_cases nodes.hash (nodes.frontends node) request with
      ⟨-, admin⟩ | ⟨message, refused⟩ | ⟨other, named, -, -, -, redirected⟩ | ⟨-, served⟩
    · rw [admin] at responds
      cases responds
    · rw [refused] at responds
      cases responds
    · rw [redirected] at responds
      cases responds
      rfl
    · rw [served] at responds
      exact absurd rfl (ComputeCluster.final_of_respond request.final_serve responds address)

/-- A call changes nothing, or a node that is to serve it has, once. -/
theorem run_cases {outcome : Except CallFailure Response}
    (ran : call.run nodes cluster = some (outcome, next)) :
    next = cluster ∨ ∃ node response,
      (nodes.frontends node).ServesHere nodes.hash call.request.datumIds ∧
        nodes.respond node call call.request.serve cluster = some (response, next) := by
  rcases Option.map_eq_some_iff.mp ran with ⟨⟨reply, after⟩, followed, same⟩
  cases same
  rcases Forwarding.follow_cases idle_visit followed with
    ⟨last, -, ⟨-, unchanged⟩ | ⟨answer, -, visited⟩⟩
  · exact Or.inl unchanged
  · rcases visit_cases visited with ⟨-, unchanged⟩ | ⟨-, unchanged⟩ |
      ⟨node, request, response, -, sent, responds, -⟩
    · exact Or.inl unchanged
    · exact Or.inl unchanged
    · rcases Frontend.handle_cases nodes.hash (nodes.frontends node) request with
        ⟨-, admin⟩ | ⟨message, refused⟩ | ⟨other, named, -, -, -, redirected⟩ | ⟨servesHere, served⟩
      · rw [admin] at responds
        cases responds
      · rw [refused] at responds
        cases responds
        exact Or.inl rfl
      · rw [redirected] at responds
        cases responds
        exact Or.inl rfl
      · rw [served] at responds
        rcases sent with rfl | dropped
        · exact Or.inr ⟨node, response, servesHere, responds⟩
        · rw [dropped] at responds
          cases responds
          exact Or.inl rfl

end ClientCall

/-! ## Many calls -/

open Transition

/-- Calls of clients, one after another. -/
def clientSystem (nodes : ComputeCluster Resident) : System (QuietCluster Resident) ClientCall where
  init := (· = QuietCluster.empty)
  step := fun cluster call => (call.run nodes cluster).map Prod.snd

/-- What a call adds to the record: nothing, or its request, at a node that serves it itself. -/
theorem asked_step {nodes : ComputeCluster Resident} {call : ClientCall}
    {cluster next : QuietCluster Resident}
    (stepped : (clientSystem nodes).step cluster call = some next) :
    next.asked = cluster.asked ∨ ∃ node request, call.request.asks = some request ∧
      (nodes.frontends node).ServesHere nodes.hash request.datumIds ∧
      next.asked = cluster.asked ++ [(node, request)] := by
  rcases Option.map_eq_some_iff.mp stepped with ⟨⟨outcome, after⟩, ran, same⟩
  cases same
  rcases ClientCall.run_cases ran with unchanged | ⟨node, response, servesHere, responds⟩
  · exact Or.inl (congrArg QuietCluster.asked unchanged)
  · rcases ComputeCluster.asked_of_respond responds with ⟨unchanged, -⟩ | grown
    · exact Or.inl (congrArg QuietCluster.asked unchanged)
    · cases asks : call.request.asks with
      | none =>
          left
          rw [grown, show call.request.serve.asked = none from asks]
          exact List.append_nil _
      | some request =>
          right
          refine ⟨node, request, rfl, ?_, ?_⟩
          · rw [Protocol.Request.datumIds_of_asks asks]
            exact servesHere
          · rw [grown, show call.request.serve.asked = some request from asks]
            rfl

/-- However the rings, address books and threads of the nodes differ: in every run of calls, worker
threads are asked at most what each call asks, in the order of the calls and each once, and only at a
node that sees no other node to which all the datums are native. -/
theorem calls_ask_at_most_once (nodes : ComputeCluster Resident) {calls : List ClientCall}
    {cluster : QuietCluster Resident}
    (executed : (clientSystem nodes).exec QuietCluster.empty calls = some cluster) :
    (cluster.asked.map Prod.snd).Sublist (calls.filterMap fun call => call.request.asks) ∧
      ∀ entry ∈ cluster.asked,
        (nodes.frontends entry.1).ServesHere nodes.hash entry.2.datumIds := by
  induction calls using List.reverseRecOn generalizing cluster with
  | nil =>
      cases executed
      exact ⟨List.Sublist.slnil, by rintro entry ⟨⟩⟩
  | append_singleton calls call ih =>
      rw [System.exec_append] at executed
      rcases Option.bind_eq_some_iff.mp executed with ⟨before, ran, last⟩
      simp only [System.exec, Option.bind_fun_some] at last
      have earlier := ih ran
      rw [List.filterMap_append]
      rcases asked_step last with same | ⟨node, request, asks, servesHere, grown⟩
      · rw [same]
        exact ⟨earlier.1.trans (List.sublist_append_left _ _), earlier.2⟩
      · rw [grown, List.map_append]
        refine ⟨earlier.1.append ?_, ?_⟩
        · simp [asks]
        · intro entry entryMem
          rcases List.mem_append.mp entryMem with old | added
          · exact earlier.2 entry old
          · cases List.mem_singleton.mp added
            exact servesHere

/-! ## Nodes that agree -/

/-- The nodes that listen serve, have one ring and the threads it gives them, and know where the
others listen. -/
structure ComputeCluster.Agreed (nodes : ComputeCluster Resident) (ring : Ring) : Prop where
  same : ∀ address node, nodes.listener address = some node → (nodes.frontends node).ring = ring
  self : ∀ address node, nodes.listener address = some node →
    (nodes.frontends node).selfNodeId = node
  serving : ∀ address node, nodes.listener address = some node →
    (nodes.frontends node).halt.gate = none
  addressed : ∀ address node, nodes.listener address = some node → ∀ id, ∃ other,
    (nodes.frontends node).addressBook (ring.native nodes.hash id).1 = some other ∧
      nodes.listener other = some (ring.native nodes.hash id).1 ∧
      (Response.redirect other).Sendable
  threads : ∀ address node, nodes.listener address = some node → ∀ id,
    (ring.native nodes.hash id).1 = node → (ring.native nodes.hash id).2 < nodes.threads node

/-- The node has the thread that is to run a request, if one is. -/
def ComputeCluster.Staffed (nodes : ComputeCluster Resident) (node : NodeId) (request : Request) :
    Prop :=
  ∀ asked, request.asks = some asked → nodes.destination node asked < nodes.threads node

/-- A call that the nodes can take: it is sent to one of them and is no business of the control
plane, and an op whose datums are not all native to one node finds its thread where it is sent. -/
structure ClientCall.Proper (nodes : ComputeCluster Resident) (call : ClientCall) : Prop where
  listens : ∃ node, nodes.listener call.address = some node
  client : isAdmin call.request = false
  sendable : call.request.Sendable
  staffed : ∀ node, nodes.listener call.address = some node →
    (∀ other, nativeNodes nodes.hash (nodes.frontends node).ring call.request.datumIds ≠ [other]) →
    nodes.Staffed node call.request

theorem exists_native {hash : ℕ → ℕ → ℕ} {ring : Ring} {datumIds : List DatumId} {node : NodeId}
    (native : nativeNodes hash ring datumIds = [node]) :
    ∃ id ∈ datumIds, (ring.native hash id).1 = node := by
  have nodeMem : node ∈ nativeNodes hash ring datumIds := by
    rw [native]
    exact List.mem_singleton_self node
  exact List.mem_map.mp (List.mem_dedup.mp nodeMem)

/-- A node has the threads for the requests whose datums are native to it. -/
theorem ComputeCluster.Agreed.staffed {nodes : ComputeCluster Resident} {ring : Ring} {node : NodeId}
    {address : String} {request : Request} (agreed : nodes.Agreed ring)
    (listens : nodes.listener address = some node)
    (native : nativeNodes nodes.hash ring request.datumIds = [node]) :
    nodes.Staffed node request := by
  intro asked asks
  have here : ∀ id ∈ request.datumIds, (ring.native nodes.hash id).1 = node := by
    intro id idMem
    have nodeMem : (ring.native nodes.hash id).1 ∈ nativeNodes nodes.hash ring request.datumIds :=
      List.mem_dedup.mpr (List.mem_map.mpr ⟨id, idMem, rfl⟩)
    rwa [native, List.mem_singleton] at nodeMem
  have has := agreed.threads _ _ listens
  rw [← Protocol.Request.datumIds_of_asks asks] at here native
  cases asked with
  | op opId opName datumIds payload =>
      rw [ComputeCluster.destination, agreed.same _ _ listens]
      rcases pickDestinationThread_spec nodes.hash ring datumIds with ⟨none_, -⟩ | ⟨picked, -⟩
      · rcases exists_native native with ⟨id, idMem, -⟩
        rw [nativeThreads, List.map_eq_nil_iff] at none_
        change id ∈ datumIds at idMem
        rw [none_] at idMem
        cases idMem
      · rcases List.mem_map.mp picked with ⟨id, idMem, isThread⟩
        rw [← isThread]
        exact has id (here id idMem)
  | indexQuery target | indexExecute target | existsCheck target =>
      change ((nodes.frontends node).ring.native nodes.hash target).2 < nodes.threads node
      rw [agreed.same _ _ listens]
      exact has target (here target (List.mem_singleton_self target))

namespace ClientCall

variable {nodes : ComputeCluster Resident} {node : NodeId} {call : ClientCall} {address : String}
  {ring : Ring}

/-- What the client returns of a final response. -/
def delivered (response : Option Response) : Except CallFailure Response :=
  match received (ComputeCluster.written response) with
  | .forward address => .error (.gaveUp address)
  | .answer outcome => outcome

theorem delivered_of_sendable {response : Response} (sendable : response.Sendable)
    (final : ∀ address, response ≠ .redirect address) :
    delivered (some response) = .ok response := by
  simp only [delivered, received_response sendable final]

/-- A request that arrives is handled. -/
theorem visit_of_listens (listens : nodes.listener address = some node)
    (sendable : call.request.Sendable) (cluster : QuietCluster Resident) :
    call.visit nodes address cluster =
      (nodes.respond node call ((nodes.frontends node).handle nodes.hash call.request) cluster).map
        fun (response, next) => (received (ComputeCluster.written response), next) := by
  rcases writeFrame_short sendable.short with ⟨sent, wrote⟩
  simp only [visit, listens, wrote, ComputeCluster.handleConnection,
    readFrame_writeFrame_short wrote sendable.short, decodeRequest_encodeRequest sendable.fits,
    Option.map_map, Function.comp_def]

/-- The node that serves the datums itself ends the call. -/
theorem follow_of_servesHere (listens : nodes.listener address = some node)
    (sendable : call.request.Sendable) (serving : (nodes.frontends node).halt.gate = none)
    (client : isAdmin call.request = false)
    (servesHere : (nodes.frontends node).ServesHere nodes.hash call.request.datumIds)
    (cluster : QuietCluster Resident) {visits : ℕ} (some_ : 0 < visits) :
    Forwarding.follow (call.visit nodes) visits address cluster =
      (nodes.respond node call call.request.serve cluster).map fun (response, next) =>
        (.answer (delivered response), next) := by
  have visited := visit_of_listens listens sendable cluster
  rw [Frontend.handle_of_servesHere serving client servesHere] at visited
  cases responds : nodes.respond node call call.request.serve cluster with
  | none =>
      rw [responds] at visited
      cases visits with
      | zero => exact absurd some_ (Nat.lt_irrefl 0)
      | succ visits => simp only [Forwarding.follow, visited, Option.map_none]
  | some answered =>
      rcases answered with ⟨response, next⟩
      rw [responds] at visited
      have final := ComputeCluster.final_of_respond call.request.final_serve responds
      have answers : call.visit nodes address cluster =
          some (.answer (delivered response), next) := by
        rw [visited, Option.map_some]
        unfold delivered
        cases reply : received (ComputeCluster.written response) with
        | forward other =>
            rcases redirect_of_forward reply with ⟨named, isRedirect⟩
            exact absurd isRedirect (final named)
        | answer outcome =>
            dsimp only
            rw [reply]
      rw [Forwarding.follow_of_answer answers some_]
      rfl

/-- Nodes that agree serve a call where its datums are native, at once or after one redirect, and
have the thread for it. -/
theorem run_of_agreed (agreed : nodes.Agreed ring) (proper : call.Proper nodes) :
    ∃ other place, nodes.listener place = some other ∧
      (nodes.frontends other).ServesHere nodes.hash call.request.datumIds ∧
      nodes.Staffed other call.request ∧
      ∀ cluster, call.run nodes cluster =
        (nodes.respond other call call.request.serve cluster).map fun (response, next) =>
          (delivered response, next) := by
  rcases proper.listens with ⟨node, listens⟩
  have client := proper.client
  have sendable := proper.sendable
  have shown : ∀ cluster (other : NodeId),
      Forwarding.follow (call.visit nodes) maxRedirects call.address cluster =
        ((nodes.respond other call call.request.serve cluster).map fun (response, next) =>
          (.answer (delivered response), next)) →
      call.run nodes cluster =
        (nodes.respond other call call.request.serve cluster).map fun (response, next) =>
          (delivered response, next) := by
    intro cluster other followed
    rw [run, followed, Option.map_map]
    rfl
  by_cases servesHere : (nodes.frontends node).ServesHere nodes.hash call.request.datumIds
  · have staffed : nodes.Staffed node call.request := by
      by_cases spread : ∀ other,
          nativeNodes nodes.hash (nodes.frontends node).ring call.request.datumIds ≠ [other]
      · exact proper.staffed node listens spread
      · simp only [ne_eq, not_forall, not_not] at spread
        rcases spread with ⟨only, native⟩
        rw [servesHere only native, agreed.self _ _ listens, agreed.same _ _ listens] at native
        exact agreed.staffed listens native
    refine ⟨node, call.address, listens, servesHere, staffed, fun cluster => shown cluster node ?_⟩
    exact follow_of_servesHere listens sendable (agreed.serving _ _ listens) client servesHere cluster
      (by decide)
  · simp only [Frontend.ServesHere, not_forall] at servesHere
    rcases servesHere with ⟨other, native, foreign⟩
    rcases exists_native native with ⟨id, -, isNative⟩
    rw [agreed.same _ _ listens] at isNative
    rcases agreed.addressed _ _ listens id with ⟨place, booked, there, redirects⟩
    rw [isNative] at booked there
    have servesThere : (nodes.frontends other).ServesHere nodes.hash call.request.datumIds := by
      intro found nativeThere
      rw [agreed.same _ _ there, ← agreed.same _ _ listens, native] at nativeThere
      cases nativeThere
      exact (agreed.self _ _ there).symm
    have staffed : nodes.Staffed other call.request :=
      agreed.staffed there (by rw [← agreed.same _ _ listens]; exact native)
    refine ⟨other, place, there, servesThere, staffed, fun cluster => shown cluster other ?_⟩
    have forwards : Forwarding.Forwards (call.visit nodes) cluster call.address place := by
      unfold Forwarding.Forwards
      rw [visit_of_listens listens sendable,
        Frontend.handle_of_foreign (agreed.serving _ _ listens) client native foreign,
        Frontend.redirectTo, booked]
      simp only [ComputeCluster.respond, Option.map_some, received_redirect redirects]
    rw [maxRedirects, Forwarding.follow_of_forwards forwards]
    exact follow_of_servesHere there sendable (agreed.serving _ _ there) client servesThere cluster
      (by decide)

end ClientCall

/-- Where the nodes agree, worker threads are asked exactly what the calls ask, in their order, and
always at the native node where there is one for all datums: whichever node a call is sent to. -/
theorem calls_ask_exactly_once (nodes : ComputeCluster Resident) (ring : Ring)
    (agreed : nodes.Agreed ring) {calls : List ClientCall} {cluster : QuietCluster Resident}
    (proper : ∀ call ∈ calls, call.Proper nodes)
    (executed : (clientSystem nodes).exec QuietCluster.empty calls = some cluster) :
    cluster.asked.map Prod.snd = (calls.filterMap fun call => call.request.asks) ∧
      ∀ entry ∈ cluster.asked, ∀ node,
        nativeNodes nodes.hash ring entry.2.datumIds = [node] → entry.1 = node := by
  induction calls using List.reverseRecOn generalizing cluster with
  | nil =>
      cases executed
      exact ⟨rfl, by rintro entry ⟨⟩⟩
  | append_singleton calls call ih =>
      rw [System.exec_append] at executed
      rcases Option.bind_eq_some_iff.mp executed with ⟨before, ran, last⟩
      simp only [System.exec, Option.bind_fun_some] at last
      have earlier := ih (fun other otherMem => proper other (List.mem_append_left _ otherMem)) ran
      have callProper := proper call (List.mem_append_right _ (List.mem_singleton_self call))
      rcases ClientCall.run_of_agreed agreed callProper with
        ⟨node, place, there, servesHere, staffed, runs⟩
      rcases Option.map_eq_some_iff.mp last with ⟨⟨outcome, next⟩, called, same⟩
      cases same
      rw [runs] at called
      rcases Option.map_eq_some_iff.mp called with ⟨⟨response, next⟩, responds, same⟩
      cases same
      have grown : next.asked = before.asked ++
          (call.request.asks.map fun request => (node, request)).toList := by
        rcases ComputeCluster.asked_of_respond responds with ⟨-, request, asks, none_⟩ | grown
        · exact absurd (staffed request asks) none_
        · exact grown
      constructor
      · rw [grown, List.map_append, earlier.1, List.filterMap_append]
        cases asks : call.request.asks <;> simp [asks]
      · intro entry entryMem other native
        rw [grown] at entryMem
        rcases List.mem_append.mp entryMem with old | added
        · exact earlier.2 entry old other native
        · cases asks : call.request.asks with
          | none =>
              rw [asks] at added
              cases added
          | some request =>
              rw [asks] at added
              cases List.mem_singleton.mp added
              rw [Protocol.Request.datumIds_of_asks asks] at native
              rw [← agreed.same _ _ there] at native
              rw [servesHere other native, agreed.self _ _ there]

/-! ## Two nodes -/

/-- The ninth byte of an id says by its parity which of the two nodes the datum is native to. -/
def frontRing : Ring := Ring.fromMembers [(0, 1), (1, 1)]

def frontAddress (node : NodeId) : Option String :=
  if node = 0 then some "a" else if node = 1 then some "b" else none

def frontNodes : ComputeCluster (TypedResident TreeResident) where
  hash := fun key slots => key % slots
  kinds := residentKinds
  ops := fun _ => none
  frontends := fun node => ⟨node, frontRing, frontAddress, HaltState.new⟩
  threads := fun _ => 1
  listener := fun address =>
    if address = "a" then some 0 else if address = "b" then some 1 else none

/-- Two checks at the first node, of a datum of the other and of one of its own. -/
def frontCalls : List ClientCall :=
  [⟨"a", .existsCheck (2 ^ 56), Cache.empty, []⟩, ⟨"a", .existsCheck 2, Cache.empty, []⟩]

theorem native_front (id : DatumId) : frontRing.native frontNodes.hash id = (0, 0) ∨
    frontRing.native frontNodes.hash id = (1, 0) := by
  have parity : hashKey id % 2 = 0 ∨ hashKey id % 2 = 1 := by omega
  have slots : frontRing.slots = [(0, 0), (1, 0)] := rfl
  rcases parity with even | odd
  · left
    simp [Ring.native, slots, frontNodes, even]
  · right
    simp [Ring.native, slots, frontNodes, odd]

theorem agreed_front : frontNodes.Agreed frontRing := by
  have sendable : ∀ address, (ByteString.ofString address).length = 1 →
      (Response.redirect address).Sendable := by
    intro address one
    refine ⟨?_, ?_⟩
    · change (ByteString.ofString address).length < 2 ^ 32
      omega
    · simp [encodeResponse, Response.fields, putText, putBytes, one, Protocol.maxFrameLen]
  refine ⟨fun _ _ _ => rfl, fun _ _ _ => rfl, fun _ _ _ => rfl, fun _ _ _ id => ?_,
    fun _ _ _ id _ => ?_⟩
  · rcases native_front id with zero | one
    · rw [zero]
      exact ⟨"a", rfl, rfl, sendable "a" (by decide +kernel)⟩
    · rw [one]
      exact ⟨"b", rfl, rfl, sendable "b" (by decide +kernel)⟩
  · rcases native_front id with zero | one
    · rw [zero]
      exact one_pos
    · rw [one]
      exact one_pos

theorem proper_frontCalls : ∀ call ∈ frontCalls, call.Proper frontNodes := by
  intro call callMem
  have checks : ∃ datumId, call.address = "a" ∧ call.request = .existsCheck datumId := by
    fin_cases callMem
    · exact ⟨_, rfl, rfl⟩
    · exact ⟨_, rfl, rfl⟩
  rcases checks with ⟨datumId, isAddress, isRequest⟩
  refine ⟨⟨0, ?_⟩, ?_, ⟨?_, ?_⟩, ?_⟩
  · rw [isAddress]
    rfl
  · rw [isRequest]
    rfl
  · rw [isRequest]
    trivial
  · rw [isRequest]
    simp [encodeRequest, Request.fields, Protocol.maxFrameLen]
  · rw [isRequest]
    exact fun _ _ spread => absurd rfl (spread _)

theorem exec_frontCalls : ∃ cluster,
    (clientSystem frontNodes).exec QuietCluster.empty frontCalls = some cluster ∧
      cluster.asked = [(1, .existsCheck (2 ^ 56)), (0, .existsCheck 2)] := by
  have observed : ((clientSystem frontNodes).exec QuietCluster.empty frontCalls).map
      QuietCluster.asked = some [(1, .existsCheck (2 ^ 56)), (0, .existsCheck 2)] := by
    decide +kernel
  exact Option.map_eq_some_iff.mp observed

theorem calls_ask_at_most_once_two : ∃ cluster,
    (clientSystem frontNodes).exec QuietCluster.empty frontCalls = some cluster ∧
    (cluster.asked.map Prod.snd).Sublist [.existsCheck (2 ^ 56), .existsCheck 2] ∧
    ∀ entry ∈ cluster.asked,
      (frontNodes.frontends entry.1).ServesHere frontNodes.hash entry.2.datumIds := by
  rcases exec_frontCalls with ⟨cluster, executed, -⟩
  exact ⟨cluster, executed, calls_ask_at_most_once frontNodes executed⟩

theorem calls_ask_exactly_once_two : ∃ cluster,
    (clientSystem frontNodes).exec QuietCluster.empty frontCalls = some cluster ∧
    cluster.asked.map Prod.snd = [.existsCheck (2 ^ 56), .existsCheck 2] ∧
    ∀ entry ∈ cluster.asked, ∀ node,
      nativeNodes frontNodes.hash frontRing entry.2.datumIds = [node] → entry.1 = node := by
  rcases exec_frontCalls with ⟨cluster, executed, -⟩
  exact ⟨cluster, executed, calls_ask_exactly_once frontNodes frontRing agreed_front
    proper_frontCalls executed⟩

end Seisin
