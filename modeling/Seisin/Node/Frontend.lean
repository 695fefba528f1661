import Seisin.Node.Destination
import Seisin.Node.Gate
import Seisin.Protocol.Response

/-!
# Client connections

A connection handler answers a client's request itself or has a worker thread of its node run it.  A
request that concerns one datum is redirected to the node that the datum is native to; an op, if all
its datums are native to one other node.  Worker threads take and return bytes, so the handler encodes
what it asks and decodes what it is told; what is encoded how is defined once, in the protocol.
-/

namespace Seisin

open Protocol

/-- What the connection handlers of a node have at hand. -/
structure Frontend where
  selfNodeId : NodeId
  ring : Ring
  addressBook : NodeId → Option String
  halt : HaltState

/-- What a handler does with a request: it responds, has a worker thread run it and responds with what
is made of the result, leaves it to the control plane, or drops the connection. -/
inductive Served where
  | respond (response : Response)
  | runOp (opId : DatumId) (opName : String) (datumIds : List DatumId) (payload : Bytes)
  | runIndexQuery (target : DatumId) (indexKind : String) (query : Bytes)
      (respond : Except String Bytes → Response)
  | runIndexExecute (target : DatumId) (indexKind : String) (payload : Bytes)
      (respond : Except String Bytes → Response)
  | runExistsCheck (datumId : DatumId)
  | admin
  | drop

/-- Requests of the control plane, which are served while the gate is engaged. -/
def isAdmin : Request → Bool
  | .getClusterConfig => true
  | .pause _ => true
  | .resume => true
  | .clearHalt => true
  | .installStorageRing _ => true
  | _ => false

def opResponse : Except String Bytes → Response
  | .ok payload => .opResult payload
  | .error message => .opError message

/-- The response made of a result that has to be decoded. -/
def resultResponse {Result : Type} (what : String) (decode : Bytes → Except String Result)
    (respond : Result → Response) : Except String Bytes → Response
  | .ok bytes =>
      match decode bytes with
      | .ok result => respond result
      | .error message => .opError ("malformed " ++ what ++ ": " ++ message)
  | .error message => .opError message

def rkResultResponse : Except String Bytes → Response :=
  resultResponse "rk query result" decodeRkEntries .rkQueryResult

def lbResultResponse : Except String Bytes → Response :=
  resultResponse "lb result" decodeLbResult .lbResult

def tkResultResponse : Except String Bytes → Response :=
  resultResponse "tk result" decodeTkResult .tkResult

def fkPendingResponse : Except String Bytes → Response :=
  resultResponse "fk pending result" decodeFkEntries .fkPendingResult

def extentResponse (what : String) : Except String Bytes → Response :=
  resultResponse what decodeExtentResult fun result => .extentResult result.1 result.2

namespace Frontend

variable (hash : ℕ → ℕ → ℕ) (frontend : Frontend)

/-- Where a request for another node's datum is sent. -/
def redirectTo (node : NodeId) : Response :=
  match frontend.addressBook node with
  | some address => .redirect address
  | none => .opError ("no known address for node NodeId(" ++ toString node ++ ")")

def redirectIfForeign (datumId : DatumId) : Option Response :=
  let nativeNode := (frontend.ring.native hash datumId).1
  if nativeNode = frontend.selfNodeId then none else some (frontend.redirectTo nativeNode)

/-- Redirects unless the datum is native here. -/
def unlessForeign (datumId : DatumId) (served : Served) : Served :=
  match frontend.redirectIfForeign hash datumId with
  | some response => .respond response
  | none => served

def handleOp (opId : DatumId) (opName : String) (datumIds : List DatumId) (payload : Bytes) :
    Served :=
  match handleOpRequest hash frontend.ring frontend.selfNodeId frontend.addressBook datumIds with
  | .redirect address => .respond (.redirect address)
  | .opError message => .respond (.opError message)
  | .runOp _ => .runOp opId opName datumIds payload

def handleRkQuery (indexDatumId : DatumId) (query : RkQueryKind) : Served :=
  frontend.unlessForeign hash indexDatumId
    (.runIndexQuery indexDatumId "rk" (encodeRkQueryKind query) rkResultResponse)

def handleLbExecute (boardId : DatumId) (className : String) (op : LbExecuteOp) : Served :=
  frontend.unlessForeign hash boardId
    (.runIndexExecute boardId ("lb:" ++ className) (encodeLbExecuteOp op) lbResultResponse)

def handleLbQuery (boardId : DatumId) (className : String) (query : LbQueryReq) : Served :=
  frontend.unlessForeign hash boardId
    (.runIndexQuery boardId ("lb:" ++ className) (encodeLbQueryReq query) lbResultResponse)

def handleTkExecute (entityDatumId : DatumId) (className : String) (op : TkOp) : Served :=
  frontend.unlessForeign hash entityDatumId
    (.runIndexExecute entityDatumId ("tk:" ++ className) (encodeTkOp op) tkResultResponse)

def handleTkQuery (entityDatumId : DatumId) (className : String) (query : TkQueryReq) : Served :=
  frontend.unlessForeign hash entityDatumId
    (.runIndexQuery entityDatumId ("tk:" ++ className) (encodeTkQueryReq query) tkResultResponse)

def handleExistsCheck (datumId : DatumId) : Served :=
  frontend.unlessForeign hash datumId (.runExistsCheck datumId)

/-- Lists by a query and removes by an execution; what is inserted comes with a write. -/
def handleFkPending (pendingDatumId : DatumId) (op : FkPendingOp) : Served :=
  frontend.unlessForeign hash pendingDatumId
    (match op with
      | .list =>
          .runIndexQuery pendingDatumId "fk_pending" (encodeFkPendingOp op) fkPendingResponse
      | .remove _ _ =>
          .runIndexExecute pendingDatumId "fk_pending" (encodeFkPendingOp op) fkPendingResponse
      | .insert _ _ =>
          .respond (.opError "fk pending inserts arrive via the write path, not this request"))

def handleExtentQuery (extentDatumId : DatumId) (offset : UInt64) (limit : UInt32) : Served :=
  frontend.unlessForeign hash extentDatumId
    (.runIndexQuery extentDatumId "partition" (encodeExtentPage offset limit)
      (extentResponse "extent result"))

def handlePartitionUpdate (partitionDatumId : DatumId) (op : ExtentOp) : Served :=
  frontend.unlessForeign hash partitionDatumId
    (.runIndexExecute partitionDatumId "partition" (encodeExtentOp op)
      (extentResponse "partition result"))

/-- What is done with one request of a connection. -/
def handle (request : Request) : Served :=
  if isAdmin request then .admin
  else
    match frontend.halt.gate with
    | some message => .respond (.opError message)
    | none =>
        match request with
        | .op opId opName datumIds payload =>
            frontend.handleOp hash opId opName datumIds payload
        | .rkQuery indexDatumId query => frontend.handleRkQuery hash indexDatumId query
        | .lbExecute boardId className op => frontend.handleLbExecute hash boardId className op
        | .lbQuery boardId className query => frontend.handleLbQuery hash boardId className query
        | .tkExecute entityDatumId className op =>
            frontend.handleTkExecute hash entityDatumId className op
        | .tkQuery entityDatumId className query =>
            frontend.handleTkQuery hash entityDatumId className query
        | .existsCheck datumId => frontend.handleExistsCheck hash datumId
        | .fkPending pendingDatumId op => frontend.handleFkPending hash pendingDatumId op
        | .extentQuery extentDatumId offset limit =>
            frontend.handleExtentQuery hash extentDatumId offset limit
        | .partitionUpdate partitionDatumId op =>
            frontend.handlePartitionUpdate hash partitionDatumId op
        -- what nodes send one another comes over their links
        | _ => .drop

end Frontend

/-! ## Routing -/

namespace Protocol.Request

/-- The datums by which a request is routed. -/
def datumIds : Request → List DatumId
  | .op _ _ datumIds _ => datumIds
  | .rkQuery target _ | .lbExecute target _ _ | .lbQuery target _ _ | .tkExecute target _ _
  | .tkQuery target _ _ | .existsCheck target | .fkPending target _ | .extentQuery target _ _
  | .partitionUpdate target _ => [target]
  | _ => []

/-- What is done with a request where it is served. -/
def serve : Request → Served
  | .op opId opName datumIds payload => .runOp opId opName datumIds payload
  | .rkQuery target query =>
      .runIndexQuery target "rk" (encodeRkQueryKind query) rkResultResponse
  | .lbExecute target className operation =>
      .runIndexExecute target ("lb:" ++ className) (encodeLbExecuteOp operation) lbResultResponse
  | .lbQuery target className query =>
      .runIndexQuery target ("lb:" ++ className) (encodeLbQueryReq query) lbResultResponse
  | .tkExecute target className operation =>
      .runIndexExecute target ("tk:" ++ className) (encodeTkOp operation) tkResultResponse
  | .tkQuery target className query =>
      .runIndexQuery target ("tk:" ++ className) (encodeTkQueryReq query) tkResultResponse
  | .existsCheck datumId => .runExistsCheck datumId
  | .fkPending target .list =>
      .runIndexQuery target "fk_pending" (encodeFkPendingOp .list) fkPendingResponse
  | .fkPending target (.remove referencingPk missing) =>
      .runIndexExecute target "fk_pending" (encodeFkPendingOp (.remove referencingPk missing))
        fkPendingResponse
  | .fkPending _ (.insert _ _) =>
      .respond (.opError "fk pending inserts arrive via the write path, not this request")
  | .extentQuery target offset limit =>
      .runIndexQuery target "partition" (encodeExtentPage offset limit)
        (extentResponse "extent result")
  | .partitionUpdate target operation =>
      .runIndexExecute target "partition" (encodeExtentOp operation)
        (extentResponse "partition result")
  | _ => .drop

end Protocol.Request

/-- What a worker thread is asked, if one is. -/
def Served.asked : Served → Option ClientRequest
  | .runOp opId opName datumIds payload => some (.op opId opName datumIds payload)
  | .runIndexQuery target indexKind query _ => some (.indexQuery target indexKind query)
  | .runIndexExecute target indexKind payload _ => some (.indexExecute target indexKind payload)
  | .runExistsCheck datumId => some (.existsCheck datumId)
  | _ => none

namespace Frontend

variable {hash : ℕ → ℕ → ℕ} {frontend : Frontend} {request : Request}

/-- The node serves a request for these datums itself: there is no other node that all of them are
native to.  An op whose datums are native to several nodes is served by any node. -/
def ServesHere (hash : ℕ → ℕ → ℕ) (frontend : Frontend) (datumIds : List DatumId) : Prop :=
  ∀ node, nativeNodes hash frontend.ring datumIds = [node] → node = frontend.selfNodeId

theorem nativeNodes_singleton (hash : ℕ → ℕ → ℕ) (ring : Ring) (target : DatumId) :
    nativeNodes hash ring [target] = [(ring.native hash target).1] := rfl

theorem unlessForeign_of_servesHere {target : DatumId} {served : Served}
    (servesHere : frontend.ServesHere hash [target]) :
    frontend.unlessForeign hash target served = served := by
  have here := servesHere _ (nativeNodes_singleton hash frontend.ring target)
  simp only [unlessForeign, redirectIfForeign, if_pos here]

theorem unlessForeign_of_foreign {target : DatumId} {served : Served} {node : NodeId}
    (native : nativeNodes hash frontend.ring [target] = [node])
    (foreign : node ≠ frontend.selfNodeId) :
    frontend.unlessForeign hash target served = .respond (frontend.redirectTo node) := by
  cases native
  simp only [unlessForeign, redirectIfForeign, if_neg foreign]

theorem handleOp_of_servesHere {datumIds : List DatumId}
    (servesHere : frontend.ServesHere hash datumIds) (opId : DatumId) (opName : String)
    (payload : Bytes) :
    frontend.handleOp hash opId opName datumIds payload =
      .runOp opId opName datumIds payload := by
  have runs : handleOpRequest hash frontend.ring frontend.selfNodeId frontend.addressBook datumIds =
      .runOp (pickDestinationThread hash frontend.ring datumIds) := by
    unfold handleOpRequest
    split
    · rename_i onlyNode native
      exact if_neg (not_not.mpr (servesHere onlyNode native))
    · rfl
  simp only [handleOp, runs]

theorem handleOp_of_foreign {datumIds : List DatumId} {node : NodeId}
    (native : nativeNodes hash frontend.ring datumIds = [node])
    (foreign : node ≠ frontend.selfNodeId) (opId : DatumId) (opName : String) (payload : Bytes) :
    frontend.handleOp hash opId opName datumIds payload =
      .respond (frontend.redirectTo node) := by
  unfold handleOp handleOpRequest redirectTo
  simp only [native, if_pos foreign]
  cases frontend.addressBook node <;> rfl

/-- A request that no other node is to serve is served, whatever it is. -/
theorem handle_of_servesHere (serving : frontend.halt.gate = none) (client : isAdmin request = false)
    (servesHere : frontend.ServesHere hash request.datumIds) :
    frontend.handle hash request = request.serve := by
  simp only [handle, client, Bool.false_eq_true, if_false, serving]
  cases request with
  | op opId opName datumIds payload => exact handleOp_of_servesHere servesHere opId opName payload
  | fkPending target operation =>
      cases operation <;> exact unlessForeign_of_servesHere servesHere
  | rkQuery | lbExecute | lbQuery | tkExecute | tkQuery | existsCheck | extentQuery
  | partitionUpdate => exact unlessForeign_of_servesHere servesHere
  | acquire | «recall» | release | indexUpdate => rfl
  | getClusterConfig | pause | resume | clearHalt | installStorageRing => cases client

/-- A request for the datums of one other node is sent there, whatever it is. -/
theorem handle_of_foreign (serving : frontend.halt.gate = none) (client : isAdmin request = false)
    {node : NodeId} (native : nativeNodes hash frontend.ring request.datumIds = [node])
    (foreign : node ≠ frontend.selfNodeId) :
    frontend.handle hash request = .respond (frontend.redirectTo node) := by
  simp only [handle, client, Bool.false_eq_true, if_false, serving]
  cases request with
  | op opId opName datumIds payload => exact handleOp_of_foreign native foreign opId opName payload
  | rkQuery | lbExecute | lbQuery | tkExecute | tkQuery | existsCheck | fkPending | extentQuery
  | partitionUpdate => exact unlessForeign_of_foreign native foreign
  | acquire | «recall» | release | indexUpdate => cases native
  | getClusterConfig | pause | resume | clearHalt | installStorageRing => cases client

/-- All that a handler does with a request. -/
theorem handle_cases (hash : ℕ → ℕ → ℕ) (frontend : Frontend) (request : Request) :
    (isAdmin request = true ∧ frontend.handle hash request = .admin) ∨
    (∃ message, frontend.handle hash request = .respond (.opError message)) ∨
    (∃ node address, nativeNodes hash frontend.ring request.datumIds = [node] ∧
      node ≠ frontend.selfNodeId ∧ frontend.addressBook node = some address ∧
      frontend.handle hash request = .respond (.redirect address)) ∨
    (frontend.ServesHere hash request.datumIds ∧ frontend.handle hash request = request.serve) := by
  cases admin : isAdmin request with
  | true => exact Or.inl ⟨rfl, by simp only [handle, admin, if_true]⟩
  | false =>
      right
      cases gate : frontend.halt.gate with
      | some message =>
          left
          exact ⟨message, by simp only [handle, admin, Bool.false_eq_true, if_false, gate]⟩
      | none =>
          by_cases servesHere : frontend.ServesHere hash request.datumIds
          · exact Or.inr (Or.inr ⟨servesHere, handle_of_servesHere gate admin servesHere⟩)
          · simp only [ServesHere, not_forall] at servesHere
            rcases servesHere with ⟨node, native, foreign⟩
            have handled := handle_of_foreign gate admin native foreign
            cases book : frontend.addressBook node with
            | none =>
                left
                exact ⟨_, by rw [handled, redirectTo, book]⟩
            | some address =>
                right
                left
                exact ⟨node, address, native, foreign, book, by rw [handled, redirectTo, book]⟩

end Frontend

/-! ## Responses -/

theorem resultResponse_ne_redirect {Result : Type} {what : String}
    {decode : Bytes → Except String Result} {respond : Result → Response}
    (other : ∀ result address, respond result ≠ .redirect address)
    (outcome : Except String Bytes) (address : String) :
    resultResponse what decode respond outcome ≠ .redirect address := by
  intro same
  unfold resultResponse at same
  split at same
  · split at same
    · exact other _ address same
    · cases same
  · cases same

end Seisin
