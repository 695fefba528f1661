import Mathlib
import Seisin.Gossip.Membership
import Seisin.Protocol.Fields

/-!
# Gossip on the wire

A gossip message carries two lists of records, each record behind its own length.  The lengths are
32-bit fields: a message is read back exactly if the strings, the lists and the encoded records all
fit theirs.
-/

namespace Seisin.GossipWire

open ByteString Cursor Protocol

/-- What gossip tells of a member.  The log id is sixteen bytes, here as an id. -/
structure MemberUpdate where
  nodeId : NodeId
  incarnation : UInt64
  status : MemberStatus
  clientAddress : String
  gossipAddress : String
  threadCount : UInt32
  role : MemberRole
  capacityWeight : UInt32
  storeAddress : String
  logId : DatumId

abbrev MutationRecord := UInt64 × RingMutation

inductive GossipMessage where
  | ping (updates : List MemberUpdate) (mutations : List MutationRecord)
  | pingReq (target : NodeId) (updates : List MemberUpdate) (mutations : List MutationRecord)
  | ack (updates : List MemberUpdate) (mutations : List MutationRecord)

/-! ## Encoding -/

def statusByte : MemberStatus → UInt8
  | .alive => 0
  | .suspect => 1
  | .dead => 2

def roleByte : MemberRole → UInt8
  | .compute => 0
  | .storage => 1

def encodeMemberUpdate (update : MemberUpdate) : Bytes :=
  leBytes 8 update.nodeId ++ leBytes 8 update.incarnation.toNat ++ [statusByte update.status] ++
    leBytes 4 update.threadCount.toNat ++ [roleByte update.role] ++
    leBytes 4 update.capacityWeight.toNat ++ putText update.clientAddress ++
    putText update.gossipAddress ++ putText update.storeAddress ++ update.logId.asBytes

def encodeRingMutationRecord (record : MutationRecord) : Bytes :=
  leBytes 8 record.1.toNat ++
    match record.2 with
    | .join nodeId threadCount => 0 :: (leBytes 8 nodeId ++ leBytes 4 threadCount)
    | .leave nodeId => 1 :: leBytes 8 nodeId

def encodeList {Item : Type} (encodeOne : Item → Bytes) : List Item → Bytes :=
  putCounted fun item => putBytes (encodeOne item)

def gossipProtocolVersion : UInt8 := 3

def encodeLists (updates : List MemberUpdate) (mutations : List MutationRecord) : Bytes :=
  encodeList encodeMemberUpdate updates ++ encodeList encodeRingMutationRecord mutations

def encodeGossipMessage : GossipMessage → Bytes
  | .ping updates mutations => gossipProtocolVersion :: 0 :: encodeLists updates mutations
  | .pingReq target updates mutations =>
      gossipProtocolVersion :: 1 :: (leBytes 8 target ++ encodeLists updates mutations)
  | .ack updates mutations => gossipProtocolVersion :: 2 :: encodeLists updates mutations

/-! ## Decoding -/

def statusOf : UInt8 → Take MemberStatus
  | 0 => return .alive
  | 1 => return .suspect
  | 2 => return .dead
  | tag => fail ("invalid member status tag byte: " ++ toString tag.toNat)

def roleOf : UInt8 → Take MemberRole
  | 0 => return .compute
  | 1 => return .storage
  | tag => fail ("invalid member role tag byte: " ++ toString tag.toNat)

def takeStatus : Take MemberStatus := do
  let tag ← takeByte outOfRange
  statusOf tag

/-- Whatever is wrong with a string, the error shows the context it is decoded in. -/
def decodeString (context : String) : Take String := do
  let len ← number 4 fun _ => context
  let bytes ← window len fun _ => context
  text context bytes

/-- The role and the weight, whose five bytes are checked for together. -/
def takeRoleAndWeight : Take (MemberRole × UInt32) := do
  let bytes ← window 5 fun _ => "member update payload too short for role/weight"
  let role ← roleOf (bytes.headD 0)
  return (role, UInt32.ofNat (leNat (bytes.drop 1)))

def takeMemberUpdate : Take MemberUpdate := do
  let nodeId ← number 8 outOfRange
  let incarnation ← u64Field outOfRange
  let status ← takeStatus
  let threadCount ← u32Field outOfRange
  let roleAndWeight ← takeRoleAndWeight
  let clientAddress ← decodeString "decoding client_address"
  let gossipAddress ← decodeString "decoding gossip_address"
  let storeAddress ← decodeString "decoding store_address"
  let logId ← idField fun _ => "member update payload too short for a log id"
  return ⟨nodeId, incarnation, status, clientAddress, gossipAddress, threadCount, roleAndWeight.1,
    roleAndWeight.2, storeAddress, logId⟩

def decodeMemberUpdate (buf : Bytes) : Except String MemberUpdate :=
  run (atLeast 21 (fun length => "member update payload too short: " ++ toString length ++
    " bytes") takeMemberUpdate) buf 0

def mutationMismatch (what : String) (expected length : ℕ) : String :=
  what ++ " mutation record length mismatch: expected " ++ toString expected ++ " bytes, got " ++
    toString length

def takeMutation (nodeId : NodeId) : UInt8 → Take RingMutation
  | 0 => do
      left 4 (mutationMismatch "join" 21)
      let threadCount ← number 4 outOfRange
      return .join nodeId threadCount
  | 1 => do
      left 0 (mutationMismatch "leave" 17)
      return .leave nodeId
  | tag => fail ("invalid ring mutation tag byte: " ++ toString tag.toNat)

def takeRingMutationRecord : Take MutationRecord := do
  let epoch ← u64Field outOfRange
  let tag ← takeByte outOfRange
  let nodeId ← number 8 outOfRange
  let mutation ← takeMutation nodeId tag
  return (epoch, mutation)

def decodeRingMutationRecord (buf : Bytes) : Except String MutationRecord :=
  run (atLeast 17 (fun length => "ring mutation record too short: " ++ toString length ++
    " bytes") takeRingMutationRecord) buf 0

def takeItem {Item : Type} (decodeOne : Bytes → Except String Item) : Take Item := do
  let len ← number 4 (truncatedAt "list item length")
  let body ← window len fun offset =>
    truncatedAt "list item body" offset ++ ": expected " ++ toString len ++ " bytes"
  lift (decodeOne body)

def decodeList {Item : Type} (decodeOne : Bytes → Except String Item) : Take (List Item) := do
  let count ← number 4 (truncatedAt "list count")
  times (takeItem decodeOne) count

/-- The two lists at the end of every message. -/
def takeLists (message : List MemberUpdate → List MutationRecord → GossipMessage) :
    Take GossipMessage := do
  let updates ← decodeList decodeMemberUpdate
  let mutations ← decodeList decodeRingMutationRecord
  return message updates mutations

def takePingReq : Take GossipMessage := do
  let target ← number 8 outOfRange
  takeLists (.pingReq target)

def decodeGossipBody (tag : UInt8) (buf : Bytes) : Except String GossipMessage :=
  match tag with
  | 0 => run (takeLists .ping) buf 1
  | 1 => run (atLeast 9 (fun length => "ping_req payload too short for a target node_id: " ++
      toString length ++ " bytes") takePingReq) buf 1
  | 2 => run (takeLists .ack) buf 1
  | tag => .error ("unknown gossip message tag: " ++ toString tag.toNat)

def decodeGossipMessage : Bytes → Except String GossipMessage
  | [] => .error "empty gossip message payload"
  | version :: rest =>
      if version = gossipProtocolVersion then
        match rest with
        | [] => .error "empty gossip message payload"
        | tag :: body => decodeGossipBody tag (tag :: body)
      else .error ("unsupported gossip protocol version " ++ toString version.toNat ++
        "; this node speaks version 3")

/-! ## What fits -/

/-- Node ids are 64-bit numbers in the source; strings fit their prefixes. -/
def UpdateFits (update : MemberUpdate) : Prop :=
  update.nodeId < 2 ^ 64 ∧ TextFits update.clientAddress ∧ TextFits update.gossipAddress ∧
    TextFits update.storeAddress

def MutationFits (record : MutationRecord) : Prop :=
  match record.2 with
  | .join nodeId threadCount => nodeId < 2 ^ 64 ∧ threadCount < 2 ^ 32
  | .leave nodeId => nodeId < 2 ^ 64

/-- The record as a whole fits the prefix it has in a list. -/
def RecordFits (update : MemberUpdate) : Prop :=
  UpdateFits update ∧ BytesFit (encodeMemberUpdate update)

def ListsFit (updates : List MemberUpdate) (mutations : List MutationRecord) : Prop :=
  CountedFit RecordFits updates ∧ CountedFit MutationFits mutations

def GossipMessage.Fits : GossipMessage → Prop
  | .ping updates mutations => ListsFit updates mutations
  | .pingReq target updates mutations => target < 2 ^ 64 ∧ ListsFit updates mutations
  | .ack updates mutations => ListsFit updates mutations

/-! ## What the decoders accept -/

theorem takeStatus_accepts :
    Accepts takeStatus (Exactly Always fun status => [statusByte status]) := by
  have tags : ∀ tag : UInt8, Accepts (statusOf tag) fun status word _ =>
      tag = statusByte status ∧ word = [] := by
    intro tag
    unfold statusOf
    split
    · exact (Accepts.pure _).congr fun status word rest => by cases status <;> simp [statusByte]
    · exact (Accepts.pure _).congr fun status word rest => by cases status <;> simp [statusByte]
    · exact (Accepts.pure _).congr fun status word rest => by cases status <;> simp [statusByte]
    · rename_i notAlive notSuspect notDead
      refine (Accepts.fail _).congr fun status word rest => ⟨False.elim, ?_⟩
      rintro ⟨rfl, -⟩
      cases status with
      | alive => exact notAlive rfl
      | suspect => exact notSuspect rfl
      | dead => exact notDead rfl
  refine ((takeByte_accepts _).then tags).congr fun status word rest => ?_
  simp [Exactly, Always]

theorem roleOf_accepts (tag : UInt8) :
    Accepts (roleOf tag) fun role word _ => tag = roleByte role ∧ word = [] := by
  unfold roleOf
  split
  · exact (Accepts.pure _).congr fun role word rest => by cases role <;> simp [roleByte]
  · exact (Accepts.pure _).congr fun role word rest => by cases role <;> simp [roleByte]
  · rename_i notCompute notStorage
    refine (Accepts.fail _).congr fun role word rest => ⟨False.elim, ?_⟩
    rintro ⟨rfl, -⟩
    cases role with
    | compute => exact notCompute rfl
    | storage => exact notStorage rfl

theorem takeRoleAndWeight_accepts : Accepts takeRoleAndWeight
    (Exactly Always fun pair => roleByte pair.1 :: leBytes 4 pair.2.toNat) := by
  refine ((window_accepts 5 _).then fun bytes => (roleOf_accepts _).bind fun role => .pure _).congr
    fun pair word rest => ?_
  constructor
  · rintro ⟨bytes, _, five, rfl, role, _, _, rfl, ⟨isRole, rfl⟩, rfl, rfl⟩
    cases bytes with
    | nil => cases five
    | cons first weight =>
        have four : weight.length = 4 := Nat.succ.inj five
        have small := leNat_lt weight
        have spelled := leBytes_leNat weight
        rw [four] at small spelled
        have isFirst : first = roleByte role := isRole
        have weightIs : (UInt32.ofNat (leNat weight)).toNat = leNat weight :=
          UInt32.toNat_ofNat_of_lt small
        exact ⟨trivial, by simp [isFirst, weightIs, spelled]⟩
  · rintro ⟨-, rfl⟩
    refine ⟨roleByte pair.1 :: leBytes 4 pair.2.toNat, [], ?_, (List.append_nil _).symm, pair.1, [],
      [], rfl, ⟨rfl, rfl⟩, ?_, rfl⟩
    · rw [List.length_cons, length_leBytes]
    · rw [List.drop_succ_cons, List.drop_zero, leNat_leBytes_four pair.2.toNat_lt,
        UInt32.ofNat_toNat]

theorem decodeString_accepts (context : String) :
    Accepts (decodeString context) (Exactly TextFits putText) := by
  refine ((number_accepts 4 _).then fun len => (window_accepts len _).then fun bytes =>
    text_accepts _ bytes).congr fun value word rest => ?_
  constructor
  · rintro ⟨_, _, fits, rfl, _, _, rfl, rfl, rfl, rfl⟩
    exact ⟨fits, by simp [putText, putBytes]⟩
  · rintro ⟨fits, rfl⟩
    exact ⟨_, _, fits, rfl, _, [], rfl, (List.append_nil _).symm, rfl, rfl⟩

theorem takeMemberUpdate_accepts :
    Accepts takeMemberUpdate (Exactly UpdateFits encodeMemberUpdate) := by
  refine ((number_accepts 8 _).then fun nodeId => (u64Field_accepts _).then fun incarnation =>
    takeStatus_accepts.then fun status => (u32Field_accepts _).then fun threadCount =>
    takeRoleAndWeight_accepts.then fun roleAndWeight => (decodeString_accepts _).then
    fun clientAddress => (decodeString_accepts _).then fun gossipAddress =>
    (decodeString_accepts _).then fun storeAddress => (idField_accepts _).then fun logId =>
    .pure _).congr fun update word rest => ?_
  cases update
  simp [Exactly, UpdateFits, encodeMemberUpdate, Always, and_assoc, and_left_comm, and_comm]

theorem decodeMemberUpdate_eq_ok {buf : Bytes} {update : MemberUpdate} :
    decodeMemberUpdate buf = .ok update ↔
      UpdateFits update ∧ ∃ rest, buf = encodeMemberUpdate update ++ rest := by
  have long : ∀ update word rest, Exactly UpdateFits encodeMemberUpdate update word rest →
      21 ≤ ([] : Bytes).length + (word ++ rest).length := by
    rintro update _ rest ⟨-, rfl⟩
    simp [encodeMemberUpdate]
    omega
  have read : decodeMemberUpdate buf = .ok update ↔ _ :=
    takeMemberUpdate_accepts.atLeast_eq_ok [] long
  rw [read]
  constructor
  · rintro ⟨_, rest, rfl, fits, rfl⟩
    exact ⟨fits, rest, rfl⟩
  · rintro ⟨fits, rest, rfl⟩
    exact ⟨_, rest, rfl, fits, rfl⟩

theorem takeMutation_accepts (nodeId : NodeId) (tag : UInt8) :
    Accepts (takeMutation nodeId tag) fun mutation word rest =>
      (∃ threadCount, threadCount < 2 ^ 32 ∧ tag = 0 ∧ mutation = .join nodeId threadCount ∧
        word = leBytes 4 threadCount ∧ rest = []) ∨
      (tag = 1 ∧ mutation = .leave nodeId ∧ word = [] ∧ rest = []) := by
  unfold takeMutation
  split
  · refine ((left_accepts 4 _).bind fun _ => (number_accepts 4 _).then fun threadCount =>
      .pure _).congr fun mutation word rest => ?_
    constructor
    · rintro ⟨-, _, _, rfl, ⟨rfl, four⟩, threadCount, _, fits, rfl, rfl, rfl⟩
      have nothing : rest = [] := by
        apply List.eq_nil_of_length_eq_zero
        simp only [List.append_nil, List.length_append, length_leBytes] at four
        omega
      exact .inl ⟨threadCount, fits, rfl, rfl, by simp, nothing⟩
    · rintro (⟨threadCount, fits, -, rfl, rfl, rfl⟩ | ⟨isLeave, -⟩)
      · exact ⟨(), [], _, rfl, ⟨rfl, by simp⟩, threadCount, [], fits, (List.append_nil _).symm, rfl,
          rfl⟩
      · exact absurd isLeave (by decide)
  · refine ((left_accepts 0 _).bind fun _ => .pure _).congr fun mutation word rest => ?_
    constructor
    · rintro ⟨-, _, _, rfl, ⟨rfl, nothing⟩, rfl, rfl⟩
      exact .inr ⟨rfl, rfl, rfl, List.eq_nil_of_length_eq_zero nothing⟩
    · rintro (⟨-, -, isJoin, -⟩ | ⟨-, rfl, rfl, rfl⟩)
      · exact absurd isJoin (by decide)
      · exact ⟨(), [], [], rfl, ⟨rfl, rfl⟩, rfl, rfl⟩
  · rename_i notJoin notLeave
    refine (Accepts.fail _).congr fun mutation word rest => ⟨False.elim, ?_⟩
    rintro (⟨-, -, isJoin, -⟩ | ⟨isLeave, -⟩)
    · exact notJoin isJoin
    · exact notLeave isLeave

theorem takeRingMutationRecord_accepts :
    Accepts takeRingMutationRecord (Whole (Exactly MutationFits encodeRingMutationRecord)) := by
  refine ((u64Field_accepts _).then fun epoch => (takeByte_accepts _).then fun tag =>
    (number_accepts 8 _).then fun nodeId => (takeMutation_accepts nodeId tag).bind fun mutation =>
    .pure _).congr fun record word rest => ?_
  constructor
  · rintro ⟨epoch, _, -, rfl, tag, _, -, rfl, nodeId, _, idFits, rfl, mutation, _, _, rfl,
      ⟨threadCount, countFits, rfl, rfl, rfl, nothing⟩ | ⟨rfl, rfl, rfl, nothing⟩, rfl, rfl⟩
    · exact ⟨⟨⟨idFits, countFits⟩, by simp [encodeRingMutationRecord]⟩, nothing⟩
    · exact ⟨⟨idFits, by simp [encodeRingMutationRecord]⟩, nothing⟩
  · rintro ⟨⟨fits, rfl⟩, rfl⟩
    rcases record with ⟨epoch, mutation⟩
    cases mutation with
    | join nodeId threadCount =>
        exact ⟨epoch, _, trivial, rfl, 0, _, trivial, rfl, nodeId, _, fits.1, rfl, _, _, [],
          (List.append_nil _).symm, .inl ⟨threadCount, fits.2, rfl, rfl, rfl, rfl⟩, rfl, rfl⟩
    | leave nodeId =>
        exact ⟨epoch, _, trivial, rfl, 1, _, trivial, rfl, nodeId, [], fits,
          (List.append_nil _).symm, _, [], [], rfl, .inr ⟨rfl, rfl, rfl, rfl⟩, rfl, rfl⟩

theorem decodeRingMutationRecord_eq_ok {buf : Bytes} {record : MutationRecord} :
    decodeRingMutationRecord buf = .ok record ↔
      MutationFits record ∧ buf = encodeRingMutationRecord record := by
  have long : ∀ record word rest,
      Whole (Exactly MutationFits encodeRingMutationRecord) record word rest →
        17 ≤ ([] : Bytes).length + (word ++ rest).length := by
    rintro ⟨epoch, mutation⟩ _ _ ⟨⟨-, rfl⟩, rfl⟩
    cases mutation with
    | join => simp [encodeRingMutationRecord]
    | leave => simp [encodeRingMutationRecord]
  have read : decodeRingMutationRecord buf = .ok record ↔ _ :=
    takeRingMutationRecord_accepts.atLeast_eq_ok [] long
  rw [read]
  constructor
  · rintro ⟨_, _, rfl, ⟨fits, rfl⟩, rfl⟩
    exact ⟨fits, List.append_nil _⟩
  · rintro ⟨fits, rfl⟩
    exact ⟨_, [], (List.append_nil _).symm, ⟨fits, rfl⟩, rfl⟩

theorem length_encodeRingMutationRecord (record : MutationRecord) :
    BytesFit (encodeRingMutationRecord record) := by
  rcases record with ⟨epoch, mutation⟩
  cases mutation with
  | join => simp [BytesFit, encodeRingMutationRecord]
  | leave => simp [BytesFit, encodeRingMutationRecord]

/-! ## Lists -/

/-- The words of a list item: a length and a body that decodes to the item. -/
def ItemSpelled {Item : Type} (decodeOne : Bytes → Except String Item) (item : Item)
    (word : Bytes) : Prop :=
  ∃ body, BytesFit body ∧ word = putBytes body ∧ decodeOne body = .ok item

theorem takeItem_accepts {Item : Type} (decodeOne : Bytes → Except String Item) :
    Accepts (takeItem decodeOne) fun item word _ => ItemSpelled decodeOne item word := by
  refine ((number_accepts 4 _).then fun len => (window_accepts len _).then fun body =>
    lift_accepts (decodeOne body)).congr fun item word rest => ?_
  constructor
  · rintro ⟨_, _, fits, rfl, body, _, rfl, rfl, decoded, rfl⟩
    exact ⟨body, fits, by simp [putBytes], decoded⟩
  · rintro ⟨body, fits, rfl, decoded⟩
    exact ⟨_, _, fits, rfl, body, [], rfl, (List.append_nil _).symm, decoded, rfl⟩

/-- The words of a list. -/
def ListSpelled {Item : Type} (decodeOne : Bytes → Except String Item) (items : List Item)
    (word : Bytes) : Prop :=
  items.length < 2 ^ 32 ∧ ∃ words, List.Forall₂ (ItemSpelled decodeOne) items words ∧
    word = leBytes 4 items.length ++ words.flatten

theorem decodeList_accepts {Item : Type} (decodeOne : Bytes → Except String Item) :
    Accepts (decodeList decodeOne) fun items word _ => ListSpelled decodeOne items word := by
  refine ((number_accepts 4 _).then fun count =>
    timesSpelled_accepts (takeItem_accepts decodeOne) count).congr fun items word rest => ?_
  constructor
  · rintro ⟨_, _, fits, rfl, rfl, words, spelled, rfl⟩
    exact ⟨fits, words, spelled, rfl⟩
  · rintro ⟨fits, words, spelled, rfl⟩
    exact ⟨_, _, fits, rfl, rfl, words, spelled, rfl⟩

/-- A list is spelled by its encoding if its items decode to themselves and fit their prefixes. -/
theorem listSpelled_encodeList {Item : Type} {decodeOne : Bytes → Except String Item}
    {encodeOne : Item → Bytes} {fits : Item → Prop} {items : List Item}
    (decodes : ∀ item, fits item → BytesFit (encodeOne item) ∧ decodeOne (encodeOne item) = .ok item)
    (fit : CountedFit fits items) :
    ListSpelled decodeOne items (encodeList encodeOne items) := by
  refine ⟨fit.1, items.map fun item => putBytes (encodeOne item), ?_, ?_⟩
  · rw [List.forall₂_map_right_iff, List.forall₂_same]
    intro item among
    rcases decodes item (fit.2 item among) with ⟨small, decoded⟩
    exact ⟨encodeOne item, small, rfl, decoded⟩
  · rw [encodeList, putCounted, List.flatMap_def]

/-- The items of a list that is spelled by anything fit. -/
theorem countedFit_of_listSpelled {Item : Type} {decodeOne : Bytes → Except String Item}
    {fits : Item → Prop} {items : List Item} {word : Bytes}
    (decodes : ∀ item body, BytesFit body → decodeOne body = .ok item → fits item)
    (spelled : ListSpelled decodeOne items word) : CountedFit fits items := by
  rcases spelled with ⟨small, words, spelled, -⟩
  refine ⟨small, fun item among => ?_⟩
  rcases List.mem_iff_getElem.mp among with ⟨index, inside, rfl⟩
  rw [List.forall₂_iff_get] at spelled
  rcases spelled.2 index inside (spelled.1 ▸ inside) with ⟨body, fitting, -, decoded⟩
  exact decodes _ body fitting decoded

/-! ## Messages -/

theorem takeLists_accepts (make : List MemberUpdate → List MutationRecord → GossipMessage) :
    Accepts (takeLists make) fun message word _ => ∃ updates mutations front back,
      message = make updates mutations ∧ ListSpelled decodeMemberUpdate updates front ∧
        ListSpelled decodeRingMutationRecord mutations back ∧ word = front ++ back := by
  refine ((decodeList_accepts _).bind fun updates => (decodeList_accepts _).bind fun mutations =>
    .pure _).congr fun message word rest => ?_
  constructor
  · rintro ⟨updates, front, _, rfl, updatesSpelled, mutations, back, _, rfl, mutationsSpelled, rfl,
      rfl⟩
    exact ⟨updates, mutations, front, back, rfl, updatesSpelled, mutationsSpelled,
      by rw [List.append_nil]⟩
  · rintro ⟨updates, mutations, front, back, rfl, updatesSpelled, mutationsSpelled, rfl⟩
    exact ⟨updates, front, back, rfl, updatesSpelled, mutations, back, [],
      (List.append_nil _).symm, mutationsSpelled, rfl, rfl⟩

theorem recordFits_of_decoded {update : MemberUpdate} {body : Bytes} (small : BytesFit body)
    (decoded : decodeMemberUpdate body = .ok update) : RecordFits update := by
  rcases decodeMemberUpdate_eq_ok.mp decoded with ⟨fits, rest, rfl⟩
  refine ⟨fits, ?_⟩
  unfold BytesFit at small ⊢
  rw [List.length_append] at small
  omega

theorem listsFit_of_spelled {updates : List MemberUpdate} {mutations : List MutationRecord}
    {front back : Bytes} (updatesSpelled : ListSpelled decodeMemberUpdate updates front)
    (mutationsSpelled : ListSpelled decodeRingMutationRecord mutations back) :
    ListsFit updates mutations :=
  ⟨countedFit_of_listSpelled (fun _ _ => recordFits_of_decoded) updatesSpelled,
    countedFit_of_listSpelled (fun _ _ _ decoded => (decodeRingMutationRecord_eq_ok.mp decoded).1)
      mutationsSpelled⟩

theorem spelled_encodeLists {updates : List MemberUpdate} {mutations : List MutationRecord}
    (fit : ListsFit updates mutations) :
    ListSpelled decodeMemberUpdate updates (encodeList encodeMemberUpdate updates) ∧
      ListSpelled decodeRingMutationRecord mutations
        (encodeList encodeRingMutationRecord mutations) := by
  constructor
  · refine listSpelled_encodeList (fun update fits => ⟨fits.2, ?_⟩) fit.1
    exact decodeMemberUpdate_eq_ok.mpr ⟨fits.1, [], (List.append_nil _).symm⟩
  · refine listSpelled_encodeList (fun record fits => ⟨length_encodeRingMutationRecord record, ?_⟩)
      fit.2
    exact decodeRingMutationRecord_eq_ok.mpr ⟨fits, rfl⟩

/-- Two lists behind a tag are read back exactly if they fit. -/
theorem run_takeLists_iff {tag : UInt8} {updates : List MemberUpdate}
    {mutations : List MutationRecord}
    {make : List MemberUpdate → List MutationRecord → GossipMessage}
    (injective : ∀ first second third fourth, make first second = make third fourth →
      first = third ∧ second = fourth) :
    run (takeLists make) (tag :: encodeLists updates mutations) 1 = .ok (make updates mutations) ↔
      ListsFit updates mutations := by
  have read : run (takeLists make) (tag :: encodeLists updates mutations) 1 =
      .ok (make updates mutations) ↔ _ := (takeLists_accepts make).run_eq_ok [tag]
  rw [read]
  constructor
  · rintro ⟨word, rest, -, others, otherMutations, front, back, same, updatesSpelled,
      mutationsSpelled, -⟩
    rcases injective _ _ _ _ same with ⟨rfl, rfl⟩
    exact listsFit_of_spelled updatesSpelled mutationsSpelled
  · intro fit
    rcases spelled_encodeLists fit with ⟨updatesSpelled, mutationsSpelled⟩
    exact ⟨_, [], (List.append_nil _).symm, updates, mutations, _, _, rfl, updatesSpelled,
      mutationsSpelled, rfl⟩

theorem takePingReq_accepts :
    Accepts takePingReq fun message word _ => ∃ target updates mutations front back,
      target < 2 ^ 64 ∧ message = .pingReq target updates mutations ∧
        ListSpelled decodeMemberUpdate updates front ∧
        ListSpelled decodeRingMutationRecord mutations back ∧
        word = leBytes 8 target ++ (front ++ back) := by
  refine ((number_accepts 8 _).then fun target => takeLists_accepts (.pingReq target)).congr
    fun message word rest => ?_
  constructor
  · rintro ⟨target, _, fits, rfl, updates, mutations, front, back, rfl, updatesSpelled,
      mutationsSpelled, rfl⟩
    exact ⟨target, updates, mutations, front, back, fits, rfl, updatesSpelled, mutationsSpelled, rfl⟩
  · rintro ⟨target, updates, mutations, front, back, fits, rfl, updatesSpelled, mutationsSpelled,
      rfl⟩
    exact ⟨target, _, fits, rfl, updates, mutations, front, back, rfl, updatesSpelled,
      mutationsSpelled, rfl⟩

/-- A gossip message is read back exactly if its strings, lists and encoded records all fit their
length prefixes. -/
theorem gossip_round_trip_iff (message : GossipMessage) :
    decodeGossipMessage (encodeGossipMessage message) = .ok message ↔ message.Fits := by
  cases message with
  | ping updates mutations =>
      exact run_takeLists_iff fun _ _ _ _ same => GossipMessage.ping.inj same
  | pingReq target updates mutations =>
      have long : ∀ message word rest, (∃ target updates mutations front back,
          target < 2 ^ 64 ∧ message = GossipMessage.pingReq target updates mutations ∧
            ListSpelled decodeMemberUpdate updates front ∧
            ListSpelled decodeRingMutationRecord mutations back ∧
            word = leBytes 8 target ++ (front ++ back)) →
          9 ≤ [(1 : UInt8)].length + (word ++ rest).length := by
        rintro message _ rest ⟨_, _, _, _, _, -, -, -, -, rfl⟩
        simp only [List.length_append, length_leBytes, List.length_singleton]
        omega
      have read : decodeGossipMessage (encodeGossipMessage (.pingReq target updates mutations)) =
          .ok (.pingReq target updates mutations) ↔ _ :=
        takePingReq_accepts.atLeast_eq_ok [1] long
      rw [read]
      constructor
      · rintro ⟨word, rest, -, _, _, _, front, back, fits, same, updatesSpelled, mutationsSpelled,
          -⟩
        rcases GossipMessage.pingReq.inj same with ⟨rfl, rfl, rfl⟩
        exact ⟨fits, listsFit_of_spelled updatesSpelled mutationsSpelled⟩
      · rintro ⟨targetFits, fit⟩
        rcases spelled_encodeLists fit with ⟨updatesSpelled, mutationsSpelled⟩
        exact ⟨_, [], (List.append_nil _).symm, target, updates, mutations, _, _, targetFits, rfl,
          updatesSpelled, mutationsSpelled, rfl⟩
  | ack updates mutations =>
      exact run_takeLists_iff fun _ _ _ _ same => GossipMessage.ack.inj same

/-! ## A record longer than its prefix can say -/

theorem length_ofString_replicate (count : ℕ) :
    (ofString (String.ofList (List.replicate count 'a'))).length = count := by
  rw [ofString, byteArray_toList_eq]
  change (List.replicate count 'a').utf8Encode.size = count
  induction count with
  | zero => rfl
  | succ count inductive_hypothesis =>
      rw [List.replicate_succ, List.utf8Encode_cons, ByteArray.size_append, inductive_hypothesis,
        Nat.add_comm]
      rfl

/-- A member whose client address has the greatest length a prefix can say. -/
def longMember : MemberUpdate where
  nodeId := 1
  incarnation := 0
  status := .alive
  clientAddress := String.ofList (List.replicate (2 ^ 32 - 1) 'a')
  gossipAddress := ""
  threadCount := 1
  role := .compute
  capacityWeight := 1
  storeAddress := ""
  logId := 0

/-- All strings and lists fit their prefixes, and the message is not read back. -/
theorem long_record_not_read_back :
    (TextFits longMember.clientAddress ∧ TextFits longMember.gossipAddress ∧
      TextFits longMember.storeAddress) ∧
      decodeGossipMessage (encodeGossipMessage (.ping [longMember] [])) ≠
        .ok (.ping [longMember] []) := by
  have client : (ofString longMember.clientAddress).length = 2 ^ 32 - 1 :=
    length_ofString_replicate _
  have empty : TextFits "" := show (ofString "").length < 2 ^ 32 by decide +kernel
  refine ⟨⟨?_, empty, empty⟩, fun read => ?_⟩
  · rw [TextFits, BytesFit, client]
    norm_num
  · have fits := (gossip_round_trip_iff _).mp read
    have record := (fits.1.2 longMember List.mem_cons_self).2
    unfold BytesFit at record
    simp only [encodeMemberUpdate, putText, putBytes, List.length_append, length_leBytes,
      client] at record
    omega

end Seisin.GossipWire
