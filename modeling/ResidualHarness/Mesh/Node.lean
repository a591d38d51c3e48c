import ResidualHarness.Core.Canonical
import ResidualHarness.Core.Links
import ResidualHarness.Python.JsonStyles
import ResidualHarness.Python.Loops

/-!
# Mesh nodes

`residual/mesh/node.py`: messages, the hash-chained chat of a node, its peers and the devices that it
revoked. A network is any number of nodes; messages reach a node from anywhere, and a signature verifies
if the owner of the key made it.
-/

set_option autoImplicit false

namespace ResidualHarness.Mesh

open Python Core

/-- `MeshMessageKind`. -/
inductive MeshMessageKind where
  | chat
  | taskProposal
  | taskResult
  | taskResultDispute
  | modelOffer
  | deviceJoined
  | deviceLeft
  | revokeDevice
deriving DecidableEq

/-- `kind.value`. -/
def MeshMessageKind.value : MeshMessageKind → Str
  | .chat => lit "chat"
  | .taskProposal => lit "task_proposal"
  | .taskResult => lit "task_result"
  | .taskResultDispute => lit "task_result_dispute"
  | .modelOffer => lit "model_offer"
  | .deviceJoined => lit "device_joined"
  | .deviceLeft => lit "device_left"
  | .revokeDevice => lit "revoke_device"

/-- The hash before the first message. -/
def genesisHash : Str := lit "GENESIS"

/-- `json.dumps(value)`: ASCII, with the fields as they come. -/
def plainStyle : JsonStyle := { asciiStyle with sort := false }

/-- `MeshIdentity`. -/
structure MeshIdentity where
  deviceId : Str
  publicKey : Str
deriving DecidableEq

variable [FloatModel]

/-! ## Messages -/

/-- The checks of `MeshMessage.__post_init__`: the payload is frozen and its text measured, and the
content is encoded. -/
def messageChecks (content : Str) (payload : Json) : Except PyExn Unit := do
  require (payload.dumpable = true) (contractError "invalid or oversized mesh message")
  let data ← utf8 content
  require ((payload.renderIn plainStyle).length ≤ 24000 ∧ data.length ≤ 8000)
    (contractError "invalid or oversized mesh message")

/-- `MeshMessage`, with the checks of its constructor passed. -/
structure MeshMessage where
  messageId : Str
  authorId : Str
  timestampNs : Int
  kind : MeshMessageKind
  content : Str
  payload : Json
  signature : Str
  prevHash : Str
  payload_wf : payload.wf = true
  checked : messageChecks content payload = .ok ()

/-- What is hashed and signed. -/
def MeshMessage.body (m : MeshMessage) : Fields :=
  [(lit "message_id", .str m.messageId), (lit "author_id", .str m.authorId),
    (lit "timestamp_ns", .int m.timestampNs), (lit "kind", .str m.kind.value),
    (lit "content", .str m.content), (lit "payload", m.payload), (lit "prev_hash", .str m.prevHash)]

/-- `json.dumps(data, sort_keys=True).encode()`: the text is ASCII. -/
def MeshMessage.data (m : MeshMessage) : Except PyExn (List Nat) := do
  require ((Json.obj m.body).dumpable = true) (.valueError "integer string conversion")
  utf8 ((Json.obj m.body).renderIn asciiStyle)

/-- `hash`. -/
def MeshMessage.hash (m : MeshMessage) : Except PyExn Str := do
  return sha256 (← m.data)

/-- `MeshMessage(…)`. -/
def MeshMessage.make (messageId authorId : Str) (timestampNs : Int) (kind : MeshMessageKind)
    (content : Str) (payload : {v : Json // v.wf = true}) (signature prevHash : Str) :
    Except PyExn MeshMessage :=
  if h : messageChecks content payload.1 = .ok () then
    .ok ⟨messageId, authorId, timestampNs, kind, content, payload.1, signature, prevHash,
      Json.wf_val payload, h⟩
  else .error (contractError "invalid or oversized mesh message")

/-! ## The chat -/

/-- `MeshChat`. -/
structure MeshChat where
  messages : List MeshMessage
  head : Str

/-- `MeshChat()`. -/
def MeshChat.empty : MeshChat := ⟨[], genesisHash⟩

/-- `append(msg)`: the message is in the log before its hash is taken. -/
def MeshChat.append (c : MeshChat) (msg : MeshMessage) : Except PyExn Unit × MeshChat :=
  if msg.prevHash ≠ c.head then (.error (contractError "chain break"), c)
  else
    match msg.hash with
    | .error e => (.error e, { c with messages := c.messages ++ [msg] })
    | .ok h => (.ok (), ⟨c.messages ++ [msg], h⟩)

/-- The loop of `verify()`. -/
def verifyFrom : Str → List MeshMessage → Except PyExn (Option Str)
  | prev, [] => .ok (some prev)
  | prev, m :: ms => do
      if m.prevHash ≠ prev then return none
      verifyFrom (← m.hash) ms

/-- `verify()`. -/
def MeshChat.verify (c : MeshChat) : Except PyExn Bool := do
  match ← verifyFrom genesisHash c.messages with
  | none => return false
  | some prev => return decide (prev = c.head)

/-! ## Nodes -/

/-- `MeshNode`. The trace keeps the key under which each peer was admitted when it became one. -/
structure MeshNode where
  identity : MeshIdentity
  chat : MeshChat
  peers : Dict Str MeshIdentity
  revoked : List Str
  admitted : Dict Str Str

/-- `MeshNode(identity, sign_fn, verify_fn)`. -/
def MeshNode.new (identity : MeshIdentity) : MeshNode := ⟨identity, .empty, [], [], []⟩

/-- `connect_peer(peer)`. -/
def MeshNode.connectPeer (n : MeshNode) (peer : MeshIdentity) : Except PyExn Unit × MeshNode :=
  if peer.deviceId ∈ n.revoked then (.error (contractError "device is revoked"), n)
  else
    match n.peers.get? peer.deviceId with
    | some old =>
        if old.publicKey ≠ peer.publicKey then
          (.error (contractError "peer key changes require explicit host re-admission"), n)
        else (.ok (), { n with peers := n.peers.set peer.deviceId peer })
    | none => (.ok (),
        { n with
          peers := n.peers.set peer.deviceId peer
          admitted := n.admitted.set peer.deviceId peer.publicKey })

/-- `disconnect_peer(device_id)`. -/
def MeshNode.disconnectPeer (n : MeshNode) (deviceId : Str) : MeshNode :=
  { n with peers := n.peers.pop deviceId, admitted := n.admitted.pop deviceId }

/-- `revoke_device(device_id, revoker_signature)`. -/
def MeshNode.revokeDevice (n : MeshNode) (deviceId : Str) : MeshNode :=
  { n with revoked := deviceId :: n.revoked }.disconnectPeer deviceId

/-- A signature: the public key, what was signed, and the text of the signature. -/
structure Signature where
  key : Str
  data : List Nat
  text : Str
deriving DecidableEq

/-- What a node sends: the id and the time that it draws, and what `sign_fn` returns. -/
structure Draft where
  messageId : Str
  timestampNs : Int
  kind : MeshMessageKind
  content : Str
  payload : {v : Json // v.wf = true}
  signature : Except PyExn Str

/-- `send_message(kind, content, payload)`, with the signature that it makes. -/
def MeshNode.sendMessage (n : MeshNode) (d : Draft) :
    Except PyExn MeshMessage × MeshNode × List Signature :=
  let payload : {v : Json // v.wf = true} := if d.payload.1.truthy = true then d.payload
    else ⟨.obj [], rfl⟩
  match MeshMessage.make d.messageId n.identity.deviceId d.timestampNs d.kind d.content payload []
      n.chat.head with
  | .error e => (.error e, n, [])
  | .ok msg =>
      match msg.data, d.signature with
      | .error e, _ => (.error e, n, [])
      | .ok _, .error e => (.error e, n, [])
      | .ok data, .ok signature =>
          let made := [⟨n.identity.publicKey, data, signature⟩]
          match MeshMessage.make msg.messageId msg.authorId msg.timestampNs msg.kind msg.content
              ⟨msg.payload, msg.payload_wf⟩ signature msg.prevHash with
          | .error e => (.error e, n, made)
          | .ok signedMsg =>
              match n.chat.append signedMsg with
              | (.error e, chat) => (.error e, { n with chat := chat }, made)
              | (.ok (), chat) => (.ok signedMsg, { n with chat := chat }, made)

/-- `receive_message(msg)`, where `verify_fn` accepts the signatures that were made. -/
def MeshNode.receiveMessage (n : MeshNode) (signatures : List Signature) (msg : MeshMessage) :
    Except PyExn Bool × MeshNode :=
  if msg.authorId ∈ n.revoked then (.ok false, n)
  else
    match n.peers.get? msg.authorId with
    | none => (.ok false, n)
    | some peer =>
        match msg.data with
        | .error e => (.error e, n)
        | .ok data =>
            if (⟨peer.publicKey, data, msg.signature⟩ : Signature) ∉ signatures then (.ok false, n)
            else
              match n.chat.append msg with
              | (.error (.userError _ _), chat) => (.ok false, { n with chat := chat })
              | (.error e, chat) => (.error e, { n with chat := chat })
              | (.ok (), chat) => (.ok true, { n with chat := chat })

/-! ## The network -/

/-- Nodes, and the signatures that owners of keys made. -/
structure Network (ι : Type) where
  nodes : ι → MeshNode
  signatures : List Signature

/-- The calls. The owner of a key may sign anything at any time. -/
inductive Call (ι : Type) where
  | connectPeer (n : ι) (peer : MeshIdentity)
  | disconnectPeer (n : ι) (deviceId : Str)
  | revokeDevice (n : ι) (deviceId : Str)
  | sendMessage (n : ι) (d : Draft)
  | deliver (n : ι) (msg : MeshMessage)
  | sign (signature : Signature)

variable {ι : Type} [DecidableEq ι]

/-- One node replaced. -/
def Network.put (w : Network ι) (n : ι) (node : MeshNode) : Network ι :=
  { w with nodes := Function.update w.nodes n node }

/-- The network after a call, also one that raises. -/
def Network.step (w : Network ι) : Call ι → Network ι
  | .connectPeer n peer => w.put n ((w.nodes n).connectPeer peer).2
  | .disconnectPeer n deviceId => w.put n ((w.nodes n).disconnectPeer deviceId)
  | .revokeDevice n deviceId => w.put n ((w.nodes n).revokeDevice deviceId)
  | .sendMessage n d =>
      let (_, node, made) := (w.nodes n).sendMessage d
      { w.put n node with signatures := w.signatures ++ made }
  | .deliver n msg => w.put n ((w.nodes n).receiveMessage w.signatures msg).2
  | .sign signature => { w with signatures := w.signatures ++ [signature] }

/-- The network after a sequence of calls. -/
def Network.run (w : Network ι) (calls : List (Call ι)) : Network ι := calls.foldl Network.step w

/-- The network of new nodes. -/
def Network.new (identity : ι → MeshIdentity) : Network ι := ⟨fun n => .new (identity n), []⟩

end ResidualHarness.Mesh
