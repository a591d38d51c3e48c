import ResidualHarness.Mesh.Node
import ResidualHarness.Python.WholeFloats

/-!
# Safety of the mesh chat

Whatever is delivered to the nodes of a network, the chat of each node verifies and only grows, and
what it holds of another device was signed under the key with which that device was a peer
(`chat_safety`).
-/

set_option autoImplicit false

namespace ResidualHarness.Mesh

open Python Core

section

variable [FloatModel]

/-! ## What is hashed -/

theorem data_eq_ok_iff {m : MeshMessage} {d : List Nat} :
    m.data = .ok d ↔ (Json.obj m.body).dumpable = true ∧
      d = ((Json.obj m.body).renderIn asciiStyle).flatMap utf8Char := by
  constructor
  · intro h
    obtain ⟨_, hd, h⟩ := bind_eq_ok.1 h
    have hdump := require_eq_ok.1 hd
    rw [utf8_of_encodable (encodable_ascii hdump)] at h
    exact ⟨hdump, (Except.ok.inj h).symm⟩
  · rintro ⟨hd, rfl⟩
    exact bind_eq_ok.2 ⟨(), require_of hd, utf8_of_encodable (encodable_ascii hd)⟩

theorem hash_eq_ok_iff {m : MeshMessage} {h : Str} :
    m.hash = .ok h ↔ ∃ d, m.data = .ok d ∧ sha256 d = h := by
  constructor
  · intro hm
    obtain ⟨d, hd, hh⟩ := bind_eq_ok.1 hm
    exact ⟨d, hd, Except.ok.inj hh⟩
  · rintro ⟨d, hd, rfl⟩
    exact bind_eq_ok.2 ⟨d, hd, rfl⟩

/-- No string of the message holds a surrogate. -/
def MeshMessage.Encodable (m : MeshMessage) : Prop := (Json.obj m.body).allStr encodable = true

/-- What a message says: all but its signature, and its payload up to the order of keys. -/
def MeshMessage.statement (m : MeshMessage) :
    Str × Str × Int × MeshMessageKind × Str × Json × Str :=
  (m.messageId, m.authorId, m.timestampNs, m.kind, m.content, m.payload.norm, m.prevHash)

omit [FloatModel] in
theorem kind_injective {a b : MeshMessageKind} (h : a.value = b.value) : a = b := by
  cases a <;> cases b <;> first | rfl | exact absurd h (by decide)

theorem body_wf (m : MeshMessage) : (Json.obj m.body).wf = true := by
  rw [Json.wf, Bool.and_eq_true, decide_eq_true_eq, Json.wfFields_iff]
  constructor
  · show [lit "message_id", lit "author_id", lit "timestamp_ns", lit "kind", lit "content",
      lit "payload", lit "prev_hash"].Nodup
    decide
  · simp [MeshMessage.body, Json.wf, m.payload_wf]

theorem body_nodup (m : MeshMessage) : (m.body.map Prod.fst).Nodup := by
  have h := body_wf m
  rw [Json.wf, Bool.and_eq_true, decide_eq_true_eq] at h
  exact h.1

theorem statement_eq_of_data {m n : MeshMessage} (hm : m.Encodable) (hn : n.Encodable) {d : List Nat}
    (hmd : m.data = .ok d) (hnd : n.data = .ok d) : m.statement = n.statement := by
  obtain ⟨hmdump, rfl⟩ := data_eq_ok_iff.1 hmd
  obtain ⟨hndump, htext⟩ := data_eq_ok_iff.1 hnd
  have hmread : (Json.obj m.body).Readable asciiStyle := ⟨body_wf m, hmdump, hm⟩
  have hnread : (Json.obj n.body).Readable asciiStyle := ⟨body_wf n, hndump, hn⟩
  have hnorm : (Json.obj m.body).norm = (Json.obj n.body).norm :=
    renderIn_injective hmread hnread (utf8Text_injective htext)
  rw [Fields.obj_norm, Fields.obj_norm, Json.obj.injEq] at hnorm
  have hget (key : Str) := Fields.get?_alike hnorm (body_nodup n) key
  have hstr {s t : Str} (h : (some (Json.str s)).map Json.norm = (some (Json.str t)).map Json.norm) :
      s = t := Json.str.inj (Option.some.inj h)
  have h1 : m.messageId = n.messageId := hstr (hget (lit "message_id"))
  have h2 : m.authorId = n.authorId := hstr (hget (lit "author_id"))
  have h3 : m.timestampNs = n.timestampNs := Json.int.inj (Option.some.inj (hget (lit "timestamp_ns")))
  have h4 : m.kind = n.kind := kind_injective (hstr (hget (lit "kind")))
  have h5 : m.content = n.content := hstr (hget (lit "content"))
  have h6 : m.payload.norm = n.payload.norm := Option.some.inj (hget (lit "payload"))
  have h7 : m.prevHash = n.prevHash := hstr (hget (lit "prev_hash"))
  rw [MeshMessage.statement, MeshMessage.statement, h1, h2, h3, h4, h5, h6, h7]

/-! ## Chats that verify -/

/-- The hash before a message; a message always has one, its own hash may fail. -/
def MeshMessage.prev (m : MeshMessage) : Except PyExn Str := .ok m.prevHash

/-- The chain of a log: from the hash `p` to the hash `q`. -/
def Chained (p : Str) (ms : List MeshMessage) (q : Str) : Prop :=
  Links MeshMessage.prev MeshMessage.hash (.ok p) ms ∧ linkHead MeshMessage.hash (.ok p) ms = .ok q

theorem chained_cons {p q : Str} {m : MeshMessage} {ms : List MeshMessage} :
    Chained p (m :: ms) q ↔ m.prevHash = p ∧ ∃ h, m.hash = .ok h ∧ Chained h ms q := by
  constructor
  · rintro ⟨⟨hprev, hlinks⟩, hhead⟩
    refine ⟨Except.ok.inj hprev, ?_⟩
    cases hm : m.hash with
    | ok h =>
        rw [hm] at hlinks
        exact ⟨h, rfl, hlinks, by rwa [linkHead, hm] at hhead⟩
    | error e =>
        -- nothing is linked to a hash that failed
        rw [hm] at hlinks
        rw [linkHead, hm] at hhead
        cases ms with
        | nil => cases hhead
        | cons n ns => cases hlinks.1
  · rintro ⟨rfl, h, hm, hlinks, hhead⟩
    exact ⟨⟨rfl, by rwa [hm]⟩, by rwa [linkHead, hm]⟩

theorem verifyFrom_iff {p q : Str} {ms : List MeshMessage} :
    verifyFrom p ms = .ok (some q) ↔ Chained p ms q := by
  induction ms generalizing p with
  | nil =>
      constructor
      · intro h
        cases h
        exact ⟨trivial, rfl⟩
      · rintro ⟨-, h⟩
        cases h
        rfl
  | cons m ms ih =>
      rw [chained_cons, verifyFrom]
      by_cases hp : m.prevHash = p
      · rw [if_neg (by simpa using hp)]
        constructor
        · intro h
          obtain ⟨x, hx, h⟩ := bind_eq_ok.1 h
          exact ⟨hp, x, hx, ih.1 h⟩
        · rintro ⟨-, x, hx, h⟩
          exact bind_eq_ok.2 ⟨x, hx, ih.2 h⟩
      · rw [if_pos hp]
        constructor
        · intro h
          cases h
        · exact fun h => absurd h.1 hp

theorem verify_iff {c : MeshChat} : c.verify = .ok true ↔ Chained genesisHash c.messages c.head := by
  rw [← verifyFrom_iff, MeshChat.verify]
  constructor
  · intro h
    obtain ⟨r, hr, h⟩ := bind_eq_ok.1 h
    cases r with
    | none => cases h
    | some q =>
        have hq : q = c.head := of_decide_eq_true (Except.ok.inj h)
        rw [hr, hq]
  · intro h
    exact bind_eq_ok.2 ⟨some c.head, h, by simp [pure, Except.pure]⟩

theorem hash_of_mem {p q : Str} {ms : List MeshMessage} (h : Chained p ms q) :
    ∀ m ∈ ms, ∃ x, m.hash = .ok x := by
  induction ms generalizing p with
  | nil => nofun
  | cons n ns ih =>
      obtain ⟨-, x, hx, h⟩ := chained_cons.1 h
      intro m hm
      cases hm with
      | head => exact ⟨x, hx⟩
      | tail _ hm => exact ih h m hm

theorem chained_append {p q r : Str} {m : MeshMessage} {ms : List MeshMessage} (h : Chained p ms q)
    (hprev : m.prevHash = q) (hhash : m.hash = .ok r) : Chained p (ms ++ [m]) r := by
  refine ⟨links_append.2 ⟨h.1, ?_, trivial⟩, ?_⟩
  · rw [h.2, MeshMessage.prev, hprev]
  · rw [linkHead_append]
    exact hhash

theorem hash_ne_genesis (m : MeshMessage) : m.hash ≠ .ok genesisHash := by
  intro h
  obtain ⟨d, -, hd⟩ := hash_eq_ok_iff.1 h
  have hlen := sha256_length d
  rw [hd] at hlen
  revert hlen
  decide

/-! ## Two logs -/

/-- SHA-256 does not collide on what is hashed of the messages of two logs. -/
def CollisionFree (ms ns : List MeshMessage) : Prop :=
  ∀ m ∈ ms, ∀ n ∈ ns, ∀ d e, m.data = .ok d → n.data = .ok e → sha256 d = sha256 e → d = e

/-- Two logs that may be compared by their hashes. -/
structure Comparable (ms ns : List MeshMessage) : Prop where
  collisionFree : CollisionFree ms ns
  left : ∀ m ∈ ms, m.Encodable
  right : ∀ n ∈ ns, n.Encodable

theorem binding_of_comparable {p q : Str} {ms ns : List MeshMessage} (h : Comparable ms ns)
    (hc : Chained p ms q) :
    Binding MeshMessage.prev MeshMessage.hash MeshMessage.statement ms ns := by
  intro m hm n hn heq
  obtain ⟨x, hx⟩ := hash_of_mem hc m hm
  obtain ⟨d, hd, hdx⟩ := hash_eq_ok_iff.1 hx
  obtain ⟨e, he, hex⟩ := hash_eq_ok_iff.1 (heq ▸ hx)
  have hde := h.collisionFree m hm n hn d e hd he (hdx.trans hex.symm)
  subst hde
  have hstatement := statement_eq_of_data (h.left m hm) (h.right n hn) hd he
  refine ⟨hstatement, congrArg Except.ok ?_⟩
  simp only [MeshMessage.statement, Prod.mk.injEq] at hstatement
  exact hstatement.2.2.2.2.2.2

theorem statements_eq_of_head {c c' : MeshChat} (h : c.verify = .ok true) (h' : c'.verify = .ok true)
    (hcomp : Comparable c.messages c'.messages) (hhead : c.head = c'.head) :
    c.messages.map MeshMessage.statement = c'.messages.map MeshMessage.statement := by
  have hc := verify_iff.1 h
  have hc' := verify_iff.1 h'
  exact map_eq_of_head hc.1 hc'.1 (fun m _ => hash_ne_genesis m) (fun m _ => hash_ne_genesis m)
    (binding_of_comparable hcomp hc) (by rw [hc.2, hc'.2, hhead])

/-- A chat whose head occurs in another chat is a prefix of it. -/
theorem statements_prefix_of_head {c c' : MeshChat} (h : c.verify = .ok true)
    (h' : c'.verify = .ok true) (hcomp : Comparable c.messages c'.messages) {m : MeshMessage}
    (hm : m ∈ c'.messages) (hhead : m.hash = .ok c.head) :
    c.messages.map MeshMessage.statement <+: c'.messages.map MeshMessage.statement := by
  have hc := verify_iff.1 h
  exact isPrefix_of_head hc.1 (verify_iff.1 h').1 (fun m _ => hash_ne_genesis m)
    (fun m _ => hash_ne_genesis m) (binding_of_comparable hcomp hc) hm (by rw [hc.2, hhead])

theorem hashes_nodup {c : MeshChat} (h : c.verify = .ok true)
    (hcomp : Comparable c.messages c.messages) : (c.messages.map MeshMessage.hash).Nodup := by
  have hc := verify_iff.1 h
  exact hash_nodup hc.1 (fun m _ => hash_ne_genesis m) (binding_of_comparable hcomp hc)

/-- An id occurs twice only if two different contents were signed under it. -/
theorem ids_nodup {c : MeshChat} (h : c.verify = .ok true)
    (hcomp : Comparable c.messages c.messages)
    (hids : ∀ m ∈ c.messages, ∀ n ∈ c.messages, m.messageId = n.messageId → m.data = n.data) :
    (c.messages.map MeshMessage.messageId).Nodup := by
  refine List.Nodup.map_on ?_ (List.Nodup.of_map _ (hashes_nodup h hcomp))
  intro m hm n hn hid
  have hhash : m.hash = n.hash := by rw [MeshMessage.hash, MeshMessage.hash, hids m hm n hn hid]
  exact List.inj_on_of_nodup_map (hashes_nodup h hcomp) hm hn hhash

/-! ## Calls -/

theorem make_ok {messageId authorId : Str} {timestampNs : Int} {kind : MeshMessageKind} {content : Str}
    {payload : {v : Json // v.wf = true}} {signature prevHash : Str} {m : MeshMessage}
    (h : MeshMessage.make messageId authorId timestampNs kind content payload signature prevHash =
      .ok m) :
    m.authorId = authorId ∧ m.prevHash = prevHash ∧ m.signature = signature ∧
      m.body = [(lit "message_id", .str messageId), (lit "author_id", .str authorId),
        (lit "timestamp_ns", .int timestampNs), (lit "kind", .str kind.value),
        (lit "content", .str content), (lit "payload", payload.1), (lit "prev_hash", .str prevHash)] := by
  unfold MeshMessage.make at h
  split at h
  · cases h
    exact ⟨rfl, rfl, rfl, rfl⟩
  · cases h

theorem data_congr {m n : MeshMessage} (h : m.body = n.body) : m.data = n.data := by
  rw [MeshMessage.data, MeshMessage.data, h]

theorem hash_of_data {m : MeshMessage} {d : List Nat} (h : m.data = .ok d) :
    m.hash = .ok (sha256 d) := hash_eq_ok_iff.2 ⟨d, h, rfl⟩

theorem append_of_data {c : MeshChat} {m : MeshMessage} {d : List Nat} (h : m.data = .ok d) :
    c.append m = if m.prevHash ≠ c.head then (.error (contractError "chain break"), c)
      else (.ok (), ⟨c.messages ++ [m], sha256 d⟩) := by
  unfold MeshChat.append
  rw [hash_of_data h]

/-- A message with these bytes is the next of the chat. -/
structure Appended (c : MeshChat) (m : MeshMessage) (d : List Nat) (c' : MeshChat) : Prop where
  prev : m.prevHash = c.head
  data : m.data = .ok d
  chat : c' = ⟨c.messages ++ [m], sha256 d⟩

/-- All that a call does to a node of the network. -/
inductive Stepped {ι : Type} (w : Network ι) (c : Call ι) (k : ι) (node : MeshNode) : Prop
  | quiet (hchat : node.chat = (w.nodes k).chat)
  | sent (m : MeshMessage) (d : List Nat) (hauthor : m.authorId = (w.nodes k).identity.deviceId)
      (happended : Appended (w.nodes k).chat m d node.chat)
  | received (m : MeshMessage) (d : List Nat) (peer : MeshIdentity) (hcall : c = .deliver k m)
      (hrevoked : m.authorId ∉ (w.nodes k).revoked)
      (hpeer : (w.nodes k).peers.get? m.authorId = some peer)
      (hsigned : ⟨peer.publicKey, d, m.signature⟩ ∈ w.signatures)
      (happended : Appended (w.nodes k).chat m d node.chat)

theorem sendMessage_cases (n : MeshNode) (d : Draft) :
    (n.sendMessage d).2.1 = n ∨ ∃ m b c, m.authorId = n.identity.deviceId ∧
      Appended n.chat m b c ∧ (n.sendMessage d).2.1 = { n with chat := c } := by
  unfold MeshNode.sendMessage
  extract_lets payload
  cases hmake : MeshMessage.make d.messageId n.identity.deviceId d.timestampNs d.kind d.content payload
      [] n.chat.head with
  | error e => exact .inl rfl
  | ok msg =>
      dsimp only
      cases hdata : msg.data with
      | error e => exact .inl rfl
      | ok b =>
          cases hsig : d.signature with
          | error e => exact .inl rfl
          | ok signature =>
              dsimp only
              cases hsigned : MeshMessage.make msg.messageId msg.authorId msg.timestampNs msg.kind
                  msg.content ⟨msg.payload, msg.payload_wf⟩ signature msg.prevHash with
              | error e => exact .inl rfl
              | ok m =>
                  obtain ⟨hauthor, hprev, -, -⟩ := make_ok hmake
                  obtain ⟨hauthor', hprev', -, hbody⟩ := make_ok hsigned
                  -- the signature is not part of what is hashed
                  have hb : m.data = .ok b := by
                    rw [← hdata]
                    exact data_congr hbody
                  simp only [append_of_data hb, hprev'.trans hprev, ne_eq, not_true, if_false]
                  exact .inr ⟨m, b, _, hauthor'.trans hauthor, ⟨hprev'.trans hprev, hb, rfl⟩, rfl⟩

theorem receiveMessage_cases (n : MeshNode) (signatures : List Signature) (m : MeshMessage) :
    (n.receiveMessage signatures m).2 = n ∨ ∃ b peer c, m.authorId ∉ n.revoked ∧
      n.peers.get? m.authorId = some peer ∧ ⟨peer.publicKey, b, m.signature⟩ ∈ signatures ∧
      Appended n.chat m b c ∧ (n.receiveMessage signatures m).2 = { n with chat := c } := by
  unfold MeshNode.receiveMessage
  by_cases hrev : m.authorId ∈ n.revoked
  · exact .inl (by rw [if_pos hrev])
  rw [if_neg hrev]
  cases hpeer : n.peers.get? m.authorId with
  | none => exact .inl rfl
  | some peer =>
      simp only
      cases hdata : m.data with
      | error e => exact .inl rfl
      | ok b =>
          simp only
          by_cases hsig : (⟨peer.publicKey, b, m.signature⟩ : Signature) ∈ signatures
          · rw [if_neg (not_not_intro hsig), append_of_data hdata]
            by_cases hprev : m.prevHash = n.chat.head
            · rw [if_neg (not_not_intro hprev)]
              exact .inr ⟨b, peer, _, hrev, rfl, hsig, ⟨hprev, hdata, rfl⟩, rfl⟩
            · rw [if_pos hprev]
              exact .inl rfl
          · exact .inl (by rw [if_pos hsig])

theorem connectPeer_chat (n : MeshNode) (peer : MeshIdentity) :
    (n.connectPeer peer).2.chat = n.chat ∧ (n.connectPeer peer).2.identity = n.identity := by
  unfold MeshNode.connectPeer
  split
  · exact ⟨rfl, rfl⟩
  · split
    · split <;> exact ⟨rfl, rfl⟩
    · exact ⟨rfl, rfl⟩

/-- The key of every peer is the one under which it was admitted. -/
def Pinned (n : MeshNode) : Prop :=
  ∀ d p, n.peers.get? d = some p → n.admitted.get? d = some p.publicKey

theorem pinned_disconnectPeer {n : MeshNode} (h : Pinned n) (deviceId : Str) :
    Pinned (n.disconnectPeer deviceId) := by
  intro d p hp
  simp only [MeshNode.disconnectPeer, Dict.get?_pop] at hp ⊢
  by_cases hd : d = deviceId
  · rw [if_pos hd] at hp
    cases hp
  · rw [if_neg hd] at hp ⊢
    exact h d p hp

theorem pinned_connectPeer {n : MeshNode} (h : Pinned n) (peer : MeshIdentity) :
    Pinned (n.connectPeer peer).2 := by
  unfold MeshNode.connectPeer
  by_cases hrev : peer.deviceId ∈ n.revoked
  · rwa [if_pos hrev]
  rw [if_neg hrev]
  cases hold : n.peers.get? peer.deviceId with
  | none =>
      intro d p hp
      simp only [Dict.get?_set] at hp ⊢
      by_cases hd : d = peer.deviceId
      · rw [if_pos hd] at hp ⊢
        rw [Option.some.inj hp]
      · rw [if_neg hd] at hp ⊢
        exact h d p hp
  | some old =>
      simp only
      by_cases hkey : old.publicKey = peer.publicKey
      · rw [if_neg (not_not_intro hkey)]
        intro d p hp
        simp only [Dict.get?_set] at hp
        by_cases hd : d = peer.deviceId
        · -- the peer that replaces the old one has its key
          rw [if_pos hd] at hp
          rw [hd, ← Option.some.inj hp, ← hkey]
          exact h _ _ hold
        · rw [if_neg hd] at hp
          exact h d p hp
      · rwa [if_pos hkey]

/-! ## Runs -/

variable {ι : Type} [DecidableEq ι]

/-- What holds of the new node and of the old ones holds after a replacement. -/
theorem put_elim {P : MeshNode → Prop} {w : Network ι} {n k : ι} {node : MeshNode}
    (hnew : k = n → P node) (hold : P (w.nodes k)) : P ((w.put n node).nodes k) := by
  have hnode : (w.put n node).nodes k = if k = n then node else w.nodes k :=
    Function.update_apply w.nodes n node k
  rw [hnode]
  by_cases hk : k = n
  · rw [if_pos hk]
    exact hnew hk
  · rwa [if_neg hk]

theorem step_cases (w : Network ι) (c : Call ι) (k : ι) : Stepped w c k ((w.step c).nodes k) := by
  cases c with
  | connectPeer n peer =>
      refine put_elim (P := Stepped w (.connectPeer n peer) k) ?_ (.quiet rfl)
      rintro rfl
      exact .quiet (connectPeer_chat _ peer).1
  | disconnectPeer n deviceId =>
      refine put_elim (P := Stepped w (.disconnectPeer n deviceId) k) ?_ (.quiet rfl)
      rintro rfl
      exact .quiet rfl
  | revokeDevice n deviceId =>
      refine put_elim (P := Stepped w (.revokeDevice n deviceId) k) ?_ (.quiet rfl)
      rintro rfl
      exact .quiet rfl
  | sendMessage n d =>
      have hnode : (w.step (.sendMessage n d)).nodes k =
          (w.put n ((w.nodes n).sendMessage d).2.1).nodes k := rfl
      rw [hnode]
      refine put_elim (P := Stepped w (.sendMessage n d) k) ?_ (.quiet rfl)
      rintro rfl
      rcases sendMessage_cases (w.nodes k) d with h | ⟨m, b, c, hauthor, happended, h⟩
      · exact .quiet (congrArg MeshNode.chat h)
      · rw [h]
        exact .sent m b hauthor happended
  | deliver n m =>
      refine put_elim (P := Stepped w (.deliver n m) k) ?_ (.quiet rfl)
      rintro rfl
      rcases receiveMessage_cases (w.nodes k) w.signatures m with
        h | ⟨b, peer, c, hrev, hpeer, hsigned, happended, h⟩
      · exact .quiet (congrArg MeshNode.chat h)
      · rw [h]
        exact .received m b peer rfl hrev hpeer hsigned happended
  | sign signature => exact .quiet rfl

/-- A call keeps who a node is, and the keys of its peers. -/
theorem step_pinned {w : Network ι} (c : Call ι) {k : ι} (h : Pinned (w.nodes k)) :
    ((w.step c).nodes k).identity = (w.nodes k).identity ∧ Pinned ((w.step c).nodes k) := by
  let Kept (node : MeshNode) : Prop := node.identity = (w.nodes k).identity ∧ Pinned node
  have hold : Kept (w.nodes k) := ⟨rfl, h⟩
  show Kept ((w.step c).nodes k)
  cases c with
  | connectPeer n peer =>
      refine put_elim ?_ hold
      rintro rfl
      exact ⟨(connectPeer_chat _ peer).2, pinned_connectPeer h peer⟩
  | disconnectPeer n deviceId =>
      refine put_elim ?_ hold
      rintro rfl
      exact ⟨rfl, pinned_disconnectPeer h deviceId⟩
  | revokeDevice n deviceId =>
      refine put_elim ?_ hold
      rintro rfl
      exact ⟨rfl, pinned_disconnectPeer
        (n := { w.nodes k with revoked := deviceId :: (w.nodes k).revoked }) h deviceId⟩
  | sendMessage n d =>
      have hnode : (w.step (.sendMessage n d)).nodes k =
          (w.put n ((w.nodes n).sendMessage d).2.1).nodes k := rfl
      rw [hnode]
      refine put_elim ?_ hold
      rintro rfl
      rcases sendMessage_cases (w.nodes k) d with h' | ⟨m, b, c, -, -, h'⟩
      · rw [h']
        exact hold
      · rw [h']
        exact ⟨rfl, h⟩
  | deliver n m =>
      refine put_elim ?_ hold
      rintro rfl
      rcases receiveMessage_cases (w.nodes k) w.signatures m with
        h' | ⟨b, peer, c, -, -, -, -, h'⟩
      · rw [h']
        exact hold
      · rw [h']
        exact ⟨rfl, h⟩
  | sign signature => exact hold

theorem run_append (w : Network ι) (calls more : List (Call ι)) :
    w.run (calls ++ more) = (w.run calls).run more := List.foldl_append

/-- The message was delivered in the run when its author was a peer that was not revoked, with the key
under which it was admitted, and the owner of that key had signed it. -/
def Accepted (w : Network ι) (calls : List (Call ι)) (k : ι) (m : MeshMessage) : Prop :=
  ∃ before after peer d, calls = before ++ Call.deliver k m :: after ∧
    m.authorId ∉ ((w.run before).nodes k).revoked ∧
    ((w.run before).nodes k).peers.get? m.authorId = some peer ∧
    ((w.run before).nodes k).admitted.get? m.authorId = some peer.publicKey ∧
    m.data = .ok d ∧ ⟨peer.publicKey, d, m.signature⟩ ∈ (w.run before).signatures ∧
    ((w.run (before ++ [Call.deliver k m])).nodes k).chat.messages =
      ((w.run before).nodes k).chat.messages ++ [m]

theorem accepted_append {w : Network ι} {calls more : List (Call ι)} {k : ι} {m : MeshMessage}
    (h : Accepted w calls k m) : Accepted w (calls ++ more) k m := by
  obtain ⟨before, after, peer, d, rfl, h⟩ := h
  exact ⟨before, after ++ more, peer, d, by simp, h⟩

/-- The invariant of a node. -/
structure Safe (w : Network ι) (calls : List (Call ι)) (k : ι) : Prop where
  identity : ((w.run calls).nodes k).identity = (w.nodes k).identity
  pinned : Pinned ((w.run calls).nodes k)
  verifies : ((w.run calls).nodes k).chat.verify = .ok true
  accepted : ∀ m ∈ ((w.run calls).nodes k).chat.messages,
    m.authorId ≠ (w.nodes k).identity.deviceId → Accepted w calls k m

theorem verify_appended {c c' : MeshChat} {m : MeshMessage} {d : List Nat}
    (h : c.verify = .ok true) (ha : Appended c m d c') : c'.verify = .ok true := by
  rw [verify_iff] at h ⊢
  rw [ha.chat]
  exact chained_append h ha.prev (hash_of_data ha.data)

theorem step_grows (w : Network ι) (c : Call ι) (k : ι) :
    (w.nodes k).chat.messages <+: ((w.step c).nodes k).chat.messages := by
  cases step_cases w c k with
  | quiet hchat => exact hchat ▸ List.prefix_rfl
  | sent m d _ ha => exact ha.chat ▸ List.prefix_append _ _
  | received m d peer _ _ _ _ ha => exact ha.chat ▸ List.prefix_append _ _

theorem safe_step {w : Network ι} {calls : List (Call ι)} {k : ι} (hs : Safe w calls k)
    (c : Call ι) : Safe w (calls ++ [c]) k := by
  have hrun : w.run (calls ++ [c]) = (w.run calls).step c := run_append w calls [c]
  obtain ⟨hid, hpinned⟩ := step_pinned c hs.pinned
  have hrest : ∀ m ∈ ((w.run calls).nodes k).chat.messages,
      m.authorId ≠ (w.nodes k).identity.deviceId → Accepted w (calls ++ [c]) k m :=
    fun m hm hauthor => accepted_append (hs.accepted m hm hauthor)
  cases step_cases (w.run calls) c k with
  | quiet hchat =>
      exact ⟨hrun ▸ hid.trans hs.identity, hrun ▸ hpinned, by rw [hrun, hchat]; exact hs.verifies,
        by rw [hrun, hchat]; exact hrest⟩
  | sent m d hauthor ha =>
      refine ⟨hrun ▸ hid.trans hs.identity, hrun ▸ hpinned,
        hrun ▸ verify_appended hs.verifies ha, ?_⟩
      rw [hrun, ha.chat]
      refine List.forall_mem_append.2 ⟨hrest, List.forall_mem_singleton.2 fun hother => ?_⟩
      -- what a node sends is its own
      exact absurd (hauthor.trans (congrArg MeshIdentity.deviceId hs.identity)) hother
  | received m d peer hcall hrevoked hpeer hsigned ha =>
      refine ⟨hrun ▸ hid.trans hs.identity, hrun ▸ hpinned,
        hrun ▸ verify_appended hs.verifies ha, ?_⟩
      have hlog : ((w.run (calls ++ [c])).nodes k).chat.messages =
          ((w.run calls).nodes k).chat.messages ++ [m] := by rw [hrun, ha.chat]
      rw [hlog]
      refine List.forall_mem_append.2 ⟨hrest, List.forall_mem_singleton.2 fun _ => ?_⟩
      rw [hcall] at hlog ⊢
      exact ⟨calls, [], peer, d, rfl, hrevoked, hpeer, hs.pinned _ _ hpeer, ha.data, hsigned, hlog⟩

theorem safe_run (identity : ι → MeshIdentity) (calls : List (Call ι)) (k : ι) :
    Safe (.new identity) calls k := by
  induction calls using List.reverseRecOn with
  | nil => exact ⟨rfl, nofun, rfl, nofun⟩
  | append_singleton calls c ih => exact safe_step ih c

theorem run_grows (w : Network ι) (calls : List (Call ι)) (k : ι) :
    (w.nodes k).chat.messages <+: ((w.run calls).nodes k).chat.messages := by
  induction calls generalizing w with
  | nil => exact List.prefix_rfl
  | cons c calls ih => exact (step_grows w c k).trans (ih (w.step c))

/-! ## Safety -/

/-- What the chats of a network of new nodes promise after a sequence of calls. -/
structure ChatSafety (identity : ι → MeshIdentity) (calls : List (Call ι)) : Prop where
  verifies : ∀ k, (((Network.new identity).run calls).nodes k).chat.verify = .ok true
  grows : ∀ k before after, calls = before ++ after →
    (((Network.new identity).run before).nodes k).chat.messages <+:
      (((Network.new identity).run calls).nodes k).chat.messages
  accepted : ∀ k, ∀ m ∈ (((Network.new identity).run calls).nodes k).chat.messages,
    m.authorId ≠ (identity k).deviceId → Accepted (.new identity) calls k m
  once : ∀ k, let log := (((Network.new identity).run calls).nodes k).chat.messages
    Comparable log log → (log.map MeshMessage.hash).Nodup ∧
      ((∀ m ∈ log, ∀ n ∈ log, m.messageId = n.messageId → m.data = n.data) →
        (log.map MeshMessage.messageId).Nodup)
  agree : ∀ j k, let chat := (((Network.new identity).run calls).nodes j).chat
    let chat' := (((Network.new identity).run calls).nodes k).chat
    Comparable chat.messages chat'.messages → chat.head = chat'.head →
      chat.messages.map MeshMessage.statement = chat'.messages.map MeshMessage.statement
  behind : ∀ j k, let chat := (((Network.new identity).run calls).nodes j).chat
    let chat' := (((Network.new identity).run calls).nodes k).chat
    Comparable chat.messages chat'.messages → (∃ m ∈ chat'.messages, m.hash = .ok chat.head) →
      chat.messages.map MeshMessage.statement <+: chat'.messages.map MeshMessage.statement

theorem chat_safety (identity : ι → MeshIdentity) (calls : List (Call ι)) :
    ChatSafety identity calls where
  verifies k := (safe_run identity calls k).verifies
  grows k before after h := by
    rw [h, run_append]
    exact run_grows _ after k
  accepted k := (safe_run identity calls k).accepted
  once k hcomp :=
    ⟨hashes_nodup (safe_run identity calls k).verifies hcomp,
      ids_nodup (safe_run identity calls k).verifies hcomp⟩
  agree j k hcomp hhead :=
    statements_eq_of_head (safe_run identity calls j).verifies (safe_run identity calls k).verifies
      hcomp hhead
  behind j k hcomp := fun ⟨_, hm, hhead⟩ =>
    statements_prefix_of_head (safe_run identity calls j).verifies
      (safe_run identity calls k).verifies hcomp hm hhead

/-! ## Ids that repeat -/

/-- A message that a peer signed is appended at the head. -/
theorem deliver_of {w : Network ι} {k : ι} {m : MeshMessage} {p : MeshIdentity} {d : List Nat}
    (hrev : m.authorId ∉ (w.nodes k).revoked) (hpeer : (w.nodes k).peers.get? m.authorId = some p)
    (hdata : m.data = .ok d) (hsigned : ⟨p.publicKey, d, m.signature⟩ ∈ w.signatures)
    (hprev : m.prevHash = (w.nodes k).chat.head) :
    (w.step (.deliver k m)).nodes k =
      { w.nodes k with chat := ⟨(w.nodes k).chat.messages ++ [m], sha256 d⟩ } := by
  have hnode : (w.step (.deliver k m)).nodes k = ((w.nodes k).receiveMessage w.signatures m).2 :=
    Function.update_self ..
  rw [hnode]
  unfold MeshNode.receiveMessage
  rw [if_neg hrev]
  simp only [hpeer, hdata, if_neg (not_not_intro hsigned), append_of_data hdata, hprev, ne_eq,
    not_true, if_false]

end

section Concrete

attribute [local instance] wholeFloats

/-- An empty message of the device "a" after the hash. -/
def emptyMessage (prevHash : Str) : MeshMessage where
  messageId := lit "i"
  authorId := lit "a"
  timestampNs := 0
  kind := .chat
  content := []
  payload := .obj []
  signature := []
  prevHash := prevHash
  payload_wf := Json.wf_empty
  checked := rfl

/-- A peer signs two messages with one id, the second after the first, and both are in the log. -/
theorem message_id_repeats : ∃ (identity : Unit → MeshIdentity) (calls : List (Call Unit)),
    ¬ (((((Network.new identity).run calls).nodes ()).chat.messages).map
      MeshMessage.messageId).Nodup := by
  let peer : MeshIdentity := ⟨lit "a", lit "k"⟩
  let first := emptyMessage genesisHash
  obtain ⟨d, hd⟩ : ∃ d, first.data = .ok d := ⟨_, data_eq_ok_iff.2 ⟨rfl, rfl⟩⟩
  let second := emptyMessage (sha256 d)
  obtain ⟨e, he⟩ : ∃ e, second.data = .ok e := ⟨_, data_eq_ok_iff.2 ⟨rfl, rfl⟩⟩
  let identity : Unit → MeshIdentity := fun _ => ⟨lit "b", lit "l"⟩
  let calls : List (Call Unit) :=
    [.connectPeer () peer, .sign ⟨lit "k", d, []⟩, .sign ⟨lit "k", e, []⟩]
  let w := (Network.new identity).run calls
  have hfirst : (w.step (.deliver () first)).nodes () =
      { w.nodes () with chat := ⟨[first], sha256 d⟩ } :=
    deliver_of (p := peer) (d := d) List.not_mem_nil rfl hd List.mem_cons_self rfl
  have hsecond := deliver_of (w := w.step (.deliver () first)) (k := ()) (m := second)
    (p := peer) (d := e) (by rw [hfirst]; exact List.not_mem_nil) (by rw [hfirst]; rfl) he
    (List.mem_cons_of_mem _ List.mem_cons_self) (by rw [hfirst]; rfl)
  refine ⟨identity, calls ++ [.deliver () first, .deliver () second], ?_⟩
  have hrun : ((Network.new identity).run calls).run [.deliver () first, .deliver () second] =
      (w.step (.deliver () first)).step (.deliver () second) := rfl
  rw [run_append, hrun, hsecond, hfirst]
  exact fun h => (List.nodup_cons.1 h).1 List.mem_cons_self

end Concrete

end ResidualHarness.Mesh
