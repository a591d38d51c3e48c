import ResidualHarness.Core.HashChain
import ResidualHarness.Core.Task
import ResidualHarness.Python.WholeFloats

/-!
# Replicated receipt chains

`residual/hadr/chain.py` and `residual/hadr/replication.py`: a hash-linked chain of receipts, the
replicas that get its receipts one by one, at once in the primary region and by messages elsewhere.
Installing a receipt only appends it, so that a replica which missed an earlier receipt has a gap
for ever. When the chains of the replicas are prefixes of the primary chain is said in
`prefixed_iff`.
-/

set_option autoImplicit false

namespace ResidualHarness.Hadr

open Python Core

section Model

variable [FloatModel]

/-! ## Chains -/

/-- `HADR_CHAIN_SCHEMA`. -/
def chainSchema : Str := lit "residual.hadr.chain.v1"

/-- `_receipt_hash(sequence, task_id, payload, prev_hash)`. -/
def receiptHash (sequence : Nat) (taskId payload prevHash : Str) : Except PyExn Str := do
  let text ← canonical (.obj [(lit "sequence", .int sequence), (lit "task_id", .str taskId),
    (lit "payload", .str payload), (lit "prev_hash", .str prevHash)])
  let data ← utf8 (chainSchema ++ lf :: text)
  return sha256 data

/-- `ChainReceipt`. -/
structure ChainReceipt where
  receiptId : Str
  sequence : Nat
  taskId : Str
  payload : Str
  prevHash : Str
deriving DecidableEq

/-- `ChainReceipt.verify()`. -/
def ChainReceipt.verify (r : ChainReceipt) : Except PyExn Bool := do
  return decide (r.receiptId = (← receiptHash r.sequence r.taskId r.payload r.prevHash))

/-- `ReceiptChain`. -/
abbrev ReceiptChain := List ChainReceipt

/-- `head_hash`. -/
def ReceiptChain.headHash (c : ReceiptChain) : Str := (c.getLast?.map ChainReceipt.receiptId).getD genesis

/-- The receipt that `ReceiptChain.append(task_id, payload)` makes. -/
def ReceiptChain.next (c : ReceiptChain) (taskId payload : Value) : Except PyExn ChainReceipt :=
  match taskId with
  | .json (.str t) =>
      if isBlank t then .error (contractError "task_id is required")
      else
        match payload with
        | .json (.str p) => do
            let id ← receiptHash c.length t p c.headHash
            return ⟨id, c.length, t, p, c.headHash⟩
        | _ => .error (contractError "payload must be text")
  | _ => .error (contractError "task_id is required")

/-- The loop of `ReceiptChain.verify()`. -/
def verifyFrom : Nat → Str → ReceiptChain → Except PyExn Bool
  | _, _, [] => .ok true
  | index, prev, r :: rest =>
      if r.sequence ≠ index ∨ r.prevHash ≠ prev then .ok false
      else do
        if ← r.verify then verifyFrom (index + 1) r.receiptId rest else return false

/-- `ReceiptChain.verify()`. -/
def ReceiptChain.verify (c : ReceiptChain) : Except PyExn Bool := verifyFrom 0 genesis c

/-- The receipts are numbered and linked, from a number and a hash on. -/
def Linked : Nat → Str → ReceiptChain → Prop
  | _, _, [] => True
  | index, prev, r :: rest => r.sequence = index ∧ r.prevHash = prev ∧
      receiptHash r.sequence r.taskId r.payload r.prevHash = .ok r.receiptId ∧
      Linked (index + 1) r.receiptId rest

theorem verifyFrom_of_linked {index : Nat} {prev : Str} {c : ReceiptChain} (h : Linked index prev c) :
    verifyFrom index prev c = .ok true := by
  induction c generalizing index prev with
  | nil => rfl
  | cons r rest ih =>
      obtain ⟨hs, hp, hh, hrest⟩ := h
      have hv : r.verify = .ok true := by
        rw [ChainReceipt.verify, hh]
        simp [bind, Except.bind, pure, Except.pure]
      rw [verifyFrom, if_neg (by simp [hs, hp]), hv]
      exact ih hrest

theorem linked_append {index : Nat} {prev : Str} {c d : ReceiptChain} :
    Linked index prev (c ++ d) ↔ Linked index prev c ∧
      Linked (index + c.length) ((c.getLast?.map ChainReceipt.receiptId).getD prev) d := by
  induction c generalizing index prev with
  | nil => simp [Linked]
  | cons r rest ih =>
      have hlast : ((r :: rest).getLast?.map ChainReceipt.receiptId).getD prev =
          (rest.getLast?.map ChainReceipt.receiptId).getD r.receiptId := by
        cases rest with
        | nil => rfl
        | cons q rest => rw [List.getLast?_cons_cons, List.getLast?_cons]; rfl
      rw [List.cons_append, Linked, ih, hlast, Linked, List.length_cons, Nat.add_assoc index 1,
        Nat.add_comm 1]
      simp only [and_assoc]

theorem Linked.getElem? {index : Nat} {prev : Str} {rs : ReceiptChain} (h : Linked index prev rs)
    {i : Nat} {r : ChainReceipt} (hr : rs[i]? = some r) : r.sequence = index + i := by
  induction rs generalizing index prev i with
  | nil => cases hr
  | cons q rest ih =>
      cases i with
      | zero =>
          cases hr
          exact h.1
      | succ i =>
          rw [ih h.2.2.2 hr]
          omega

theorem next_linked {c : ReceiptChain} {taskId payload : Value} {r : ChainReceipt}
    (h : Linked 0 genesis c) (hr : c.next taskId payload = .ok r) :
    Linked 0 genesis (c ++ [r]) ∧ r.sequence = c.length := by
  unfold ReceiptChain.next at hr
  split at hr
  · split at hr
    · cases hr
    · split at hr
      · obtain ⟨id, hid, hr⟩ := bind_eq_ok.1 hr
        cases hr
        refine ⟨linked_append.2 ⟨h, ?_, rfl, hid, trivial⟩, rfl⟩
        rw [Nat.zero_add]
      · cases hr
  · cases hr

theorem verify_of_prefix {c p : ReceiptChain} (hp : Linked 0 genesis p) (h : c <+: p) :
    c.verify = .ok true := by
  obtain ⟨d, rfl⟩ := h
  exact verifyFrom_of_linked (linked_append.1 hp).1

/-- Receipts of a chain that are put after a prefix of it give a prefix exactly when their numbers
go on from its end. -/
theorem append_prefix_iff {c p : ReceiptChain} (hp : Linked 0 genesis p) (hc : c <+: p)
    {rs : ReceiptChain} (hrs : ∀ r ∈ rs, r ∈ p) :
    c ++ rs <+: p ↔ ∀ pre r post, rs = pre ++ r :: post → c.length + pre.length = r.sequence := by
  constructor
  · rintro ⟨d, rfl⟩ pre r post rfl
    have hget : (c ++ (pre ++ r :: post) ++ d)[c.length + pre.length]? = some r := by
      simp
    rw [hp.getElem? hget, Nat.zero_add]
  · induction rs generalizing c with
    | nil =>
        intro _
        rw [List.append_nil]
        exact hc
    | cons r rs ih =>
        intro hnum
        have hseq : c.length = r.sequence := by simpa using hnum [] r rs rfl
        obtain ⟨i, hi⟩ := List.getElem?_of_mem (hrs r List.mem_cons_self)
        have hi' := hp.getElem? hi
        rw [Nat.zero_add, ← hseq] at hi'
        rw [← hi'] at hi
        have hc' : c ++ [r] <+: p := by
          obtain ⟨d, rfl⟩ := hc
          rw [List.getElem?_append_right (le_refl _), Nat.sub_self] at hi
          obtain ⟨d', rfl⟩ : ∃ d', d = r :: d' := by
            cases d with
            | nil => cases hi
            | cons x d =>
                cases hi
                exact ⟨d, rfl⟩
          exact ⟨d', by simp⟩
        have hstep := ih hc' (fun x hx => hrs x (List.mem_cons_of_mem _ hx)) ?_
        · rwa [List.append_assoc, List.singleton_append] at hstep
        · intro pre x post he
          have hx := hnum (r :: pre) x post (by rw [he]; rfl)
          rw [List.length_append, List.length_singleton, ← hx, List.length_cons]
          omega

/-! ## Replication -/

/-- `ReplicaNode`. -/
structure ReplicaNode where
  nodeId : Str
  region : Str
  isPrimaryRegion : Bool
  available : Bool
  chain : ReceiptChain

/-- `ReplicaNode.install(receipt)`. -/
def ReplicaNode.install (n : ReplicaNode) (r : ChainReceipt) : Except PyExn ReplicaNode :=
  if n.available then .ok { n with chain := n.chain ++ [r] }
  else .error (contractError "replica is unavailable")

/-- `ReplicaMessage`, with times in `T`. -/
structure ReplicaMessage (T : Type) where
  origin : Str
  target : Str
  receipt : ChainReceipt
  enqueuedAt : T
  deliverAt : T

/-- `ReceiptReplicator` with its transport and its clock. `arrival region now` is
`now + latency_for(region)`. -/
structure Replicator (T : Type) where
  primaryRegion : Str
  arrival : Str → T → T
  chain : ReceiptChain
  replicas : Dict Str ReplicaNode
  pending : List (ReplicaMessage T)
  now : T

variable {T : Type}

/-- A new replicator. -/
def Replicator.init (primaryRegion : Str) (arrival : Str → T → T) (now : T) : Replicator T :=
  ⟨primaryRegion, arrival, [], [], [], now⟩

/-- The ids of the replicas with a property, sorted. -/
def nodesWhere (p : ReplicaNode → Bool) (replicas : Dict Str ReplicaNode) : List Str :=
  ((replicas.map Prod.snd).filter p).map ReplicaNode.nodeId |>.insertionSort (· ≤ ·)

/-- `for node in nodes: node.install(receipt)`: the exception that ends the loop, if there is one,
and the replicas after it. -/
def installAll (r : ChainReceipt) : List Str → Dict Str ReplicaNode →
    Except PyExn Unit × Dict Str ReplicaNode
  | [], d => (.ok (), d)
  | id :: ids, d =>
      match d.get? id with
      | none => (.error .keyError, d)
      | some n =>
          match n.install r with
          | .error e => (.error e, d)
          | .ok n' => installAll r ids (d.set id n')

/-- A replica that gets receipts at once. -/
def ReplicaNode.isSync (n : ReplicaNode) : Bool := n.isPrimaryRegion && n.available

/-- A replica that gets the messages to its region. -/
def ReplicaNode.takes (region : Str) (n : ReplicaNode) : Bool :=
  decide (n.region = region) && !n.isPrimaryRegion && n.available

/-- `_replicate_sync_primary(receipt)`. -/
def Replicator.replicateSyncPrimary (s : Replicator T) (r : ChainReceipt) :
    Except PyExn Unit × Dict Str ReplicaNode :=
  if nodesWhere ReplicaNode.isSync s.replicas = [] then
    (.error (contractError "durability policy unmet: no available primary-region replica (RPO=0)"),
      s.replicas)
  else installAll r (nodesWhere ReplicaNode.isSync s.replicas) s.replicas

/-- The message of `transport.send`. -/
def Replicator.message (s : Replicator T) (r : ChainReceipt) (region : Str) : ReplicaMessage T :=
  ⟨s.primaryRegion, region, r, s.now, s.arrival region s.now⟩

/-- `_replicate_async_secondaries(receipt)`. -/
def Replicator.replicateAsyncSecondaries (s : Replicator T) (r : ChainReceipt) : Replicator T :=
  let secondaries := ((s.replicas.map Prod.snd).filter fun n => !n.isPrimaryRegion).map
    ReplicaNode.region
  { s with pending := s.pending ++ (sortedSet secondaries).map (s.message r) }

/-- `append(task_id, payload)`. -/
def Replicator.append (s : Replicator T) (taskId payload : Value) :
    Except PyExn ChainReceipt × Replicator T :=
  match s.chain.next taskId payload with
  | .error e => (.error e, s)
  | .ok r =>
      let grown := s.chain ++ [r]
      match s.replicateSyncPrimary r with
      | (.error e, replicas) => (.error e, { s with chain := grown.dropLast, replicas := replicas })
      | (.ok _, replicas) =>
          (.ok r, Replicator.replicateAsyncSecondaries
            { s with chain := grown, replicas := replicas } r)

/-- The node as it is registered. -/
def Replicator.registered (s : Replicator T) (node : ReplicaNode) : ReplicaNode :=
  { node with isPrimaryRegion := decide (node.region = s.primaryRegion) }

/-- `add_replica(node)`. -/
def Replicator.addReplica (s : Replicator T) (node : ReplicaNode) :
    Except PyExn Unit × Replicator T :=
  if node.nodeId ∈ s.replicas.keys then
    (.error (contractError "duplicate replica registration"), s)
  else
    (.ok (), { s with replicas := s.replicas.set node.nodeId (s.registered node) })

section Delivery

variable [LinearOrder T]

/-- The messages that are due. -/
def Replicator.due (s : Replicator T) : List (ReplicaMessage T) :=
  s.pending.filter fun m => m.deliverAt ≤ s.now

/-- The loop of `deliver()` over the messages. -/
def deliverAll : List (ReplicaMessage T) → Dict Str ReplicaNode →
    Except PyExn Unit × Dict Str ReplicaNode
  | [], d => (.ok (), d)
  | m :: ms, d =>
      match installAll m.receipt (nodesWhere (ReplicaNode.takes m.target) d) d with
      | (.error e, d') => (.error e, d')
      | (.ok _, d') => deliverAll ms d'

/-- `deliver()`. -/
def Replicator.deliver (s : Replicator T) : Except PyExn (List (ReplicaMessage T)) × Replicator T :=
  let left := s.pending.filter fun m => s.now < m.deliverAt
  let r := deliverAll s.due s.replicas
  (r.1.map fun _ => s.due, { s with pending := left, replicas := r.2 })

/-- What can happen to a replicator. -/
inductive Op (T : Type) where
  | append (taskId payload : Value)
  | deliver
  | addReplica (node : ReplicaNode)
  | available (nodeId : Str) (b : Bool)
  | clock (now : T)

/-- A change of a node's availability. -/
def setAvailable (nodeId : Str) (b : Bool) (replicas : Dict Str ReplicaNode) :
    Dict Str ReplicaNode :=
  match replicas.get? nodeId with
  | none => replicas
  | some n => replicas.set nodeId { n with available := b }

/-- The replicator after an operation. -/
def Replicator.step (s : Replicator T) : Op T → Replicator T
  | .append taskId payload => (s.append taskId payload).2
  | .deliver => s.deliver.2
  | .addReplica node => (s.addReplica node).2
  | .available nodeId b => { s with replicas := setAvailable nodeId b s.replicas }
  | .clock now => { s with now := now }

/-- The replicator after a sequence of operations. -/
def Replicator.run (s : Replicator T) (ops : List (Op T)) : Replicator T := ops.foldl Replicator.step s

/-! ## What the loops do to a replica -/

/-- Every replica is registered under its id. -/
structure Keyed (d : Dict Str ReplicaNode) : Prop where
  nodup : d.keys.Nodup
  ids : ∀ id n, d.get? id = some n → n.nodeId = id

/-- The node with more receipts. -/
def ReplicaNode.extend (n : ReplicaNode) (rs : ReceiptChain) : ReplicaNode :=
  { n with chain := n.chain ++ rs }

omit [FloatModel] in
theorem Keyed.set {d : Dict Str ReplicaNode} (h : Keyed d) {id : Str} {n : ReplicaNode}
    (hn : n.nodeId = id) : Keyed (d.set id n) := by
  refine ⟨Dict.nodup_set h.nodup id n, ?_⟩
  intro k m hm
  rw [Dict.get?_set] at hm
  split at hm
  · rename_i hk
    cases hm
    rw [hn, hk]
  · exact h.ids k m hm

omit [FloatModel] [LinearOrder T] in
theorem mem_nodesWhere {p : ReplicaNode → Bool} {d : Dict Str ReplicaNode} (hd : Keyed d)
    {id : Str} : id ∈ nodesWhere p d ↔ ∃ n, d.get? id = some n ∧ p n = true := by
  rw [nodesWhere, List.mem_insertionSort, List.mem_map]
  constructor
  · rintro ⟨n, hn, rfl⟩
    obtain ⟨hn, hp⟩ := List.mem_filter.1 hn
    obtain ⟨⟨k, n'⟩, hmem, rfl⟩ := List.mem_map.1 hn
    have hget := Dict.get?_of_mem hd.nodup hmem
    refine ⟨n', ?_, hp⟩
    rw [hd.ids k n' hget]
    exact hget
  · rintro ⟨n, hn, hp⟩
    exact ⟨n, List.mem_filter.2 ⟨List.mem_map.2 ⟨(id, n), Dict.mem_of_get? hn, rfl⟩, hp⟩,
      hd.ids id n hn⟩

omit [FloatModel] [LinearOrder T] in
theorem nodesWhere_nodup {p : ReplicaNode → Bool} {d : Dict Str ReplicaNode} (hd : Keyed d) :
    (nodesWhere p d).Nodup := by
  have hids : (d.map Prod.snd).map ReplicaNode.nodeId = d.keys := by
    rw [List.map_map, Dict.keys]
    apply List.map_congr_left
    rintro ⟨k, n⟩ hmem
    exact hd.ids k n (Dict.get?_of_mem hd.nodup hmem)
  rw [nodesWhere, (List.perm_insertionSort _ _).nodup_iff]
  refine List.Nodup.sublist (List.filter_sublist.map _) ?_
  rw [hids]
  exact hd.nodup

omit [FloatModel] in
/-- The loop over available nodes ends, and every one of them has got the receipt. -/
theorem installAll_ok (r : ChainReceipt) {ids : List Str} (hnd : ids.Nodup)
    {d : Dict Str ReplicaNode} (hd : Keyed d)
    (hids : ∀ id ∈ ids, ∃ n, d.get? id = some n ∧ n.available = true) :
    ∃ d', installAll r ids d = (.ok (), d') ∧ Keyed d' ∧ d'.keys = d.keys ∧
      ∀ id, d'.get? id = (d.get? id).map fun n => if id ∈ ids then n.extend [r] else n := by
  induction ids generalizing d with
  | nil => exact ⟨d, rfl, hd, rfl, fun id => by simp⟩
  | cons i ids ih =>
      obtain ⟨hi, hnd⟩ := List.nodup_cons.1 hnd
      obtain ⟨n, hn, hav⟩ := hids i List.mem_cons_self
      have hkeys : (d.set i (n.extend [r])).keys = d.keys := by
        rw [Dict.keys_set, if_pos (Dict.mem_keys_of_get? hn)]
      obtain ⟨d', hd', hk', hkeys', hget⟩ := ih hnd
        (hd.set (n := n.extend [r]) (hd.ids i n hn)) (by
          intro id hid
          obtain ⟨m, hm, hmav⟩ := hids id (List.mem_cons_of_mem _ hid)
          have hne : id ≠ i := fun he => hi (he ▸ hid)
          exact ⟨m, by rw [Dict.get?_set, if_neg hne]; exact hm, hmav⟩)
      refine ⟨d', ?_, hk', hkeys'.trans hkeys, ?_⟩
      · have hinst : n.install r = .ok (n.extend [r]) := by
          rw [ReplicaNode.install, if_pos hav]
          rfl
        rw [installAll, hn]
        simp only [hinst]
        exact hd'
      · intro id
        rw [hget id, Dict.get?_set]
        by_cases he : id = i
        · subst he
          rw [if_pos rfl, hn]
          simp [hi]
        · rw [if_neg he]
          simp [he]

omit [FloatModel] in
theorem installWhere_ok (r : ChainReceipt) {p : ReplicaNode → Bool}
    (hp : ∀ n, p n = true → n.available = true) {d : Dict Str ReplicaNode} (hd : Keyed d) :
    ∃ d', installAll r (nodesWhere p d) d = (.ok (), d') ∧ Keyed d' ∧ d'.keys = d.keys ∧
      ∀ id, d'.get? id = (d.get? id).map fun n => if p n then n.extend [r] else n := by
  obtain ⟨d', hd', hk', hkeys, hget⟩ := installAll_ok r (nodesWhere_nodup (p := p) hd) hd (by
    intro id hid
    obtain ⟨n, hn, hpn⟩ := (mem_nodesWhere hd).1 hid
    exact ⟨n, hn, hp n hpn⟩)
  refine ⟨d', hd', hk', hkeys, ?_⟩
  intro id
  rw [hget id]
  cases hn : d.get? id with
  | none => rfl
  | some n =>
      have hiff : id ∈ nodesWhere p d ↔ p n = true := by
        rw [mem_nodesWhere hd]
        constructor
        · rintro ⟨m, hm, hpm⟩
          rw [hn] at hm
          cases hm
          exact hpm
        · exact fun hpn => ⟨n, hn, hpn⟩
      simp only [Option.map_some, hiff]

omit [FloatModel] in
theorem takes_available {region : Str} (n : ReplicaNode) (h : n.takes region = true) :
    n.available = true := by
  simp only [ReplicaNode.takes, Bool.and_eq_true] at h
  exact h.2

omit [FloatModel] in
theorem extend_extend (n : ReplicaNode) (rs qs : ReceiptChain) :
    (n.extend rs).extend qs = n.extend (rs ++ qs) := by
  simp [ReplicaNode.extend]

/-- The receipts that a list of messages brings to a replica. -/
def brought (n : ReplicaNode) (ms : List (ReplicaMessage T)) : ReceiptChain :=
  (ms.filter fun m => n.takes m.target).map ReplicaMessage.receipt

omit [FloatModel] [LinearOrder T] in
/-- The loop over the messages ends, and every replica has got what they bring to it. -/
theorem deliverAll_ok (ms : List (ReplicaMessage T)) {d : Dict Str ReplicaNode} (hd : Keyed d) :
    ∃ d', deliverAll ms d = (.ok (), d') ∧ Keyed d' ∧ d'.keys = d.keys ∧
      ∀ id, d'.get? id = (d.get? id).map fun n => n.extend (brought n ms) := by
  induction ms generalizing d with
  | nil =>
      refine ⟨d, rfl, hd, rfl, ?_⟩
      intro id
      cases d.get? id with
      | none => rfl
      | some n => simp [brought, ReplicaNode.extend]
  | cons m ms ih =>
      obtain ⟨d₁, h₁, hk₁, hkeys₁, hget₁⟩ := installWhere_ok m.receipt
        (p := ReplicaNode.takes m.target) takes_available hd
      obtain ⟨d₂, h₂, hk₂, hkeys₂, hget₂⟩ := ih hk₁
      refine ⟨d₂, ?_, hk₂, hkeys₂.trans hkeys₁, ?_⟩
      · rw [deliverAll, h₁]
        exact h₂
      · intro id
        rw [hget₂ id, hget₁ id]
        cases d.get? id with
        | none => rfl
        | some n =>
            simp only [Option.map_some]
            by_cases ht : n.takes m.target = true
            · have hb : brought (n.extend [m.receipt]) ms = brought n ms := rfl
              rw [if_pos ht, hb, extend_extend]
              simp [brought, ht]
            · rw [if_neg ht]
              simp [brought, ht]

/-! ## Prefixes -/

/-- What holds in every run: replicas are registered under their ids, the primary chain is linked,
and messages carry its receipts. -/
structure Replicator.Wired (s : Replicator T) : Prop where
  keyed : Keyed s.replicas
  linked : Linked 0 genesis s.chain
  sent : ∀ m ∈ s.pending, m.receipt ∈ s.chain

/-- Every replica's chain is a prefix of the primary chain and verifies. -/
def Replicator.Prefixed (s : Replicator T) : Prop :=
  ∀ id n, s.replicas.get? id = some n → n.chain <+: s.chain ∧ n.chain.verify = .ok true

/-- Every replica that an operation gives a receipt to holds the receipts before it. -/
def Replicator.CaughtUp (s : Replicator T) : Op T → Prop
  | .append taskId payload => (∃ r, s.chain.next taskId payload = .ok r) →
      ∀ id n, s.replicas.get? id = some n → n.isPrimaryRegion = true → n.available = true →
        n.chain.length = s.chain.length
  | .deliver => ∀ id n, s.replicas.get? id = some n →
      ∀ pre m post, (s.due.filter fun m => n.takes m.target) = pre ++ m :: post →
        n.chain.length + pre.length = m.receipt.sequence
  | .addReplica node => node.nodeId ∉ s.replicas.keys → node.chain <+: s.chain
  | _ => True

omit [LinearOrder T] in
theorem prefixed_iff_chains {s : Replicator T} (hs : Linked 0 genesis s.chain) :
    s.Prefixed ↔ ∀ id n, s.replicas.get? id = some n → n.chain <+: s.chain :=
  ⟨fun h id n hn => (h id n hn).1, fun h id n hn => ⟨h id n hn, verify_of_prefix hs (h id n hn)⟩⟩

omit [LinearOrder T] in
/-- What `append` does: it is refused and changes nothing, or the chain and the available replicas of
the primary region get the receipt. -/
theorem append_cases {s : Replicator T} (hs : s.Wired) (taskId payload : Value) :
    (∃ e, (s.append taskId payload).1 = .error e ∧ (s.append taskId payload).2 = s ∧
        ((∃ r, s.chain.next taskId payload = .ok r) →
          ∀ id n, s.replicas.get? id = some n → n.isSync = false)) ∨
      ∃ r s', s.chain.next taskId payload = .ok r ∧ s.append taskId payload = (.ok r, s') ∧
        s'.chain = s.chain ++ [r] ∧ Keyed s'.replicas ∧
        (∀ m ∈ s'.pending, m ∈ s.pending ∨ m.receipt = r) ∧
        ∀ id, s'.replicas.get? id = (s.replicas.get? id).map fun n =>
          if n.isSync then n.extend [r] else n := by
  rw [Replicator.append]
  cases hr : s.chain.next taskId payload with
  | error e =>
      refine Or.inl ⟨e, rfl, rfl, ?_⟩
      rintro ⟨r, hr⟩
      cases hr
  | ok r =>
      have hsync : ∀ n : ReplicaNode, n.isSync = true → n.available = true := by
        intro n hn
        simp only [ReplicaNode.isSync, Bool.and_eq_true] at hn
        exact hn.2
      by_cases hnone : nodesWhere ReplicaNode.isSync s.replicas = []
      · have hsp : s.replicateSyncPrimary r = (_, s.replicas) := if_pos hnone
        simp only [hsp]
        refine Or.inl ⟨_, rfl, ?_, ?_⟩
        · rw [List.dropLast_concat]
        · intro _ id n hn
          by_contra hno
          rw [Bool.not_eq_false] at hno
          have hmem := (mem_nodesWhere hs.keyed).2 ⟨n, hn, hno⟩
          rw [hnone] at hmem
          cases hmem
      · obtain ⟨d, hd, hk, -, hget⟩ := installWhere_ok r hsync hs.keyed
        have hsp : s.replicateSyncPrimary r = (.ok (), d) := (if_neg hnone).trans hd
        simp only [hsp]
        refine Or.inr ⟨r, _, rfl, rfl, rfl, hk, ?_, hget⟩
        intro m hm
        rcases List.mem_append.1 hm with hm | hm
        · exact Or.inl hm
        · obtain ⟨region, -, rfl⟩ := List.mem_map.1 hm
          exact Or.inr rfl

theorem step_wired {s : Replicator T} (hs : s.Wired) (op : Op T) : (s.step op).Wired := by
  cases op with
  | append taskId payload =>
      rw [Replicator.step]
      rcases append_cases hs taskId payload with ⟨e, -, hsame, -⟩ | ⟨r, s', hr, hok, hc, hk, hp, -⟩
      · rw [hsame]
        exact hs
      · rw [hok]
        refine ⟨hk, by rw [hc]; exact (next_linked hs.linked hr).1, ?_⟩
        intro m hm
        rw [hc]
        rcases hp m hm with hm | hm
        · exact List.mem_append_left _ (hs.sent m hm)
        · rw [hm]
          exact List.mem_append_right _ List.mem_cons_self
  | deliver =>
      obtain ⟨d, hd, hk, -, -⟩ := deliverAll_ok s.due hs.keyed
      rw [Replicator.step, Replicator.deliver, hd]
      exact ⟨hk, hs.linked, fun m hm => hs.sent m (List.mem_filter.1 hm).1⟩
  | addReplica node =>
      rw [Replicator.step, Replicator.addReplica]
      split
      · exact hs
      · exact ⟨hs.keyed.set rfl, hs.linked, hs.sent⟩
  | available nodeId b =>
      refine ⟨?_, hs.linked, hs.sent⟩
      show Keyed (setAvailable nodeId b s.replicas)
      rw [setAvailable]
      split
      · exact hs.keyed
      · rename_i n hn
        exact hs.keyed.set (n := { n with available := b }) (hs.keyed.ids nodeId n hn)
  | clock now => exact ⟨hs.keyed, hs.linked, hs.sent⟩

omit [LinearOrder T] in
/-- A receipt that `append` makes continues the chains of the replicas that have all receipts. -/
theorem append_prefixed_iff {s s' : Replicator T} (hs : s.Wired) (hp : s.Prefixed)
    {taskId payload : Value} {r : ChainReceipt} (hr : s.chain.next taskId payload = .ok r)
    (hc : s'.chain = s.chain ++ [r])
    (hget : ∀ id, s'.replicas.get? id = (s.replicas.get? id).map fun n =>
      if n.isSync then n.extend [r] else n) :
    s'.Prefixed ↔ ∀ id n, s.replicas.get? id = some n → n.isSync = true →
      n.chain.length = s.chain.length := by
  obtain ⟨hlink, hseq⟩ := next_linked hs.linked hr
  have hmem : ∀ x ∈ [r], x ∈ s.chain ++ [r] := fun x hx => List.mem_append_right _ hx
  have hlater : s.chain <+: s.chain ++ [r] := List.prefix_append _ _
  rw [prefixed_iff_chains (by rw [hc]; exact hlink), hc]
  constructor
  · intro h id n hn hsync
    have hn' : s'.replicas.get? id = some (n.extend [r]) := by
      rw [hget id, hn, Option.map_some, if_pos hsync]
    have hiff := append_prefix_iff hlink ((hp id n hn).1.trans hlater) hmem
    have hnum := hiff.1 (h id _ hn') [] r [] rfl
    rwa [List.length_nil, Nat.add_zero, hseq] at hnum
  · intro h id n' hn'
    rw [hget id, Option.map_eq_some_iff] at hn'
    obtain ⟨n, hn, rfl⟩ := hn'
    have hpn := (hp id n hn).1.trans hlater
    split
    · rename_i hsync
      refine (append_prefix_iff hlink hpn hmem).2 ?_
      intro pre x post he
      have hone : pre = [] ∧ x = r ∧ post = [] := by
        cases pre with
        | nil => simpa [eq_comm] using he
        | cons y pre => simp at he
      obtain ⟨rfl, rfl, rfl⟩ := hone
      rw [List.length_nil, Nat.add_zero, hseq]
      exact h id n hn hsync
    · exact hpn

theorem deliver_prefixed_iff {s : Replicator T} (hs : s.Wired) (hp : s.Prefixed) :
    s.deliver.2.Prefixed ↔ s.CaughtUp .deliver := by
  obtain ⟨d, hd, -, -, hget⟩ := deliverAll_ok s.due hs.keyed
  have hrep : s.deliver.2.replicas = d := by
    rw [Replicator.deliver, hd]
  have hsent : ∀ n : ReplicaNode, ∀ r ∈ brought n s.due, r ∈ s.chain := by
    intro n r hr
    obtain ⟨m, hm, rfl⟩ := List.mem_map.1 hr
    exact hs.sent m (List.mem_filter.1 (List.mem_filter.1 hm).1).1
  -- numbers of the receipts that are brought, by the messages that bring them
  have hnum : ∀ n : ReplicaNode, (∀ pre r post, brought n s.due = pre ++ r :: post →
        n.chain.length + pre.length = r.sequence) ↔
      ∀ pre m post, (s.due.filter fun m => n.takes m.target) = pre ++ m :: post →
        n.chain.length + pre.length = m.receipt.sequence := by
    intro n
    constructor
    · intro h pre m post he
      have hb : brought n s.due =
          pre.map ReplicaMessage.receipt ++ m.receipt :: post.map ReplicaMessage.receipt := by
        rw [brought, he, List.map_append, List.map_cons]
      have hlen := h _ _ _ hb
      rwa [List.length_map] at hlen
    · intro h pre r post he
      rw [brought, List.map_eq_append_iff] at he
      obtain ⟨pre', rest, hsplit, rfl, hrest⟩ := he
      obtain ⟨m, post', rfl, rfl, -⟩ := List.map_eq_cons_iff.1 hrest
      rw [List.length_map]
      exact h pre' m post' hsplit
  rw [prefixed_iff_chains (s := s.deliver.2) hs.linked, hrep]
  constructor
  · intro h id n hn
    have hn' : d.get? id = some (n.extend (brought n s.due)) := by
      rw [hget id, hn, Option.map_some]
    exact (hnum n).1 ((append_prefix_iff hs.linked (hp id n hn).1 (hsent n)).1 (h id _ hn'))
  · intro h id n' hn'
    rw [hget id, Option.map_eq_some_iff] at hn'
    obtain ⟨n, hn, rfl⟩ := hn'
    exact (append_prefix_iff hs.linked (hp id n hn).1 (hsent n)).2 ((hnum n).2 (h id n hn))

/-- An operation keeps the prefixes exactly when it gives receipts only to replicas that hold the
receipts before them. -/
theorem step_prefixed_iff {s : Replicator T} (hs : s.Wired) (hp : s.Prefixed) (op : Op T) :
    (s.step op).Prefixed ↔ s.CaughtUp op := by
  cases op with
  | append taskId payload =>
      rw [Replicator.step]
      rcases append_cases hs taskId payload with ⟨e, -, hsame, hsync⟩ | ⟨r, s', hr, hok, hc, -, -, hget⟩
      · rw [hsame]
        refine ⟨?_, fun _ => hp⟩
        intro _ hr id n hn h1 h2
        have hno := hsync hr id n hn
        rw [ReplicaNode.isSync, h1, h2] at hno
        cases hno
      · rw [hok, append_prefixed_iff hs hp hr hc hget]
        constructor
        · intro h _ id n hn h1 h2
          exact h id n hn (by rw [ReplicaNode.isSync, h1, h2]; rfl)
        · intro h id n hn hsync
          rw [ReplicaNode.isSync, Bool.and_eq_true] at hsync
          exact h ⟨r, hr⟩ id n hn hsync.1 hsync.2
  | deliver => exact deliver_prefixed_iff hs hp
  | addReplica node =>
      rw [Replicator.step, Replicator.addReplica]
      split
      · rename_i hmem
        exact ⟨fun _ hno => absurd hmem hno, fun _ => hp⟩
      · rename_i hno
        let s' : Replicator T := { s with replicas := s.replicas.set node.nodeId (s.registered node) }
        show s'.Prefixed ↔ _
        rw [prefixed_iff_chains (s := s') hs.linked]
        constructor
        · intro h _
          exact h node.nodeId (s.registered node) (by rw [Dict.get?_set, if_pos rfl])
        · intro h id n hn
          rw [Dict.get?_set] at hn
          split at hn
          · cases hn
            exact h hno
          · exact (hp id n hn).1
  | available nodeId b =>
      refine ⟨fun _ => trivial, fun _ => ?_⟩
      intro id n hn
      have hn' : (setAvailable nodeId b s.replicas).get? id = some n := hn
      rw [setAvailable] at hn'
      split at hn'
      · exact hp id n hn'
      · rename_i n₀ hn₀
        rw [Dict.get?_set] at hn'
        split at hn'
        · cases hn'
          exact hp nodeId n₀ hn₀
        · exact hp id n hn'
  | clock now => exact ⟨fun _ => trivial, fun _ => hp⟩

theorem run_wired {s : Replicator T} (hs : s.Wired) (ops : List (Op T)) : (s.run ops).Wired :=
  foldl_invariant (P := Replicator.Wired) (fun _ op h => step_wired h op) ops hs

theorem run_prefixed_iff {s : Replicator T} (hs : s.Wired) (hp : s.Prefixed) (ops : List (Op T)) :
    (∀ pre post, ops = pre ++ post → (s.run pre).Prefixed) ↔
      ∀ pre op post, ops = pre ++ op :: post → (s.run pre).CaughtUp op := by
  induction ops generalizing s with
  | nil =>
      refine ⟨?_, ?_⟩
      · intro _ pre op post he
        cases pre <;> cases he
      · intro _ pre post he
        cases pre with
        | nil => exact hp
        | cons x pre => cases he
  | cons op ops ih =>
      have hiff := step_prefixed_iff hs hp op
      constructor
      · intro h pre x post he
        have hstep : (s.step op).Prefixed := h [op] ops rfl
        cases pre with
        | nil =>
            cases he
            exact hiff.1 hstep
        | cons y pre =>
            cases he
            refine (ih (step_wired hs op) hstep).1 ?_ pre x post rfl
            intro pre' post' he'
            exact h (op :: pre') post' (by rw [he']; rfl)
      · intro h pre post he
        cases pre with
        | nil => exact hp
        | cons y pre =>
            cases he
            have hstep := hiff.2 (h [] op _ rfl)
            refine (ih (step_wired hs op) hstep).2 ?_ pre post rfl
            intro pre' x post' he'
            exact h (op :: pre') x post' (by rw [he']; rfl)

omit [LinearOrder T] in
theorem init_wired (primaryRegion : Str) (arrival : Str → T → T) (now : T) :
    (Replicator.init primaryRegion arrival now).Wired :=
  ⟨⟨List.nodup_nil, nofun⟩, trivial, nofun⟩

/-- In every run, every replica's chain is at all times a prefix of the primary chain, and verifies,
exactly when every replica that is given a receipt holds the receipts before it; and an append that
is refused changes nothing. -/
theorem prefixed_iff (primaryRegion : Str) (arrival : Str → T → T) (now : T) (ops : List (Op T)) :
    ((∀ pre post, ops = pre ++ post →
        ((Replicator.init primaryRegion arrival now).run pre).Prefixed) ↔
      ∀ pre op post, ops = pre ++ op :: post →
        ((Replicator.init primaryRegion arrival now).run pre).CaughtUp op) ∧
    ∀ taskId payload e,
      (((Replicator.init primaryRegion arrival now).run ops).append taskId payload).1 = .error e →
      (((Replicator.init primaryRegion arrival now).run ops).append taskId payload).2 =
        (Replicator.init primaryRegion arrival now).run ops := by
  have hw := init_wired primaryRegion arrival now
  refine ⟨run_prefixed_iff hw nofun ops, ?_⟩
  intro taskId payload e he
  rcases append_cases (run_wired hw ops) taskId payload with ⟨_, -, hsame, -⟩ | ⟨r, s', -, hok, -⟩
  · exact hsame
  · rw [hok] at he
    cases he

end Delivery

end Model

/-! ## An outage -/

section Concrete

attribute [local instance] wholeFloats

/-- A new node in the primary region. -/
def primaryNode (nodeId : String) : ReplicaNode := ⟨lit nodeId, lit "us-east", false, true, []⟩

/-- An append of a short payload. -/
def appendOf (payload : String) : Op Nat :=
  .append (.json (.str (lit "task"))) (.json (.str (lit payload)))

/-- Two nodes in the primary region, of which one misses the second of three receipts. -/
def outage : List (Op Nat) :=
  [.addReplica (primaryNode "rep-a"), .addReplica (primaryNode "rep-b"), appendOf "x",
    .available (lit "rep-b") false, appendOf "y", .available (lit "rep-b") true, appendOf "z"]

/-- The replicator after the outage. -/
def afterOutage : Replicator Nat :=
  (Replicator.init (lit "us-east") (fun _ now => now) 0).run outage

theorem afterOutage_sequences :
    afterOutage.chain.map ChainReceipt.sequence = [0, 1, 2] ∧
      (afterOutage.replicas.get? (lit "rep-b")).map
        (fun n => n.chain.map ChainReceipt.sequence) = some [0, 2] := by
  decide +kernel

/-- After an outage of a replica its chain has a gap. -/
theorem not_prefixed_after_outage : ¬ ∀ (primaryRegion : Str) (arrival : Str → Nat → Nat) (now : Nat)
    (ops : List (Op Nat)), ((Replicator.init primaryRegion arrival now).run ops).Prefixed := by
  intro h
  obtain ⟨hchain, hreplica⟩ := afterOutage_sequences
  obtain ⟨n, hn, hseq⟩ := Option.map_eq_some_iff.1 hreplica
  have hprefix := ((h (lit "us-east") (fun _ now => now) 0 outage) (lit "rep-b") n hn).1.map
    ChainReceipt.sequence
  rw [hseq] at hprefix
  have hbad : [0, 2] <+: [0, 1, 2] := hchain ▸ hprefix
  exact absurd hbad (by decide)

end Concrete

end ResidualHarness.Hadr
