import ResidualHarness.Hadr.Replication

/-!
# Stations that were cut off

`residual/hadr/degraded.py`: a station that works on without the cluster queues its receipts and
merges them into the shared chain later. A merge looks at the first entry of the chain that is the
same receipt or another payload of the same task, and nothing else; superseded entries stay where
they are. When that first entry is decisive, a merge appends exactly the receipts that are smaller
than all copies of their task (`appends_iff_of_decided`).
-/

set_option autoImplicit false

namespace ResidualHarness.Hadr

open Python Core

section Model

variable [FloatModel]

/-! ## Stations -/

/-- `ConflictResolution`. -/
structure ConflictResolution where
  receiptId : Str
  kept : Str
  rule : Str
deriving DecidableEq

/-- `self.shared_chain.append(task_id, payload)`. -/
def appendText (c : ReceiptChain) (taskId payload : Str) : Except PyExn ReceiptChain := do
  return c ++ [← c.next (.json (.str taskId)) (.json (.str payload))]

/-- The loop of `_merge` over the entries of the shared chain. -/
def mergeScan (c : ReceiptChain) (r : ChainReceipt) :
    List ChainReceipt → Except PyExn (Option ConflictResolution × ReceiptChain)
  | [] => do return (none, ← appendText c r.taskId r.payload)
  | existing :: rest =>
      if existing.receiptId = r.receiptId then .ok (none, c)
      else if existing.taskId = r.taskId ∧ existing.payload ≠ r.payload then
        if r.payload < existing.payload then do
          return (some ⟨r.receiptId, lit "local", lit "smaller-payload-supersedes"⟩,
            ← appendText c r.taskId r.payload)
        else .ok (some ⟨r.receiptId, lit "remote", lit "authoritative-copy-retained"⟩, c)
      else mergeScan c r rest

/-- `_merge(receipt)`. -/
def merge (c : ReceiptChain) (r : ChainReceipt) :
    Except PyExn (Option ConflictResolution × ReceiptChain) := mergeScan c r c

/-- `DegradedStation`: the local chain and queue, and whether the registry reaches the station. -/
structure DegradedStation where
  stationId : Str
  connected : Bool
  localQueue : List ChainReceipt
  localChain : ReceiptChain

/-- `operate(task_id, work)`, with the output of the local model. -/
def operate (s : DegradedStation) (shared : ReceiptChain) (taskId work output : Str) :
    Except PyExn ChainReceipt × DegradedStation × ReceiptChain :=
  if isBlank work then (.error (contractError "work input is required"), s, shared)
  else
    match s.localChain.next (.json (.str taskId)) (.json (.str output)) with
    | .error x => (.error x, s, shared)
    | .ok receipt =>
        let s := { s with localChain := s.localChain ++ [receipt] }
        if s.connected then
          match appendText shared receipt.taskId receipt.payload with
          | .error x => (.error x, s, shared)
          | .ok shared' => (.ok receipt, s, shared')
        else (.ok receipt, { s with localQueue := s.localQueue ++ [receipt] }, shared)

/-- The loop of `sync`: the resolutions, the chain and what is left in the queue. A merge that raises
leaves its receipt in the queue. -/
def syncQueue (c : ReceiptChain) :
    List ChainReceipt → Except PyExn (List ConflictResolution) × ReceiptChain × List ChainReceipt
  | [] => (.ok [], c, [])
  | r :: rest =>
      match merge c r with
      | .error x => (.error x, c, r :: rest)
      | .ok (resolution, c') =>
          let out := syncQueue c' rest
          (out.1.map fun rs => resolution.toList ++ rs, out.2)

/-- `sync()`. -/
def sync (s : DegradedStation) (shared : ReceiptChain) :
    Except PyExn (List ConflictResolution) × DegradedStation × ReceiptChain :=
  if s.connected then
    let out := syncQueue shared s.localQueue
    (out.1, { s with localQueue := out.2.2 }, out.2.1)
  else (.error (contractError "cannot sync while the cluster is unavailable"), s, shared)

/-- All stations have synced, in this order. -/
inductive Synced : ReceiptChain → List DegradedStation → ReceiptChain → Prop
  | nil (c : ReceiptChain) : Synced c [] c
  | cons {c c₁ c₂ : ReceiptChain} {s s' : DegradedStation} {rest : List DegradedStation}
      {resolutions : List ConflictResolution} (call : sync s c = (.ok resolutions, s', c₁))
      (after : Synced c₁ rest c₂) : Synced c (s :: rest) c₂

/-- Receipts merged one after another. -/
def mergeAll (c : ReceiptChain) : List ChainReceipt → Except PyExn ReceiptChain
  | [] => .ok c
  | r :: rest => do
      let (_, c') ← merge c r
      mergeAll c' rest

/-! ## Payloads of a task -/

/-- The entry is a copy of this task. -/
def payloads (c : ReceiptChain) (taskId : Str) : List Str :=
  (c.filter fun e => decide (e.taskId = taskId)).map ChainReceipt.payload

/-- The effective payload of a task: that of its last entry. -/
def effective (c : ReceiptChain) (taskId : Str) : Option Str := (payloads c taskId).getLast?

/-- The last copy of every task is the smallest one on the chain. -/
def LastSmallest (c : ReceiptChain) : Prop :=
  ∀ taskId p, effective c taskId = some p → ∀ q ∈ payloads c taskId, p ≤ q

/-- The entry decides a merge: it is the same receipt, or another payload of the task. -/
def decides (r e : ChainReceipt) : Bool :=
  decide (e.receiptId = r.receiptId ∨ (e.taskId = r.taskId ∧ e.payload ≠ r.payload))

/-- The condition on a merge, on the chain before it. The receipt is smaller than all copies of its
task and not on the chain, or the first entry that decides about it is the receipt itself or a
smaller payload of its task. -/
def Decided (c : ReceiptChain) (r : ChainReceipt) : Prop :=
  ((∀ q ∈ payloads c r.taskId, r.payload < q) ∧ ∀ e ∈ c, e.receiptId ≠ r.receiptId) ∨
    ∃ e, c.find? (decides r) = some e ∧ e.taskId = r.taskId ∧
      ((e.receiptId = r.receiptId ∧ e.payload = r.payload) ∨
        (e.receiptId ≠ r.receiptId ∧ e.payload < r.payload))

/-- Every merge of the run meets the condition on the chain it finds. -/
def AllDecided (c : ReceiptChain) : List ChainReceipt → Prop
  | [] => True
  | r :: rest => Decided c r ∧ ∀ res c', merge c r = .ok (res, c') → AllDecided c' rest

/-! ## One merge -/

theorem appendText_ok {c c' : ReceiptChain} {taskId payload : Str}
    (h : appendText c taskId payload = .ok c') :
    ∃ e, c' = c ++ [e] ∧ e.taskId = taskId ∧ e.payload = payload := by
  obtain ⟨e, he, hret⟩ := bind_eq_ok.1 h
  cases hret
  refine ⟨e, rfl, ?_⟩
  rw [ReceiptChain.next] at he
  split at he
  · cases he
  · obtain ⟨id, -, hret⟩ := bind_eq_ok.1 he
    cases hret
    exact ⟨rfl, rfl⟩

/-- The scan appends when no entry decides, and otherwise goes by the first that does. -/
theorem mergeScan_eq (c : ReceiptChain) (r : ChainReceipt) (scanned : List ChainReceipt)
    {res : Option ConflictResolution} {c' : ReceiptChain}
    (h : mergeScan c r scanned = .ok (res, c')) :
    match scanned.find? (decides r) with
    | none => appendText c r.taskId r.payload = .ok c'
    | some e =>
        if e.receiptId ≠ r.receiptId ∧ r.payload < e.payload then
          appendText c r.taskId r.payload = .ok c'
        else c' = c := by
  induction scanned with
  | nil =>
      obtain ⟨c₁, hc₁, hret⟩ := bind_eq_ok.1 h
      cases hret
      exact hc₁
  | cons e rest ih =>
      rw [mergeScan] at h
      rw [List.find?_cons]
      by_cases hid : e.receiptId = r.receiptId
      · rw [if_pos hid] at h
        cases h
        have hd : decides r e = true := decide_eq_true (.inl hid)
        simp [hd, hid]
      · rw [if_neg hid] at h
        by_cases hc : e.taskId = r.taskId ∧ e.payload ≠ r.payload
        · rw [if_pos hc] at h
          have hd : decides r e = true := decide_eq_true (.inr hc)
          simp only [hd]
          by_cases hlt : r.payload < e.payload
          · rw [if_pos hlt] at h
            rw [if_pos ⟨hid, hlt⟩]
            obtain ⟨c₁, hc₁, hret⟩ := bind_eq_ok.1 h
            cases hret
            exact hc₁
          · rw [if_neg hlt] at h
            rw [if_neg fun hboth => hlt hboth.2]
            cases h
            rfl
        · rw [if_neg hc] at h
          have hd : decides r e = false := by
            simp only [decides, decide_eq_false_iff_not, not_or]
            exact ⟨hid, hc⟩
          simp only [hd]
          exact ih h

/-- A decided merge appends exactly the receipts smaller than all copies of their task. -/
theorem appends_iff_of_decided {c c' : ReceiptChain} {r : ChainReceipt}
    {res : Option ConflictResolution} (hd : Decided c r) (h : merge c r = .ok (res, c')) :
    ((∀ q ∈ payloads c r.taskId, r.payload < q) ∧
        ∃ e, c' = c ++ [e] ∧ e.taskId = r.taskId ∧ e.payload = r.payload) ∨
      ((∃ q ∈ payloads c r.taskId, q ≤ r.payload) ∧ c' = c) := by
  have hscan := mergeScan_eq c r c h
  rcases hd with ⟨hless, hnew⟩ | ⟨e, hfind, htask, hcase⟩
  · left
    refine ⟨hless, ?_⟩
    split at hscan
    · exact appendText_ok hscan
    · rename_i e hfind
      -- the first deciding entry is another payload of the task, and larger
      have hmem := List.mem_of_find?_eq_some hfind
      have hdec : decides r e = true := List.find?_some hfind
      have htask := (of_decide_eq_true hdec).resolve_left (hnew e hmem)
      have hlt : r.payload < e.payload := by
        apply hless
        exact List.mem_map.2 ⟨e, List.mem_filter.2 ⟨hmem, decide_eq_true htask.1⟩, rfl⟩
      rw [if_pos ⟨hnew e hmem, hlt⟩] at hscan
      exact appendText_ok hscan
  · right
    have hmem := List.mem_of_find?_eq_some hfind
    have hpay : e.payload ∈ payloads c r.taskId :=
      List.mem_map.2 ⟨e, List.mem_filter.2 ⟨hmem, decide_eq_true htask⟩, rfl⟩
    rw [hfind] at hscan
    rcases hcase with ⟨hid, heq⟩ | ⟨hid, hlt⟩
    · simp only [hid, ne_eq, not_true_eq_false, false_and, if_false] at hscan
      exact ⟨⟨_, hpay, heq.le⟩, hscan⟩
    · have hnot : ¬ (e.receiptId ≠ r.receiptId ∧ r.payload < e.payload) :=
        fun hc => lt_asymm hc.2 hlt
      simp only [if_neg hnot] at hscan
      exact ⟨⟨_, hpay, hlt.le⟩, hscan⟩

/-- What a wrong merge would be: a receipt appended that is not smaller than all copies, or left out
although it is. On a chain whose entries with the id of the receipt are the receipt, the condition is exactly
that the merge is right. -/
theorem decided_iff {c c' : ReceiptChain} {r : ChainReceipt} {res : Option ConflictResolution}
    (hids : ∀ e ∈ c, e.receiptId = r.receiptId → e.taskId = r.taskId ∧ e.payload = r.payload)
    (h : merge c r = .ok (res, c')) :
    Decided c r ↔ ((∀ q ∈ payloads c r.taskId, r.payload < q) ↔ c' ≠ c) := by
  constructor
  · intro hd
    rcases appends_iff_of_decided hd h with ⟨hless, e, rfl, -, -⟩ | ⟨⟨q, hq, hle⟩, rfl⟩
    · refine iff_of_true hless ?_
      simp
    · refine iff_of_false (fun hless => absurd (hless q hq) (not_lt.2 hle)) ?_
      simp
  · intro hright
    have hscan := mergeScan_eq c r c h
    by_cases hless : ∀ q ∈ payloads c r.taskId, r.payload < q
    · refine .inl ⟨hless, ?_⟩
      intro e he hid
      obtain ⟨htask, hpay⟩ := hids e he hid
      have hmem : r.payload ∈ payloads c r.taskId :=
        List.mem_map.2 ⟨e, List.mem_filter.2 ⟨he, decide_eq_true htask⟩, hpay⟩
      exact lt_irrefl _ (hless _ hmem)
    · have hsame : c' = c := by
        by_contra hne
        exact hless (hright.2 hne)
      right
      split at hscan
      · obtain ⟨e, he, -⟩ := appendText_ok hscan
        rw [hsame] at he
        simp at he
      · rename_i e hfind
        have hdec : decides r e = true := List.find?_some hfind
        have hmem := List.mem_of_find?_eq_some hfind
        by_cases hid : e.receiptId = r.receiptId
        · obtain ⟨htask, hpay⟩ := hids e hmem hid
          exact ⟨e, hfind, htask, .inl ⟨hid, hpay⟩⟩
        · obtain ⟨htask, hne⟩ := (of_decide_eq_true hdec).resolve_left hid
          refine ⟨e, hfind, htask, .inr ⟨hid, ?_⟩⟩
          by_contra hlt
          have hlt' : r.payload < e.payload := lt_of_le_of_ne (not_lt.1 hlt) hne.symm
          rw [if_pos ⟨hid, hlt'⟩] at hscan
          obtain ⟨e', he', -⟩ := appendText_ok hscan
          rw [hsame] at he'
          simp at he'

/-! ## Runs of merges -/

omit [FloatModel] in
theorem mem_payloads {c : ReceiptChain} {taskId p : Str} :
    p ∈ payloads c taskId ↔ ∃ e ∈ c, e.taskId = taskId ∧ e.payload = p := by
  rw [payloads, List.mem_map]
  constructor
  · rintro ⟨e, he, rfl⟩
    obtain ⟨hmem, htask⟩ := List.mem_filter.1 he
    exact ⟨e, hmem, of_decide_eq_true htask, rfl⟩
  · rintro ⟨e, he, htask, rfl⟩
    exact ⟨e, List.mem_filter.2 ⟨he, decide_eq_true htask⟩, rfl⟩

omit [FloatModel] in
theorem payloads_concat (c : ReceiptChain) (e : ChainReceipt) (taskId : Str) :
    payloads (c ++ [e]) taskId =
      payloads c taskId ++ if e.taskId = taskId then [e.payload] else [] := by
  rw [payloads, List.filter_append, List.map_append, payloads]
  congr 1
  by_cases h : e.taskId = taskId <;> simp [h]

/-- The payloads of a task among receipts. -/
def Present (rs : List ChainReceipt) (taskId : Str) : Set Str :=
  {p | ∃ r ∈ rs, r.taskId = taskId ∧ r.payload = p}

/-- The last copy of every task is the smallest of all receipts seen so far. -/
structure Settled (c : ReceiptChain) (seen : List ChainReceipt) : Prop where
  smallest : LastSmallest c
  seen_of_chain : ∀ e ∈ c, e.payload ∈ Present seen e.taskId
  covers : ∀ r ∈ seen, ∃ p, effective c r.taskId = some p ∧ p ≤ r.payload

omit [FloatModel] in
theorem effective_of_mem {c : ReceiptChain} {taskId q : Str} (h : q ∈ payloads c taskId) :
    ∃ p, effective c taskId = some p := by
  cases heff : effective c taskId with
  | none =>
      rw [effective, List.getLast?_eq_none_iff] at heff
      rw [heff] at h
      cases h
  | some p => exact ⟨p, rfl⟩

omit [FloatModel] in
theorem settled_of_lastSmallest {c : ReceiptChain} (h : LastSmallest c) : Settled c c := by
  refine ⟨h, fun e he => ⟨e, he, rfl, rfl⟩, ?_⟩
  intro r hr
  have hmem : r.payload ∈ payloads c r.taskId := mem_payloads.2 ⟨r, hr, rfl, rfl⟩
  obtain ⟨p, hp⟩ := effective_of_mem hmem
  exact ⟨p, hp, h _ p hp _ hmem⟩

omit [FloatModel] in
theorem Settled.effective_iff {c : ReceiptChain} {seen : List ChainReceipt} (h : Settled c seen)
    (taskId p : Str) : effective c taskId = some p ↔ IsLeast (Present seen taskId) p := by
  have hpresent : ∀ {q : Str}, effective c taskId = some q → q ∈ Present seen taskId := by
    intro q hq
    obtain ⟨e, he, rfl, rfl⟩ := mem_payloads.1 (List.mem_of_getLast? hq)
    exact h.seen_of_chain e he
  constructor
  · intro hp
    refine ⟨hpresent hp, ?_⟩
    rintro q ⟨r, hr, rfl, rfl⟩
    obtain ⟨p', hp', hle⟩ := h.covers r hr
    cases hp.symm.trans hp'
    exact hle
  · rintro ⟨⟨r, hr, rfl, rfl⟩, hlower⟩
    obtain ⟨p', hp', hle⟩ := h.covers r hr
    rw [hp', le_antisymm hle (hlower (hpresent hp'))]

/-- A decided merge keeps the chain settled. -/
theorem settled_merge {c c' : ReceiptChain} {seen : List ChainReceipt} {r : ChainReceipt}
    {res : Option ConflictResolution} (h : Settled c seen) (hd : Decided c r)
    (hm : merge c r = .ok (res, c')) : Settled c' (seen ++ [r]) := by
  have hgrow : ∀ {p taskId : Str}, p ∈ Present seen taskId → p ∈ Present (seen ++ [r]) taskId :=
    fun ⟨x, hx, hp⟩ => ⟨x, List.mem_append_left _ hx, hp⟩
  rcases appends_iff_of_decided hd hm with ⟨hless, e, rfl, htask, hpay⟩ | ⟨⟨q, hq, hle⟩, rfl⟩
  · -- the receipt is the new minimum of its task
    have heff : ∀ taskId, effective (c ++ [e]) taskId =
        if taskId = r.taskId then some r.payload else effective c taskId := by
      intro taskId
      rw [effective, payloads_concat, htask, hpay]
      by_cases ht : taskId = r.taskId
      · rw [if_pos ht.symm, if_pos ht, List.getLast?_concat]
      · rw [if_neg (Ne.symm ht), if_neg ht, List.append_nil, effective]
    refine ⟨?_, ?_, ?_⟩
    · intro taskId p hp q hq
      rw [heff] at hp
      rw [payloads_concat, htask, hpay, List.mem_append] at hq
      by_cases ht : taskId = r.taskId
      · rw [if_pos ht] at hp
        cases hp
        subst ht
        rw [if_pos rfl, List.mem_singleton] at hq
        rcases hq with hq | rfl
        · exact (hless q hq).le
        · exact le_refl _
      · rw [if_neg ht] at hp
        rw [if_neg (Ne.symm ht)] at hq
        exact h.smallest taskId p hp q (hq.resolve_right List.not_mem_nil)
    · intro x hx
      rcases List.mem_append.1 hx with hx | hx
      · exact hgrow (h.seen_of_chain x hx)
      · rw [List.mem_singleton.1 hx, htask, hpay]
        exact ⟨r, by simp, rfl, rfl⟩
    · intro x hx
      rw [heff]
      rcases List.mem_append.1 hx with hx | hx
      · obtain ⟨p, hp, hle⟩ := h.covers x hx
        by_cases ht : x.taskId = r.taskId
        · rw [if_pos ht]
          rw [ht] at hp
          exact ⟨r.payload, rfl, (hless p (List.mem_of_getLast? hp)).le.trans hle⟩
        · rw [if_neg ht]
          exact ⟨p, hp, hle⟩
      · rw [List.mem_singleton.1 hx, if_pos rfl]
        exact ⟨r.payload, rfl, le_refl _⟩
  · refine ⟨h.smallest, fun x hx => hgrow (h.seen_of_chain x hx), ?_⟩
    intro x hx
    rcases List.mem_append.1 hx with hx | hx
    · exact h.covers x hx
    · rw [List.mem_singleton.1 hx]
      obtain ⟨p, hp⟩ := effective_of_mem hq
      exact ⟨p, hp, (h.smallest _ p hp q hq).trans hle⟩

theorem settled_mergeAll {c c' : ReceiptChain} {seen rs : List ChainReceipt} (h : Settled c seen)
    (hd : AllDecided c rs) (hm : mergeAll c rs = .ok c') : Settled c' (seen ++ rs) := by
  induction rs generalizing c seen with
  | nil =>
      cases hm
      rw [List.append_nil]
      exact h
  | cons r rest ih =>
      obtain ⟨⟨res, c₁⟩, hmerge, hrest⟩ := bind_eq_ok.1 hm
      have hstep := settled_merge h hd.1 hmerge
      have hall := ih hstep (hd.2 res c₁ hmerge) hrest
      rwa [List.append_assoc] at hall

/-! ## Stations syncing -/

theorem mergeAll_of_syncQueue {c : ReceiptChain} {queue : List ChainReceipt}
    {resolutions : List ConflictResolution} (h : (syncQueue c queue).1 = .ok resolutions) :
    mergeAll c queue = .ok (syncQueue c queue).2.1 := by
  induction queue generalizing c resolutions with
  | nil => rfl
  | cons r rest ih =>
      rw [syncQueue] at h ⊢
      rw [mergeAll]
      cases hm : merge c r with
      | error x =>
          rw [hm] at h
          cases h
      | ok out =>
          obtain ⟨res, c₁⟩ := out
          simp only [hm] at h ⊢
          cases hrest : (syncQueue c₁ rest).1 with
          | error x =>
              rw [hrest] at h
              cases h
          | ok rs => exact ih hrest

theorem mergeAll_append {c c₁ : ReceiptChain} {rs ss : List ChainReceipt}
    (h : mergeAll c rs = .ok c₁) : mergeAll c (rs ++ ss) = mergeAll c₁ ss := by
  induction rs generalizing c with
  | nil =>
      cases h
      rfl
  | cons r rest ih =>
      obtain ⟨⟨res, c₂⟩, hmerge, hrest⟩ := bind_eq_ok.1 h
      rw [List.cons_append, mergeAll, hmerge]
      exact ih hrest

/-- The receipts in the queues of these stations, in their order. -/
def queued (stations : List DegradedStation) : List ChainReceipt :=
  stations.flatMap DegradedStation.localQueue

/-- Stations that synced have merged their queues, one after another. -/
theorem mergeAll_of_synced {c c' : ReceiptChain} {stations : List DegradedStation}
    (h : Synced c stations c') : mergeAll c (queued stations) = .ok c' := by
  induction h with
  | nil c => rfl
  | @cons c c₁ c₂ s s' rest resolutions call after ih =>
      rw [sync] at call
      split_ifs at call
      · obtain ⟨hres, -, rfl⟩ : (syncQueue c s.localQueue).1 = .ok resolutions ∧ _ ∧
            (syncQueue c s.localQueue).2.1 = c₁ := by
          simpa [Prod.ext_iff] using call
        rw [queued, List.flatMap_cons, mergeAll_append (mergeAll_of_syncQueue hres)]
        exact ih
      · simp at call

/-- After all stations have synced by decided merges onto a chain whose last copies were smallest:
the effective payload of every task is the smallest one on the chain or in a queue; another order of
the stations leads to the same payloads; and no receipt whose task and payload were on the chain was
appended again. -/
theorem reconciled {c c' : ReceiptChain} {stations : List DegradedStation} (hmin : LastSmallest c)
    (hd : AllDecided c (queued stations)) (h : Synced c stations c') :
    (∀ taskId p, effective c' taskId = some p ↔ IsLeast (Present (c ++ queued stations) taskId) p) ∧
    (∀ stations' c'', stations'.Perm stations → AllDecided c (queued stations') →
      Synced c stations' c'' → ∀ taskId, effective c'' taskId = effective c' taskId) ∧
    ∀ pre r post c₁ res c₂, queued stations = pre ++ r :: post → mergeAll c pre = .ok c₁ →
      merge c₁ r = .ok (res, c₂) → r.payload ∈ payloads c₁ r.taskId → c₂ = c₁ := by
  have hsettled := settled_mergeAll (settled_of_lastSmallest hmin) hd (mergeAll_of_synced h)
  refine ⟨hsettled.effective_iff, ?_, ?_⟩
  · intro stations' c'' hperm hd' h' taskId
    have hsettled' := settled_mergeAll (settled_of_lastSmallest hmin) hd' (mergeAll_of_synced h')
    -- both are the minimum of the same set of payloads
    have hsame : Present (c ++ queued stations') taskId = Present (c ++ queued stations) taskId := by
      ext p
      have hmem : ∀ r, r ∈ queued stations' ↔ r ∈ queued stations := by
        intro r
        simp only [queued, List.mem_flatMap]
        exact exists_congr fun s => and_congr_left fun _ => hperm.mem_iff
      simp only [Present, List.mem_append, hmem]
    cases heff : effective c' taskId with
    | some p =>
        rw [hsettled'.effective_iff, hsame]
        exact (hsettled.effective_iff taskId p).1 heff
    | none =>
        cases heff' : effective c'' taskId with
        | none => rfl
        | some p =>
            rw [hsettled'.effective_iff, hsame, ← hsettled.effective_iff, heff] at heff'
            cases heff'
  · intro pre r post c₁ res c₂ hq hpre hmerge hon
    have hdr : Decided c₁ r := by
      rw [hq] at hd
      clear hq h hsettled hmin hmerge hon
      induction pre generalizing c with
      | nil =>
          cases hpre
          exact hd.1
      | cons x rest ih =>
          obtain ⟨⟨res', c₃⟩, hm, hrest⟩ := bind_eq_ok.1 hpre
          exact ih (hd.2 res' c₃ hm) hrest
    rcases appends_iff_of_decided hdr hmerge with ⟨hless, -⟩ | ⟨-, hsame⟩
    · exact absurd (hless _ hon) (lt_irrefl _)
    · exact hsame

end Model

/-! ## Three versions of one task -/

section Concrete

attribute [local instance] wholeFloats

/-- The stations sync in this order. -/
def syncAll (c : ReceiptChain) : List DegradedStation → Option ReceiptChain
  | [] => some c
  | s :: rest =>
      match sync s c with
      | (.ok _, _, c₁) => syncAll c₁ rest
      | _ => none

theorem synced_of_syncAll {c c' : ReceiptChain} {stations : List DegradedStation}
    (h : syncAll c stations = some c') : Synced c stations c' := by
  induction stations generalizing c with
  | nil =>
      cases h
      exact .nil _
  | cons s rest ih =>
      rw [syncAll] at h
      split at h
      · rename_i call
        exact .cons call (ih h)
      · cases h

/-- The receipt of a version of task `t`, as the first on a local chain. -/
def sampleReceipt (payload : String) : ChainReceipt :=
  ⟨((receiptHash 0 (lit "t") (lit payload) genesis).toOption).getD [], 0, lit "t", lit payload, genesis⟩

/-- A station that queued this version. -/
def sampleStation (payload : String) : DegradedStation :=
  ⟨lit payload, true, [sampleReceipt payload], [sampleReceipt payload]⟩

/-- The receipt of version `a`, as the second on a local chain. -/
def sampleLater : ChainReceipt :=
  ⟨((receiptHash 1 (lit "t") (lit "a") (sampleReceipt "x").receiptId).toOption).getD [], 1, lit "t",
    lit "a", (sampleReceipt "x").receiptId⟩

/-- With `c`, `a` and `b` in this order the effective version is `b`, in another order it is `a`; and
version `a` is appended to a chain that has it. -/
theorem order_matters :
    (∃ c, Synced [] [sampleStation "c", sampleStation "a", sampleStation "b"] c ∧
      effective c (lit "t") = some (lit "b")) ∧
    (∃ c, Synced [] [sampleStation "a", sampleStation "b", sampleStation "c"] c ∧
      effective c (lit "t") = some (lit "a")) ∧
    ∃ c, merge [sampleReceipt "a"] sampleLater = .ok (none, c) ∧
      payloads c (lit "t") = [lit "a", lit "a"] := by
  have hrun : ∀ {stations : List DegradedStation} {p : Str},
      ((syncAll [] stations).map fun c => effective c (lit "t")) = some (some p) →
        ∃ c, Synced [] stations c ∧ effective c (lit "t") = some p := by
    intro stations p h
    obtain ⟨c, hc, hp⟩ := Option.map_eq_some_iff.1 h
    exact ⟨c, synced_of_syncAll hc, hp⟩
  refine ⟨hrun (by decide +kernel), hrun (by decide +kernel), ?_⟩
  have hmerge : (merge [sampleReceipt "a"] sampleLater).map
      (fun out => (out.1, payloads out.2 (lit "t"))) = .ok (none, [lit "a", lit "a"]) := by
    decide +kernel
  cases hm : merge [sampleReceipt "a"] sampleLater with
  | error x =>
      rw [hm] at hmerge
      cases hmerge
  | ok out =>
      obtain ⟨res, c⟩ := out
      rw [hm] at hmerge
      simp only [Except.map, Except.ok.injEq, Prod.mk.injEq] at hmerge
      obtain ⟨hres, hp⟩ := hmerge
      exact ⟨c, by rw [hres], hp⟩

theorem sampleStations_decided :
    AllDecided [] (queued [sampleStation "c", sampleStation "a"]) := by
  have hfirst : merge [] (sampleReceipt "c") = .ok (none, [sampleReceipt "c"]) := by decide +kernel
  have hless : lit "a" < lit "c" := by decide
  have hne : (sampleReceipt "c").receiptId ≠ (sampleReceipt "a").receiptId := by decide +kernel
  refine ⟨.inl ⟨nofun, nofun⟩, ?_⟩
  intro res c hm
  cases hfirst.symm.trans hm
  refine ⟨.inl ⟨?_, ?_⟩, fun _ _ _ => trivial⟩
  · intro q hq
    obtain ⟨e, he, -, rfl⟩ := mem_payloads.1 hq
    rw [List.mem_singleton.1 he]
    exact hless
  · intro e he
    rw [List.mem_singleton.1 he]
    exact hne

/-- Two versions, the larger one first: the effective one is the smaller. -/
theorem reconciled_sample : ∃ c, Synced [] [sampleStation "c", sampleStation "a"] c ∧
    ∀ taskId p, effective c taskId = some p ↔
      IsLeast (Present ([] ++ queued [sampleStation "c", sampleStation "a"]) taskId) p := by
  have hsome : (syncAll [] [sampleStation "c", sampleStation "a"]).isSome = true := by decide +kernel
  obtain ⟨c, hc⟩ := Option.isSome_iff_exists.1 hsome
  have hmin : LastSmallest [] := fun _ _ h => nomatch h
  exact ⟨c, synced_of_syncAll hc,
    (reconciled hmin sampleStations_decided (synced_of_syncAll hc)).1⟩

end Concrete

end ResidualHarness.Hadr
