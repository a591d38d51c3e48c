import ResidualHarness.Factory.EvidenceBus

/-!
# The invariant of the Evidence Bus

An append either leaves the tables as they were or adds one row for the receipt (`append_cases`). So
the rows after any operations are those of the accepted receipts, in the order of their acceptance
(`Stored`, `run_stored`). The rest is read off the rows (`bus_invariant`).
-/

set_option autoImplicit false

namespace ResidualHarness.Factory.EvidenceBus

open Python Core Graph

variable [FloatModel]

/-! ## An accepted append -/

omit [FloatModel] in
theorem expected_get? {receipt : WorkerReceipt} {a : ArtifactBinding} (ha : a ∈ receipt.artifacts)
    (hdel : a.deleted = false) : (expected receipt).get? a.path = some a := by
  have hnd : (((receipt.artifacts.filter fun a => !a.deleted).map fun a => (a.path, a)).map
      Prod.fst).Nodup := by
    rw [List.map_map]
    exact receipt.artifacts_nodup.sublist (List.filter_sublist.map _)
  rw [expected, Dict.ofPairs_of_nodup hnd]
  exact Dict.get?_of_mem hnd (List.mem_map.2 ⟨a, List.mem_filter.2 ⟨ha, by rw [hdel]; rfl⟩, rfl⟩)

/-- The table holds these bytes under their hash. -/
def Holds (table : Dict Str (Bytes × Nat)) (receipt : WorkerReceipt) (item : Str × Bytes) : Prop :=
  ∃ a, (expected receipt).get? item.1 = some a ∧
    table.get? (a.sha256.getD []) = some (item.2, item.2.length)

omit [FloatModel] in
/-- One round keeps the rows of the table and adds the bytes. -/
theorem storeArtifact_spec {receipt : WorkerReceipt} {table table' : Dict Str (Bytes × Nat)}
    {item : Str × Bytes} (h : storeArtifact receipt table item = .ok table') :
    (∀ sha v, table.get? sha = some v → table'.get? sha = some v) ∧ Holds table' receipt item := by
  rw [storeArtifact] at h
  split at h
  · cases h
  · rename_i a ha
    dsimp only at h
    split at h
    · rename_i hnone
      cases h
      refine ⟨fun sha v hv => ?_, a, ha, by rw [Dict.get?_set, if_pos rfl]⟩
      rw [Dict.get?_set, if_neg, hv]
      rintro rfl
      rw [hnone] at hv
      cases hv
    · rename_i row hrow
      split at h
      · rename_i heq
        cases h
        refine ⟨fun _ _ hv => hv, a, ha, ?_⟩
        rw [hrow, ← heq.1]
        exact congrArg some (Prod.ext rfl (by rw [heq.2, heq.1]))
      · cases h

omit [FloatModel] in
/-- The loop keeps the rows of the table and adds all bytes. -/
theorem storeArtifacts_spec {receipt : WorkerReceipt} {items : Dict Str Bytes}
    {table table' : Dict Str (Bytes × Nat)}
    (h : items.foldlM (storeArtifact receipt) table = .ok table') :
    (∀ sha v, table.get? sha = some v → table'.get? sha = some v) ∧
      ∀ item ∈ items, Holds table' receipt item := by
  refine foldlM_invariant (P := fun pre t => (∀ sha v, table.get? sha = some v → t.get? sha = some v) ∧
    ∀ item ∈ pre, Holds t receipt item) h ⟨fun _ _ hv => hv, nofun⟩ ?_
  intro pre x post t t' _ hinv hstep
  obtain ⟨hkeep, hx⟩ := storeArtifact_spec hstep
  refine ⟨fun sha v hv => hkeep sha v (hinv.1 sha v hv), fun item hitem => ?_⟩
  rcases List.mem_append.1 hitem with hitem | hitem
  · obtain ⟨a, ha, hget⟩ := hinv.2 item hitem
    exact ⟨a, ha, hkeep _ _ hget⟩
  · rw [List.mem_singleton.1 hitem]
    exact hx

/-- The tables other than those of requirements and of artifact paths. -/
def SameStore (bus bus' : EvidenceBus) : Prop :=
  bus'.receipts = bus.receipts ∧ bus'.artifacts = bus.artifacts ∧ bus'.staleApprovals = bus.staleApprovals

omit [FloatModel] in
theorem insertRequirements_sameStore {hash : Str} {items : List (Str × Bool)} {bus bus' : EvidenceBus}
    (h : items.foldlM (insertRequirement hash) bus = .ok bus') : SameStore bus bus' := by
  refine foldlM_invariant (P := fun _ b => SameStore bus b) h ⟨rfl, rfl, rfl⟩ ?_
  intro _ x _ b b' _ hinv hstep
  rw [insertRequirement] at hstep
  split at hstep
  · obtain ⟨u, -, hstep⟩ := bind_eq_ok.1 hstep
    cases hstep
    exact hinv
  · cases hstep
    exact hinv

omit [FloatModel] in
theorem insertArtifacts_sameStore {hash : Str} {items : List ArtifactBinding} {bus bus' : EvidenceBus}
    (h : items.foldlM (insertArtifact hash) bus = .ok bus') : SameStore bus bus' := by
  refine foldlM_invariant (P := fun _ b => SameStore bus b) h ⟨rfl, rfl, rfl⟩ ?_
  intro _ x _ b b' _ hinv hstep
  rw [insertArtifact] at hstep
  obtain ⟨u, -, hstep⟩ := bind_eq_ok.1 hstep
  cases hstep
  exact hinv

/-- The queue hash after a receipt. -/
def queueDigest (previous hash : Str) : Str := digestText (queueBody previous hash)

/-- The row of a receipt at its place in the queue. -/
def rowOf (sequence : Nat) (previous : Str) (r : WorkerReceipt) : ReceiptRow :=
  receiptRow r sequence r.hash (Json.obj r.toValue.toDict).render previous (queueDigest previous r.hash)

/-- An artifact that carries bytes has them in the table. -/
def BytesStored (table : Dict Str (Bytes × Nat)) (a : ArtifactBinding) : Prop :=
  ∃ sha data, a.sha256 = some sha ∧ table.get? sha = some (data, data.length) ∧ sha256 data = sha ∧
    a.sizeBytes = (data.length : Int)

/-- What an accepted append found and what it did. -/
structure Accepts (bus : EvidenceBus) (r : WorkerReceipt) (bus' : EvidenceBus) : Prop where
  digestible : Digestible (.obj r.unsignedPayload)
  supersedes : ∀ s, r.supersedes = some s → (bus.row? s).map ReceiptRow.taskId = some r.taskId
  parents : ∀ p ∈ r.parentReceipts, (bus.row? p).isSome = true
  fresh : ∀ row ∈ bus.receipts, row.receiptHash ≠ r.hash
  receipts : bus'.receipts = bus.receipts ++ [rowOf bus.nextSequence bus.queueTail r]
  kept : ∀ sha v, bus.artifacts.get? sha = some v → bus'.artifacts.get? sha = some v
  stored : ∀ a ∈ r.artifacts, a.deleted = false → BytesStored bus'.artifacts a
  approvals : bus'.staleApprovals = bus.staleApprovals

omit [FloatModel] in
/-- The bytes that passed the check and were stored are those of the receipt. -/
theorem bytesStored_of_holds {receipt : WorkerReceipt} {items : Dict Str Bytes}
    {table : Dict Str (Bytes × Nat)} (hcheck : checkReceipt receipt items = .ok ())
    (hstored : ∀ item ∈ items, Holds table receipt item) {a : ArtifactBinding}
    (ha : a ∈ receipt.artifacts) (hdel : a.deleted = false) : BytesStored table a := by
  simp only [checkReceipt, bind_eq_ok, require_eq_ok] at hcheck
  obtain ⟨-, -, -, ⟨-, hkeys⟩, hmatch⟩ := hcheck
  have hget := expected_get? ha hdel
  obtain ⟨data, hdata⟩ := Dict.mem_keys_iff.1 (hkeys (Dict.mem_keys_of_get? hget))
  have hitem : (a.path, data) ∈ items := Dict.mem_of_get? hdata
  have hbytes := hmatch _ hitem
  rw [bytesMatch, hget] at hbytes
  simp only [Option.any_some, decide_eq_true_eq] at hbytes
  obtain ⟨a', ha', htable⟩ := hstored _ hitem
  rw [hget] at ha'
  cases ha'
  rw [hbytes.1] at htable
  exact ⟨sha256 data, data, hbytes.1, htable, rfl, hbytes.2⟩

omit [FloatModel] in
theorem insertReceipt_spec {bus bus' : EvidenceBus} {row : ReceiptRow}
    (h : insertReceipt bus row = .ok bus') : (∀ old ∈ bus.receipts, old.receiptHash ≠ row.receiptHash) ∧
      bus' = { bus with receipts := bus.receipts ++ [row] } := by
  simp only [insertReceipt, bind_eq_ok, require_eq_ok] at h
  obtain ⟨-, -, -, -, -, hfresh, -, -, -, -, hbus⟩ := h
  cases hbus
  exact ⟨hfresh, rfl⟩

theorem rowOf_eq {receipt : WorkerReceipt} {sequence : Nat} {hash text previous queueHash : Str}
    (hhash : receipt.receiptHash = .ok hash) (htext : canonical (.obj receipt.toValue.toDict) = .ok text)
    (hqueue : digest (queueBody previous hash) = .ok queueHash) :
    receiptRow receipt sequence hash text previous queueHash = rowOf sequence previous receipt := by
  have h1 := WorkerReceipt.hash_of_receiptHash hhash
  have h2 := (dumpable_of_canonical htext).2
  have h3 := (digest_eq_ok_iff.1 hqueue).2
  rw [rowOf, queueDigest, ← h1, ← h2, ← h3]

theorem appendBody_spec {receipt : WorkerReceipt} {items : Dict Str Bytes} {bus bus' : EvidenceBus}
    (hcheck : checkReceipt receipt items = .ok ()) (h : appendBody receipt items bus = .ok bus') :
    Accepts bus receipt bus' := by
  rw [appendBody] at h
  obtain ⟨u, hsup, h⟩ := bind_eq_ok.1 h
  obtain ⟨u, hpar, h⟩ := bind_eq_ok.1 h
  obtain ⟨table, htable, h⟩ := bind_eq_ok.1 h
  obtain ⟨hash, hhash, h⟩ := bind_eq_ok.1 h
  obtain ⟨text, htext, h⟩ := bind_eq_ok.1 h
  obtain ⟨queueHash, hqueue, h⟩ := bind_eq_ok.1 h
  obtain ⟨bus₁, hrow, h⟩ := bind_eq_ok.1 h
  obtain ⟨bus₂, hreq, h⟩ := bind_eq_ok.1 h
  obtain ⟨hfresh, hbus⟩ := insertReceipt_spec hrow
  obtain ⟨hrec₂, hart₂, happ₂⟩ := insertRequirements_sameStore hreq
  obtain ⟨hrec, hart, happ⟩ := insertArtifacts_sameStore h
  obtain ⟨hkeep, hholds⟩ := storeArtifacts_spec htable
  rw [rowOf_eq hhash htext hqueue] at hfresh hbus
  rw [hbus] at hrec₂ hart₂ happ₂
  rw [hart₂] at hart
  refine ⟨(digest_eq_ok_iff.1 hhash).1, ?_, require_eq_ok.1 hpar, hfresh, hrec.trans hrec₂, ?_, ?_,
    happ.trans happ₂⟩
  · intro s hs
    rw [checkSupersedes, hs] at hsup
    exact require_eq_ok.1 hsup
  · rw [hart]
    exact hkeep
  · intro a ha hdel
    rw [hart]
    exact bytesStored_of_holds hcheck hholds ha hdel

omit [FloatModel] in
theorem tx_cases (bus : EvidenceBus) (body : EvidenceBus → Except PyExn EvidenceBus) :
    (∃ e, bus.tx body = (.error e, bus)) ∨ ∃ bus', bus.tx body = (.ok (), bus') ∧ body bus = .ok bus' := by
  rw [tx]
  cases hbody : body bus with
  | error e => exact Or.inl ⟨e, rfl⟩
  | ok bus' => exact Or.inr ⟨bus', rfl, rfl⟩

theorem append_cases (bus : EvidenceBus) (receipt : WorkerReceipt) (items : Dict Str Bytes) :
    (∃ e, bus.append receipt items = (.error e, bus)) ∨
      ∃ bus', bus.append receipt items = (.ok (), bus') ∧ Accepts bus receipt bus' := by
  rw [append]
  cases hcheck : checkReceipt receipt items with
  | error e => exact Or.inl ⟨e, rfl⟩
  | ok u =>
      rcases tx_cases bus (appendBody receipt items) with herr | ⟨bus', htx, hbody⟩
      · exact Or.inl herr
      · exact Or.inr ⟨bus', htx, appendBody_spec hcheck hbody⟩

/-- An approval raises and changes nothing, or the receipt is stale and gets one row. -/
theorem approveStale_cases (bus : EvidenceBus) (hash approvedBy reason : Str) (timeNs : Int) :
    (∃ e, bus.approveStale hash approvedBy reason timeNs = (.error e, bus)) ∨
      bus.isStale hash = .ok true ∧ bus.approveStale hash approvedBy reason timeNs = (.ok (),
        { bus with staleApprovals :=
            bus.staleApprovals ++ [⟨hash, strip approvedBy, strip reason, timeNs⟩] }) := by
  rw [approveStale]
  split
  · exact Or.inl ⟨_, rfl⟩
  · split
    · exact Or.inl ⟨_, rfl⟩
    · exact Or.inl ⟨_, rfl⟩
    · rename_i hstale
      rcases tx_cases bus (insertApproval ⟨hash, strip approvedBy, strip reason, timeNs⟩) with
        ⟨e, htx⟩ | ⟨bus', htx, hbody⟩
      · exact Or.inl ⟨e, htx⟩
      · simp only [insertApproval, bind_eq_ok, require_eq_ok] at hbody
        obtain ⟨-, -, -, -, -, -, hbus⟩ := hbody
        cases hbus
        exact Or.inr ⟨hstale, htx⟩

/-! ## The rows of the accepted receipts -/

/-- The queue hash after some receipts. -/
def queueEnd (previous : Str) (rs : List WorkerReceipt) : Str :=
  rs.foldl (fun previous r => queueDigest previous r.hash) previous

@[simp]
theorem queueEnd_cons (previous : Str) (r : WorkerReceipt) (rs : List WorkerReceipt) :
    queueEnd previous (r :: rs) = queueEnd (queueDigest previous r.hash) rs := rfl

/-- The rows of some receipts, the first of them at this place in the queue. -/
def rowsFrom : Nat → Str → List WorkerReceipt → List ReceiptRow
  | _, _, [] => []
  | sequence, previous, r :: rs =>
      rowOf sequence previous r :: rowsFrom (sequence + 1) (queueDigest previous r.hash) rs

theorem rowsFrom_append (sequence : Nat) (previous : Str) (rs : List WorkerReceipt) (r : WorkerReceipt) :
    rowsFrom sequence previous (rs ++ [r]) =
      rowsFrom sequence previous rs ++ [rowOf (sequence + rs.length) (queueEnd previous rs) r] := by
  induction rs generalizing sequence previous with
  | nil => rfl
  | cons x rs ih =>
      rw [List.cons_append, rowsFrom, ih, rowsFrom, List.cons_append, List.length_cons,
        queueEnd_cons, Nat.add_right_comm, Nat.add_assoc]

/-- Each row is that of a receipt, at the number of the receipts before it. -/
theorem mem_rowsFrom {sequence : Nat} {previous : Str} {rs : List WorkerReceipt} {row : ReceiptRow} :
    row ∈ rowsFrom sequence previous rs ↔ ∃ pre r post, rs = pre ++ r :: post ∧
      row = rowOf (sequence + pre.length) (queueEnd previous pre) r := by
  induction rs generalizing sequence previous with
  | nil =>
      refine ⟨nofun, ?_⟩
      rintro ⟨pre, r, post, h, -⟩
      exact absurd h (by simp)
  | cons x rs ih =>
      rw [rowsFrom, List.mem_cons, ih]
      constructor
      · rintro (rfl | ⟨pre, r, post, rfl, rfl⟩)
        · exact ⟨[], x, rs, rfl, rfl⟩
        · refine ⟨x :: pre, r, post, rfl, ?_⟩
          rw [List.length_cons, queueEnd_cons, Nat.add_right_comm, Nat.add_assoc]
      · rintro ⟨pre, r, post, h, rfl⟩
        cases pre with
        | nil =>
            obtain ⟨rfl, rfl⟩ := List.cons.inj h
            exact Or.inl rfl
        | cons y pre =>
            obtain ⟨rfl, rfl⟩ := List.cons.inj h
            refine Or.inr ⟨pre, r, post, rfl, ?_⟩
            rw [List.length_cons, queueEnd_cons, Nat.add_right_comm, Nat.add_assoc]

theorem rowsFrom_sequence_ge {sequence : Nat} {previous : Str} {rs : List WorkerReceipt} {row : ReceiptRow}
    (h : row ∈ rowsFrom sequence previous rs) :
    sequence ≤ row.sequence ∧ row.sequence < sequence + rs.length := by
  obtain ⟨pre, r, post, rfl, rfl⟩ := mem_rowsFrom.1 h
  rw [List.length_append, List.length_cons]
  exact ⟨Nat.le_add_right _ _, by simp only [rowOf, receiptRow]; omega⟩

theorem rowsFrom_sorted (sequence : Nat) (previous : Str) (rs : List WorkerReceipt) :
    (rowsFrom sequence previous rs).Pairwise fun a b => a.sequence ≤ b.sequence := by
  induction rs generalizing sequence previous with
  | nil => exact List.Pairwise.nil
  | cons r rs ih =>
      refine List.pairwise_cons.2 ⟨fun row hrow => ?_, ih _ _⟩
      exact le_trans (Nat.le_succ sequence) (rowsFrom_sequence_ge hrow).1

theorem rowsFrom_hashes (sequence : Nat) (previous : Str) (rs : List WorkerReceipt) :
    (rowsFrom sequence previous rs).map ReceiptRow.receiptHash = rs.map WorkerReceipt.hash := by
  induction rs generalizing sequence previous with
  | nil => rfl
  | cons r rs ih => rw [rowsFrom, List.map_cons, List.map_cons, ih]; rfl

theorem foldl_max_rowsFrom (previous : Str) (rs : List WorkerReceipt) (sequence : Nat) :
    ((rowsFrom (sequence + 1) previous rs).map ReceiptRow.sequence).foldl max sequence =
      sequence + rs.length := by
  induction rs generalizing sequence previous with
  | nil => rfl
  | cons r rs ih =>
      rw [rowsFrom, List.map_cons, List.foldl_cons]
      have hmax : max sequence (rowOf (sequence + 1) previous r).sequence = sequence + 1 :=
        max_eq_right (Nat.le_succ sequence)
      rw [hmax, ih, List.length_cons]
      omega

theorem getLast?_rowsFrom (sequence : Nat) (previous : Str) (rs : List WorkerReceipt) :
    ((rowsFrom sequence previous rs).getLast?.map ReceiptRow.queueHash).getD previous =
      queueEnd previous rs := by
  induction rs using List.reverseRecOn with
  | nil => rfl
  | append_singleton rs r _ =>
      have hend : queueEnd previous (rs ++ [r]) = queueDigest (queueEnd previous rs) r.hash :=
        List.foldl_append
      rw [rowsFrom_append, List.getLast?_concat, hend]
      rfl

/-! ## The invariant -/

/-- The receipts that a receipt names come before it. -/
def Justified (pre : List WorkerReceipt) (r : WorkerReceipt) : Prop :=
  (∀ p ∈ r.parentReceipts, ∃ old ∈ pre, old.hash = p) ∧
    ∀ s, r.supersedes = some s → ∃ old ∈ pre, old.hash = s

/-- The tables are those of these receipts. -/
structure Stored (bus : EvidenceBus) (rs : List WorkerReceipt) : Prop where
  rows : bus.receipts = rowsFrom 1 genesis rs
  digestible : ∀ r ∈ rs, Digestible (.obj r.unsignedPayload)
  nodup : (rs.map WorkerReceipt.hash).Nodup
  justified : ∀ pre r post, rs = pre ++ r :: post → Justified pre r
  artifacts : ∀ r ∈ rs, ∀ a ∈ r.artifacts, a.deleted = false → BytesStored bus.artifacts a

theorem stored_empty : Stored empty [] where
  rows := rfl
  digestible := nofun
  nodup := List.nodup_nil
  justified := fun pre r post h => absurd h (by simp)
  artifacts := nofun

section Rows

variable {bus : EvidenceBus} {rs : List WorkerReceipt}

theorem Stored.ordered_eq (h : Stored bus rs) : bus.ordered = bus.receipts := by
  rw [ordered, h.rows]
  exact (rowsFrom_sorted 1 genesis rs).insertionSort_eq

theorem Stored.nextSequence_eq (h : Stored bus rs) : bus.nextSequence = 1 + rs.length := by
  rw [nextSequence, h.rows, foldl_max_rowsFrom genesis rs 0]
  omega

theorem Stored.queueTail_eq (h : Stored bus rs) : bus.queueTail = queueEnd genesis rs := by
  rw [queueTail, h.ordered_eq, h.rows, getLast?_rowsFrom]

theorem Stored.hashes (h : Stored bus rs) : bus.receipts.map ReceiptRow.receiptHash = rs.map WorkerReceipt.hash := by
  rw [h.rows, rowsFrom_hashes]

/-- A hash that is looked up with success is that of a receipt. -/
theorem Stored.exists_of_row? (h : Stored bus rs) {hash : Str} {row : ReceiptRow}
    (hrow : bus.row? hash = some row) : ∃ r ∈ rs, r.hash = hash := by
  have hmem := List.mem_map_of_mem (f := ReceiptRow.receiptHash) (List.mem_of_find?_eq_some hrow)
  have heq : row.receiptHash = hash := by simpa using List.find?_some hrow
  rw [h.hashes, heq] at hmem
  exact List.mem_map.1 hmem

/-- An accepted receipt takes its place after the others. -/
theorem Stored.append {r : WorkerReceipt} {bus' : EvidenceBus} (h : Stored bus rs)
    (ha : Accepts bus r bus') : Stored bus' (rs ++ [r]) where
  rows := by
    rw [ha.receipts, h.nextSequence_eq, h.queueTail_eq, h.rows, rowsFrom_append]
  digestible := by
    intro x hx
    rcases List.mem_append.1 hx with hx | hx
    · exact h.digestible x hx
    · rw [List.mem_singleton.1 hx]
      exact ha.digestible
  nodup := by
    rw [List.map_append, List.nodup_append]
    refine ⟨h.nodup, List.nodup_singleton _, ?_⟩
    intro x hx y hy
    rw [← h.hashes] at hx
    obtain ⟨row, hrow, rfl⟩ := List.mem_map.1 hx
    rw [List.mem_singleton.1 hy]
    exact ha.fresh row hrow
  justified := by
    intro pre x post hsplit
    rcases List.eq_nil_or_concat post with rfl | ⟨post, y, rfl⟩
    · -- the new receipt: what it names was looked up in the table
      obtain ⟨rfl, hx⟩ := List.append_inj' hsplit rfl
      obtain rfl := List.singleton_inj.1 hx
      refine ⟨fun p hp => ?_, fun s hs => ?_⟩
      · obtain ⟨row, hrow⟩ := Option.isSome_iff_exists.1 (ha.parents p hp)
        exact h.exists_of_row? hrow
      · obtain ⟨row, hrow, -⟩ := Option.map_eq_some_iff.1 (ha.supersedes s hs)
        exact h.exists_of_row? hrow
    · have hrs : rs = pre ++ x :: post := by
        have hconcat : rs ++ [r] = (pre ++ x :: post) ++ [y] := by
          rw [hsplit]
          simp
        exact (List.append_inj' hconcat rfl).1
      exact h.justified pre x post hrs
  artifacts := by
    intro x hx a hax hdel
    rcases List.mem_append.1 hx with hx | hx
    · obtain ⟨sha, data, hsha, hget, hdata⟩ := h.artifacts x hx a hax hdel
      exact ⟨sha, data, hsha, ha.kept _ _ hget, hdata⟩
    · rw [List.mem_singleton.1 hx] at hax
      exact ha.stored a hax hdel

end Rows

theorem step_stored {bus : EvidenceBus} {rs : List WorkerReceipt} (h : Stored bus rs) (op : Operation) :
    Stored (bus.step op) (rs ++ bus.acceptedBy op) := by
  cases op with
  | append receipt items =>
      rcases append_cases bus receipt items with ⟨e, he⟩ | ⟨bus', hok, ha⟩
      · rw [step, acceptedBy, he, List.append_nil]
        exact h
      · rw [step, acceptedBy, hok]
        exact h.append ha
  | approveStale hash approvedBy reason timeNs =>
      rw [acceptedBy, List.append_nil, step]
      rcases approveStale_cases bus hash approvedBy reason timeNs with ⟨e, he⟩ | ⟨-, hok⟩
      · rw [he]
        exact h
      · rw [hok]
        exact ⟨h.rows, h.digestible, h.nodup, h.justified, h.artifacts⟩
  | query q =>
      rw [acceptedBy, List.append_nil]
      exact h

/-- The tables are those of the accepted receipts after any operations. -/
theorem stored_foldl {bus : EvidenceBus} {rs : List WorkerReceipt} (h : Stored bus rs)
    (ops : List Operation) : Stored (ops.foldl step bus) (rs ++ acceptedFrom bus ops) := by
  induction ops generalizing bus rs with
  | nil =>
      rw [acceptedFrom, List.append_nil]
      exact h
  | cons op ops ih =>
      rw [List.foldl_cons, acceptedFrom, ← List.append_assoc]
      exact ih (step_stored h op)

theorem run_stored (ops : List Operation) : Stored (run ops) (accepted ops) := by
  have h := stored_foldl stored_empty ops
  rwa [List.nil_append] at h

/-! ## What is read -/

/-- A stored receipt and its row. -/
def Loaded (bus : EvidenceBus) (row : ReceiptRow) (r : ReceiptValue) : Prop :=
  row ∈ bus.receipts ∧ load row = .ok r

/-- A receipt with this hash is stored. -/
def Known (bus : EvidenceBus) (hash : Str) : Prop := ∃ row ∈ bus.receipts, row.receiptHash = hash

/-- `y` is a parent of the stored receipt `x`. -/
def ParentEdge (bus : EvidenceBus) (x y : Str) : Prop :=
  ∃ row r, Loaded bus row r ∧ row.receiptHash = x ∧ y ∈ r.parentReceipts

/-- A stored receipt names this one in `supersedes`. -/
def Superseded (bus : EvidenceBus) (hash : Str) : Prop :=
  ∃ row r, Loaded bus row r ∧ r.supersedes = some hash

/-- The receipt or one of its ancestors is superseded. -/
def StaleReceipt (bus : EvidenceBus) (hash : Str) : Prop :=
  ∃ y, Relation.ReflTransGen (ParentEdge bus) hash y ∧ Superseded bus y

theorem load_rowOf {r : WorkerReceipt} (h : Digestible (.obj r.unsignedPayload)) (sequence : Nat)
    (previous : Str) : load (rowOf sequence previous r) = .ok r.toValue := fromDict_text h

theorem mapE_load_rowsFrom {rs : List WorkerReceipt} (h : ∀ r ∈ rs, Digestible (.obj r.unsignedPayload))
    (sequence : Nat) (previous : Str) :
    mapE load (rowsFrom sequence previous rs) = .ok (rs.map fun r => r.toValue) := by
  induction rs generalizing sequence previous with
  | nil => rfl
  | cons r rs ih =>
      have hrest := ih (fun x hx => h x (List.mem_cons_of_mem _ hx)) (sequence + 1)
        (queueDigest previous r.hash)
      rw [rowsFrom, mapE, load_rowOf (h r List.mem_cons_self), hrest]
      rfl

theorem hash_ne_nil (r : WorkerReceipt) : r.hash ≠ [] := by
  intro h
  have hlen : r.hash.length = 64 := sha256_length _
  rw [h] at hlen
  cases hlen

section Reading

variable {bus : EvidenceBus} {rs : List WorkerReceipt}

theorem Stored.loads (h : Stored bus rs) : mapE load bus.receipts = .ok (rs.map fun r => r.toValue) := by
  rw [h.rows]
  exact mapE_load_rowsFrom h.digestible 1 genesis

/-- The rows and what they load to, in terms of the receipts. -/
theorem Stored.loaded_iff (h : Stored bus rs) {row : ReceiptRow} {v : ReceiptValue} :
    Loaded bus row v ↔ ∃ pre r post, rs = pre ++ r :: post ∧
      row = rowOf (1 + pre.length) (queueEnd genesis pre) r ∧ v = r.toValue := by
  rw [Loaded, h.rows, mem_rowsFrom]
  constructor
  · rintro ⟨⟨pre, r, post, hrs, rfl⟩, hload⟩
    rw [load_rowOf (h.digestible r (by rw [hrs]; simp))] at hload
    cases hload
    exact ⟨pre, r, post, hrs, rfl, rfl⟩
  · rintro ⟨pre, r, post, hrs, rfl, rfl⟩
    exact ⟨⟨pre, r, post, hrs, rfl⟩, load_rowOf (h.digestible r (by rw [hrs]; simp)) _ _⟩

theorem Stored.loaded_of_mem (h : Stored bus rs) {r : WorkerReceipt} (hr : r ∈ rs) :
    ∃ row, Loaded bus row r.toValue ∧ row.receiptHash = r.hash := by
  obtain ⟨pre, post, rfl⟩ := List.append_of_mem hr
  exact ⟨_, h.loaded_iff.2 ⟨pre, r, post, rfl, rfl, rfl⟩, rfl⟩

theorem Stored.known_iff (h : Stored bus rs) {x : Str} : Known bus x ↔ ∃ r ∈ rs, r.hash = x := by
  have hmem : x ∈ bus.receipts.map ReceiptRow.receiptHash ↔ x ∈ rs.map WorkerReceipt.hash := by
    rw [h.hashes]
  rwa [List.mem_map, List.mem_map] at hmem

theorem Stored.parentEdge_iff (h : Stored bus rs) {x y : Str} :
    ParentEdge bus x y ↔ ∃ r ∈ rs, r.hash = x ∧ y ∈ r.parentReceipts := by
  constructor
  · rintro ⟨row, v, hload, rfl, hy⟩
    obtain ⟨pre, r, post, hrs, rfl, rfl⟩ := h.loaded_iff.1 hload
    exact ⟨r, by rw [hrs]; simp, rfl, hy⟩
  · rintro ⟨r, hr, rfl, hy⟩
    obtain ⟨row, hload, hhash⟩ := h.loaded_of_mem hr
    exact ⟨row, r.toValue, hload, hhash, hy⟩

theorem Stored.superseded_iff (h : Stored bus rs) {x : Str} :
    Superseded bus x ↔ ∃ r ∈ rs, r.supersedes = some x := by
  constructor
  · rintro ⟨row, v, hload, hx⟩
    obtain ⟨pre, r, post, hrs, rfl, rfl⟩ := h.loaded_iff.1 hload
    exact ⟨r, by rw [hrs]; simp, hx⟩
  · rintro ⟨r, hr, hx⟩
    obtain ⟨row, hload, -⟩ := h.loaded_of_mem hr
    exact ⟨row, r.toValue, hload, hx⟩

theorem Stored.named_known (h : Stored bus rs) {r : WorkerReceipt} (hr : r ∈ rs) {x : Str}
    (hx : x ∈ r.parentReceipts ∨ r.supersedes = some x) : Known bus x := by
  obtain ⟨pre, post, hrs⟩ := List.append_of_mem hr
  obtain ⟨hpar, hsup⟩ := h.justified pre r post hrs
  have hold : ∃ old ∈ pre, old.hash = x := hx.elim (hpar x) (hsup x)
  obtain ⟨old, hmem, rfl⟩ := hold
  exact h.known_iff.2 ⟨old, by rw [hrs]; exact List.mem_append_left _ hmem, rfl⟩

/-! ## Staleness -/

/-- The receipts by their hashes. -/
def tableOf (rs : List WorkerReceipt) : Dict Str ReceiptValue := rs.map fun r => (r.hash, r.toValue)

theorem Stored.byHash_eq (h : Stored bus rs) : byHash (rs.map fun r => r.toValue) = .ok (tableOf rs) := by
  have hpairs : mapE (fun r : ReceiptValue => do return (← r.receiptHash, r)) (rs.map fun r => r.toValue) =
      .ok (tableOf rs) := by
    have hdig := h.digestible
    clear h
    induction rs with
    | nil => rfl
    | cons r rs ih =>
        have hhash : r.toValue.receiptHash = .ok r.hash := by
          rw [← WorkerReceipt.toValue_hash]
          refine digest_of_digestible ?_
          rw [toValue_payload]
          exact hdig r List.mem_cons_self
        rw [List.map_cons, mapE, hhash, ih fun x hx => hdig x (List.mem_cons_of_mem _ hx)]
        rfl
  have hnd : ((tableOf rs).map Prod.fst).Nodup := by
    rw [tableOf, List.map_map]
    exact h.nodup
  rw [byHash, hpairs]
  exact congrArg Except.ok (Dict.ofPairs_of_nodup hnd)

theorem Stored.parents_eq_some (h : Stored bus rs) {x : Str} {ps : List Str} :
    parents (tableOf rs) x = some ps ↔ ∃ r ∈ rs, r.hash = x ∧ r.parentReceipts = ps := by
  have hnd : (tableOf rs).keys.Nodup := by
    rw [Dict.keys, tableOf, List.map_map]
    exact h.nodup
  rw [parents, Option.map_eq_some_iff]
  constructor
  · rintro ⟨v, hv, rfl⟩
    obtain ⟨r, hr, he⟩ := List.mem_map.1 (Dict.mem_of_get? hv)
    cases he
    exact ⟨r, hr, rfl, rfl⟩
  · rintro ⟨r, hr, rfl, rfl⟩
    exact ⟨r.toValue, Dict.get?_of_mem hnd (List.mem_map.2 ⟨r, hr, rfl⟩), rfl⟩

theorem Stored.parents_ne_none (h : Stored bus rs) {x : Str} :
    parents (tableOf rs) x ≠ none ↔ Known bus x := by
  rw [h.known_iff, Option.ne_none_iff_exists']
  constructor
  · rintro ⟨ps, hps⟩
    obtain ⟨r, hr, hx, -⟩ := h.parents_eq_some.1 hps
    exact ⟨r, hr, hx⟩
  · rintro ⟨r, hr, hx⟩
    exact ⟨r.parentReceipts, h.parents_eq_some.2 ⟨r, hr, hx, rfl⟩⟩

theorem Stored.edge_eq (h : Stored bus rs) : Edge (parents (tableOf rs)) = ParentEdge bus := by
  funext x y
  rw [eq_iff_iff, h.parentEdge_iff, Edge]
  constructor
  · rintro ⟨ps, hps, hy⟩
    obtain ⟨r, hr, hx, rfl⟩ := h.parents_eq_some.1 hps
    exact ⟨r, hr, hx, hy⟩
  · rintro ⟨r, hr, hx, hy⟩
    exact ⟨r.parentReceipts, h.parents_eq_some.2 ⟨r, hr, hx, rfl⟩, hy⟩

theorem Stored.goal_iff (h : Stored bus rs) {x : Str} :
    decide (x ∈ superseded (rs.map fun r => r.toValue)) = true ↔ Superseded bus x := by
  rw [decide_eq_true_eq, h.superseded_iff, superseded, List.mem_filter, List.mem_filterMap]
  constructor
  · rintro ⟨⟨v, hv, hx⟩, -⟩
    obtain ⟨r, hr, rfl⟩ := List.mem_map.1 hv
    exact ⟨r, hr, hx⟩
  · rintro ⟨r, hr, hx⟩
    refine ⟨⟨r.toValue, List.mem_map.2 ⟨r, hr, rfl⟩, hx⟩, ?_⟩
    -- a superseded receipt has a hash, which is not empty
    obtain ⟨old, -, rfl⟩ := h.known_iff.1 (h.named_known hr (Or.inr hx))
    simpa using hash_ne_nil old

theorem Stored.reaches_iff (h : Stored bus rs) {x : Str} :
    Reaches (fun y => decide (y ∈ superseded (rs.map fun r => r.toValue))) (parents (tableOf rs)) x ↔
      StaleReceipt bus x := by
  rw [Reaches, h.edge_eq, StaleReceipt]
  simp only [h.goal_iff]

theorem Stored.known_of_stale (h : Stored bus rs) {x : Str} (hx : StaleReceipt bus x) : Known bus x := by
  obtain ⟨y, hpath, hy⟩ := hx
  rcases Relation.ReflTransGen.cases_head hpath with rfl | ⟨z, hedge, -⟩
  · obtain ⟨r, hr, hsup⟩ := h.superseded_iff.1 hy
    exact h.named_known hr (Or.inr hsup)
  · obtain ⟨row, r, hload, hhash, -⟩ := hedge
    exact ⟨row, hload.1, hhash⟩

theorem Stored.isStale_eq (h : Stored bus rs) (x : Str) (hx : isHash x = true) :
    bus.isStale x = staleFrom (superseded (rs.map fun r => r.toValue)) (tableOf rs) x := by
  rw [isStale, requireHash, require_of hx, h.loads]
  show (do let table ← byHash (rs.map fun r : WorkerReceipt => r.toValue); staleFrom _ table x) = _
  rw [h.byHash_eq]
  rfl

/-- `is_stale` of a stored receipt returns whether it is stale. -/
theorem Stored.isStale_known (h : Stored bus rs) {x : Str} (hx : Known bus x) :
    bus.isStale x = .ok true ∧ StaleReceipt bus x ∨ bus.isStale x = .ok false ∧ ¬ StaleReceipt bus x := by
  have hhash : isHash x = true := by
    obtain ⟨r, -, rfl⟩ := h.known_iff.1 hx
    exact sha256_isHash _
  have hnodes : ∀ y, parents (tableOf rs) y ≠ none → y ∈ (tableOf rs).keys := by
    intro y hy
    obtain ⟨ps, hps⟩ := Option.ne_none_iff_exists'.1 hy
    obtain ⟨v, hv, -⟩ := Option.map_eq_some_iff.1 hps
    exact Dict.mem_keys_of_get? hv
  have hclosed : ∀ y ps, parents (tableOf rs) y = some ps → ∀ z ∈ ps, parents (tableOf rs) z ≠ none := by
    intro y ps hps z hz
    obtain ⟨r, hr, -, rfl⟩ := h.parents_eq_some.1 hps
    exact h.parents_ne_none.2 (h.named_known hr (Or.inl hz))
  rw [h.isStale_eq x hhash, staleFrom, ← h.reaches_iff]
  rcases @search_known _ _ (fun y => decide (y ∈ superseded (rs.map fun r => r.toValue))) _ _ hnodes
    hclosed _ (h.parents_ne_none.2 hx) with ⟨hs, hr⟩ | ⟨hs, hr⟩
  · rw [hs]
    exact Or.inl ⟨rfl, hr⟩
  · rw [hs]
    exact Or.inr ⟨rfl, hr⟩

theorem Stored.isStale_unknown (h : Stored bus rs) {x : Str} (hx : ¬ Known bus x) :
    ∃ e, bus.isStale x = .error e := by
  cases hhash : isHash x with
  | false =>
      refine ⟨evidenceError "invalid receipt hash", ?_⟩
      rw [isStale, requireHash, require, if_neg (by rw [hhash]; decide)]
      rfl
  | true =>
      refine ⟨evidenceError "receipt graph references missing receipt", ?_⟩
      have hgoal : ¬ Superseded bus x := fun hsup => hx (h.known_of_stale ⟨x, .refl, hsup⟩)
      rw [← h.goal_iff] at hgoal
      have hnone : parents (tableOf rs) x = none := by
        by_contra hne
        exact hx (h.parents_ne_none.1 hne)
      rw [h.isStale_eq x hhash, staleFrom, searchFuel, Nat.add_comm, search, if_neg List.not_mem_nil,
        if_neg hgoal, hnone]

theorem Stored.isStale_iff (h : Stored bus rs) {x : Str} : bus.isStale x = .ok true ↔ StaleReceipt bus x := by
  by_cases hx : Known bus x
  · rcases h.isStale_known hx with ⟨hs, hr⟩ | ⟨hs, hr⟩
    · exact ⟨fun _ => hr, fun _ => hs⟩
    · rw [hs]
      exact ⟨nofun, fun h => absurd h hr⟩
  · obtain ⟨e, he⟩ := h.isStale_unknown hx
    rw [he]
    exact ⟨nofun, fun hs => absurd (h.known_of_stale hs) hx⟩

/-! ## Order and queue -/

/-- What a stored receipt names has a row with a smaller sequence number. -/
theorem Stored.earlier (h : Stored bus rs) {row : ReceiptRow} {v : ReceiptValue}
    (hload : Loaded bus row v) {y : Str} (hy : y ∈ v.parentReceipts ∨ v.supersedes = some y) :
    ∃ old ∈ bus.receipts, old.receiptHash = y ∧ old.sequence < row.sequence := by
  obtain ⟨pre, r, post, hrs, rfl, rfl⟩ := h.loaded_iff.1 hload
  obtain ⟨hpar, hsup⟩ := h.justified pre r post hrs
  have hold : ∃ old ∈ pre, old.hash = y := hy.elim (hpar y) (hsup y)
  obtain ⟨old, hmem, rfl⟩ := hold
  obtain ⟨pre₁, pre₂, rfl⟩ := List.append_of_mem hmem
  refine ⟨rowOf (1 + pre₁.length) (queueEnd genesis pre₁) old, ?_, rfl, ?_⟩
  · rw [h.rows, mem_rowsFrom]
    exact ⟨pre₁, old, pre₂ ++ r :: post, by rw [hrs]; simp, rfl⟩
  · show 1 + pre₁.length < 1 + (pre₁ ++ old :: pre₂).length
    rw [List.length_append, List.length_cons]
    omega

theorem Stored.row_eq (h : Stored bus rs) {a b : ReceiptRow} (ha : a ∈ bus.receipts)
    (hb : b ∈ bus.receipts) (hab : a.receiptHash = b.receiptHash) : a = b := by
  have hnd : (bus.receipts.map ReceiptRow.receiptHash).Nodup := by
    rw [h.hashes]
    exact h.nodup
  exact List.inj_on_of_nodup_map hnd ha hb hab

/-- A stored receipt names another one, as a parent or in `supersedes`. -/
def Names (bus : EvidenceBus) (x y : Str) : Prop :=
  ∃ row r, Loaded bus row r ∧ row.receiptHash = x ∧ (y ∈ r.parentReceipts ∨ r.supersedes = some y)

theorem Stored.sequence_lt (h : Stored bus rs) {x y : Str} (hxy : Relation.TransGen (Names bus) x y) :
    ∃ a ∈ bus.receipts, ∃ b ∈ bus.receipts, a.receiptHash = x ∧ b.receiptHash = y ∧
      b.sequence < a.sequence := by
  induction hxy with
  | single hstep =>
      obtain ⟨row, r, hload, hx, hy⟩ := hstep
      obtain ⟨old, hold, hhash, hlt⟩ := h.earlier hload hy
      exact ⟨row, hload.1, old, hold, hx, hhash, hlt⟩
  | tail _ hstep ih =>
      obtain ⟨row, r, hload, hx, hy⟩ := hstep
      obtain ⟨old, hold, hhash, hlt⟩ := h.earlier hload hy
      obtain ⟨a, ha, b, hb, hax, hby, hba⟩ := ih
      obtain rfl := h.row_eq hb hload.1 (hby.trans hx.symm)
      exact ⟨a, ha, old, hold, hax, hhash, hlt.trans hba⟩

theorem Stored.acyclic (h : Stored bus rs) (x : Str) : ¬ Relation.TransGen (Names bus) x x := by
  intro hxx
  obtain ⟨a, ha, b, hb, hax, hbx, hlt⟩ := h.sequence_lt hxx
  obtain rfl := h.row_eq ha hb (hax.trans hbx.symm)
  exact lt_irrefl _ hlt

omit [FloatModel] in
theorem isHash_genesis : isHash genesis = true := by decide

theorem digest_queueBody {previous hash : Str} (hp : isHash previous = true) (hh : isHash hash = true) :
    digest (queueBody previous hash) = .ok (queueDigest previous hash) := by
  apply digest_of_digestible
  rw [queueBody, digestible_obj]
  have hp := encodable_of_isAscii (isAscii_of_isHash hp)
  have hh := encodable_of_isAscii (isAscii_of_isHash hh)
  simp [encodable_lit, hp, hh]

theorem verify_rowsFrom (rs : List WorkerReceipt) (sequence count : Nat) {previous : Str}
    (hp : isHash previous = true) :
    (rowsFrom sequence previous rs).foldlM verifyRow (previous, count) =
      .ok (queueEnd previous rs, count + rs.length) := by
  induction rs generalizing sequence count previous with
  | nil => rfl
  | cons r rs ih =>
      have hstep : verifyRow (previous, count) (rowOf sequence previous r) =
          .ok (queueDigest previous r.hash, count + 1) := by
        have hdigest := digest_queueBody hp (sha256_isHash _ : isHash r.hash = true)
        exact bind_eq_ok.2 ⟨_, hdigest, bind_eq_ok.2 ⟨(), require_of ⟨rfl, rfl⟩, rfl⟩⟩
      have hnext : isHash (queueDigest previous r.hash) = true := sha256_isHash _
      have hrest := ih (sequence + 1) (count + 1) hnext
      rw [rowsFrom, List.foldlM_cons, hstep]
      show List.foldlM _ _ _ = _
      rw [hrest, queueEnd_cons, List.length_cons, Nat.add_right_comm, Nat.add_assoc]

theorem Stored.verifyQueue_eq (h : Stored bus rs) :
    bus.verifyQueue = .ok (queueEnd genesis rs, rs.length) := by
  rw [verifyQueue, h.ordered_eq, h.rows, verify_rowsFrom rs 1 0 isHash_genesis, Nat.zero_add]

/-- What stays true of the tables: sequence numbers, the queue, the artifacts and staleness. -/
structure Consistent (bus : EvidenceBus) (count : Nat) : Prop where
  readable : ∀ row ∈ bus.receipts, ∃ r, load row = .ok r ∧ r.hash = row.receiptHash
  earlier : ∀ row r, Loaded bus row r → ∀ y, y ∈ r.parentReceipts ∨ r.supersedes = some y →
    ∃ old ∈ bus.receipts, old.receiptHash = y ∧ old.sequence < row.sequence
  acyclic : ∀ x, ¬ Relation.TransGen (Names bus) x x
  length : bus.receipts.length = count
  queue : ∃ root, bus.verifyQueue = .ok (root, count)
  artifacts : ∀ row r, Loaded bus row r → ∀ a ∈ r.artifacts, a.deleted ≠ .bool true →
    ∃ sha data, a.sha256 = some sha ∧ bus.artifacts.get? sha = some (data, data.length) ∧
      sha256 data = sha ∧ a.sizeBytes = .int data.length
  stale_total : ∀ hash, Known bus hash → ∃ b, bus.isStale hash = .ok b
  stale_iff : ∀ hash, bus.isStale hash = .ok true ↔ StaleReceipt bus hash

theorem Stored.consistent (h : Stored bus rs) : Consistent bus rs.length where
  readable := by
    intro row hrow
    rw [h.rows] at hrow
    obtain ⟨pre, r, post, hrs, rfl⟩ := mem_rowsFrom.1 hrow
    refine ⟨r.toValue, load_rowOf (h.digestible r (by rw [hrs]; simp)) _ _, ?_⟩
    rw [WorkerReceipt.toValue_hash]
    rfl
  earlier := fun row r hload y hy => h.earlier hload hy
  acyclic := h.acyclic
  length := by
    rw [← List.length_map (f := ReceiptRow.receiptHash), h.hashes, List.length_map]
  queue := ⟨_, h.verifyQueue_eq⟩
  artifacts := by
    intro row v hload a ha hdel
    obtain ⟨pre, r, post, hrs, -, rfl⟩ := h.loaded_iff.1 hload
    obtain ⟨b, hb, rfl⟩ := List.mem_map.1 ha
    have hkept : b.deleted = false := by simpa [ArtifactBinding.toValue] using hdel
    obtain ⟨sha, data, hsha, hget, hdata, hsize⟩ := h.artifacts r (by rw [hrs]; simp) b hb hkept
    exact ⟨sha, data, hsha, hget, hdata, congrArg Json.int hsize⟩
  stale_total := by
    intro x hx
    rcases h.isStale_known hx with ⟨hs, -⟩ | ⟨hs, -⟩
    · exact ⟨_, hs⟩
    · exact ⟨_, hs⟩
  stale_iff := fun _ => h.isStale_iff

theorem StaleReceipt.mono {bus' : EvidenceBus} {rs' : List WorkerReceipt} (h : Stored bus rs)
    (h' : Stored bus' (rs ++ rs')) {x : Str} (hx : StaleReceipt bus x) : StaleReceipt bus' x := by
  obtain ⟨y, hpath, hy⟩ := hx
  refine ⟨y, Relation.ReflTransGen.mono (fun a b hab => ?_) x y hpath, ?_⟩
  · obtain ⟨r, hr, hab⟩ := h.parentEdge_iff.1 hab
    exact h'.parentEdge_iff.2 ⟨r, List.mem_append_left _ hr, hab⟩
  · obtain ⟨r, hr, hy⟩ := h.superseded_iff.1 hy
    exact h'.superseded_iff.2 ⟨r, List.mem_append_left _ hr, hy⟩

end Reading

/-! ## Runs -/

/-- An earlier `approve_stale` of the receipt returned while the receipt was stale. -/
def ApprovedWhileStale (ops : List Operation) (hash : Str) : Prop :=
  ∃ pre approvedBy reason timeNs post, ops = pre ++
    Operation.approveStale hash approvedBy reason timeNs :: post ∧
    (run pre).isStale hash = .ok true ∧ ((run pre).approveStale hash approvedBy reason timeNs).1 = .ok ()

theorem ApprovedWhileStale.later {ops : List Operation} {hash : Str} (h : ApprovedWhileStale ops hash)
    (more : List Operation) : ApprovedWhileStale (ops ++ more) hash := by
  obtain ⟨pre, approvedBy, reason, timeNs, post, rfl, h⟩ := h
  exact ⟨pre, approvedBy, reason, timeNs, post ++ more, by simp, h⟩

theorem run_append (ops more : List Operation) : run (ops ++ more) = more.foldl step (run ops) :=
  List.foldl_append

theorem approved_of_mem {ops : List Operation} {a : StaleApproval} (ha : a ∈ (run ops).staleApprovals) :
    ApprovedWhileStale ops a.receiptHash := by
  induction ops using List.reverseRecOn with
  | nil => cases ha
  | append_singleton ops op ih =>
      rw [run_append] at ha
      change a ∈ ((run ops).step op).staleApprovals at ha
      cases op with
      | append receipt items =>
          rw [step] at ha
          rcases append_cases (run ops) receipt items with ⟨e, he⟩ | ⟨bus', hok, hacc⟩
          · rw [he] at ha
            exact (ih ha).later _
          · rw [hok, hacc.approvals] at ha
            exact (ih ha).later _
      | approveStale hash approvedBy reason timeNs =>
          rw [step] at ha
          rcases approveStale_cases (run ops) hash approvedBy reason timeNs with ⟨e, he⟩ | ⟨hstale, hok⟩
          · rw [he] at ha
            exact (ih ha).later _
          · rw [hok] at ha
            rcases List.mem_append.1 ha with ha | ha
            · exact (ih ha).later _
            · rw [List.mem_singleton.1 ha]
              exact ⟨ops, approvedBy, reason, timeNs, [], rfl, hstale, by rw [hok]⟩
      | query q => exact (ih ha).later _

theorem consumable_spec {ed : Ed25519} {bus : EvidenceBus} {hash : Str} {publicKey : Bytes}
    {r : ReceiptValue} (h : consumable ed bus hash publicKey = .ok r) :
    bus.get hash = .ok r ∧ StationIdentity.verify ed r publicKey = true ∧
      (bus.isStale hash = .ok false ∨ ∃ a ∈ bus.staleApprovals, a.receiptHash = hash) := by
  rw [consumable] at h
  obtain ⟨v, hget, h⟩ := bind_eq_ok.1 h
  obtain ⟨u, hverify, h⟩ := bind_eq_ok.1 h
  obtain ⟨u, -, h⟩ := bind_eq_ok.1 h
  obtain ⟨stale, hstale, h⟩ := bind_eq_ok.1 h
  obtain ⟨u, happ, h⟩ := bind_eq_ok.1 h
  cases h
  refine ⟨hget, require_eq_ok.1 hverify, ?_⟩
  rcases require_eq_ok.1 happ with rfl | ⟨a, ha, hhash⟩
  · exact Or.inl hstale
  · exact Or.inr ⟨a, ha, hhash⟩

/-- The Evidence Bus after any operations: the tables are consistent and hold the accepted receipts, a
rejected append leaves them as they are, what is stale stays stale, and a receipt that is consumed has
a valid signature and is fresh or was approved while it was stale. -/
theorem bus_invariant (ed : Ed25519) (ops : List Operation) :
    Consistent (run ops) (accepted ops).length ∧
      (∀ receipt items e, ((run ops).append receipt items).1 = .error e →
        ((run ops).append receipt items).2 = run ops) ∧
      (∀ more hash, (run ops).isStale hash = .ok true → (run (ops ++ more)).isStale hash = .ok true) ∧
      ∀ hash publicKey r, (run ops).consumable ed hash publicKey = .ok r →
        (run ops).get hash = .ok r ∧ StationIdentity.verify ed r publicKey = true ∧
          ((run ops).isStale hash = .ok false ∨ ApprovedWhileStale ops hash) := by
  have hstored := run_stored ops
  refine ⟨hstored.consistent, ?_, ?_, ?_⟩
  · intro receipt items e he
    rcases append_cases (run ops) receipt items with ⟨e', he'⟩ | ⟨bus', hok, -⟩
    · rw [he']
    · rw [hok] at he
      cases he
  · intro more hash hstale
    have hlater := stored_foldl hstored more
    rw [← run_append] at hlater
    exact hlater.isStale_iff.2 ((hstored.isStale_iff.1 hstale).mono hstored hlater)
  · intro hash publicKey r hr
    obtain ⟨hget, hverify, hfresh⟩ := consumable_spec hr
    refine ⟨hget, hverify, ?_⟩
    rcases hfresh with hfresh | ⟨a, ha, rfl⟩
    · exact Or.inl hfresh
    · exact Or.inr (approved_of_mem ha)

end ResidualHarness.Factory.EvidenceBus
