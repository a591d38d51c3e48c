import ResidualHarness.Engine.Steps

/-!
# Invariants of a run

What every step of a run preserves: `Sound` about accepted values, `Budget` about calls and `Linked`
about station receipts. Each holds at the start, so that it holds at every point of a run.
-/

set_option autoImplicit false

namespace ResidualHarness.Engine

open Python Core

variable [FloatModel] {ω : Type} (h : Setup ω)

/-! ## Acceptance -/

/-- Accepted values passed their check on the accepted values of their dependencies, which were
accepted earlier; their receipts have their hashes, and none of them has a failure. -/
structure Setup.Sound (s : State ω) : Prop where
  nodup : s.accepted.keys.Nodup
  receipts : s.receipts.keys = s.accepted.keys
  passed : ∀ n v, s.accepted.get? n = some v → h.Passed s.accepted n v
  receipted : ∀ n v, s.accepted.get? n = some v →
    ∃ r, s.receipts.get? n = some r ∧ digest v = .ok r.valueSha256
  earlier : ∀ pre n v post, s.accepted = pre ++ (n, v) :: post → h.Ready pre n
  disjoint : ∀ n ∈ s.failures.keys, n ∉ s.accepted.keys

variable {h} {s t : State ω}

/-- A context shows of the accepted values only those of the dependencies. -/
theorem view_congr (o : Obligation) (artifacts : List Artifact) {a b : Dict Str Json}
    (hab : ∀ d ∈ o.dependsOn, a.get? d = b.get? d) :
    Context.view ⟨o, artifacts, a⟩ = Context.view ⟨o, artifacts, b⟩ := by
  have hd : (o.dependsOn.map fun d => (d, Context.dependency ⟨o, artifacts, a⟩ d)) =
      o.dependsOn.map fun d => (d, Context.dependency ⟨o, artifacts, b⟩ d) := by
    apply List.map_congr_left
    intro d hd
    simp only [Context.dependency, hab d hd]
  simp only [Context.view, hd]
  rfl

/-- A check sees the same after more has been accepted. -/
theorem Setup.Passed.set {accepted : Dict Str Json} {n m : Str} {v w : Json}
    (hn : n ∉ accepted.keys) (hr : h.Ready accepted m) (hp : h.Passed accepted m w) :
    h.Passed (accepted.set n v) m w := by
  obtain ⟨o, label, check, x, verdict, ho, hc, hv, hpass⟩ := hp
  obtain ⟨o', ho', hd⟩ := hr
  obtain rfl := Option.some.inj (ho'.symm.trans ho)
  refine ⟨o', label, check, x, verdict, ho, hc, ?_, hpass⟩
  rw [view_congr o' h.task.artifacts (b := accepted)]
  · exact hv
  · intro d hmem
    have hne : d ≠ n := fun he => hn (he ▸ hd hmem)
    rw [Dict.get?_set, if_neg hne]

/-- The dependencies of an accepted obligation have been accepted. -/
theorem Setup.Sound.ready (hs : h.Sound s) {n : Str} (hn : n ∈ s.accepted.keys) :
    h.Ready s.accepted n := by
  obtain ⟨v, hv⟩ := Dict.mem_keys_iff.1 hn
  obtain ⟨pre, post, hsplit⟩ := List.append_of_mem (Dict.mem_of_get? hv)
  refine (hs.earlier pre n v post hsplit).mono ?_
  rw [hsplit]
  exact (List.map_subset _ (List.subset_append_left _ _))

omit [FloatModel] in
/-- An entry of a dictionary after an assignment. -/
theorem of_get?_set {κ β : Type} [DecidableEq κ] {d : Dict κ β} {k k' : κ} {v w : β}
    {P : κ → β → Prop} (hnew : P k v) (hold : d.get? k' = some w → P k' w)
    (hw : (d.set k v).get? k' = some w) : P k' w := by
  rw [Dict.get?_set] at hw
  split at hw
  · rename_i hk
    subst hk
    cases hw
    exact hnew
  · exact hold hw

omit [FloatModel] in
/-- What holds of every entry and the entries before it, after an entry is added. -/
theorem of_split_set {κ β : Type} [DecidableEq κ] {d : Dict κ β} {k : κ} {v : β}
    {P : Dict κ β → κ → β → Prop} (hk : k ∉ d.keys) (hnew : P d k v)
    (hold : ∀ pre m w post, d = pre ++ (m, w) :: post → P pre m w) (pre : Dict κ β) (m : κ) (w : β)
    (post : Dict κ β) (hsplit : d.set k v = pre ++ (m, w) :: post) : P pre m w := by
  rw [Dict.set_of_notMem hk] at hsplit
  -- the new entry is the last one
  rcases List.eq_nil_or_concat post with rfl | ⟨post', x, rfl⟩
  · obtain ⟨hpre, hlast⟩ := List.append_inj' hsplit rfl
    obtain ⟨rfl, rfl⟩ := Prod.mk.inj (List.cons.inj hlast).1
    exact hpre ▸ hnew
  · rw [List.concat_eq_append, ← List.cons_append, ← List.append_assoc] at hsplit
    exact hold pre m w post' (List.append_inj' hsplit rfl).1

/-- The hash of a receipt is that of its value. -/
theorem receipt_value {n : Str} {v : Json} {r : Receipt} (hr : h.receipt s n v = .ok r) :
    digest v = .ok r.valueSha256 := by
  obtain ⟨binding, -, hr⟩ := bind_eq_ok.1 hr
  obtain ⟨valueSha, hv, hr⟩ := bind_eq_ok.1 hr
  obtain ⟨o, -, hr⟩ := bind_eq_ok.1 hr
  obtain ⟨label, -, hr⟩ := bind_eq_ok.1 hr
  obtain ⟨sha, -, hr⟩ := bind_eq_ok.1 hr
  cases hr
  exact hv

theorem Setup.Sound.accept (hs : h.Sound s) {n : Str} {v : Json} {r : Receipt}
    (ha : n ∉ s.accepted.keys) (hr : h.Ready s.accepted n) (hp : h.Passed s.accepted n v)
    (hrec : h.receipt s n v = .ok r) :
    h.Sound { s with
      accepted := s.accepted.set n v
      receipts := s.receipts.set n r
      failures := s.failures.pop n } where
  nodup := Dict.nodup_set hs.nodup n v
  receipts := by
    have har : n ∉ s.receipts.keys := by
      rw [hs.receipts]
      exact ha
    rw [Dict.set_of_notMem ha, Dict.set_of_notMem har, Dict.keys, Dict.keys, List.map_append,
      List.map_append]
    exact congrArg (· ++ [n]) hs.receipts
  passed := by
    intro m w hw
    refine of_get?_set (P := fun m w => h.Passed (s.accepted.set n v) m w) (hp.set ha hr) ?_ hw
    exact fun hold => (hs.passed m w hold).set ha (hs.ready (Dict.mem_keys_of_get? hold))
  receipted := by
    intro m w hw
    by_cases hmn : m = n
    · subst hmn
      rw [Dict.get?_set, if_pos rfl] at hw ⊢
      cases hw
      exact ⟨r, rfl, receipt_value hrec⟩
    · rw [Dict.get?_set, if_neg hmn] at hw ⊢
      exact hs.receipted m w hw
  earlier := of_split_set (P := fun pre m _ => h.Ready pre m) ha hr hs.earlier
  disjoint := by
    intro m hm hmem
    obtain ⟨hne, hm⟩ := Dict.mem_keys_pop.1 hm
    rcases Dict.mem_keys_set.1 hmem with rfl | hmem
    · exact hne rfl
    · exact hs.disjoint m hm hmem

theorem Setup.Step.sound (hst : h.Step s t) (hs : h.Sound s) : h.Sound t := by
  have ⟨h1, h2, h3, h4, h5, h6⟩ := hs
  cases hst with
  | aside hk hf =>
      exact ⟨by rwa [hk.accepted], by rwa [hk.accepted, hk.receipts], by rwa [hk.accepted],
        by rwa [hk.accepted, hk.receipts], by rwa [hk.accepted], by rwa [hk.accepted, hf]⟩
  | fail failures hf =>
      exact ⟨h1, h2, h3, h4, h5, fun n hn => (hf n hn).elim (h6 n) id⟩
  | accept n v r ha hr hp hc hrec => exact hs.accept ha hr hp hrec
  | station n v r ha hns hn hr => exact ⟨h1, h2, h3, h4, h5, h6⟩
  | reserve c p hm => exact ⟨h1, h2, h3, h4, h5, h6⟩
  | hand w rs r hrs hh => exact ⟨h1, h2, h3, h4, h5, h6⟩

/-! ## Calls -/

/-- The bytes of the remote requests. -/
def remoteSum (requests : List Request) : Int :=
  ((requests.filter fun r => r.placement = .remote).map Request.requestBytes).sum

variable (h) in
/-- The size of a request is that of its packet, for the provider it names. -/
structure Setup.Measured (r : Request) : Prop where
  sized : ∃ p, h.provider r.role = some p ∧ p.placement = r.placement ∧ p.name = r.provider ∧
    h.wireSize p r.packet = .ok r.requestBytes
  small : r.requestBytes ≤ h.limits.maxRequestBytes
  hashed : digest r.packet = .ok r.packetSha256
  mayLeave : r.placement = .remote → h.MayLeave r.packet

variable (h) in
/-- The limits hold, the counters are those of the calls, and what was given to `generate` are the
packets that were measured. -/
structure Setup.Budget (s : State ω) : Prop where
  calls : s.requests.length ≤ h.limits.maxCalls
  expert : s.expertCalls = s.requests.countP fun r => r.role = .expert
  expertMax : s.expertCalls ≤ h.limits.maxExpertCalls
  remote : s.remoteBytes = remoteSum s.requests
  remoteMax : s.remoteBytes ≤ h.limits.maxRemoteInputBytes
  measured : ∀ r ∈ s.requests, h.Measured r
  ready : ∀ r ∈ s.requests, ∀ n ∈ r.obligationIds, h.Ready s.accepted n
  handed : s.handed = packets s.requests ∨ ∃ rs r, s.requests = rs ++ [r] ∧ s.handed = packets rs

theorem Setup.Budget.congr (hb : h.Budget s) (ha : s.accepted.keys ⊆ t.accepted.keys)
    (hc : t.requests = s.requests) (he : t.expertCalls = s.expertCalls)
    (hr : t.remoteBytes = s.remoteBytes) (hh : t.handed = s.handed) : h.Budget t := by
  obtain ⟨h1, h2, h3, h4, h5, h6, h7, h8⟩ := hb
  exact ⟨by rwa [hc], by rwa [hc, he], by rwa [he], by rwa [hc, hr], by rwa [hr], by rwa [hc],
    by rw [hc]; exact fun r hm n hn => (h7 r hm n hn).mono ha, by rwa [hc, hh]⟩

theorem not_blocked {p : Provider ω} {role : Role} {size : Int}
    (hb : h.blocked s p role size = false) :
    s.calls.length < h.limits.maxCalls ∧ size ≤ h.limits.maxRequestBytes ∧
      (role = .expert → s.expertCalls < h.limits.maxExpertCalls) ∧
      (p.placement = .remote → s.remoteBytes + size ≤ h.limits.maxRemoteInputBytes) := by
  simp only [Setup.blocked, decide_eq_false_iff_not, not_or, not_le, not_lt, not_and] at hb
  exact hb

theorem requests_reserved (c : Call) : (s.reserved c).requests = s.requests ++ [c.request] :=
  List.map_append

theorem Setup.Budget.reserve (hb : h.Budget s) {c : Call} {p : Provider ω}
    (hm : h.MayReserve s c.request p) : h.Budget (s.reserved c) := by
  -- `_blocked` compared each counter with its limit before the call was counted
  obtain ⟨hcalls, hsize, hexpert, hremote⟩ := not_blocked hm.allowed
  obtain ⟨hp, hplacement, hname⟩ := hm.provider
  have hmem : ∀ {P : Request → Prop}, (∀ r ∈ s.requests, P r) → P c.request →
      ∀ r ∈ (s.reserved c).requests, P r := by
    intro P hold hnew r hr
    rw [requests_reserved] at hr
    rcases List.mem_append.1 hr with hr | hr
    · exact hold r hr
    · rw [List.mem_singleton.1 hr]
      exact hnew
  refine ⟨?_, ?_, ?_, ?_, ?_, ?_, ?_, ?_⟩
  · rw [requests_reserved, List.length_append, State.requests, List.length_map]
    exact hcalls
  · rw [requests_reserved, List.countP_append, ← hb.expert, List.countP_singleton]
    show (if c.role = .expert then s.expertCalls + 1 else s.expertCalls) = _
    by_cases hr : c.role = .expert <;> simp [hr, Call.request]
  · show (if c.role = .expert then s.expertCalls + 1 else s.expertCalls) ≤ _
    split
    · next hr => exact hexpert hr
    · exact hb.expertMax
  · rw [requests_reserved, remoteSum, List.filter_append, List.map_append, List.sum_append]
    show (if c.placement = .remote then s.remoteBytes + c.requestBytes else s.remoteBytes) = _
    rw [hb.remote]
    by_cases hr : c.placement = .remote <;> simp [hr, Call.request, remoteSum]
  · show (if c.placement = .remote then s.remoteBytes + c.requestBytes else s.remoteBytes) ≤ _
    split
    · next hr => exact hremote (hplacement.trans hr)
    · exact hb.remoteMax
  · exact hmem hb.measured ⟨⟨p, hp, hplacement, hname, hm.sized⟩, hsize, hm.hashed, hm.mayLeave⟩
  · exact hmem hb.ready fun n hn => (hm.ready n hn).2
  · exact Or.inr ⟨s.requests, c.request, requests_reserved c, hm.handed⟩

theorem Setup.Step.budget (hst : h.Step s t) (hb : h.Budget s) : h.Budget t := by
  have hkeys := hst.later.keys
  cases hst with
  | aside hk hf => exact hb.congr hkeys hk.requests hk.expertCalls hk.remoteBytes hk.handed
  | reserve c p hm => exact hb.reserve hm
  | hand w rs r hrs hh =>
      obtain ⟨h1, h2, h3, h4, h5, h6, h7, -⟩ := hb
      refine ⟨h1, h2, h3, h4, h5, h6, h7, Or.inl ?_⟩
      show s.handed ++ [(r.placement, r.packet)] = packets s.requests
      rw [hh, hrs, packets, packets, List.map_append]
      rfl
  | fail failures hf => exact hb.congr hkeys rfl rfl rfl rfl
  | accept n v r ha hr hp hc hrec => exact hb.congr hkeys rfl rfl rfl rfl
  | station n v r ha hns hn hr => exact hb.congr hkeys rfl rfl rfl rfl

/-! ## Station receipts -/

omit [FloatModel] in
/-- A comprehension depends on its element expression at the elements only. -/
theorem mapE_congr {α β : Type} {f g : α → Except PyExn β} {l : List α}
    (hfg : ∀ a ∈ l, f a = g a) : mapE f l = mapE g l := by
  induction l with
  | nil => rfl
  | cons a l ih =>
      rw [mapE, mapE, hfg a List.mem_cons_self, ih fun x hx => hfg x (List.mem_cons_of_mem _ hx)]

/-- The parents of a receipt are those of its obligation, sorted. -/
theorem parents_eq_ok {n : Str} {ps : List ReceiptReference} :
    h.parents s n = .ok ps ↔ ∃ o, h.task.byId n = some o ∧
      expectedParents s.stationReceipts o.dependsOn = .ok ps := by
  rw [Setup.parents, Setup.byId]
  cases h.task.byId n with
  | none => exact ⟨nofun, nofun⟩
  | some o => exact ⟨fun hp => ⟨o, rfl, hp⟩, fun ⟨_, rfl, hp⟩ => hp⟩

/-- The obligations that parents are made for have receipts. -/
theorem mem_of_expectedParents {receipts : Dict Str StationReceipt} {deps : List Str}
    {ps : List ReceiptReference} (hp : expectedParents receipts deps = .ok ps) :
    deps ⊆ receipts.keys := by
  intro d hd
  obtain ⟨q, x, hq, -⟩ := reference_of_expectedParents hp hd
  exact Dict.mem_keys_of_get? hq

/-- Parents stay the same when a receipt is added. -/
theorem expectedParents_set {receipts : Dict Str StationReceipt} {deps : List Str}
    {ps : List ReceiptReference} {n : Str} {r : StationReceipt} (hn : n ∉ receipts.keys)
    (hp : expectedParents receipts deps = .ok ps) : expectedParents (receipts.set n r) deps = .ok ps := by
  have hdeps := mem_of_expectedParents hp
  rw [← hp, expectedParents, expectedParents]
  refine congrArg (fun x => x >>= fun refs => pure (sortReferences refs)) (mapE_congr fun d hd => ?_)
  have hne : d ≠ n := fun he => hn (he ▸ hdeps hd)
  simp only [lookupKey, Dict.get?_set, if_neg hne]

variable (h) in
/-- Station receipts name the task, the accepted value and the receipts of the dependencies, which
were all issued earlier. -/
structure Setup.Linked (s : State ω) : Prop where
  nodup : s.stationReceipts.keys.Nodup
  linked : ∀ n r, s.stationReceipts.get? n = some r → r.taskId = n ∧
    ∃ o, h.task.byId n = some o ∧
      expectedParents s.stationReceipts o.dependsOn = .ok r.parentReceipts
  earlier : ∀ (pre : Dict Str StationReceipt) n r post, s.stationReceipts = pre ++ (n, r) :: post →
    ∃ o, h.task.byId n = some o ∧ o.dependsOn ⊆ pre.keys
  certified : ∀ n v, s.accepted.get? n = some v → Certified s n v

/-- A station receipt is what its constructor makes of the key, the hash and the parents. -/
theorem stationReceipt_eq_ok {n : Str} {v : Json} {r : StationReceipt}
    (hr : h.stationReceipt s n v = .ok (some r)) :
    r.taskId = n ∧ digest v = .ok r.valueHash ∧ ∃ o, h.task.byId n = some o ∧
      expectedParents s.stationReceipts o.dependsOn = .ok r.parentReceipts := by
  rw [Setup.stationReceipt] at hr
  obtain ⟨identity, -, hr⟩ := bind_eq_ok.1 hr
  split at hr
  · cases hr
  · obtain ⟨key, -, hr⟩ := bind_eq_ok.1 hr
    obtain ⟨valueHash, hv, hr⟩ := bind_eq_ok.1 hr
    obtain ⟨parents, hp, hr⟩ := bind_eq_ok.1 hr
    obtain ⟨r', hpost, hr⟩ := bind_eq_ok.1 hr
    cases hr
    obtain ⟨o, ho, hparents⟩ := parents_eq_ok.1 hp
    obtain ⟨-, rfl⟩ := postInit_eq_ok hpost
    refine ⟨rfl, hv, o, ho, ?_⟩
    -- the references have been sorted before
    obtain ⟨refs, hrefs, hsort⟩ := bind_eq_ok.1 hparents
    cases hsort
    rw [expectedParents, hrefs]
    exact congrArg Except.ok (sortReferences_idem refs).symm

theorem Setup.Linked.station (hl : h.Linked s) {n : Str} {v : Json} {r : StationReceipt}
    (ha : n ∉ s.accepted.keys) (hs : n ∉ s.stationReceipts.keys)
    (hr : h.stationReceipt s n v = .ok (some r)) :
    h.Linked { s with stationReceipts := s.stationReceipts.set n r } where
  nodup := Dict.nodup_set hl.nodup n r
  linked := by
    obtain ⟨hid, -, o, ho, hp⟩ := stationReceipt_eq_ok hr
    intro m q hq
    refine of_get?_set (P := fun m q => q.taskId = m ∧ ∃ o, h.task.byId m = some o ∧
      expectedParents (s.stationReceipts.set n r) o.dependsOn = .ok q.parentReceipts) ?_ ?_ hq
    · exact ⟨hid, o, ho, expectedParents_set hs hp⟩
    · intro hold
      obtain ⟨hid', o', ho', hp'⟩ := hl.linked m q hold
      exact ⟨hid', o', ho', expectedParents_set hs hp'⟩
  earlier := by
    obtain ⟨-, -, o, ho, hp⟩ := stationReceipt_eq_ok hr
    exact of_split_set (P := fun pre m _ => ∃ o, h.task.byId m = some o ∧ o.dependsOn ⊆ pre.keys) hs
      ⟨o, ho, mem_of_expectedParents hp⟩ hl.earlier
  certified := by
    intro m w hw q hq
    have hne : m ≠ n := fun he => ha (he ▸ Dict.mem_keys_of_get? hw)
    simp only [Dict.get?_set, if_neg hne] at hq
    exact hl.certified m w hw q hq

theorem Setup.Step.linked (hst : h.Step s t) (hl : h.Linked s) : h.Linked t := by
  have ⟨h1, h2, h3, h4⟩ := hl
  cases hst with
  | aside hk hf =>
      refine ⟨by rwa [hk.stationReceipts], by rwa [hk.stationReceipts], by rwa [hk.stationReceipts],
        ?_⟩
      intro n v hv r hr
      rw [hk.accepted] at hv
      rw [hk.stationReceipts] at hr
      exact h4 n v hv r hr
  | accept n v r ha hr hp hc hrec =>
      exact ⟨h1, h2, h3, fun m w => of_get?_set (P := fun m w => Certified s m w) hc (h4 m w)⟩
  | station n v r ha hns hn hr => exact hl.station ha hns hr
  | fail failures hf => exact ⟨h1, h2, h3, h4⟩
  | reserve c p hm => exact ⟨h1, h2, h3, h4⟩
  | hand w rs r hrs hh => exact ⟨h1, h2, h3, h4⟩

omit [FloatModel] in
/-- The first task that has not been resolved is resolved next. -/
theorem resolveAll_ok {dependencies : Dict Str (List Str)} (hnd : dependencies.keys.Nodup)
    (hearlier : ∀ (pre : Dict Str (List Str)) t post, dependencies = pre ++ t :: post → t.2 ⊆ pre.keys) {fuel : Nat}
    {resolved : List Str} (hfuel : dependencies.length ≤ fuel + resolved.length) :
    resolveAll dependencies dependencies.length fuel resolved = .ok () := by
  induction fuel generalizing resolved with
  | zero => rw [resolveAll, if_pos (by omega)]
  | succ fuel ih =>
      rw [resolveAll]
      by_cases hlen : dependencies.length ≤ resolved.length
      · exact if_pos hlen
      -- the first task that is left has its dependencies before it, where all are resolved
      have hne : resolvable dependencies resolved ≠ [] := by
        have hleft : ∃ t ∈ dependencies, t.1 ∉ resolved := by
          by_contra hall
          simp only [not_exists, not_and, not_not] at hall
          have hsub : dependencies.keys ⊆ resolved := by
            intro k hk
            obtain ⟨t, ht, rfl⟩ := List.mem_map.1 hk
            exact hall t ht
          have := (List.subperm_of_subset hnd hsub).length_le
          rw [Dict.keys, List.length_map] at this
          exact hlen this
        obtain ⟨t, ht⟩ := Option.isSome_iff_exists.1 (List.find?_isSome
          (p := fun t : Str × List Str => decide (t.1 ∉ resolved)) |>.2 (by simpa using hleft))
        obtain ⟨hout, pre, post, hsplit, hpre⟩ := List.find?_eq_some_iff_append.1 ht
        refine List.ne_nil_of_mem (a := t.1) (List.mem_map.2 ⟨t, List.mem_filter.2 ⟨?_, ?_⟩, rfl⟩)
        · rw [hsplit]
          exact List.mem_append_right _ List.mem_cons_self
        · refine decide_eq_true ⟨fun d hd => ?_, of_decide_eq_true hout⟩
          obtain ⟨u, hu, rfl⟩ := List.mem_map.1 (hearlier pre t post hsplit hd)
          simpa using hpre u hu
      rw [if_neg hlen, if_neg hne]
      refine ih ?_
      have := List.length_pos_of_ne_nil hne
      rw [List.length_append]
      omega

variable (h) in
/-- The declared dependencies of the tasks that have a station receipt. -/
def Setup.declared (s : State ω) : Dict Str (List Str) :=
  s.stationReceipts.map fun kv => (kv.1, ((h.task.byId kv.1).map Obligation.dependsOn).getD [])

/-- The receipts of a run form a valid graph. -/
theorem Setup.Linked.validates (hl : h.Linked s) :
    validateReceiptGraph s.stationReceipts (h.declared s) = .ok () := by
  have hkeys : (h.declared s).keys = s.stationReceipts.keys := by
    rw [Setup.declared, Dict.keys, List.map_map]
    rfl
  have hitems : ∀ kv ∈ s.stationReceipts,
      validateReceipt s.stationReceipts (h.declared s) kv = .ok () := by
    rintro ⟨n, r⟩ hkv
    obtain ⟨hid, o, ho, hp⟩ := hl.linked n r (Dict.get?_of_mem hl.nodup hkv)
    have hdeps : (h.declared s).get? n = some o.dependsOn := by
      refine Dict.get?_of_mem (by rw [hkeys]; exact hl.nodup) (List.mem_map.2 ⟨_, hkv, ?_⟩)
      rw [ho]
      rfl
    obtain ⟨-, -, -, -, -, hnd⟩ :=
      Obligation.checked (h.task.obligationsValid o (Task.byId_mem ho).1)
    exact bind_eq_ok.2 ⟨_, lookupKey_eq_ok.2 hdeps, bind_eq_ok.2 ⟨(), require_eq_ok.2
      ⟨hid, hnd, mem_of_expectedParents hp⟩, bind_eq_ok.2 ⟨_, hp, require_eq_ok.2 rfl⟩⟩⟩
  obtain ⟨us, hus⟩ := exists_mapE fun kv hkv => ⟨(), hitems kv hkv⟩
  refine bind_eq_ok.2 ⟨(), require_eq_ok.2 (by rw [hkeys]; exact ⟨fun _ => id, fun _ => id⟩),
    bind_eq_ok.2 ⟨us, hus, ?_⟩⟩
  have hlen : s.stationReceipts.length = (h.declared s).length := (List.length_map _).symm
  rw [hlen]
  -- receipts are issued after those of their dependencies, so the rounds reach all of them
  refine resolveAll_ok (by rw [hkeys]; exact hl.nodup) ?_ (Nat.le_add_right _ _)
  intro pre t post hsplit
  obtain ⟨pre', rest, hsplit', rfl, hrest⟩ := List.map_eq_append_iff.1 hsplit
  obtain ⟨kv, post', rfl, rfl, -⟩ := List.map_eq_cons_iff.1 hrest
  obtain ⟨o, ho, hd⟩ := hl.earlier pre' kv.1 kv.2 post' hsplit'
  rw [Dict.keys, List.map_map, ho]
  exact hd

/-! ## All of them -/

variable (h) in
/-- The invariant of a run. -/
structure Setup.Inv (s : State ω) : Prop where
  sound : h.Sound s
  budget : h.Budget s
  linked : h.Linked s

theorem Setup.Step.inv (hst : h.Step s t) (hi : h.Inv s) : h.Inv t :=
  ⟨hst.sound hi.sound, hst.budget hi.budget, hst.linked hi.linked⟩

theorem inv_initial (env : Env ω) (world : ω) (cache : Option CacheRows) :
    h.Inv (State.initial env world cache) where
  sound := ⟨List.nodup_nil, rfl, nofun, nofun, by simp [State.initial], nofun⟩
  budget := ⟨Nat.zero_le _, rfl, Nat.zero_le _, rfl, Int.natCast_nonneg _, nofun, nofun, Or.inl rfl⟩
  linked := ⟨List.nodup_nil, nofun, by simp [State.initial], nofun⟩

end ResidualHarness.Engine
