import ResidualHarness.Core.Digests
import ResidualHarness.Eval.Report

/-!
# The runs behind a report hash

A report that was built from runs names the hash of each of them, and a run is determined by its
dictionary: reports with the same hash are built from the same runs, as long as SHA-256 does not
collide on what was hashed .
-/

set_option autoImplicit false

namespace ResidualHarness.Eval

open Python Core Factory

variable [FloatModel]

/-! ## Dictionaries -/

theorem objWf_iff {d : Fields} :
    (Json.obj d).wf = true ↔ (d.map Prod.fst).Nodup ∧ ∀ kv ∈ d, kv.2.wf = true := by
  rw [Json.wf, Bool.and_eq_true, decide_eq_true_eq, Json.wfFields_iff]

theorem arrWf_iff {xs : List Json} : (Json.arr xs).wf = true ↔ ∀ x ∈ xs, x.wf = true := by
  rw [Json.wf, Json.wfElems_iff]

/-- Neither a list nor a dictionary. -/
def isScalar : Json → Bool
  | .arr _ => false
  | .obj _ => false
  | _ => true

theorem wf_of_isScalar {v : Json} (h : isScalar v = true) : v.wf = true := by
  cases v <;> first | rfl | cases h

theorem norm_of_isScalar {v : Json} (h : isScalar v = true) : v.norm = v := by
  cases v <;> first | rfl | cases h

theorem isScalar_json (n : Num) : isScalar n.json = true := by cases n <;> rfl

theorem isScalar_optionalFloat (f : Option FloatModel.F) : isScalar (optionalFloat f) = true := by
  cases f <;> rfl

theorem Num.json_injective {m n : Num} (h : m.json = n.json) : m = n := by
  cases m <;> cases n <;> cases h <;> rfl

theorem optionalFloat_injective {f g : Option FloatModel.F} (h : optionalFloat f = optionalFloat g) :
    f = g := by
  cases f <;> cases g <;> cases h <;> rfl

variable [FloatOps]

theorem isScalar_of_floatOf {v : Json} {f : FloatModel.F} (h : floatOf v = .ok f) :
    isScalar v = true := by
  cases v <;> first | rfl | cases h

/-! ## A run and its dictionary -/

/-- All values of the metrics are scalars, as `float` requires. -/
def RunEvidence.Measured (r : RunEvidence) : Prop := ∀ kv ∈ r.metrics.toDict, isScalar kv.2 = true

omit [FloatOps] in
theorem controls_eq_of_norm {c d : ControlFields}
    (h : (Json.obj c.toDict).norm = (Json.obj d.toDict).norm) : c = d := by
  rw [Fields.obj_norm, Fields.obj_norm] at h
  have hfields := map_norm_eq_of_norm_eq (d := c.toDict) (e := d.toDict) rfl
    (by simp only [ControlFields.toDict, List.map_cons, List.map_nil]; decide) (Json.obj.inj h)
  simp only [ControlFields.toDict, List.map_cons, List.map_nil, List.cons.injEq, Prod.mk.injEq,
    true_and, and_true, strings_norm] at hfields
  obtain ⟨hengines, hmodels, htemps, hseed⟩ := hfields
  have htemps' : c.temperatures.map Num.json = d.temperatures.map Num.json := by
    have hnorm (ts : List Num) : (ts.map Num.json).map Json.norm = ts.map Num.json := by
      rw [List.map_map]
      exact List.map_congr_left fun t _ => norm_of_isScalar (isScalar_json t)
    rw [Json.norm_arr, Json.norm_arr, hnorm, hnorm] at htemps
    exact Json.arr.inj htemps
  obtain ⟨⟩ := c
  obtain ⟨⟩ := d
  simp only [ControlFields.mk.injEq]
  exact ⟨strings_injective hengines, strings_injective hmodels,
    List.map_injective_iff.2 (fun _ _ => Num.json_injective) htemps', Json.int.inj hseed⟩

omit [FloatOps] in
theorem counters_eq_of_norm {c d : CounterFields}
    (h : (Json.obj c.toDict).norm = (Json.obj d.toDict).norm) : c = d := by
  rw [Fields.obj_norm, Fields.obj_norm] at h
  have hfields := map_norm_eq_of_norm_eq (d := c.toDict) (e := d.toDict) rfl
    (by simp only [CounterFields.toDict, List.map_cons, List.map_nil]; decide) (Json.obj.inj h)
  simp only [CounterFields.toDict, List.map_cons, List.map_nil, List.cons.injEq, Prod.mk.injEq,
    true_and, and_true, norm_of_isScalar (isScalar_json _)] at hfields
  obtain ⟨h1, h2, h3, h4, h5, h6, h7, h8, h9, h10, h11, h12⟩ := hfields
  obtain ⟨⟩ := c
  obtain ⟨⟩ := d
  simp only [CounterFields.mk.injEq]
  exact ⟨Num.json_injective h1, Json.int.inj h2, Json.int.inj h3, Json.int.inj h4,
    Num.json_injective h5, Num.json_injective h6, Json.int.inj h7, Json.int.inj h8, Json.int.inj h9,
    Json.int.inj h10, Json.int.inj h11, Json.int.inj h12⟩

omit [FloatOps] in
theorem metrics_eq_of_norm {m n : SystemMetrics} (hm : ∀ kv ∈ m.toDict, isScalar kv.2 = true)
    (hn : ∀ kv ∈ n.toDict, isScalar kv.2 = true)
    (h : (Json.obj m.toDict).norm = (Json.obj n.toDict).norm) : m = n := by
  rw [Fields.obj_norm, Fields.obj_norm] at h
  have hfields := map_norm_eq_of_norm_eq (d := m.toDict) (e := n.toDict) rfl
    (by simp only [SystemMetrics.toDict, List.map_cons, List.map_nil]; decide) (Json.obj.inj h)
  have hsame (d : Fields) (hd : ∀ kv ∈ d, isScalar kv.2 = true) :
      (d.map fun kv => (kv.1, kv.2.norm)) = d := by
    refine (List.map_congr_left fun kv hkv => ?_).trans (List.map_id d)
    rw [norm_of_isScalar (hd kv hkv)]
    rfl
  rw [hsame _ hm, hsame _ hn] at hfields
  obtain ⟨⟩ := m
  obtain ⟨⟩ := n
  simpa [SystemMetrics.toDict] using hfields

omit [FloatOps] in
theorem costs_eq_of_norm {c d : CostAnalysis}
    (h : (Json.obj c.toDict).norm = (Json.obj d.toDict).norm) : c = d := by
  rw [Fields.obj_norm, Fields.obj_norm] at h
  have hfields := map_norm_eq_of_norm_eq (d := c.toDict) (e := d.toDict) rfl
    (by simp only [CostAnalysis.toDict, List.map_cons, List.map_nil]; decide) (Json.obj.inj h)
  simp only [CostAnalysis.toDict, List.map_cons, List.map_nil, List.cons.injEq, Prod.mk.injEq,
    true_and, and_true, norm_of_isScalar (isScalar_json _),
    norm_of_isScalar (isScalar_optionalFloat _)] at hfields
  obtain ⟨h1, h2, h3, h4, h5⟩ := hfields
  obtain ⟨⟩ := c
  obtain ⟨⟩ := d
  simp only [CostAnalysis.mk.injEq]
  exact ⟨Json.float.inj h1, Json.float.inj h2, Num.json_injective h3, Json.float.inj h4,
    optionalFloat_injective h5⟩

omit [FloatOps] in
theorem run_eq_of_norm {r s : RunEvidence} (hr : r.Measured) (hs : s.Measured)
    (h : (Json.obj r.toDict).norm = (Json.obj s.toDict).norm) : r = s := by
  rw [Fields.obj_norm, Fields.obj_norm] at h
  have hfields := map_norm_eq_of_norm_eq (d := r.toDict) (e := s.toDict) rfl
    (by simp only [RunEvidence.toDict, List.map_cons, List.map_nil]; decide) (Json.obj.inj h)
  simp only [RunEvidence.toDict, List.map_cons, List.map_nil, List.cons.injEq, Prod.mk.injEq,
    true_and, and_true] at hfields
  obtain ⟨h1, h2, h3, h4, hcontrols, hcounters, hmetrics, hcosts⟩ := hfields
  have hm := metrics_eq_of_norm hr hs hmetrics
  obtain ⟨⟩ := r
  obtain ⟨⟩ := s
  simp only [RunEvidence.mk.injEq]
  exact ⟨Json.str.inj h1, Json.int.inj h2, Json.str.inj h3, Json.str.inj h4,
    controls_eq_of_norm hcontrols, counters_eq_of_norm hcounters, hm, costs_eq_of_norm hcosts⟩

/-! ## The payload of a report -/

section Payload

variable {stats : Statistics} {workload : FrozenWorkload} {params : ReportParams}
  {records : List RunEvidence}

omit [FloatOps] in
theorem costs_wf (c : CostAnalysis) : (Json.obj c.toDict).wf = true := by
  refine objWf_iff.2 ⟨by simp only [CostAnalysis.toDict, List.map_cons, List.map_nil]; decide, ?_⟩
  intro kv hkv
  refine wf_of_isScalar ?_
  simp only [CostAnalysis.toDict, List.mem_cons, List.not_mem_nil, or_false] at hkv
  rcases hkv with rfl | rfl | rfl | rfl | rfl
  · rfl
  · rfl
  · exact isScalar_json _
  · rfl
  · exact isScalar_optionalFloat _

omit [FloatOps] in
theorem costRow_wf (r : RunEvidence) : (costRow r).wf = true := by
  refine objWf_iff.2 ⟨by simp only [CostAnalysis.toDict, List.map_cons, List.map_nil,
    List.cons_append, List.nil_append]; decide, fun kv hkv => ?_⟩
  rcases List.mem_append.1 hkv with hkv | hkv
  · simp only [List.mem_cons, List.not_mem_nil, or_false] at hkv
    rcases hkv with rfl | rfl <;> rfl
  · exact (objWf_iff.1 (costs_wf r.costs)).2 kv hkv

omit [FloatOps] in
theorem manifest_wf (w : FrozenWorkload) : (Json.obj w.manifest).wf = true := by
  refine objWf_iff.2 ⟨by simp only [FrozenWorkload.manifest, FrozenWorkload.body, List.map_cons,
    List.map_nil, List.cons_append, List.nil_append]; decide, fun kv hkv => ?_⟩
  simp only [FrozenWorkload.manifest, FrozenWorkload.body, List.cons_append, List.nil_append,
    List.mem_cons, List.not_mem_nil, or_false] at hkv
  rcases hkv with rfl | rfl | rfl | rfl | rfl | rfl <;> first | rfl | exact strings_wf _

omit [FloatOps] in
theorem checkRecords_ok {first : RunEvidence} (h : checkRecords workload params records = .ok first) :
    first ∈ records ∧ ∀ r ∈ records, r.configuration ∈ configurations := by
  cases records with
  | nil => cases h
  | cons r rest =>
      obtain ⟨-, -, h⟩ := bind_eq_ok.1 h
      obtain ⟨u, hconfigs, h⟩ := bind_eq_ok.1 h
      obtain ⟨-, -, h⟩ := bind_eq_ok.1 h
      obtain ⟨-, -, h⟩ := bind_eq_ok.1 h
      obtain ⟨-, -, h⟩ := bind_eq_ok.1 h
      cases h
      exact ⟨List.mem_cons_self, (require_eq_ok.1 hconfigs).1⟩

omit [FloatModel] [FloatOps] in
/-- A comprehension over names gives a dictionary with these keys. -/
theorem mapE_named {β : Type} {f : Str → Except PyExn β} {names : List Str} {kvs : List (Str × β)}
    (h : mapE (fun n => do return (n, ← f n)) names = .ok kvs) :
    kvs.map Prod.fst = names ∧ ∀ kv ∈ kvs, f kv.1 = .ok kv.2 := by
  have hfst : ∀ n ∈ names, ∀ kv, (do return (n, ← f n)) = .ok kv → kv.1 = n ∧ f n = .ok kv.2 := by
    intro n _ kv hkv
    obtain ⟨v, hv, hkv⟩ := bind_eq_ok.1 hkv
    cases hkv
    exact ⟨rfl, hv⟩
  constructor
  · exact (map_of_mapE (k := id) h fun n hn kv hkv => (hfst n hn kv hkv).1).trans (List.map_id names)
  · intro kv hkv
    obtain ⟨n, hn, hf⟩ := of_mem_mapE h hkv
    obtain ⟨hkey, hval⟩ := hfst n hn kv hf
    rwa [hkey]

theorem column_scalar {group : List RunEvidence} {dict : RunEvidence → Fields} {name : Str}
    {fs : List FloatModel.F} (h : column group dict name = .ok fs) {r : RunEvidence} (hr : r ∈ group) :
    ∃ v, (dict r).get name = .ok v ∧ isScalar v = true := by
  obtain ⟨f, -, hf⟩ := mem_zip_of_mapE h hr
  obtain ⟨v, hv, hfloat⟩ := bind_eq_ok.1 hf
  exact ⟨v, hv, isScalar_of_floatOf hfloat⟩

/-- A summary has been computed from scalars and is a dictionary. -/
theorem summaryOf_ok {config : Str} {v : Json} (h : summaryOf stats config records = .ok v) :
    v.wf = true ∧ ∀ r ∈ byConfig records config, r.Measured := by
  obtain ⟨metrics, hmetrics, h⟩ := bind_eq_ok.1 h
  obtain ⟨costs, hcosts, h⟩ := bind_eq_ok.1 h
  obtain ⟨perTask, -, h⟩ := bind_eq_ok.1 h
  cases h
  obtain ⟨hmkeys, hmvals⟩ := mapE_named hmetrics
  obtain ⟨hckeys, hcvals⟩ := mapE_named hcosts
  have hsummary {group : List RunEvidence} {name : Str} {dict : RunEvidence → Fields} {v : Json}
      (hv : columnSummary stats group dict name = .ok v) : v.wf = true := by
    obtain ⟨fs, -, hv⟩ := bind_eq_ok.1 hv
    exact stats.summary_wf _ _ hv
  have hmwf : (Json.obj metrics).wf = true :=
    objWf_iff.2 ⟨by rw [hmkeys]; decide, fun kv hkv => hsummary (hmvals kv hkv)⟩
  have hcwf : (Json.obj costs).wf = true :=
    objWf_iff.2 ⟨by rw [hckeys]; decide, fun kv hkv => hsummary (hcvals kv hkv)⟩
  refine ⟨objWf_iff.2 ⟨by simp only [List.map_cons, List.map_nil]; decide, ?_⟩, ?_⟩
  · intro kv hkv
    simp only [List.mem_cons, List.not_mem_nil, or_false] at hkv
    rcases hkv with rfl | rfl | rfl | rfl | rfl
    · rfl
    · exact strings_wf _
    · exact hmwf
    · exact hcwf
    · exact wf_of_isScalar (isScalar_optionalFloat perTask)
  · -- each metric of a run of the group has gone through `float`
    intro r hr kv hkv
    have hmem : r ∈ (byConfig records config).insertionSort fun r s => r.runIndex ≤ s.runIndex :=
      (List.mem_insertionSort _).2 hr
    have hname : kv.1 ∈ metrics.map Prod.fst := by
      rw [hmkeys]
      exact List.mem_map_of_mem (f := Prod.fst) hkv
    obtain ⟨kv', hkv', hkey⟩ := List.mem_map.1 hname
    obtain ⟨fs, hfs, -⟩ := bind_eq_ok.1 (hmvals kv' hkv')
    obtain ⟨v, hv, hscalar⟩ := column_scalar hfs hmem
    have hget : r.metrics.toDict.get kv.1 = .ok kv.2 :=
      Fields.get_of_get? (Fields.get?_of_mem
        (by simp only [SystemMetrics.toDict, List.map_cons, List.map_nil]; decide) hkv)
    rw [hkey, hget] at hv
    cases hv
    exact hscalar

omit [FloatOps] in
theorem toDict_wf {r : RunEvidence} (h : r.Measured) : (Json.obj r.toDict).wf = true := by
  have hcontrols : (Json.obj r.controls.toDict).wf = true := by
    refine objWf_iff.2 ⟨by simp only [ControlFields.toDict, List.map_cons, List.map_nil]; decide, ?_⟩
    intro kv hkv
    simp only [ControlFields.toDict, List.mem_cons, List.not_mem_nil, or_false] at hkv
    rcases hkv with rfl | rfl | rfl | rfl
    · exact strings_wf _
    · exact strings_wf _
    · refine arrWf_iff.2 fun x hx => ?_
      obtain ⟨t, -, rfl⟩ := List.mem_map.1 hx
      exact wf_of_isScalar (isScalar_json t)
    · rfl
  have hcounters : (Json.obj r.counters.toDict).wf = true := by
    refine objWf_iff.2 ⟨by simp only [CounterFields.toDict, List.map_cons, List.map_nil]; decide, ?_⟩
    intro kv hkv
    refine wf_of_isScalar ?_
    simp only [CounterFields.toDict, List.mem_cons, List.not_mem_nil, or_false] at hkv
    rcases hkv with rfl | rfl | rfl | rfl | rfl | rfl | rfl | rfl | rfl | rfl | rfl | rfl <;>
      first | rfl | exact isScalar_json _
  have hmetrics : (Json.obj r.metrics.toDict).wf = true :=
    objWf_iff.2 ⟨by simp only [SystemMetrics.toDict, List.map_cons, List.map_nil]; decide,
      fun kv hkv => wf_of_isScalar (h kv hkv)⟩
  refine objWf_iff.2 ⟨by simp only [RunEvidence.toDict, List.map_cons, List.map_nil]; decide, ?_⟩
  intro kv hkv
  simp only [RunEvidence.toDict, List.mem_cons, List.not_mem_nil, or_false] at hkv
  rcases hkv with rfl | rfl | rfl | rfl | rfl | rfl | rfl | rfl | rfl
  · rfl
  · rfl
  · rfl
  · rfl
  · rfl
  · exact hcontrols
  · exact hcounters
  · exact hmetrics
  · exact costs_wf r.costs

theorem reportPayload_ok {payload : Fields} {hashes : List Str}
    (h : reportPayload stats workload params records = .ok (payload, hashes)) :
    (Json.obj payload).wf = true ∧ payload.get? (lit "run_hashes") = some (strings hashes) ∧
      mapE RunEvidence.runHash (sortRuns records) = .ok hashes ∧ ∀ r ∈ records, r.Measured := by
  obtain ⟨first, hchecks, h⟩ := bind_eq_ok.1 h
  obtain ⟨summaries, hsummaries, h⟩ := bind_eq_ok.1 h
  obtain ⟨comparisons, hcomparisons, h⟩ := bind_eq_ok.1 h
  obtain ⟨hashes', hhashes, h⟩ := bind_eq_ok.1 h
  cases h
  obtain ⟨hskeys, hsvals⟩ := mapE_named hsummaries
  obtain ⟨hfirst, hconfigs⟩ := checkRecords_ok hchecks
  have hmeasured : ∀ r ∈ records, r.Measured := by
    intro r hr
    have hmem : r.configuration ∈ summaries.map Prod.fst := by
      rw [hskeys]
      exact hconfigs r hr
    obtain ⟨kv, hkv, hkey⟩ := List.mem_map.1 hmem
    exact (summaryOf_ok (hsvals kv hkv)).2 r
      (List.mem_filter.2 ⟨hr, decide_eq_true hkey.symm⟩)
  have hcompared : ∀ v ∈ comparisons.flatten, v.wf = true := by
    intro v hv
    obtain ⟨row, hrow, hv⟩ := List.mem_flatten.1 hv
    obtain ⟨pair, -, hpair⟩ := of_mem_mapE hcomparisons hrow
    obtain ⟨name, -, hname⟩ := of_mem_mapE hpair hv
    obtain ⟨left, -, hname⟩ := bind_eq_ok.1 hname
    obtain ⟨right, -, hname⟩ := bind_eq_ok.1 hname
    exact stats.compare_wf _ _ _ _ _ _ _ _ hname
  refine ⟨objWf_iff.2 ⟨by simp only [List.map_cons, List.map_nil]; decide, ?_⟩, rfl, hhashes,
    hmeasured⟩
  intro kv hkv
  simp only [List.mem_cons, List.not_mem_nil, or_false] at hkv
  rcases hkv with rfl | rfl | rfl | rfl | rfl | rfl | rfl | rfl | rfl | rfl
  · rfl
  · exact manifest_wf workload
  · rfl
  · rfl
  · have hwf := (objWf_iff.1 (toDict_wf (hmeasured first hfirst))).2
    exact hwf (lit "controls", .obj first.controls.toDict) (by simp [RunEvidence.toDict])
  · exact objWf_iff.2 ⟨by rw [hskeys]; decide, fun kv hkv => (summaryOf_ok (hsvals kv hkv)).1⟩
  · exact arrWf_iff.2 hcompared
  · refine objWf_iff.2 ⟨by simp only [List.map_cons, List.map_nil]; decide, ?_⟩
    intro kv hkv
    simp only [List.mem_cons, List.not_mem_nil, or_false] at hkv
    rcases hkv with rfl | rfl
    · rfl
    · refine arrWf_iff.2 fun x hx => ?_
      obtain ⟨r, -, rfl⟩ := List.mem_map.1 hx
      exact costRow_wf r
  · exact strings_wf _
  · rfl

/-- The bytes that are hashed for a report: its payload and its runs. -/
def hashedBytes (payload : Fields) (records : List RunEvidence) : Set (List Nat) :=
  {b | b = digestBytes (.obj payload) ∨ ∃ r ∈ records, b = digestBytes (.obj r.toDict)}

omit [FloatOps] in
/-- Runs with the same hashes, place by place, are the same. -/
theorem runs_eq_of_hashes {S : Set (List Nat)} (hS : Set.InjOn sha256 S) {runs runs' : List RunEvidence}
    {hashes : List Str} (h : mapE RunEvidence.runHash runs = .ok hashes)
    (h' : mapE RunEvidence.runHash runs' = .ok hashes)
    (hruns : ∀ r ∈ runs, r.Measured ∧ digestBytes (.obj r.toDict) ∈ S)
    (hruns' : ∀ r ∈ runs', r.Measured ∧ digestBytes (.obj r.toDict) ∈ S) : runs = runs' := by
  induction runs generalizing runs' hashes with
  | nil =>
      cases h
      cases runs' with
      | nil => rfl
      | cons s runs' =>
          obtain ⟨_, -, h'⟩ := bind_eq_ok.1 h'
          obtain ⟨_, -, h'⟩ := bind_eq_ok.1 h'
          cases h'
  | cons r runs ih =>
      obtain ⟨hash, hr, h⟩ := bind_eq_ok.1 h
      obtain ⟨rest, hrest, h⟩ := bind_eq_ok.1 h
      cases h
      cases runs' with
      | nil => cases h'
      | cons s runs' =>
          obtain ⟨hash', hs, h'⟩ := bind_eq_ok.1 h'
          obtain ⟨rest', hrest', h'⟩ := bind_eq_ok.1 h'
          cases h'
          obtain ⟨hrm, hrS⟩ := hruns r List.mem_cons_self
          obtain ⟨hsm, hsS⟩ := hruns' s List.mem_cons_self
          rw [run_eq_of_norm hrm hsm
              (norm_eq_of_digest hS (toDict_wf hrm) (toDict_wf hsm) hrS hsS hr hs),
            ih hrest hrest' (fun r hr => hruns r (List.mem_cons_of_mem _ hr))
              fun r hr => hruns' r (List.mem_cons_of_mem _ hr)]

/-- Payloads with one digest have been built from the same runs. -/
theorem runs_of_digest {stats' : Statistics} {workload' : FrozenWorkload} {params' : ReportParams}
    {records' : List RunEvidence} {payload payload' : Fields} {hashes hashes' : List Str}
    (h : reportPayload stats workload params records = .ok (payload, hashes))
    (h' : reportPayload stats' workload' params' records' = .ok (payload', hashes')) {reportHash : Str}
    (hd : digest (.obj payload) = .ok reportHash) (hd' : digest (.obj payload') = .ok reportHash)
    (hS : Set.InjOn sha256 (hashedBytes payload records ∪ hashedBytes payload' records')) :
    sortRuns records = sortRuns records' := by
  obtain ⟨hwf, hget, hhashes, hmeasured⟩ := reportPayload_ok h
  obtain ⟨hwf', hget', hhashes', hmeasured'⟩ := reportPayload_ok h'
  have hnorm := norm_eq_of_digest hS hwf hwf' (.inl (.inl rfl)) (.inr (.inl rfl)) hd hd'
  rw [Fields.obj_norm, Fields.obj_norm] at hnorm
  have halike := Fields.get?_alike (Json.obj.inj hnorm) (objWf_iff.1 hwf').1 (lit "run_hashes")
  rw [hget, hget', Option.map_some, Option.map_some, Option.some.injEq, strings_norm,
    strings_norm] at halike
  rw [← strings_injective halike] at hhashes'
  have hmem {runs : List RunEvidence} {r : RunEvidence} (hr : r ∈ sortRuns runs) : r ∈ runs :=
    (List.mem_insertionSort _).1 hr
  exact runs_eq_of_hashes hS hhashes hhashes'
    (fun r hr => ⟨hmeasured r (hmem hr), .inl (.inr ⟨r, hmem hr, rfl⟩)⟩)
    fun r hr => ⟨hmeasured' r (hmem hr), .inr (.inr ⟨r, hmem hr, rfl⟩)⟩

end Payload

end ResidualHarness.Eval
