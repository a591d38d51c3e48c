import ResidualHarness.Eval.Binding
import ResidualHarness.Factory.StationIssuer

/-!
# Reports from observations
-/

set_option autoImplicit false

namespace ResidualHarness.Eval

open Python Core Factory ObservationLayer

section

variable [FloatModel] [FloatOps]

/-! ## What is written is read back -/

theorem CounterFields.fromDict_toDict (c : CounterFields) :
    CounterFields.fromDict c.toDict = CounterFields.make (argsOf c.toDict) := rfl

omit [FloatOps] in
theorem SystemMetrics.fromDict_toDict (m : SystemMetrics) :
    SystemMetrics.fromDict m.toDict = .ok m := rfl

theorem CostAnalysis.fromDict_toDict {c : CostAnalysis}
    (h : ∃ f, c.infrastructureCost = .float f) : CostAnalysis.fromDict c.toDict = .ok c := by
  obtain ⟨api, gpu, infra, total, perTask⟩ := c
  obtain ⟨f, rfl⟩ := h
  cases perTask <;> rfl

theorem mapE_floatOf {ts : List Num} (h : ∀ t ∈ ts, ∃ f, t = .float f) :
    ∃ fs, mapE floatOf (ts.map Num.json) = .ok fs ∧ fs.map Num.float = ts := by
  induction ts with
  | nil => exact ⟨[], rfl, rfl⟩
  | cons t ts ih =>
      obtain ⟨f, rfl⟩ := h t List.mem_cons_self
      obtain ⟨fs, hfs, hmap⟩ := ih fun t ht => h t (List.mem_cons_of_mem _ ht)
      refine ⟨f :: fs, ?_, by rw [List.map_cons, hmap]⟩
      rw [List.map_cons, mapE, hfs]
      rfl

theorem ControlFields.fromDict_toDict {c : ControlFields} (hok : c.postInit = .ok ())
    (h : ∀ t ∈ c.temperatures, ∃ f, t = .float f) : ControlFields.fromDict c.toDict = .ok c := by
  obtain ⟨fs, hfs, hmap⟩ := mapE_floatOf h
  refine bind_eq_ok.2 ⟨_, rfl, bind_eq_ok.2 ⟨c.engineIds.map Json.str, rfl, bind_eq_ok.2 ⟨_, rfl,
    bind_eq_ok.2 ⟨c.modelVersions.map Json.str, rfl, bind_eq_ok.2 ⟨_, rfl,
    bind_eq_ok.2 ⟨c.temperatures.map Num.json, rfl, bind_eq_ok.2 ⟨fs, hfs,
    bind_eq_ok.2 ⟨_, rfl, bind_eq_ok.2 ⟨c.seed, rfl, ?_⟩⟩⟩⟩⟩⟩⟩⟩⟩
  have hstr (xs : List Str) : (xs.map Json.str).map strOf = xs := by
    rw [List.map_map]
    exact List.map_id' xs
  rw [hmap, hstr, hstr]
  exact bind_eq_ok.2 ⟨(), hok, rfl⟩

/-- The run reads back as it is: what its constructors accepted, with float temperatures and a float
infrastructure cost. -/
structure RunEvidence.Stable (r : RunEvidence) : Prop where
  valid : r.postInit = .ok ()
  controls : r.controls.postInit = .ok ()
  counters : CounterFields.make (argsOf r.counters.toDict) = .ok r.counters
  temperatures : ∀ t ∈ r.controls.temperatures, ∃ f, t = .float f
  infrastructure : ∃ f, r.costs.infrastructureCost = .float f

theorem RunEvidence.fromDict_toDict {r : RunEvidence} (h : r.Stable) :
    RunEvidence.fromDict (.obj r.toDict) = .ok r := by
  refine bind_eq_ok.2 ⟨r.toDict, rfl, bind_eq_ok.2 ⟨(), require_of rfl, bind_eq_ok.2 ⟨_, rfl,
    bind_eq_ok.2 ⟨_, rfl, bind_eq_ok.2 ⟨r.runIndex, rfl, bind_eq_ok.2 ⟨_, rfl,
    bind_eq_ok.2 ⟨_, rfl, bind_eq_ok.2 ⟨_, rfl, bind_eq_ok.2 ⟨r.controls.toDict, rfl,
    bind_eq_ok.2 ⟨r.controls, ControlFields.fromDict_toDict h.controls h.temperatures,
    bind_eq_ok.2 ⟨_, rfl, bind_eq_ok.2 ⟨r.counters.toDict, rfl,
    bind_eq_ok.2 ⟨r.counters, r.counters.fromDict_toDict.trans h.counters,
    bind_eq_ok.2 ⟨_, rfl, bind_eq_ok.2 ⟨r.metrics.toDict, rfl,
    bind_eq_ok.2 ⟨r.metrics, r.metrics.fromDict_toDict, bind_eq_ok.2 ⟨_, rfl,
    bind_eq_ok.2 ⟨r.costs.toDict, rfl,
    bind_eq_ok.2 ⟨r.costs, CostAnalysis.fromDict_toDict h.infrastructure,
    bind_eq_ok.2 ⟨(), h.valid, rfl⟩⟩⟩⟩⟩⟩⟩⟩⟩⟩⟩⟩⟩⟩⟩⟩⟩⟩⟩⟩

theorem runOf_runPayload {r : RunEvidence} (h : r.Stable) {runHash : Str}
    (hhash : r.runHash = .ok runHash) : runOf (runPayload r runHash) = .ok r :=
  bind_eq_ok.2 ⟨_, rfl, bind_eq_ok.2 ⟨r, RunEvidence.fromDict_toDict h,
    bind_eq_ok.2 ⟨runHash, hhash, bind_eq_ok.2 ⟨(), require_of rfl, rfl⟩⟩⟩⟩

/-! ## What is delivered -/

omit [FloatOps] in
theorem dictOf_ok {v : {v : Json // v.wf = true}} {d : {d : Fields // (Json.obj d).wf = true}}
    (h : dictOf (some v) = .ok d) : v.1 = .obj d.1 := by
  obtain ⟨v, hv⟩ := v
  cases v with
  | obj kvs =>
      rw [dictOf] at h
      split at h
      · cases h
        rfl
      · cases h
  | _ => cases h

omit [FloatOps] in
theorem dictOf_dictArg {payload : Fields} {d : {d : Fields // (Json.obj d).wf = true}}
    (h : dictOf (dictArg payload) = .ok d) : d.1 = payload := by
  rw [dictArg] at h
  split at h
  · injection dictOf_ok h with h
    exact h.symm
  · cases h

omit [FloatOps] in
/-- A delivered observation has the payload that was emitted, and is stored last. -/
theorem emit_delivered {b b' : ObservationBus} {payload : Fields} {m : Emission} {o : Observation}
    (h : b.emit (emitCall payload m) = (.ok (some o), b')) :
    o.payload = payload ∧ b'.stored = b.stored ++ [o] := by
  rw [ObservationBus.emit] at h
  split at h
  · rename_i r b₁ hdeliver
    cases h
    rw [ObservationBus.deliver] at hdeliver
    split at hdeliver
    · cases hdeliver
    · rename_i draft hdraft
      have hpayload : draft.payload = payload := dictOf_dictArg (made_of_make hdraft).payload
      split at hdeliver
      · cases hdeliver
      · cases hdeliver
      · cases hdeliver
      · rename_i obs hfilter
        have hobs : obs = draft := by
          simp only [emitCall] at hfilter
          split at hfilter
          · cases hfilter
          · injection hfilter with hfilter
            exact hfilter.symm
        split at hdeliver
        · cases hdeliver
        · rename_i sealedObs sequencer hcommit
          obtain ⟨s, hmake, hs⟩ := bind_eq_ok.1 hcommit
          cases hs
          split at hdeliver
          · cases hdeliver
          · cases hdeliver
            refine ⟨?_, rfl⟩
            injection dictOf_ok (made_of_make hmake).payload with hsame
            exact hsame.symm.trans (by rw [hobs, hpayload])
  · cases h

/-- If the call records a run, its temperatures and its infrastructure rate are floats, and the
observation of the run is delivered. -/
structure Delivered (e : SpecEvaluationEvidence) (c : RecordCall) (run : RunEvidence) : Prop where
  temperatures : ∀ t ∈ c.controls.temperatures, ∃ f, t = .float f
  infrastructure : ∃ f, c.rates.infrastructureCostPerRun = .float f
  observed : ∃ runHash b o b', run.runHash = .ok runHash ∧ e.bus = some b ∧
    b.emit (emitCall (runPayload run runHash) c.emission) = (.ok (some o), b')

/-- The call is refused, or what it records can be derived from its observation. -/
def Sound (workload : FrozenWorkload) (e : SpecEvaluationEvidence) (c : RecordCall) : Prop :=
  ¬e.Recorded c → ∀ run, c.evidence workload = .ok run → Delivered e c run

/-- All calls are sound, each in the state in which it is made. -/
def SoundRun (workload : FrozenWorkload) : SpecEvaluationEvidence → List RecordCall → Prop
  | _, [] => True
  | e, c :: cs => Sound workload e c ∧ SoundRun workload (e.recordRun workload c).2 cs

/-- The payload of the observation of a run. -/
def RunEvidence.Observed (r : RunEvidence) (payload : Fields) : Prop :=
  ∃ runHash, r.runHash = .ok runHash ∧ payload = runPayload r runHash

/-- The observations are those of the recorded runs, in order, and each run reads back. -/
structure Derived (e : SpecEvaluationEvidence) : Prop where
  bus : ∃ b, e.bus = some b
  observed : List.Forall₂ RunEvidence.Observed e.runs (e.observations.map Observation.payload)
  stable : ∀ r ∈ e.runs, r.Stable

variable {workload : FrozenWorkload}

theorem evidence_stable {c : RecordCall} {run : RunEvidence} (h : c.evidence workload = .ok run)
    (htemp : ∀ t ∈ c.controls.temperatures, ∃ f, t = .float f)
    (hinfra : ∃ f, c.rates.infrastructureCostPerRun = .float f) : run.Stable := by
  obtain ⟨metrics, -, h⟩ := bind_eq_ok.1 h
  obtain ⟨costs, hcosts, h⟩ := bind_eq_ok.1 h
  obtain ⟨u, hvalid, h⟩ := bind_eq_ok.1 h
  cases h
  refine ⟨hvalid, c.controls.accepted, c.counters.accepted, htemp, ?_⟩
  simp only [CostAnalysis.calculate, bind_eq_ok] at hcosts
  obtain ⟨_, -, _, -, _, -, _, -, _, -, _, -, _, -, _, -, hcosts⟩ := hcosts
  cases hcosts
  exact hinfra

/-- One sound call: it raises and records nothing, or it records a run and its observation. -/
theorem derived_recordRun {e : SpecEvaluationEvidence} {c : RecordCall} (hd : Derived e)
    (hs : Sound workload e c) :
    Derived (e.recordRun workload c).2 ∧
      ∀ err, (e.recordRun workload c).1 = .error err → (e.recordRun workload c).2.runs = e.runs := by
  rw [SpecEvaluationEvidence.recordRun]
  split
  · exact ⟨hd, fun _ _ => rfl⟩
  · rename_i hnew
    split
    · exact ⟨hd, fun _ _ => rfl⟩
    · rename_i run hrun
      have hrecorded := hs hnew run hrun
      obtain ⟨runHash, b, o, b', hhash, hbus, hemit⟩ := hrecorded.observed
      obtain ⟨hpayload, hstored⟩ := emit_delivered hemit
      simp only [hhash, SpecEvaluationEvidence.emit, hbus, hemit]
      refine ⟨⟨⟨b', rfl⟩, ?_, ?_⟩, nofun⟩
      · have hobserved := hd.observed
        simp only [SpecEvaluationEvidence.observations, hbus, Option.map_some,
          Option.getD_some] at hobserved ⊢
        rw [hstored, List.map_append, List.map_singleton, hpayload]
        exact List.rel_append hobserved (.cons ⟨runHash, hhash, rfl⟩ .nil)
      · intro r hr
        rcases List.mem_append.1 hr with hr | hr
        · exact hd.stable r hr
        · rw [List.mem_singleton.1 hr]
          exact evidence_stable hrun hrecorded.temperatures hrecorded.infrastructure

theorem derived_run {e : SpecEvaluationEvidence} {calls : List RecordCall} (hd : Derived e)
    (hs : SoundRun workload e calls) : Derived (e.run workload calls) := by
  induction calls generalizing e with
  | nil => exact hd
  | cons c calls ih => exact ih (derived_recordRun hd hs.1).1 hs.2

theorem SoundRun.at {e : SpecEvaluationEvidence} {pre post : List RecordCall} {c : RecordCall}
    (h : SoundRun workload e (pre ++ c :: post)) :
    SoundRun workload e pre ∧ Sound workload (e.run workload pre) c := by
  induction pre generalizing e with
  | nil => exact ⟨trivial, h.1⟩
  | cons d pre ih => exact ⟨⟨h.1, (ih h.2).1⟩, (ih h.2).2⟩

/-! ## Replay of what was delivered -/

omit [FloatOps] in
theorem isEvent_runPayload (r : RunEvidence) (runHash : Str) :
    isEvent runEvent (runPayload r runHash) = true := decide_eq_true rfl

omit [FloatOps] in
theorem isEvent_reportEventPayload (params : ReportParams) (report : SignedComparisonReport)
    (reportHash : Str) (hashes : List Str) :
    isEvent runEvent (reportEventPayload params report reportHash hashes) = false ∧
      isEvent reportEvent (reportEventPayload params report reportHash hashes) = true := by
  refine ⟨decide_eq_false fun h => ?_, decide_eq_true rfl⟩
  injection Json.same_str h with h
  revert h
  decide

theorem replayLoop_observed {unique : Bool} {runs : List RunEvidence} {payloads : List Fields}
    (ho : List.Forall₂ RunEvidence.Observed runs payloads) (hs : ∀ r ∈ runs, r.Stable)
    (before : List RunEvidence) (terminal : Option Fields) (rest : List Fields) :
    replayLoop unique before terminal (payloads ++ rest) =
      replayLoop unique (before ++ runs) terminal rest := by
  induction ho generalizing before with
  | nil => rw [List.nil_append, List.append_nil]
  | @cons r payload runs payloads hr ho ih =>
      obtain ⟨runHash, hhash, rfl⟩ := hr
      rw [List.cons_append, replayLoop, if_pos (isEvent_runPayload r runHash),
        runOf_runPayload (hs r List.mem_cons_self) hhash]
      refine (ih (fun s hmem => hs s (List.mem_cons_of_mem _ hmem)) _).trans ?_
      rw [List.append_assoc]
      rfl

/-- The loop over the delivered observations with the report at the end. -/
theorem replayLoop_report {unique : Bool} {runs : List RunEvidence} {payloads : List Fields}
    (ho : List.Forall₂ RunEvidence.Observed runs payloads) (hs : ∀ r ∈ runs, r.Stable)
    (params : ReportParams) (report : SignedComparisonReport) (reportHash : Str)
    (hashes : List Str) :
    replayLoop unique [] none (payloads ++ [reportEventPayload params report reportHash hashes]) =
      .ok (runs, some (reportEventPayload params report reportHash hashes)) := by
  obtain ⟨hrun, hreport⟩ := isEvent_reportEventPayload params report reportHash hashes
  rw [replayLoop_observed ho hs, List.nil_append, replayLoop, if_neg (by rw [hrun]; nofun),
    if_pos hreport, if_neg (by simp)]
  rfl

/-! ## Signatures -/

variable {stats : Statistics} {params : ReportParams} {ed : Ed25519}

theorem signReport_ok {key : ed.PrivateKey} {runs : List RunEvidence}
    {report : SignedComparisonReport} {reportHash : Str} {hashes : List Str}
    (h : signReport stats workload params ed key runs = .ok (report, reportHash, hashes)) :
    reportPayload stats workload params runs = .ok (report.payload, hashes) ∧
      report.reportHash = .ok reportHash ∧ report.stationKeyId = StationIdentity.keyId ed key ∧
      report.stationSignature = toHex (ed.sign key (signedMessage reportHash)) := by
  obtain ⟨⟨payload, hashes'⟩, hpayload, h⟩ := bind_eq_ok.1 h
  obtain ⟨hash, hdigest, h⟩ := bind_eq_ok.1 h
  obtain ⟨signature, hsign, h⟩ := bind_eq_ok.1 h
  obtain ⟨-, -, hsignature⟩ := bind_eq_ok.1 hsign
  cases h
  cases hsignature
  exact ⟨hpayload, hdigest, rfl, rfl⟩

theorem signReport_key {key : ed.PrivateKey} {runs : List RunEvidence}
    {report : SignedComparisonReport} {reportHash : Str} {hashes : List Str}
    (h : signReport stats workload params ed key runs = .ok (report, reportHash, hashes))
    (key' : ed.PrivateKey) : ∃ report', report'.payload = report.payload ∧
      signReport stats workload params ed key' runs = .ok (report', reportHash, hashes) := by
  obtain ⟨hpayload, hhash, -, -⟩ := signReport_ok h
  refine ⟨⟨report.payload, StationIdentity.keyId ed key', _⟩, rfl,
    bind_eq_ok.2 ⟨_, hpayload, bind_eq_ok.2 ⟨reportHash, hhash, bind_eq_ok.2 ⟨_,
      bind_eq_ok.2 ⟨(), require_of (digest_isHash hhash), rfl⟩, rfl⟩⟩⟩⟩

theorem signReport_verifies (hed : ed.Correct) {key : ed.PrivateKey} {runs : List RunEvidence}
    {report : SignedComparisonReport} {reportHash : Str} {hashes : List Str}
    (h : signReport stats workload params ed key runs = .ok (report, reportHash, hashes)) :
    report.verifySignature ed (ed.publicBytes key) = true := by
  obtain ⟨-, hhash, hkey, hsignature⟩ := signReport_ok h
  rw [SignedComparisonReport.verifySignature, hkey, hsignature, hhash,
    fromHex_toHex (hed.sign_bytes key _)]
  simp [hed.key_length, StationIdentity.keyId, hed.verifies_sign]

/-! ## The claim -/

/-- The payloads of a trace. -/
def payloadsOf (os : List Observation) : List Fields := os.map Observation.payload

/-- The runs of a trace. -/
def runsOf (os : List Observation) : Except PyExn (List RunEvidence) :=
  (replayLoop false [] none (payloadsOf os)).map Prod.fst

theorem replayLoop_unique {before : List RunEvidence} {terminal : Option Fields}
    {payloads : List Fields} {r : List RunEvidence × Option Fields}
    (h : replayLoop true before terminal payloads = .ok r) :
    replayLoop false before terminal payloads = .ok r := by
  induction payloads generalizing before terminal with
  | nil => exact h
  | cons payload rest ih =>
      rw [replayLoop] at h ⊢
      split at h
      · rename_i hrun
        rw [if_pos hrun]
        obtain ⟨run, hof, h⟩ := bind_eq_ok.1 h
        exact bind_eq_ok.2 ⟨run, hof, ih h⟩
      · rename_i hrun
        rw [if_neg hrun]
        split at h
        · rename_i hreport
          rw [if_pos hreport, if_neg (by simp)]
          split at h
          · cases h
          · exact ih h
        · rename_i hreport
          rw [if_neg hreport]
          exact ih h

/-- One of the two readers returns a report with this hash. -/
def ReplaysTo (stats : Statistics) (workload : FrozenWorkload) (params : ReportParams)
    (ed : Ed25519) (key : ed.PrivateKey) (os : List Observation) (reportHash : Str) : Prop :=
  ∃ report, report.reportHash = .ok reportHash ∧
    (reportFromObservations stats workload params ed key os = .ok report ∨
      signedReportFromObservations stats workload params ed key os = .ok report)

/-- What is hashed to replay a trace. -/
def traceBytes (stats : Statistics) (workload : FrozenWorkload) (params : ReportParams)
    (os : List Observation) : Set (List Nat) :=
  {b | ∃ runs payload hashes, runsOf os = .ok runs ∧
    reportPayload stats workload params runs = .ok (payload, hashes) ∧ b ∈ hashedBytes payload runs}

/-- A reader builds its report from the runs of the trace. -/
theorem ReplaysTo.payload {key : ed.PrivateKey} {os : List Observation} {reportHash : Str}
    (h : ReplaysTo stats workload params ed key os reportHash) : ∃ runs payload hashes,
      runsOf os = .ok runs ∧ reportPayload stats workload params runs = .ok (payload, hashes) ∧
        digest (.obj payload) = .ok reportHash := by
  obtain ⟨report, hhash, h | h⟩ := h
  · obtain ⟨⟨runs, terminal⟩, hloop, h⟩ := bind_eq_ok.1 h
    obtain ⟨⟨rebuilt, hash, hashes⟩, hsign, h⟩ := bind_eq_ok.1 h
    have hreport : rebuilt = report := by
      cases terminal with
      | none => exact Except.ok.inj h
      | some payload =>
          obtain ⟨-, -, h⟩ := bind_eq_ok.1 h
          obtain ⟨-, -, h⟩ := bind_eq_ok.1 h
          exact Except.ok.inj h
    subst hreport
    exact ⟨runs, _, hashes, by rw [runsOf, payloadsOf, hloop]; rfl, (signReport_ok hsign).1, hhash⟩
  · obtain ⟨⟨runs, terminal⟩, hloop, h⟩ := bind_eq_ok.1 h
    cases terminal with
    | none => cases h
    | some payload =>
        obtain ⟨⟨candidate, hash, hashes⟩, hsign, h⟩ := bind_eq_ok.1 h
        obtain ⟨-, -, h⟩ := bind_eq_ok.1 h
        obtain ⟨source, -, h⟩ := bind_eq_ok.1 h
        obtain ⟨-, -, h⟩ := bind_eq_ok.1 h
        obtain ⟨keyId, -, h⟩ := bind_eq_ok.1 h
        obtain ⟨signature, -, h⟩ := bind_eq_ok.1 h
        cases h
        exact ⟨runs, _, hashes, by rw [runsOf, payloadsOf, replayLoop_unique hloop]; rfl,
          (signReport_ok hsign).1, hhash⟩

/-- Traces that replay to one report hash contain the same runs. -/
theorem ReplaysTo.sameRuns {stats' : Statistics} {workload' : FrozenWorkload} {params' : ReportParams}
    {key key' : ed.PrivateKey} {os os' : List Observation} {reportHash : Str}
    (h : ReplaysTo stats workload params ed key os reportHash)
    (h' : ReplaysTo stats' workload' params' ed key' os' reportHash)
    (hS : Set.InjOn sha256
      (traceBytes stats workload params os ∪ traceBytes stats' workload' params' os')) :
    ∃ runs runs', runsOf os = .ok runs ∧ runsOf os' = .ok runs' ∧ runs.Perm runs' := by
  obtain ⟨runs, payload, hashes, hruns, hpayload, hdigest⟩ := h.payload
  obtain ⟨runs', payload', hashes', hruns', hpayload', hdigest'⟩ := h'.payload
  refine ⟨runs, runs', hruns, hruns', ?_⟩
  have hsub : hashedBytes payload runs ∪ hashedBytes payload' runs' ⊆
      traceBytes stats workload params os ∪ traceBytes stats' workload' params' os' :=
    Set.union_subset_union (fun b hb => ⟨runs, payload, hashes, hruns, hpayload, hb⟩)
      fun b hb => ⟨runs', payload', hashes', hruns', hpayload', hb⟩
  have hsorted := runs_of_digest hpayload hpayload' hdigest hdigest' (hS.mono hsub)
  have hperm := List.perm_insertionSort (fun r s : RunEvidence => r.configuration < s.configuration ∨
    r.configuration = s.configuration ∧ r.runIndex ≤ s.runIndex)
  exact (hperm runs).symm.trans ((List.Perm.of_eq hsorted).trans (hperm runs'))

/-- The evidence of a session on a new bus. -/
def session (workload : FrozenWorkload) (traceId : Str) (calls : List RecordCall) :
    SpecEvaluationEvidence :=
  (SpecEvaluationEvidence.new (some (ObservationBus.new traceId))).run workload calls

/-- A session is derivable from its observations: a call that raises records nothing, and a report
that is built is what both readers return; the second one needs only a key of its own. -/
structure Derivable (stats : Statistics) (workload : FrozenWorkload) (params : ReportParams)
    (ed : Ed25519) (key : ed.PrivateKey) (traceId : Str) (calls : List RecordCall) (m : Emission) :
    Prop where
  kept : ∀ pre c post, calls = pre ++ c :: post → ∀ err,
    ((session workload traceId pre).recordRun workload c).1 = .error err →
      ((session workload traceId pre).recordRun workload c).2.runs =
        (session workload traceId pre).runs
  replayed : ∀ report e,
    (session workload traceId calls).buildReport stats workload params ed key m = (.ok report, e) →
      reportFromObservations stats workload params ed key e.observations = .ok report ∧
      (∀ temporary,
        signedReportFromObservations stats workload params ed temporary e.observations =
          .ok report) ∧
      report.verifySignature ed (ed.publicBytes key) = true

/-- A report that is built after sound calls is returned by both readers. -/
theorem replayed_of_derived (hed : ed.Correct) {key : ed.PrivateKey} {e e' : SpecEvaluationEvidence}
    (hd : Derived e) {m : Emission} {report : SignedComparisonReport}
    (h : e.buildReport stats workload params ed key m = (.ok report, e')) :
    reportFromObservations stats workload params ed key e'.observations = .ok report ∧
      (∀ temporary,
        signedReportFromObservations stats workload params ed temporary e'.observations =
          .ok report) ∧
      report.verifySignature ed (ed.publicBytes key) = true := by
  rw [SpecEvaluationEvidence.buildReport] at h
  split at h
  · cases h
  · rename_i report₁ reportHash hashes hsign
    obtain ⟨b, hbus⟩ := hd.bus
    simp only [SpecEvaluationEvidence.emit, hbus] at h
    cases hemit : b.emit (emitCall (reportEventPayload params report₁ reportHash hashes) m) with
    | mk result b' =>
        rw [hemit] at h
        match result, hemit, h with
        | .ok (some o), hemit, h =>
            cases h
            obtain ⟨hpayload, hstored⟩ := emit_delivered hemit
            have hpayloads : b'.stored.map Observation.payload =
                b.stored.map Observation.payload ++
                  [reportEventPayload params report reportHash hashes] := by
              rw [hstored, List.map_append, List.map_singleton, hpayload]
            have hobserved := hd.observed
            simp only [SpecEvaluationEvidence.observations, hbus, Option.map_some,
              Option.getD_some] at hobserved ⊢
            refine ⟨?_, fun temporary => ?_, signReport_verifies hed hsign⟩
            · refine bind_eq_ok.2 ⟨_, by
                rw [hpayloads]
                exact replayLoop_report hobserved hd.stable params report reportHash hashes,
                bind_eq_ok.2 ⟨_, hsign, ?_⟩⟩
              exact bind_eq_ok.2 ⟨(), require_of rfl, bind_eq_ok.2 ⟨(), require_of rfl, rfl⟩⟩
            · obtain ⟨candidate, hcandidate, hsign'⟩ := signReport_key hsign temporary
              refine bind_eq_ok.2 ⟨_, by
                rw [hpayloads]
                exact replayLoop_report hobserved hd.stable params report reportHash hashes,
                bind_eq_ok.2 ⟨_, hsign', ?_⟩⟩
              refine bind_eq_ok.2 ⟨(), require_of rfl, bind_eq_ok.2 ⟨_, rfl,
                bind_eq_ok.2 ⟨(), require_of rfl, bind_eq_ok.2 ⟨_, rfl,
                bind_eq_ok.2 ⟨_, rfl, ?_⟩⟩⟩⟩⟩
              rw [hcandidate]
              rfl

omit [FloatOps] in
theorem emit_dropped (b : ObservationBus) (payload : Fields) {m : Emission} (h : m.dropped = true) :
    (b.emit (emitCall payload m)).1 = .ok none := by
  unfold ObservationBus.emit ObservationBus.deliver
  simp only [emitCall, h, if_true]
  generalize b.sequencer.draft m.obsId m.timeNs _ _ _ _ = draft
  cases draft <;> rfl

/-- Where the observation of a new run is dropped, the call raises and the run stays recorded. -/
theorem recordRun_dropped {e : SpecEvaluationEvidence} {b : ObservationBus} {c : RecordCall}
    {run : RunEvidence} (hnew : ¬e.Recorded c) (hrun : c.evidence workload = .ok run)
    (hbus : e.bus = some b) (hdropped : c.emission.dropped = true) :
    ∃ err, (e.recordRun workload c).1 = .error err ∧
      (e.recordRun workload c).2.runs = e.runs ++ [run] := by
  rw [SpecEvaluationEvidence.recordRun, if_neg hnew, hrun]
  cases hhash : run.runHash with
  | error err => exact ⟨err, by simp only [hhash], by simp only [hhash]⟩
  | ok runHash =>
      have hemit := emit_dropped b (runPayload run runHash) hdropped
      cases hcall : b.emit (emitCall (runPayload run runHash) c.emission) with
      | mk result b' =>
          rw [hcall] at hemit
          have hresult : result = .ok none := hemit
          subst hresult
          refine ⟨specEvalError "observation delivery failed", ?_, ?_⟩ <;>
            simp only [hhash, SpecEvaluationEvidence.emit, hbus, hcall]

end

section Concrete

attribute [local instance] wholeFloats

/-- Arithmetic on whole floats, with division rounded down. -/
@[reducible]
def wholeOps : FloatOps where
  ofInt := fun i => if 0 ≤ i then some (some i.toNat) else none
  add := fun a b => a.bind fun x => b.map (x + ·)
  mul := fun a b => a.bind fun x => b.map (x * ·)
  div := fun a b => if b = some 0 then none else some (a.bind fun x => b.map (x / ·))
  less := fun v w => (Json.less v w).getD false
  ofText := fun _ => none
  truncate := fun f => .ok (f.getD 0)
  intOfText := fun _ => none
  repr := Json.render

attribute [local instance] wholeOps

/-- Statistics that count. -/
def sampleStatistics : Statistics where
  summary := fun xs => .ok (.int xs.length)
  compare := fun _ _ xs _ ys _ _ => .ok (.int (xs.length + ys.length : Nat))
  summary_wf := by
    intro xs v h
    cases h
    rfl
  compare_wf := by
    intro _ _ _ _ _ _ _ v h
    cases h
    rfl

def sampleWorkload : FrozenWorkload := ⟨lit "w", 0, [lit "t"], by decide⟩

def sampleParams : ReportParams := ⟨3, lit "welch", .float (some 0), le_rfl⟩

def sampleCounters : RunCounters where
  elapsedSeconds := .float (some 3600)
  acceptedTasks := 1
  totalTasks := 1
  tokensUsed := 0
  gpuSeconds := .int 0
  coordinationSeconds := .int 0
  reworkTasks := 0
  mergeConflicts := 0
  verifierRejections := 0
  verifierOutputs := 0
  testsPassed := 1
  testsTotal := 1
  accepted := by rfl

def sampleControls : ExecutionControls where
  engineIds := [lit "e"]
  modelVersions := [lit "m"]
  temperatures := [.float (some 0)]
  seed := 0
  accepted := by rfl

def sampleRates : CostRates := ⟨.float (some 0), .float (some 0), .float (some 0), by decide⟩

/-- One measured run, whose observation the filter drops or not. -/
def sampleCall (dropped : Bool) : RecordCall :=
  ⟨lit "single", 0, sampleCounters, sampleControls, sampleRates, lit "measured",
    ⟨lit "o", 0, dropped, false⟩⟩

/-- The run of that call. -/
def sampleRun : RunEvidence where
  configuration := lit "single"
  runIndex := 0
  workloadHash := sampleWorkload.manifestHash
  evidenceMode := lit "measured"
  controls := sampleControls.toControlFields
  counters := sampleCounters.toCounterFields
  metrics := ⟨.float (some 60), .float (some 1), .int 0, .float (some 0), .float (some 0),
    .float (some 0), .int 0, .float (some 0), .float (some 100)⟩
  costs := ⟨some 0, some 0, .float (some 0), some 0, some (some 0)⟩

theorem sampleCall_evidence (dropped : Bool) :
    (sampleCall dropped).evidence sampleWorkload = .ok sampleRun := by
  have hkept : (sampleCall false).evidence sampleWorkload = .ok sampleRun := by decide +kernel
  exact hkept

/-- The bus returned an observation. -/
def hasObservation : Except PyExn (Option Observation) → Bool
  | .ok (some _) => true
  | _ => false

theorem sampleCall_delivered : hasObservation ((ObservationBus.new (lit "trace")).emit
    (emitCall (runPayload sampleRun (digestText (.obj sampleRun.toDict)))
      (sampleCall false).emission)).1 = true := by
  decide +kernel

theorem sampleCall_sound : SoundRun sampleWorkload
    (SpecEvaluationEvidence.new (some (ObservationBus.new (lit "trace")))) [sampleCall false] := by
  refine ⟨fun _ run hrun => ?_, trivial⟩
  rw [sampleCall_evidence] at hrun
  cases hrun
  refine ⟨?_, ⟨_, rfl⟩, ?_⟩
  · intro t ht
    rw [List.mem_singleton.1 ht]
    exact ⟨_, rfl⟩
  · have hdigest := digest_of_digestible (v := .obj sampleRun.toDict)
      ⟨by decide +kernel, by decide +kernel⟩
    have hsome := sampleCall_delivered
    cases hemit : (ObservationBus.new (lit "trace")).emit
        (emitCall (runPayload sampleRun (digestText (.obj sampleRun.toDict)))
          (sampleCall false).emission) with
    | mk result b' =>
        rw [hemit] at hsome
        match result, hsome, hemit with
        | .ok (some o), _, hemit => exact ⟨_, _, o, b', hdigest, rfl, hemit⟩

end Concrete

end ResidualHarness.Eval
