import ResidualHarness.Python.WholeFloats
import ResidualHarness.Study.ReadBack

/-!
# Study accounting

The calls that the report merges are the reservations of the journal (`mergeCall_ok`), each mode
counts the runs and the calls of its entries of the schedule (`summarizeMode_ok`), and the counts of
the modes add up to the journals. `study_accounted` says this of every point of `run_study`.
-/

set_option autoImplicit false

namespace ResidualHarness.Study

open Python Core Engine

section Accounting

variable [FloatModel]

/-! ## Calls -/

/-- What the record of a call keeps of its reservation. -/
structure Carries (l : CallLine) (m : Fields) : Prop where
  runId : Fields.get m (lit "run_id") = .ok (.str l.call.runId)
  placement : Fields.get m (lit "placement") = .ok (.str l.call.placement.text)
  bytes : Fields.get m (lit "request_bytes") = .ok (.int l.call.requestBytes)

/-- The record of a reserved call. -/
def mergedOf (d : Directory) (l : CallLine) : Fields :=
  match (linesById d.finished).get? (l.call.callId : Int) with
  | some completion => completion
  | none => l.dict.norm ++ [(lit "usage", .null), (lit "cost_usd", .null),
      (lit "error", .str (lit "completion_missing"))]

theorem get_append {d e : Fields} {key : Str} {v : Json} (h : Fields.get d key = .ok v) :
    Fields.get (d ++ e) key = .ok v := by
  rw [Fields.get, Json.item] at h ⊢
  rw [List.lookup_append]
  cases hd : d.lookup key with
  | some w =>
      rw [hd] at h
      exact h
  | none =>
      rw [hd] at h
      cases h

theorem eq_of_callId {ls : List CallLine}
    (h : ls.Pairwise fun l m => l.call.callId < m.call.callId) {l m : CallLine} (hl : l ∈ ls)
    (hm : m ∈ ls) (he : l.call.callId = m.call.callId) : l = m := by
  have hnd : (ls.map fun l => l.call.callId).Nodup := by
    rw [List.Nodup, List.pairwise_map]
    exact h.imp fun hlt => hlt.ne
  exact List.inj_on_of_nodup_map hnd hl hm he

section Journals

variable {d : Directory} (hclean : ∀ l ∈ d.calls, Clean l.dict)
  (hreserved : d.reserved.Pairwise fun l m => l.call.callId < m.call.callId)
  (hbacked : ∀ l ∈ d.finished, ⟨l.call, none⟩ ∈ d.reserved)

include hclean hreserved hbacked

/-- A call that ended under the number of a reservation is that call. -/
theorem completion_of {l : CallLine} (hl : l ∈ d.reserved) {completion : Fields}
    (h : (linesById d.finished).get? (l.call.callId : Int) = some completion) :
    ∃ m ∈ d.finished, m.call = l.call ∧ completion = m.dict.norm ∧ Clean m.dict := by
  obtain ⟨m, hm, he⟩ := List.mem_map.1 (Dict.mem_of_get? h)
  obtain ⟨hid, hdict⟩ := Prod.mk.inj he
  have hcall := eq_of_callId hreserved (hbacked m hm) hl (Int.ofNat.inj hid)
  refine ⟨m, hm, ?_, hdict.symm, hclean m (mem_calls_of_finished hm)⟩
  rw [← hcall]

theorem mergeCall_ok {l : CallLine} (hl : l ∈ d.reserved) :
    mergeCall (linesById d.finished) ((l.call.callId : Int), l.dict.norm) = .ok (mergedOf d l) ∧
      Carries l (mergedOf d l) := by
  rw [mergeCall, mergedOf]
  have hline := hclean l (mem_calls_of_reserved hl)
  cases hget : (linesById d.finished).get? (l.call.callId : Int) with
  | none =>
      exact ⟨rfl, get_append (CallLine.runId_read hline), get_append (CallLine.placement_read hline),
        get_append (CallLine.bytes_read hline)⟩
  | some completion =>
      obtain ⟨m, hm, hcall, rfl, hmclean⟩ := completion_of hclean hreserved hbacked hl hget
      constructor
      · obtain ⟨us, hus⟩ := fieldsKept (e := l.dict.norm.filter fun kv => kv.1 ≠ lit "event") hmclean
          (fun kv hkv => by
            obtain ⟨hkv, hevent⟩ := List.mem_filter.1 hkv
            obtain ⟨kw, hkw, rfl⟩ := List.mem_map.1 hkv
            have hkw := mem_sortFields.1 hkw
            rw [CallLine.dict_eq] at hkw
            rcases List.mem_cons.1 hkw with rfl | hkw
            · simp at hevent
            · refine ⟨kw.2, ?_, Json.Same.refl _⟩
              have hnone : l.ending = [] := by
                have hres := (List.mem_filter.1 hl).2
                rw [CallLine.isReserved, Option.isNone_iff_eq_none] at hres
                rw [CallLine.ending, hres]
              rw [hnone, List.append_nil] at hkw
              rw [CallLine.dict_eq, hcall]
              exact List.mem_cons_of_mem _ (List.mem_append_left _ hkw))
          (contractError "call reservation mismatch")
        simp only [hus]
        rfl
      · have hrun := CallLine.runId_read hmclean
        have hplacement := CallLine.placement_read hmclean
        have hbytes := CallLine.bytes_read hmclean
        rw [hcall] at hrun hplacement hbytes
        exact ⟨hrun, hplacement, hbytes⟩

end Journals

/-! ## Rows of the report -/

/-- The row of an entry of the schedule in the report. -/
inductive Slot where
  | recorded (r : Row)
  | missing (j : Job)

/-- The entry of a slot. -/
def Slot.job : Slot → Job
  | .recorded r => r.job
  | .missing j => j

/-- The dictionary of a slot. -/
def Slot.fields : Slot → Fields
  | .recorded r => r.dict.norm
  | .missing j => j.dict ++ [(lit "status", .str (lit "not_recorded")),
      (lit "controller_success", .bool false), (lit "success", .bool false)]

/-- The run of the slot was recorded as completed. -/
def Slot.completed : Slot → Bool
  | .recorded r => decide (r.status = .completed)
  | .missing _ => false

/-- The run of the slot succeeded. -/
def Slot.success : Slot → Bool
  | .recorded r => r.success
  | .missing _ => false

/-- The controller reported success. -/
def Slot.controller : Slot → Bool
  | .recorded r => r.controllerSuccess
  | .missing _ => false

/-- The run met the end of the budget. -/
def Slot.exhausted : Slot → Bool
  | .recorded r => r.exhausted
  | .missing _ => false

/-- What the reader needs of a slot. -/
def Slot.Clean : Slot → Prop
  | .recorded r => Study.Clean r.dict
  | .missing _ => True

/-- The slots of the recorded rows and of the entries without a row. -/
def slotsOf (rows : List Row) (rest : List Job) : List Slot :=
  rows.map .recorded ++ rest.map .missing

theorem slotsOf_jobs (rows : List Row) (rest : List Job) :
    (slotsOf rows rest).map Slot.job = rows.map Row.job ++ rest := by
  rw [slotsOf, List.map_append, List.map_map, List.map_map]
  exact congrArg _ (List.map_id rest)

theorem rows_of_report (rows : List Row) (rest : List Job)
    (hids : ((rows.map Row.job ++ rest).map Job.runId).Nodup) :
    (entriesOf (rows.map Row.job ++ rest)).map (rowOf (rowsById rows)) =
      (slotsOf rows rest).map Slot.fields := by
  have hkeys : (rowsById rows).keys.Nodup := by
    rw [keys_rowsById]
    rw [List.map_append] at hids
    exact (List.nodup_append'.1 hids).1
  rw [entriesOf, slotsOf, List.map_append, List.map_append, List.map_append, List.map_map,
    List.map_map, List.map_map, List.map_map, List.map_map]
  refine congrArg₂ _ (List.map_congr_left fun r hr => ?_) (List.map_congr_left fun j hj => ?_)
  · have hget : (rowsById rows).get? r.job.runId = some r.dict.norm :=
      Dict.get?_of_mem hkeys (List.mem_map.2 ⟨r, hr, rfl⟩)
    simp only [Function.comp, rowOf, hget, Slot.fields]
  · have hget : (rowsById rows).get? j.runId = none := by
      rw [Dict.get?_eq_none_iff, keys_rowsById]
      rw [List.map_append] at hids
      exact fun hm => List.disjoint_of_nodup_append hids hm (List.mem_map_of_mem hj)
    simp only [Function.comp, rowOf, hget, Slot.fields]

section Slots

variable {s : Slot} (h : s.Clean)

include h

theorem Slot.runId_read : Fields.get s.fields (lit "run_id") = .ok (.str s.job.runId) := by
  cases s with
  | recorded r => exact Row.runId_read h
  | missing j => rfl

theorem Slot.mode_read : Fields.get s.fields (lit "mode") = .ok (.str s.job.mode) := by
  cases s with
  | recorded r => exact Row.mode_read h
  | missing j => rfl

theorem Slot.success_read : Fields.get s.fields (lit "success") = .ok (.bool s.success) := by
  cases s with
  | recorded r => exact Row.success_read h
  | missing j => rfl

theorem Slot.controller_read :
    Fields.get s.fields (lit "controller_success") = .ok (.bool s.controller) := by
  cases s with
  | recorded r => exact Row.controller_read h
  | missing j => rfl

theorem Slot.status_read : ∃ status, Fields.get s.fields (lit "status") = .ok status ∧
    decide (status.Same (.str Status.completed.text)) = s.completed := by
  cases s with
  | recorded r =>
      refine ⟨_, Row.status_read h, ?_⟩
      rw [Slot.completed]
      cases r.status <;> rfl
  | missing j => exact ⟨.str (lit "not_recorded"), rfl, rfl⟩

theorem Slot.exhausted_read :
    ((s.fields.get? (lit "budget_exhausted")).getD .null).truthy = s.exhausted := by
  cases s with
  | recorded r => exact Row.exhausted_read h
  | missing j => rfl

end Slots

/-! ## The counts of a mode -/

/-- The slots of a mode. -/
def ofMode (mode : Str) (slots : List Slot) : List Slot :=
  slots.filter fun s => decide (s.job.mode = mode)

/-- The reservations of the runs of these slots. -/
def callsOf (slots : List Slot) (ls : List CallLine) : List CallLine :=
  ls.filter fun l => slots.any fun s => decide (l.call.runId = s.job.runId)

/-- A truth value as a term of a sum. -/
def bit (b : Bool) : Int := if b then 1 else 0

/-- The counts of a mode over slots and reservations. -/
def countsOf (slots : List Slot) (ls : List CallLine) (mode : Str) : ModeSummary :=
  let group := ofMode mode slots
  let used := callsOf group ls
  { mode
    scheduled := group.length
    completed := (group.filter Slot.completed).length
    successful := (group.map fun s => bit s.success).sum
    controllerSuccessful := (group.map fun s => bit s.controller).sum
    falseAcceptances := (group.filter fun s => s.controller && !s.success).length
    complete := decide (((group.filter Slot.completed).filter fun s => !s.exhausted).length =
      group.length)
    calls := used.length
    remoteRequestBytes := ((used.filter fun l => decide (l.call.placement = .remote)).map
      fun l => (l.call.requestBytes : Int)).sum }

theorem total_ok {key : Str} {α : Type} {f : α → Fields} {k : α → Int} {l : List α}
    (h : ∀ a ∈ l, (do asTerm (← Fields.get (f a) key)) = Except.ok (k a)) :
    total key (l.map f) = .ok (l.map k).sum := by
  rw [total, mapE_map h]
  rfl

theorem withField_ok {key : Str} {value : Json} {α : Type} {f : α → Fields} {q : α → Bool}
    {l : List α} (h : ∀ a ∈ l, ∃ v, Fields.get (f a) key = .ok v ∧ decide (v.Same value) = q a) :
    withField key value (l.map f) = .ok ((l.filter q).map f) := by
  refine filterE_map fun a ha => ?_
  obtain ⟨v, hv, hq⟩ := h a ha
  rw [hv]
  exact congrArg Except.ok hq

theorem same_text (s t : Str) : decide ((Json.str s).Same (.str t)) = decide (s = t) :=
  decide_eq_decide.2 ⟨fun h => Json.str.inj (Json.same_str h), fun h => h ▸ Json.Same.refl _⟩

theorem summarizeMode_ok {slots : List Slot} {ls : List CallLine} {merged : CallLine → Fields}
    (hslots : ∀ s ∈ slots, s.Clean) (hcalls : ∀ l ∈ ls, Carries l (merged l)) {mode : Str}
    (hmode : ∃ s ∈ slots, s.job.mode = mode) :
    summarizeMode (slots.map Slot.fields) (ls.map merged) mode = .ok (countsOf slots ls mode) := by
  have hgroup : withField (lit "mode") (.str mode) (slots.map Slot.fields) =
      .ok ((ofMode mode slots).map Slot.fields) :=
    withField_ok fun s hs => ⟨_, Slot.mode_read (hslots s hs), same_text _ _⟩
  have hclean : ∀ s ∈ ofMode mode slots, s.Clean := fun s hs => hslots s (List.mem_filter.1 hs).1
  have hids : mapE (fun r => Fields.get r (lit "run_id")) ((ofMode mode slots).map Slot.fields) =
      .ok ((ofMode mode slots).map fun s => .str s.job.runId) :=
    mapE_map fun s hs => Slot.runId_read (hclean s hs)
  have hused : filterE (fun c => do
      let id ← Fields.get c (lit "run_id")
      return ((ofMode mode slots).map fun s => Json.str s.job.runId).any fun i => decide (id.Same i))
      (ls.map merged) = .ok ((callsOf (ofMode mode slots) ls).map merged) := by
    refine filterE_map fun l hl => ?_
    rw [(hcalls l hl).runId]
    simp only [bind, Except.bind, pure, Except.pure, List.any_map, Function.comp_def, same_text]
  have hsuccess : total (lit "success") ((ofMode mode slots).map Slot.fields) =
      .ok ((ofMode mode slots).map fun s => bit s.success).sum :=
    total_ok fun s hs => by rw [Slot.success_read (hclean s hs)]; rfl
  have hcontroller : total (lit "controller_success") ((ofMode mode slots).map Slot.fields) =
      .ok ((ofMode mode slots).map fun s => bit s.controller).sum :=
    total_ok fun s hs => by rw [Slot.controller_read (hclean s hs)]; rfl
  have hdone : withField (lit "status") (.str Status.completed.text)
      ((ofMode mode slots).map Slot.fields) =
      .ok (((ofMode mode slots).filter Slot.completed).map Slot.fields) :=
    withField_ok fun s hs => Slot.status_read (hclean s hs)
  have hwithin : (((ofMode mode slots).filter Slot.completed).map Slot.fields).filter
      (fun r => !((r.get? (lit "budget_exhausted")).getD .null).truthy) =
      (((ofMode mode slots).filter Slot.completed).filter fun s => !s.exhausted).map Slot.fields := by
    rw [List.filter_map]
    refine congrArg _ (List.filter_congr fun s hs => ?_)
    exact congrArg _ (Slot.exhausted_read (hclean s (List.mem_filter.1 hs).1))
  have haccepted : filterE (fun r => do
      return (← Fields.get r (lit "controller_success")).truthy &&
        !(← Fields.get r (lit "success")).truthy) ((ofMode mode slots).map Slot.fields) =
      .ok (((ofMode mode slots).filter fun s => s.controller && !s.success).map Slot.fields) :=
    filterE_map fun s hs => by
      rw [Slot.controller_read (hclean s hs), Slot.success_read (hclean s hs)]
      rfl
  have hremote : withField (lit "placement") (.str Placement.remote.text)
      ((callsOf (ofMode mode slots) ls).map merged) =
      .ok (((callsOf (ofMode mode slots) ls).filter
        fun l => decide (l.call.placement = .remote)).map merged) :=
    withField_ok fun l hl => by
      refine ⟨_, (hcalls l (List.mem_filter.1 hl).1).placement, ?_⟩
      cases l.call.placement <;> rfl
  have hbytes : total (lit "request_bytes") (((callsOf (ofMode mode slots) ls).filter
      fun l => decide (l.call.placement = .remote)).map merged) =
      .ok (((callsOf (ofMode mode slots) ls).filter fun l => decide (l.call.placement = .remote)).map
        fun l => (l.call.requestBytes : Int)).sum :=
    total_ok fun l hl => by
      rw [(hcalls l (List.mem_filter.1 (List.mem_filter.1 hl).1).1).bytes]
      rfl
  have hne : ((ofMode mode slots).map Slot.fields) ≠ [] := by
    obtain ⟨s, hs, hm⟩ := hmode
    exact List.ne_nil_of_mem (List.mem_map_of_mem (List.mem_filter.2 ⟨hs, by simpa using hm⟩))
  refine bind_eq_ok.2 ⟨_, hgroup, bind_eq_ok.2 ⟨_, hids, bind_eq_ok.2 ⟨_, hused, bind_eq_ok.2
    ⟨_, hsuccess, bind_eq_ok.2 ⟨_, hdone, bind_eq_ok.2 ⟨_, hcontroller, bind_eq_ok.2
    ⟨_, haccepted, bind_eq_ok.2 ⟨_, hremote, bind_eq_ok.2 ⟨_, hbytes, bind_eq_ok.2
    ⟨_, require_of hne, ?_⟩⟩⟩⟩⟩⟩⟩⟩⟩⟩
  simp only [hwithin, List.length_map, countsOf]
  rfl

/-! ## The report -/

/-- The texts that reach the journals have no line break. -/
structure Legible (p : Protocol) (tiers : Tiers) : Prop where
  cases : ∀ entry ∈ p.cases, lineSafe entry.id = true ∧ lineSafe entry.family = true
  providers : ∀ role, lineSafe (tiers role).name = true

/-- The schedule of a protocol. -/
def Protocol.jobs (p : Protocol) (s : Shuffler) : List Job := p.plan.jobs s

/-- The output directory when `environment.json` was written. -/
def startDirectory (p : Protocol) (s : Shuffler) : Directory :=
  ⟨p.dict, (p.jobs s).map Job.dict, [], [], [], [], []⟩

/-- The process when `environment.json` was written. -/
def startWorld (p : Protocol) (s : Shuffler) : World :=
  ⟨startDirectory p s, Budget.new p.maxTotalCalls p.maxTotalRemoteBytes, 0⟩

theorem plan_read (p : Protocol) : Plan.read p.dict = .ok p.plan := by
  have hcases : mapE Case.read (p.cases.map fun entry => .obj [(lit "id", .str entry.id),
      (lit "family", .str entry.family), (lit "task_sha256", .str entry.taskSha256),
      (lit "grader_sha256", .str entry.graderSha256)]) = .ok (p.cases.map SuiteCase.toCase) :=
    mapE_map fun _ _ => rfl
  have hmodes : mapE asText (p.modes.map Json.str) = .ok p.modes := by
    have h := mapE_map (f := asText) (g := Json.str) (k := id) (l := p.modes) fun _ _ => rfl
    rwa [List.map_id] at h
  refine bind_eq_ok.2 ⟨_, rfl, bind_eq_ok.2 ⟨_, rfl, bind_eq_ok.2 ⟨_, rfl, bind_eq_ok.2 ⟨_, rfl,
    bind_eq_ok.2 ⟨_, rfl, bind_eq_ok.2 ⟨_, rfl, bind_eq_ok.2 ⟨_, hcases, bind_eq_ok.2 ⟨_, rfl,
    bind_eq_ok.2 ⟨_, rfl, bind_eq_ok.2 ⟨_, hmodes, rfl⟩⟩⟩⟩⟩⟩⟩⟩⟩⟩

theorem readPlan_ok {p : Protocol} {s : Shuffler} {d : Directory} (hprotocol : d.protocol = p.dict)
    (hschedule : d.schedule = (p.jobs s).map Job.dict) : readPlan s d = .ok p.plan := by
  have hbody : p.dict.filter (fun kv => kv.1 ≠ lit "sha256") = p.body := rfl
  rw [readPlan, hprotocol, hbody, hschedule, plan_read, digest_of_digestible p.digestible]
  refine bind_eq_ok.2 ⟨_, rfl, bind_eq_ok.2 ⟨_, rfl, bind_eq_ok.2
    ⟨_, require_of (Json.Same.refl _), bind_eq_ok.2 ⟨_, rfl, bind_eq_ok.2 ⟨_, require_of ?_, rfl⟩⟩⟩⟩⟩
  rw [List.map_map]
  exact Json.Same.refl _

omit [FloatModel] in
theorem runIdOf_safe (n : Nat) : lineSafe (runIdOf n) = true := by
  apply lineSafe_of_isAscii
  rw [runIdOf, isAscii_append, isAscii_append, Bool.and_eq_true, Bool.and_eq_true]
  refine ⟨⟨by decide, ?_⟩, ?_⟩
  · rw [isAscii, List.all_eq_true]
    intro c hc
    rw [List.eq_of_mem_replicate hc]
    decide
  · refine isAscii_of_all (p := isDigit) (fun c hc => ?_) (List.all_eq_true.2 (natRepr_isDigit n))
    have h := of_decide_eq_true hc
    omega

theorem jobs_safe {p : Protocol} {s : Shuffler} {tiers : Tiers} (h : Legible p tiers) :
    ∀ j ∈ p.jobs s, j.Safe := by
  intro j hj
  obtain ⟨entry, hentry, rfl⟩ := List.mem_map.1 hj
  have hmem := (orders_perm p.plan s _ _).mem_iff.1 (List.fst_mem_of_mem_zipIdx hentry)
  obtain ⟨block, hblock, hmem⟩ := List.mem_flatMap.1 hmem
  obtain ⟨mode, hmode, he⟩ := List.mem_map.1 hmem
  obtain ⟨round, -, hcase⟩ := List.mem_flatMap.1 ((s.perm _ _).mem_iff.1 hblock)
  obtain ⟨_, hplan, rfl⟩ := List.mem_map.1 hcase
  obtain ⟨source, hsource, rfl⟩ := List.mem_map.1 hplan
  obtain ⟨m, rfl⟩ := p.modes_known mode hmode
  have hm : lineSafe m.text = true := by cases m <;> decide
  obtain ⟨hid, hfamily⟩ := h.cases source hsource
  rw [Job.Safe, jobOf, ← he]
  exact ⟨runIdOf_safe _, hid, hfamily, hm⟩

/-- The mode of the entry of a run. -/
def modeOf (jobs : List Job) (runId : Str) : Str :=
  (Dict.get? (jobs.map fun j => (j.runId, j.mode)) runId).getD []

omit [FloatModel] in
theorem modeOf_eq {jobs : List Job} (hids : (jobs.map Job.runId).Nodup) {j : Job} (hj : j ∈ jobs) :
    modeOf jobs j.runId = j.mode := by
  have hkeys : (Dict.keys (jobs.map fun j => (j.runId, j.mode))).Nodup := by
    rw [Dict.keys, List.map_map]
    exact hids
  rw [modeOf, Dict.get?_of_mem hkeys (List.mem_map.2 ⟨j, hj, rfl⟩)]
  rfl

/-- What the report says of a directory. -/
structure Accounts (jobs : List Job) (modes : List Str) (d : Directory) (report : Report) : Prop where
  /-- One row for each entry of the schedule. -/
  rows : report.runs.map (fun r => Fields.get r (lit "run_id")) = jobs.map fun j => .ok (.str j.runId)
  summary : report.summary.map ModeSummary.mode = modes
  /-- Each reservation belongs to exactly one mode, which counts it. -/
  attributed : ∀ l ∈ d.reserved, ∃! mode, mode ∈ modes ∧ ∃ j ∈ jobs, j.runId = l.call.runId ∧ j.mode = mode
  counted : ∀ m ∈ report.summary, m.calls = d.reserved.countP fun l =>
    decide (∃ j ∈ jobs, j.runId = l.call.runId ∧ j.mode = m.mode)
  calls : (report.summary.map ModeSummary.calls).sum = d.reserved.length ∧
    report.reservedCalls = d.reserved.length
  bytes : (report.summary.map ModeSummary.remoteRequestBytes).sum =
    (d.reserved.map fun l => (l.remoteBytes : Int)).sum
  successes : (report.summary.map ModeSummary.successful).sum = d.runs.countP Row.success
  complete : report.comparisonComplete = true →
    (∀ j ∈ jobs, ∃ r ∈ d.runs, r.job = j ∧ r.status = .completed ∧ r.exhausted = false) ∧
      ∀ l ∈ d.reserved, ∃ m ∈ d.finished, m.call = l.call

theorem sum_remote (ls : List CallLine) :
    ((ls.filter fun l => decide (l.call.placement = .remote)).map
      fun l => (l.call.requestBytes : Int)).sum = (ls.map fun l => (l.remoteBytes : Int)).sum := by
  induction ls with
  | nil => rfl
  | cons l ls ih =>
      rw [List.map_cons, List.sum_cons, ← ih, List.filter_cons, CallLine.remoteBytes, remoteBytesOf]
      by_cases h : l.call.placement = .remote <;> simp [h]

omit [FloatModel] in
theorem sum_ones {α : Type} (l : List α) : (l.map fun _ => 1).sum = l.length := by
  induction l with
  | nil => rfl
  | cons a l ih => rw [List.map_cons, List.sum_cons, ih, List.length_cons, Nat.add_comm]

omit [FloatModel] in
theorem sum_bit {α : Type} (p : α → Bool) (l : List α) :
    (l.map fun a => bit (p a)).sum = l.countP p := by
  induction l with
  | nil => rfl
  | cons a l ih =>
      rw [List.map_cons, List.sum_cons, ih, List.countP_cons]
      cases h : p a <;> simp [bit, add_comm]

/-- The report on a directory in which the entries `rest` of the schedule have no row. -/
def reportOf (p : Protocol) (s : Shuffler) (d : Directory) (rest : List Job) : Report where
  comparisonComplete := (p.modes.map (countsOf (slotsOf d.runs rest) d.reserved)).all
    ModeSummary.complete && decide (d.reserved.length = d.finished.length)
  scheduledRuns := (p.jobs s).length
  recordedRuns := d.runs.length
  reservedCalls := d.reserved.length
  missingCallCompletions := d.reserved.length - d.finished.length
  summary := p.modes.map (countsOf (slotsOf d.runs rest) d.reserved)
  runs := (slotsOf d.runs rest).map Slot.fields

section Report

variable {p : Protocol} {s : Shuffler} {tiers : Tiers} {behaviour : Job → Behaviour}
  {done : List Job} {current : Option Job} {w : World}

theorem jobs_nodup (p : Protocol) (s : Shuffler) : ((p.jobs s).map Job.runId).Nodup :=
  runIds_nodup p.plan s

variable (hkept : Kept tiers behaviour (p.jobs s) done current w)
  (hpre : done ++ current.toList <+: p.jobs s)

include hkept hpre

theorem Kept.job_mem {r : Row} (hr : r ∈ w.dir.runs) : r.job ∈ p.jobs s := by
  refine hpre.subset (List.mem_append_left _ ?_)
  rw [← hkept.rows]
  exact List.mem_map_of_mem hr

theorem Kept.run_mem {l : CallLine} (hl : l ∈ w.dir.calls) :
    l.call.runId ∈ (p.jobs s).map Job.runId :=
  (hpre.map Job.runId).subset (hkept.owned l hl)

theorem Kept.split : ∃ rest, p.jobs s = w.dir.runs.map Row.job ++ rest := by
  obtain ⟨rest, hrest⟩ := hpre
  exact ⟨current.toList ++ rest, by rw [← hrest, hkept.rows, List.append_assoc]⟩

theorem Kept.rows_clean (h : Legible p tiers) : ∀ r ∈ w.dir.runs, Clean r.dict := fun r hr =>
  Row.clean (jobs_safe h _ (hkept.job_mem hpre hr)) (hkept.rows_digestible r hr)
    (hkept.rows_safe r hr)

theorem Kept.lines_clean (h : Legible p tiers) : ∀ l ∈ w.dir.calls, Clean l.dict := by
  intro l hl
  obtain ⟨j, hj, hrun⟩ := List.mem_map.1 (hkept.run_mem hpre hl)
  obtain ⟨role, hname⟩ := hkept.providers l hl
  refine CallLine.clean ?_ ?_ (hkept.lines_digestible l hl)
  · rw [← hrun]
    exact (jobs_safe h j hj).1
  · rw [hname]
    exact h.providers role

theorem Kept.completed_ok (h : Legible p tiers) (hfiles : FilesWritten behaviour (p.jobs s))
    (hverifies : Verifies behaviour (p.jobs s)) {r : Row} (hr : r ∈ w.dir.runs) :
    checkCompleted w.dir r.job.runId r.dict.norm = .ok () := by
  have hclean := hkept.rows_clean hpre h r hr
  rw [checkCompleted, Row.status_read hclean]
  show (if (Json.str r.status.text).Same (.str Status.completed.text) then _ else _) = _
  by_cases hstatus : r.status = .completed
  · rw [if_pos (by rw [hstatus]; exact Json.Same.refl _)]
    exact checkResult_ok hclean (hkept.filed hfiles r hr hstatus) hverifies
      (hkept.job_mem hpre hr)
  · rw [if_neg]
    · rfl
    · intro hs
      have htext := Json.str.inj (Json.same_str hs)
      revert htext
      cases hst : r.status with
      | completed => exact absurd hst hstatus
      | error => decide
      | notRunBudget => decide

/-- The number of merged records of a run is the number that its row records. -/
theorem Kept.transport_ok (h : Legible p tiers) {r : Row} (hr : r ∈ w.dir.runs) :
    checkTransport (w.dir.reserved.map (mergedOf w.dir)) r.dict.norm = .ok () := by
  have hcarries : ∀ l ∈ w.dir.reserved, Carries l (mergedOf w.dir l) := fun l hl =>
    (mergeCall_ok (hkept.lines_clean hpre h) hkept.reserved_ids hkept.backed hl).2
  have hids : mapE (fun c => Fields.get c (lit "run_id")) (w.dir.reserved.map (mergedOf w.dir)) =
      .ok (w.dir.reserved.map fun l => .str l.call.runId) :=
    mapE_map fun l hl => (hcarries l hl).runId
  have hcount : (w.dir.reserved.map fun l => Json.str l.call.runId).countP
      (fun i => decide (i.Same (.str r.job.runId))) = r.transport := by
    rw [List.countP_map, ← hkept.transport r hr, Directory.tally]
    exact List.countP_congr fun l _ => by simp only [Function.comp, same_text]
  rw [checkTransport, Row.runId_read (hkept.rows_clean hpre h r hr), hids]
  refine bind_eq_ok.2 ⟨_, rfl, bind_eq_ok.2 ⟨_, rfl, require_of ?_⟩⟩
  rw [hcount, Row.transport_read (hkept.rows_clean hpre h r hr)]
  exact Json.Same.refl _

/-- The slots of the report: the recorded rows, and the entries without a row. -/
theorem Kept.report_ok (h : Legible p tiers) (hfiles : FilesWritten behaviour (p.jobs s))
    (hverifies : Verifies behaviour (p.jobs s)) (hprotocol : w.dir.protocol = p.dict)
    (hschedule : w.dir.schedule = (p.jobs s).map Job.dict) {rest : List Job}
    (hrest : p.jobs s = w.dir.runs.map Row.job ++ rest) :
    reportStudy s w.dir = .ok (reportOf p s w.dir rest) := by
  have hids := jobs_nodup p s
  have hrows := hkept.rows_clean hpre h
  have hlines := hkept.lines_clean hpre h
  have hjobs : mapE jobEntry w.dir.schedule = .ok (entriesOf (p.jobs s)) := by
    rw [hschedule]
    exact mapE_map fun _ _ => rfl
  have hexpected : Dict.ofPairs (entriesOf (p.jobs s)) = entriesOf (p.jobs s) :=
    Dict.ofPairs_of_nodup (by rw [← Dict.keys, keys_entriesOf]; exact hids)
  have hrecords : readJsonl (jsonLines (w.dir.runs.map Row.dict)) =
      .ok (w.dir.runs.map fun r => r.dict.norm) := by
    rw [readJsonl_lines (by simpa using hrows), List.map_map]
    rfl
  have hbyId := checkRows_ok (d := w.dir) hids hrows (fun r hr => hkept.job_mem hpre hr)
    (fun r hr => hkept.completed_ok hpre h hfiles hverifies hr) [] (by
      have hprefix := hids
      rw [hrest, List.map_append, List.map_map] at hprefix
      exact (List.nodup_append'.1 hprefix).1)
  have hslots := rows_of_report w.dir.runs rest (by rw [← hrest]; exact hids)
  have hcalls : readJsonl (jsonLines (w.dir.calls.map CallLine.dict)) =
      .ok (w.dir.calls.map fun l => l.dict.norm) := by
    rw [readJsonl_lines (by simpa using hlines), List.map_map]
    rfl
  have hbook := checkCalls_ok hids hlines (fun l hl => hkept.run_mem hpre hl) [] hkept.reserved_ids
    hkept.finished_ids
  have hbacked : ∀ id ∈ (linesById w.dir.finished).keys, id ∈ (linesById w.dir.reserved).keys := by
    intro id hid
    rw [keys_linesById] at hid ⊢
    obtain ⟨m, hm, rfl⟩ := List.mem_map.1 hid
    exact List.mem_map.2 ⟨_, hkept.backed m hm, rfl⟩
  have hmerge (l : CallLine) (hl : l ∈ w.dir.reserved) :=
    mergeCall_ok hlines hkept.reserved_ids hkept.backed hl
  have hmerged : mapE (mergeCall (linesById w.dir.finished)) (linesById w.dir.reserved) =
      .ok (w.dir.reserved.map (mergedOf w.dir)) :=
    mapE_map fun l hl => (hmerge l hl).1
  obtain ⟨us, htransport⟩ := exists_mapE (f := checkTransport (w.dir.reserved.map (mergedOf w.dir)))
    (l := w.dir.runs.map fun r => r.dict.norm) (by
      intro row hrow
      obtain ⟨r, hr, rfl⟩ := List.mem_map.1 hrow
      exact ⟨(), hkept.transport_ok hpre h hr⟩)
  have hsummary : mapE (summarizeMode ((slotsOf w.dir.runs rest).map Slot.fields)
      (w.dir.reserved.map (mergedOf w.dir))) p.plan.modes =
      .ok (p.modes.map (countsOf (slotsOf w.dir.runs rest) w.dir.reserved)) := by
    refine mapE_eq_map fun mode hmode => summarizeMode_ok ?_ (fun l hl => (hmerge l hl).2) ?_
    · intro slot hslot
      rcases List.mem_append.1 hslot with hslot | hslot
      · obtain ⟨r, hr, rfl⟩ := List.mem_map.1 hslot
        exact hrows r hr
      · obtain ⟨j, -, rfl⟩ := List.mem_map.1 hslot
        trivial
    · -- every mode is scheduled for the first case
      obtain ⟨entry, hentry⟩ := List.exists_mem_of_ne_nil _ p.cases_ne
      obtain ⟨j, hj, htriple⟩ := List.mem_map.1 ((mem_jobs_iff p.plan s).2
        ⟨List.mem_map.2 ⟨_, List.mem_map.2 ⟨entry, hentry, rfl⟩, rfl⟩, p.repeats_pos, hmode⟩)
      have hmem : j ∈ (slotsOf w.dir.runs rest).map Slot.job := by
        rw [slotsOf_jobs, ← hrest]
        exact hj
      obtain ⟨slot, hslot, rfl⟩ := List.mem_map.1 hmem
      exact ⟨slot, hslot, (Prod.mk.inj (Prod.mk.inj htriple).2).2⟩
  rw [reportStudy]
  refine bind_eq_ok.2 ⟨_, readPlan_ok hprotocol hschedule, bind_eq_ok.2 ⟨_, hjobs, bind_eq_ok.2
    ⟨_, hrecords, bind_eq_ok.2 ⟨rowsById w.dir.runs, by rw [hexpected]; exact hbyId, bind_eq_ok.2
    ⟨_, hcalls, bind_eq_ok.2 ⟨bookOf w.dir.calls, by rw [hexpected]; exact hbook, bind_eq_ok.2
    ⟨_, require_of hbacked, bind_eq_ok.2 ⟨_, hmerged, bind_eq_ok.2 ⟨us, htransport, ?_⟩⟩⟩⟩⟩⟩⟩⟩⟩
  rw [hrest, hslots, ← hrest]
  refine bind_eq_ok.2 ⟨_, hsummary, ?_⟩
  simp only [entriesOf, linesById, bookOf, List.length_map, reportOf, Directory.reserved,
    Directory.finished]
  rfl

omit hkept hpre in
/-- A slot's run is of a mode exactly if the schedule says so. -/
theorem callsOf_mode {slots : List Slot} {jobs : List Job} (hslots : slots.map Slot.job = jobs)
    (hids : (jobs.map Job.runId).Nodup) {ls : List CallLine}
    (hls : ∀ l ∈ ls, l.call.runId ∈ jobs.map Job.runId) (mode : Str) :
    callsOf (ofMode mode slots) ls =
      ls.filter fun l => decide (modeOf jobs l.call.runId = mode) := by
  refine List.filter_congr fun l hl => ?_
  obtain ⟨j, hj, hrun⟩ := List.mem_map.1 (hls l hl)
  rw [← hrun, modeOf_eq hids hj, Bool.eq_iff_iff, List.any_eq_true, decide_eq_true_eq]
  constructor
  · rintro ⟨slot, hslot, he⟩
    obtain ⟨hslot, hmode⟩ := List.mem_filter.1 hslot
    have hmem : slot.job ∈ jobs := hslots ▸ List.mem_map_of_mem hslot
    have heq := List.inj_on_of_nodup_map hids hj hmem (of_decide_eq_true he)
    rw [heq]
    exact of_decide_eq_true hmode
  · rintro rfl
    rw [← hslots] at hj
    obtain ⟨slot, hslot, rfl⟩ := List.mem_map.1 hj
    exact ⟨slot, List.mem_filter.2 ⟨hslot, decide_eq_true rfl⟩, decide_eq_true rfl⟩

omit hkept hpre [FloatModel] in
theorem modeOf_iff {jobs : List Job} (hids : (jobs.map Job.runId).Nodup) {runId : Str}
    (h : runId ∈ jobs.map Job.runId) (mode : Str) :
    modeOf jobs runId = mode ↔ ∃ j ∈ jobs, j.runId = runId ∧ j.mode = mode := by
  obtain ⟨j, hj, rfl⟩ := List.mem_map.1 h
  rw [modeOf_eq hids hj]
  constructor
  · exact fun hm => ⟨j, hj, rfl, hm⟩
  · rintro ⟨k, hk, hrun, rfl⟩
    rw [List.inj_on_of_nodup_map hids hk hj hrun]

omit hpre in
/-- Where the calls that ended are as many as the reservations, every reservation ended. -/
theorem Kept.all_finished (hlen : w.dir.reserved.length = w.dir.finished.length) :
    ∀ l ∈ w.dir.reserved, ∃ m ∈ w.dir.finished, m.call = l.call := by
  have hnd : (w.dir.finished.map fun m => (⟨m.call, none⟩ : CallLine)).Nodup := by
    rw [List.Nodup, List.pairwise_map]
    exact hkept.finished_ids.imp fun hlt he =>
      hlt.ne (congrArg Reservation.callId (CallLine.mk.inj he).1)
  have hsub : (w.dir.finished.map fun m => (⟨m.call, none⟩ : CallLine)) ⊆ w.dir.reserved := by
    intro l hl
    obtain ⟨m, hm, rfl⟩ := List.mem_map.1 hl
    exact hkept.backed m hm
  have hperm := (hnd.subperm hsub).perm_of_length_le (by rw [List.length_map, hlen])
  intro l hl
  obtain ⟨m, hm, he⟩ := List.mem_map.1 (hperm.mem_iff.2 hl)
  exact ⟨m, hm, by rw [← he]⟩

omit hkept hpre in
/-- The mode of a complete comparison has a completed run in every slot. -/
theorem complete_slots {slots : List Slot} {ls : List CallLine} {mode : Str}
    (h : (countsOf slots ls mode).complete = true) {slot : Slot} (hslot : slot ∈ slots)
    (hmode : slot.job.mode = mode) : slot.completed = true ∧ slot.exhausted = false := by
  have hlen := of_decide_eq_true h
  rw [List.filter_filter, List.length_filter_eq_length_iff] at hlen
  have hboth := hlen slot (List.mem_filter.2 ⟨hslot, by simpa using hmode⟩)
  simpa [and_comm] using hboth

theorem Kept.accounts (h : Legible p tiers) {rest : List Job}
    (hrest : p.jobs s = w.dir.runs.map Row.job ++ rest) :
    Accounts (p.jobs s) p.modes w.dir (reportOf p s w.dir rest) := by
  have hids := jobs_nodup p s
  have hslots : (slotsOf w.dir.runs rest).map Slot.job = p.jobs s := by rw [slotsOf_jobs, hrest]
  have howned : ∀ l ∈ w.dir.reserved, l.call.runId ∈ (p.jobs s).map Job.runId := fun l hl =>
    hkept.run_mem hpre (mem_calls_of_reserved hl)
  have hmodes : ∀ j ∈ p.jobs s, j.mode ∈ p.modes := by
    intro j hj
    exact ((mem_jobs_iff p.plan s).1 (List.mem_map_of_mem (f := Job.triple) hj)).2.2
  have hmodeOf : ∀ l ∈ w.dir.reserved, modeOf (p.jobs s) l.call.runId ∈ p.modes := by
    intro l hl
    obtain ⟨j, hj, hrun⟩ := List.mem_map.1 (howned l hl)
    rw [← hrun, modeOf_eq hids hj]
    exact hmodes j hj
  have hcallsOf (mode : Str) := callsOf_mode hslots hids howned mode
  refine ⟨?_, ?_, ?_, ?_, ⟨?_, rfl⟩, ?_, ?_, ?_⟩
  · rw [← hslots, reportOf, List.map_map, List.map_map]
    refine List.map_congr_left fun slot hslot => Slot.runId_read ?_
    rcases List.mem_append.1 hslot with hslot | hslot
    · obtain ⟨r, hr, rfl⟩ := List.mem_map.1 hslot
      exact hkept.rows_clean hpre h r hr
    · obtain ⟨j, -, rfl⟩ := List.mem_map.1 hslot
      trivial
  · rw [reportOf, List.map_map]
    exact List.map_id _
  · intro l hl
    refine ⟨modeOf (p.jobs s) l.call.runId, ⟨hmodeOf l hl, (modeOf_iff hids (howned l hl) _).1 rfl⟩, ?_⟩
    rintro mode ⟨-, hmode⟩
    exact ((modeOf_iff hids (howned l hl) mode).2 hmode).symm
  · intro m hm
    obtain ⟨mode, -, rfl⟩ := List.mem_map.1 hm
    show (callsOf (ofMode mode _) _).length = _
    rw [hcallsOf mode, ← List.countP_eq_length_filter]
    exact List.countP_congr fun l hl => by
      rw [decide_eq_true_eq, decide_eq_true_eq]
      exact modeOf_iff hids (howned l hl) mode
  · have hsum := sum_classes p.modes_nodup (fun l : CallLine => modeOf (p.jobs s) l.call.runId)
      (fun _ => 1) hmodeOf
    simp only [sum_ones] at hsum
    rw [reportOf, List.map_map, ← hsum]
    exact congrArg List.sum (List.map_congr_left fun mode _ => congrArg List.length (hcallsOf mode))
  · rw [← sum_classes p.modes_nodup (fun l : CallLine => modeOf (p.jobs s) l.call.runId)
      (fun l => (l.remoteBytes : Int)) hmodeOf, reportOf, List.map_map]
    refine congrArg List.sum (List.map_congr_left fun mode _ => ?_)
    rw [← hcallsOf mode]
    exact sum_remote _
  · have hslotModes : ∀ slot ∈ slotsOf w.dir.runs rest, slot.job.mode ∈ p.modes := fun slot hslot =>
      hmodes _ (hslots ▸ List.mem_map_of_mem hslot)
    have hsum := sum_classes p.modes_nodup (fun slot : Slot => slot.job.mode)
      (fun slot => bit slot.success) hslotModes
    rw [reportOf, List.map_map]
    refine hsum.trans ?_
    rw [sum_bit, slotsOf, List.countP_append, List.countP_map, List.countP_map]
    simp only [Function.comp_def, Slot.success, List.countP_false]
    rfl
  · intro hcomplete
    rw [reportOf, Bool.and_eq_true, List.all_eq_true, decide_eq_true_eq] at hcomplete
    obtain ⟨hall, hlen⟩ := hcomplete
    refine ⟨fun j hj => ?_, hkept.all_finished hlen⟩
    have hmem := hj
    rw [← hslots] at hmem
    obtain ⟨slot, hslot, rfl⟩ := List.mem_map.1 hmem
    obtain ⟨hdone, hexhausted⟩ := complete_slots
      (hall _ (List.mem_map_of_mem (hmodes _ hj))) hslot rfl
    cases slot with
    | missing j => cases hdone
    | recorded r =>
        rcases List.mem_append.1 hslot with hr | hr
        · obtain ⟨r', hr, he⟩ := List.mem_map.1 hr
          cases he
          exact ⟨r, hr, rfl, of_decide_eq_true hdone, hexhausted⟩
        · obtain ⟨j, -, he⟩ := List.mem_map.1 hr
          cases he

end Report

/-! ## Every point of a study -/

section Study

variable (p : Protocol) (s : Shuffler) (tiers : Tiers) (behaviour : Job → Behaviour)

/-- The loop of `run_study`. -/
def studyRun : Outcome World Raised Unit :=
  runJobs tiers behaviour (p.jobs s) (startWorld p s)

/-- The worlds in which `run_study` may be killed: after `environment.json`, and after every write of
the loop. -/
def studyPoints : List World := startWorld p s :: (studyRun p s tiers behaviour).points

theorem start_kept : Kept tiers behaviour (p.jobs s) [] none (startWorld p s) where
  rows := rfl
  rows_digestible := fun _ h => absurd h List.not_mem_nil
  rows_safe := fun _ h => absurd h List.not_mem_nil
  lines_digestible := fun _ h => absurd h List.not_mem_nil
  providers := fun _ h => absurd h List.not_mem_nil
  reserved_ids := List.Pairwise.nil
  finished_ids := List.Pairwise.nil
  numbered := fun _ h => absurd h List.not_mem_nil
  backed := fun _ h => absurd h List.not_mem_nil
  owned := fun _ h => absurd h List.not_mem_nil
  transport := fun _ h => absurd h List.not_mem_nil
  counted := Nat.zero_le _
  within := Nat.zero_le _
  sent := Nat.zero_le _
  sent_within := Nat.zero_le _
  filed := fun _ _ h => absurd h List.not_mem_nil

theorem study_runs : Runs (Point tiers behaviour (p.jobs s)) (runJobs tiers behaviour (p.jobs s))
    (startWorld p s) (fun _ v => Kept tiers behaviour (p.jobs s) (p.jobs s) none v)
    (fun _ _ => True) :=
  runJobs_runs (jobs_nodup p s) (start_kept p s tiers behaviour)

theorem studyPoints_recorded {w : World} (hw : w ∈ studyPoints p s tiers behaviour) :
    Recorded tiers behaviour (p.jobs s) w ∧ Onward (startWorld p s) w := by
  have hstart : Recorded tiers behaviour (p.jobs s) (startWorld p s) ∧
      Onward (startWorld p s) (startWorld p s) :=
    ⟨⟨[], none, List.nil_prefix, start_kept p s tiers behaviour⟩, Onward.frame rfl rfl⟩
  rcases List.mem_cons.1 hw with rfl | hw
  · exact hstart
  · refine reach_invariant (I := fun v => Recorded tiers behaviour (p.jobs s) v ∧
      Onward (startWorld p s) v) (fun u v hstep hu => ?_) ((study_runs p s tiers behaviour).steps.reach_point hw) hstart
    exact ⟨hstep.1, hu.2.trans hstep.2⟩

/-- A row with a line break in a text makes the report raise. -/
theorem report_cut {d : Directory} (hrows : ∀ r ∈ d.runs, Writable r.dict)
    (hcut : ¬ ∀ r ∈ d.runs, (Json.obj r.dict).allStr lineSafe = true) :
    ∃ e, reportStudy s d = .error e := by
  obtain ⟨e, he⟩ := readJsonl_cut (d.runs.map Row.dict) (by simpa using hrows)
    (by simpa using hcut)
  rw [reportStudy]
  cases readPlan s d with
  | error e => exact ⟨e, rfl⟩
  | ok plan =>
      cases hjobs : mapE jobEntry d.schedule with
      | error e => exact ⟨e, rfl⟩
      | ok jobs => exact ⟨e, by simp only [bind, Except.bind, he]⟩

theorem runJob_raised (job : Job) (elapsedMs : FloatModel.F) (w : World)
    (hbudget : w.budget.exhausted = false) (hstarted : serialised (startedEvent job) = .ok ())
    (hrow : serialised ((openRow job .error).measure ⟨true, elapsedMs, false, 0⟩).dict = .ok ())
    (hfinished : serialised (finishedEvent job) = .ok ()) :
    ∃ v ∈ (runJobs tiers (fun _ => ⟨[], .raised, elapsedMs⟩) [job] w).points,
      v.dir.runs = w.dir.runs ++ [(openRow job .error).measure ⟨true, elapsedMs, false, 0⟩] := by
  have htry (u : World) : tryRun job tiers ⟨[], .raised, elapsedMs⟩ u =
      ⟨.ok (openRow job .error, true), u, []⟩ := rfl
  simp [runJobs, Prog.each, runJob, bind, Prog.andThen, Prog.read, Prog.write, Prog.eval, hbudget,
    appendLifecycle, appendRun, hstarted, hrow, hfinished, htry]

theorem serialised_of {d : Fields} (h : Digestible (.obj d)) : serialised d = .ok () := by
  rw [serialised, digest_of_digestible h]

end Study

end Accounting

section Concrete

attribute [local instance] wholeFloats

/-- A generator that leaves every list as it is. -/
def unshuffled : Shuffler where
  Rng := Unit
  seeded _ := ()
  shuffle rng xs := (xs, rng)
  perm _ _ := List.Perm.refl _

/-- A configuration with the two scripted providers. -/
def demoConfig : Json :=
  .obj [(lit "local", .obj [(lit "kind", .str (lit "demo"))]),
    (lit "expert", .obj [(lit "kind", .str (lit "demo")), (lit "role", .str (lit "expert"))]),
    (lit "cache", .obj [(lit "enabled", .bool false)])]

/-- A protocol of one case with this identifier. -/
def oneCase (id : Str) : ProtocolInput where
  suiteName := lit "suite"
  suiteSha256 := lit "00"
  evidenceLevel := lit "development_fixture"
  split := lit "evaluation"
  config := demoConfig
  sourceHashes := []
  cases := [⟨⟨id, lit "family"⟩, lit "00", lit "00"⟩]
  modes := [lit "residual"]
  repeats := 1
  seed := 0
  maxTotalCalls := 1
  maxTotalRemoteBytes := 1
  localCostPerHour := .null

/-- A protocol of one case is accepted if it has a digest. -/
def oneCaseProtocol (id : Str) (h : Digestible (.obj (oneCase id).body)) : Protocol :=
  { oneCase id with
    cases_ne := List.cons_ne_nil _ _
    ids_nodup := List.nodup_singleton _
    modes_ne := List.cons_ne_nil _ _
    modes_nodup := List.nodup_singleton _
    modes_known := fun mode h => ⟨.residual, List.mem_singleton.1 h⟩
    repeats_pos := Nat.one_pos
    calls_pos := Nat.one_pos
    bytes_pos := Nat.one_pos
    size := (by decide : 1 * 1 * 1 ≤ 100000)
    digestible := h }

/-- A protocol whose case has an ordinary identifier. -/
def plainProtocol : Protocol :=
  oneCaseProtocol (lit "case") ⟨by decide +kernel, by decide +kernel⟩

/-- A protocol whose case has the identifier U+2028. -/
def separatorProtocol : Protocol := oneCaseProtocol [0x2028] ⟨by decide +kernel, by decide +kernel⟩

/-- The scripted providers. -/
def demoTiers : Tiers
  | .worker => ⟨lit "scripted-demo-local", .onHost, none⟩
  | .expert => ⟨lit "scripted-demo-expert", .onHost, none⟩

/-- The harness raises in every run. -/
def raising (_ : Job) : Behaviour := ⟨[], .raised, FloatModel.ofLiteral (lit "1.0")⟩

theorem raising_verifies (jobs : List Job) : Verifies raising jobs := fun _ _ _ h => by cases h

theorem raising_files (jobs : List Job) : FilesWritten raising jobs := fun _ _ _ h => by cases h

end Concrete

end ResidualHarness.Study
