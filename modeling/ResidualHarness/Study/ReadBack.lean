import ResidualHarness.Python.Comprehensions
import ResidualHarness.Study.Journals
import ResidualHarness.Study.Report

/-!
# Reading the journals of a study back

A journal whose lines have no line break of their own is read back line by line (`readJsonl_lines`),
and every field of a row or of a call has the value that was written. On the journals of a run
`report_study` therefore accepts every row (`checkRows_ok`) and every call (`checkCalls_ok`).
-/

set_option autoImplicit false

namespace ResidualHarness.Study

open Python Core Engine

variable [FloatModel]

/-! ## Journals -/

/-- A dictionary that is one line of a journal: distinct keys, a text, and no line break in it. -/
structure Clean (d : Fields) : Prop where
  wf : (Json.obj d).wf = true
  digestible : Digestible (.obj d)
  safe : (Json.obj d).allStr lineSafe = true

theorem Clean.nodup {d : Fields} (h : Clean d) : (d.map Prod.fst).Nodup := by
  have hwf := h.wf
  rw [Json.wf, Bool.and_eq_true, decide_eq_true_eq] at hwf
  exact hwf.1

theorem Clean.get {d : Fields} (h : Clean d) {key : Str} {v : Json} (hm : (key, v) ∈ d) :
    Fields.get? d.norm key = some v.norm := by
  rw [Fields.get?_norm h.nodup, Fields.get?_of_mem h.nodup hm]
  rfl

theorem readLine_render {d : Fields} (h : Clean d) :
    readLine (Json.obj d).render = .ok d.norm := by
  rw [readLine, strictJson_render h.wf h.digestible.1, Fields.obj_norm]

theorem readJsonl_lines {ds : List Fields} (h : ∀ d ∈ ds, Clean d) :
    readJsonl (jsonLines ds) = .ok (ds.map Fields.norm) := by
  have hwritable : ∀ d ∈ ds, Writable d := fun d hd => ⟨(h d hd).wf, (h d hd).digestible.1⟩
  have hblank : (ds.map fun d => (Json.obj d).render).filter (fun line => !isBlank line) =
      ds.map fun d => (Json.obj d).render := by
    refine List.filter_eq_self.2 fun line hline => ?_
    obtain ⟨d, -, rfl⟩ := List.mem_map.1 hline
    rw [render_obj_not_blank (List.append_nil _).symm (by rw [Json.render_obj]; exact nofun)]
    rfl
  rw [readJsonl, universalNewlines_jsonLines hwritable,
    splitLines_jsonLines hwritable fun d hd => (h d hd).safe, hblank]
  clear hblank hwritable
  induction ds with
  | nil => rfl
  | cons d ds ih =>
      rw [List.map_cons, mapE, readLine_render (h d List.mem_cons_self),
        ih fun x hx => h x (List.mem_cons_of_mem _ hx)]
      rfl

theorem readJsonl_cut (ds : List Fields) (h : ∀ d ∈ ds, Writable d)
    (hcut : ¬ ∀ d ∈ ds, (Json.obj d).allStr lineSafe = true) :
    ∃ e, readJsonl (jsonLines ds) = .error e := by
  obtain ⟨pre, r, post, a, tail, rfl, -, hsplit, hblank, hbad⟩ := splitLines_jsonLines_cut h hcut
  have hread : readLine a = .error (contractError "invalid JSON") := by
    rw [readLine, strictJson_of_loads_none hbad]
  rw [readJsonl, universalNewlines_jsonLines h, hsplit, List.filter_append,
    List.filter_cons_of_pos (by rw [hblank]; rfl)]
  cases hresult : mapE readLine (((pre.map fun x => (Json.obj x).render).filter fun l => !isBlank l) ++
      a :: tail.filter fun l => !isBlank l) with
  | error e => exact ⟨e, rfl⟩
  | ok values =>
      obtain ⟨v, -, hv⟩ := mem_zip_of_mapE hresult (List.mem_append_right _ List.mem_cons_self)
      rw [hread] at hv
      cases hv

/-! ## Rows -/

/-- The texts of an entry have no line break. -/
def Job.Safe (j : Job) : Prop :=
  lineSafe j.runId = true ∧ lineSafe j.caseId = true ∧ lineSafe j.family = true ∧
    lineSafe j.mode = true

/-- The keys of a row. -/
def rowKeys : List Str :=
  [lit "run_id", lit "case_id", lit "family", lit "repeat", lit "mode", lit "status",
    lit "controller_success", lit "success", lit "grade", lit "grading_elapsed_ms", lit "metrics",
    lit "result_sha256", lit "error", lit "elapsed_ms", lit "budget_exhausted", lit "transport_calls"]

/-- The fields that grading added to a row. -/
def Row.grading (r : Row) : Fields := match r.graded with | some g => g.dict | none => []

/-- The fields that the end of the run added to a row. -/
def Row.measurement (r : Row) : Fields := match r.measured with | some m => m.dict | none => []

theorem Row.dict_eq (r : Row) :
    r.dict = r.job.dict ++ (r.outcome ++ (r.grading ++ r.measurement)) := rfl

theorem Row.keys_sublist (r : Row) : (r.dict.map Prod.fst).Sublist rowKeys := by
  have hgrading : (r.grading.map Prod.fst).Sublist
      [lit "grade", lit "grading_elapsed_ms", lit "metrics", lit "result_sha256"] := by
    rw [grading]
    cases r.graded with
    | none => exact List.nil_sublist _
    | some g => exact List.Sublist.refl _
  have hmeasured : (r.measurement.map Prod.fst).Sublist
      [lit "error", lit "elapsed_ms", lit "budget_exhausted", lit "transport_calls"] := by
    rw [measurement]
    cases r.measured with
    | none => exact List.nil_sublist _
    | some m =>
        obtain ⟨failed, _, _, _⟩ := m
        cases failed with
        | true => exact List.Sublist.refl _
        | false => exact List.sublist_cons_self _ _
  rw [dict_eq, List.map_append, List.map_append, List.map_append]
  exact (List.Sublist.refl (r.job.dict.map Prod.fst)).append
    ((List.Sublist.refl (r.outcome.map Prod.fst)).append (hgrading.append hmeasured))

theorem Row.nodup_keys (r : Row) : (r.dict.map Prod.fst).Nodup :=
  r.keys_sublist.nodup (by decide)

/-- What a value of a line has to satisfy. -/
def CleanValue (v : Json) : Prop := v.wf = true ∧ v.allStr lineSafe = true

theorem cleanValue_str {s : Str} (h : lineSafe s = true) : CleanValue (.str s) := ⟨rfl, h⟩

theorem clean_of {d : Fields} (hkeys : (d.map Prod.fst).Nodup) (hdig : Digestible (.obj d))
    (hsafe : ∀ k ∈ d.map Prod.fst, lineSafe k = true) (hvalues : ∀ kv ∈ d, CleanValue kv.2) :
    Clean d := by
  refine ⟨?_, hdig, ?_⟩
  · rw [Json.wf, Bool.and_eq_true, decide_eq_true_eq, Json.wfFields_iff]
    exact ⟨hkeys, fun kv hkv => (hvalues kv hkv).1⟩
  · rw [Json.allStr, Json.allStrFields_iff]
    exact fun kv hkv => ⟨hsafe _ (List.mem_map.2 ⟨kv, hkv, rfl⟩), (hvalues kv hkv).2⟩

theorem cleanValue_verdict (passed : Bool) : CleanValue (verdictDict passed) := by
  cases passed <;> exact ⟨rfl, rfl⟩

theorem Row.clean {r : Row} (hjob : r.job.Safe) (hdig : Digestible (.obj r.dict))
    (hgraded : ∀ g ∈ r.graded, g.metrics.wf = true ∧ g.metrics.allStr lineSafe = true ∧
      isHash g.resultSha256 = true) : Clean r.dict := by
  have hkeys : ∀ k ∈ rowKeys, lineSafe k = true := by decide
  refine clean_of r.nodup_keys hdig (fun k hk => hkeys k (r.keys_sublist.subset hk)) ?_
  rw [dict_eq]
  intro kv hkv
  rcases List.mem_append.1 hkv with hkv | hkv
  · obtain ⟨hid, hcase, hfamily, hmode⟩ := hjob
    simp only [Job.dict, List.mem_cons, List.not_mem_nil, or_false] at hkv
    rcases hkv with rfl | rfl | rfl | rfl | rfl
    exacts [cleanValue_str hid, cleanValue_str hcase, cleanValue_str hfamily, ⟨rfl, rfl⟩,
      cleanValue_str hmode]
  rcases List.mem_append.1 hkv with hkv | hkv
  · simp only [outcome, List.mem_cons, List.not_mem_nil, or_false] at hkv
    rcases hkv with rfl | rfl | rfl
    · refine cleanValue_str ?_
      cases r.status <;> decide
    · exact ⟨rfl, rfl⟩
    · exact ⟨rfl, rfl⟩
  rcases List.mem_append.1 hkv with hkv | hkv
  · rw [grading] at hkv
    cases hg : r.graded with
    | none =>
        rw [hg] at hkv
        cases hkv
    | some g =>
        obtain ⟨hwf, hsafe, hhash⟩ := hgraded g hg
        rw [hg] at hkv
        simp only [Graded.dict, List.mem_cons, List.not_mem_nil, or_false] at hkv
        rcases hkv with rfl | rfl | rfl | rfl
        exacts [cleanValue_verdict _, ⟨rfl, rfl⟩, ⟨hwf, hsafe⟩,
          cleanValue_str (lineSafe_of_isAscii (isAscii_of_isHash hhash))]
  · rw [measurement] at hkv
    cases hm : r.measured with
    | none =>
        rw [hm] at hkv
        cases hkv
    | some m =>
        rw [hm] at hkv
        obtain ⟨failed, _, _, _⟩ := m
        have herror : CleanValue (.str (lit "run_or_grader_failed")) := cleanValue_str (by decide)
        cases failed <;>
          simp only [Measured.dict, if_true, Bool.false_eq_true, if_false, List.nil_append,
            List.cons_append, List.mem_cons, List.not_mem_nil, or_false] at hkv
        · rcases hkv with rfl | rfl | rfl <;> exact ⟨rfl, rfl⟩
        · rcases hkv with rfl | rfl | rfl | rfl
          exacts [herror, ⟨rfl, rfl⟩, ⟨rfl, rfl⟩, ⟨rfl, rfl⟩]

/-! ## Calls -/

/-- The keys of a line of `calls.jsonl`. -/
def lineKeys : List Str :=
  [lit "event", lit "call_id", lit "run_id", lit "role", lit "provider", lit "placement",
    lit "request_bytes", lit "cost_usd", lit "usage", lit "error", lit "elapsed_ms"]

/-- The text of the event of a line. -/
def CallLine.event (l : CallLine) : Str :=
  if l.isReserved = true then lit "reserved" else lit "finished"

/-- The fields that the end of a call added. -/
def CallLine.ending (l : CallLine) : Fields := match l.completion with | some c => c.dict | none => []

theorem CallLine.dict_eq (l : CallLine) :
    l.dict = (lit "event", .str l.event) :: (l.call.dict ++ l.ending) := by
  obtain ⟨call, completion⟩ := l
  cases completion with
  | none => exact congrArg (_ :: ·) (List.append_nil _).symm
  | some c => rfl

theorem CallLine.keys_sublist (l : CallLine) : (l.dict.map Prod.fst).Sublist lineKeys := by
  have hending : (l.ending.map Prod.fst).Sublist
      [lit "cost_usd", lit "usage", lit "error", lit "elapsed_ms"] := by
    rw [ending]
    cases l.completion with
    | none => exact List.nil_sublist _
    | some c => exact List.Sublist.refl _
  rw [dict_eq, List.map_cons, List.map_append]
  exact ((List.Sublist.refl (l.call.dict.map Prod.fst)).append hending).cons_cons _

theorem CallLine.nodup_keys (l : CallLine) : (l.dict.map Prod.fst).Nodup :=
  l.keys_sublist.nodup (by decide)

theorem cleanValue_usage (u : Usage) : CleanValue u.asDict := by
  obtain ⟨input, output, cached, source, write, _⟩ := u
  have hnat : ∀ n, CleanValue (optionalNat n) := by
    intro n
    cases n <;> exact ⟨rfl, rfl⟩
  have hsource : lineSafe source.text = true := by cases source <;> decide
  have hkeys : ∀ k ∈ [lit "input_tokens", lit "output_tokens", lit "cached_input_tokens",
      lit "source", lit "cache_write_input_tokens"], lineSafe k = true := by decide
  constructor
  · rw [Usage.asDict, Json.wf, Bool.and_eq_true, decide_eq_true_eq, Json.wfFields_iff]
    refine ⟨(by decide : [lit "input_tokens", lit "output_tokens",
      lit "cached_input_tokens", lit "source", lit "cache_write_input_tokens"].Nodup), ?_⟩
    simp [(hnat _).1, Json.wf]
  · rw [Usage.asDict, Json.allStr, Json.allStrFields_iff]
    intro kv hkv
    refine ⟨hkeys _ (List.mem_map_of_mem (f := Prod.fst) hkv), ?_⟩
    simp only [List.mem_cons, List.not_mem_nil, or_false] at hkv
    rcases hkv with rfl | rfl | rfl | rfl | rfl
    exacts [(hnat _).2, (hnat _).2, (hnat _).2, hsource, (hnat _).2]

theorem CallLine.clean {l : CallLine} (hrun : lineSafe l.call.runId = true)
    (hprovider : lineSafe l.call.provider = true) (hdig : Digestible (.obj l.dict)) :
    Clean l.dict := by
  have hkeys : ∀ k ∈ lineKeys, lineSafe k = true := by decide
  refine clean_of l.nodup_keys hdig (fun k hk => hkeys k (l.keys_sublist.subset hk)) ?_
  rw [dict_eq]
  intro kv hkv
  rcases List.mem_cons.1 hkv with rfl | hkv
  · refine cleanValue_str ?_
    rw [event]
    split <;> decide
  rcases List.mem_append.1 hkv with hkv | hkv
  · simp only [Reservation.dict, List.mem_cons, List.not_mem_nil, or_false] at hkv
    rcases hkv with rfl | rfl | rfl | rfl | rfl | rfl
    · exact ⟨rfl, rfl⟩
    · exact cleanValue_str hrun
    · refine cleanValue_str ?_
      cases l.call.role <;> decide
    · exact cleanValue_str hprovider
    · refine cleanValue_str ?_
      cases l.call.placement <;> decide
    · exact ⟨rfl, rfl⟩
  · rw [ending] at hkv
    cases hc : l.completion with
    | none =>
        rw [hc] at hkv
        cases hkv
    | some c =>
        rw [hc] at hkv
        simp only [Completion.dict, List.mem_cons, List.not_mem_nil, or_false] at hkv
        rcases hkv with rfl | rfl | rfl | rfl
        · cases c.costUsd <;> exact ⟨rfl, rfl⟩
        · cases c.usage with
          | none => exact ⟨rfl, rfl⟩
          | some u => exact cleanValue_usage u
        · cases c.failed with
          | true => exact cleanValue_str (by decide)
          | false => exact ⟨rfl, rfl⟩
        · exact ⟨rfl, rfl⟩

/-! ## Fields that are read -/

theorem Clean.item {d : Fields} (h : Clean d) {key : Str} {v : Json} (hm : (key, v) ∈ d) :
    Fields.get d.norm key = .ok v.norm :=
  Fields.get_of_get? (h.get hm)

/-- Fields that a line has are kept by the line that is read back. -/
theorem fieldsKept {d e : Fields} (hd : Clean d)
    (hsub : ∀ kv ∈ e, ∃ v, (kv.1, v) ∈ d ∧ v.norm.Same kv.2) (x : PyExn) :
    ∃ us, mapE (fieldKept d.norm x) e = .ok us := by
  refine exists_mapE fun kv hkv => ⟨(), ?_⟩
  obtain ⟨v, hv, hsame⟩ := hsub kv hkv
  rw [fieldKept, hd.item hv]
  exact require_of hsame

theorem Row.job_mem (r : Row) {kv : Str × Json} (h : kv ∈ r.job.dict) : kv ∈ r.dict :=
  List.mem_append_left _ h

theorem Row.outcome_mem (r : Row) {kv : Str × Json} (h : kv ∈ r.outcome) : kv ∈ r.dict :=
  List.mem_append_right _ (List.mem_append_left _ h)

theorem Row.graded_mem {r : Row} {g : Graded} (hg : r.graded = some g) (kv : Str × Json)
    (h : kv ∈ g.dict) : kv ∈ r.dict := by
  refine List.mem_append_right _ (List.mem_append_right _ (List.mem_append_left _ ?_))
  rw [hg]
  exact h

section Readers

variable {r : Row} (h : Clean r.dict)

include h

theorem Row.runId_read : Fields.get r.dict.norm (lit "run_id") = .ok (.str r.job.runId) :=
  h.item (r.job_mem List.mem_cons_self)

theorem Row.mode_read : Fields.get r.dict.norm (lit "mode") = .ok (.str r.job.mode) :=
  h.item (v := .str r.job.mode) (r.job_mem (by simp [Job.dict]))

theorem Row.status_read : Fields.get r.dict.norm (lit "status") = .ok (.str r.status.text) :=
  h.item (r.outcome_mem List.mem_cons_self)

theorem Row.controller_read :
    Fields.get r.dict.norm (lit "controller_success") = .ok (.bool r.controllerSuccess) :=
  h.item (r.outcome_mem (List.mem_cons_of_mem _ List.mem_cons_self))

theorem Row.success_read : Fields.get r.dict.norm (lit "success") = .ok (.bool r.success) :=
  h.item (r.outcome_mem (List.mem_cons_of_mem _ (List.mem_cons_of_mem _ List.mem_cons_self)))

theorem Row.measured_read (key : Str) {v : Json} (hkey : key ∉ [lit "run_id", lit "case_id",
      lit "family", lit "repeat", lit "mode", lit "status", lit "controller_success", lit "success",
      lit "grade", lit "grading_elapsed_ms", lit "metrics", lit "result_sha256"])
    (hm : ∀ m, r.measured = some m → (key, v) ∈ m.dict) :
    Fields.get? r.dict.norm key = r.measured.map fun _ => v.norm := by
  cases hmeasured : r.measured with
  | some m =>
      refine h.get (List.mem_append_right _ (List.mem_append_right _ (List.mem_append_right _ ?_)))
      rw [hmeasured]
      exact hm m hmeasured
  | none =>
      rw [Fields.get?_norm h.nodup, Fields.get?_eq, Dict.get?_eq_none_iff.2]
      · rfl
      intro hmem
      apply hkey
      rw [Dict.keys, Row.dict_eq, Row.measurement, hmeasured, List.append_nil, List.map_append,
        List.map_append] at hmem
      rcases List.mem_append.1 hmem with hmem | hmem
      · exact List.mem_append_left [lit "status", lit "controller_success", lit "success",
          lit "grade", lit "grading_elapsed_ms", lit "metrics", lit "result_sha256"] hmem
      rcases List.mem_append.1 hmem with hmem | hmem
      · exact List.mem_append_right [lit "run_id", lit "case_id", lit "family", lit "repeat",
          lit "mode"] (List.mem_append_left [lit "grade", lit "grading_elapsed_ms", lit "metrics",
            lit "result_sha256"] hmem)
      · rw [Row.grading] at hmem
        cases hg : r.graded with
        | none =>
            rw [hg] at hmem
            cases hmem
        | some g =>
            rw [hg] at hmem
            exact List.mem_append_right [lit "run_id", lit "case_id", lit "family", lit "repeat",
              lit "mode", lit "status", lit "controller_success", lit "success"] hmem

end Readers

/-- The row records a run that met the end of the budget. -/
def Row.exhausted (r : Row) : Bool := (r.measured.map Measured.budgetExhausted).getD false

theorem Row.transport_read {r : Row} (h : Clean r.dict) :
    (Fields.get? r.dict.norm (lit "transport_calls")).getD (.int 0) = .int r.transport := by
  cases hm : r.measured with
  | none =>
      have hread := Row.measured_read h (lit "transport_calls") (v := .int 0) (by decide)
        fun m hm' => by rw [hm] at hm'; cases hm'
      rw [hread, Row.transport, hm]
      rfl
  | some m =>
      have hread := Row.measured_read h (lit "transport_calls") (v := .int m.transportCalls)
        (by decide) fun m' hm' => by
          rw [hm] at hm'
          cases hm'
          exact List.mem_append_right _ (by simp)
      rw [hread, Row.transport, hm]
      rfl

theorem Row.exhausted_read {r : Row} (h : Clean r.dict) :
    ((Fields.get? r.dict.norm (lit "budget_exhausted")).getD .null).truthy = r.exhausted := by
  cases hm : r.measured with
  | none =>
      have hread := Row.measured_read h (lit "budget_exhausted") (v := .null) (by decide)
        fun m hm' => by rw [hm] at hm'; cases hm'
      rw [hread, Row.exhausted, hm]
      rfl
  | some m =>
      have hread := Row.measured_read h (lit "budget_exhausted") (v := .bool m.budgetExhausted)
        (by decide) fun m' hm' => by
          rw [hm] at hm'
          cases hm'
          exact List.mem_append_right _ (by simp)
      rw [hread, Row.exhausted, hm]
      rfl

/-! ## The run journal -/

/-- `{j["run_id"]: j for j in jobs}`. -/
def entriesOf (jobs : List Job) : Dict Str Fields := jobs.map fun j => (j.runId, j.dict)

theorem keys_entriesOf (jobs : List Job) : (entriesOf jobs).keys = jobs.map Job.runId := by
  rw [entriesOf, Dict.keys, List.map_map]
  rfl

theorem get?_entriesOf {jobs : List Job} (hids : (jobs.map Job.runId).Nodup) {j : Job}
    (hj : j ∈ jobs) : (entriesOf jobs).get? j.runId = some j.dict :=
  Dict.get?_of_mem (by rw [keys_entriesOf]; exact hids) (List.mem_map.2 ⟨j, hj, rfl⟩)

/-- The rows that were read, by run. -/
def rowsById (rows : List Row) : Dict Str Fields := rows.map fun r => (r.job.runId, r.dict.norm)

theorem keys_rowsById (rows : List Row) :
    (rowsById rows).keys = (rows.map Row.job).map Job.runId := by
  rw [rowsById, Dict.keys, List.map_map, List.map_map]
  rfl

variable {jobs : List Job} {d : Directory}

theorem checkRow_ok (hids : (jobs.map Job.runId).Nodup) {byId : Dict Str Fields} {r : Row}
    (hr : Clean r.dict) (hjob : r.job ∈ jobs) (hnew : byId.get? r.job.runId = none)
    (hfiles : checkCompleted d r.job.runId r.dict.norm = .ok ()) :
    checkRow d (entriesOf jobs) byId r.dict.norm = .ok (byId.set r.job.runId r.dict.norm) := by
  obtain ⟨us, hus⟩ := fieldsKept hr (fun kv h => ⟨kv.2, r.job_mem h, Json.same_norm _⟩)
    (contractError "duplicate or mismatched run receipt")
  rw [checkRow, Row.runId_read hr]
  simp only [bind, Except.bind, asText, require_of hnew, get?_entriesOf hids hjob, pure, Except.pure,
    hus, hfiles]

theorem checkRows_ok (hids : (jobs.map Job.runId).Nodup) {rows : List Row}
    (hclean : ∀ r ∈ rows, Clean r.dict) (hjobs : ∀ r ∈ rows, r.job ∈ jobs)
    (hfiles : ∀ r ∈ rows, checkCompleted d r.job.runId r.dict.norm = .ok ()) :
    ∀ pre, ((pre ++ rows).map fun r => r.job.runId).Nodup →
      checkRows d (entriesOf jobs) (rowsById pre) (rows.map fun r => r.dict.norm) =
        .ok (rowsById (pre ++ rows)) := by
  induction rows with
  | nil => exact fun pre _ => by rw [List.append_nil]; rfl
  | cons r rows ih =>
      intro pre hnd
      have hmem := List.mem_cons_self (a := r) (l := rows)
      have hnew : r.job.runId ∉ (rowsById pre).keys := by
        rw [keys_rowsById, List.map_map]
        rw [List.map_append, List.map_cons] at hnd
        exact fun hm => List.disjoint_of_nodup_append hnd hm List.mem_cons_self
      have hset : (rowsById pre).set r.job.runId r.dict.norm = rowsById (pre ++ [r]) := by
        rw [Dict.set_of_notMem hnew, rowsById, rowsById, List.map_append]
        rfl
      rw [List.map_cons, checkRows, checkRow_ok hids (hclean r hmem) (hjobs r hmem)
        (Dict.get?_eq_none_iff.2 hnew) (hfiles r hmem), hset]
      have hrest := ih (fun x hx => hclean x (List.mem_cons_of_mem _ hx))
        (fun x hx => hjobs x (List.mem_cons_of_mem _ hx))
        (fun x hx => hfiles x (List.mem_cons_of_mem _ hx)) (pre ++ [r]) (by simpa using hnd)
      simpa [bind, Except.bind] using hrest

/-! ## The call journal -/

/-- Lines that were read, by call. -/
def linesById (ls : List CallLine) : Dict Int Fields :=
  ls.map fun l => ((l.call.callId : Int), l.dict.norm)

theorem keys_linesById (ls : List CallLine) :
    (linesById ls).keys = ls.map fun l => (l.call.callId : Int) := by
  rw [linesById, Dict.keys, List.map_map]
  rfl

section Line

variable {l : CallLine} (h : Clean l.dict)

include h

theorem CallLine.read (kv : Str × Json) (hm : kv ∈ l.call.dict) :
    Fields.get l.dict.norm kv.1 = .ok kv.2.norm := by
  refine h.item ?_
  rw [CallLine.dict_eq]
  exact List.mem_cons_of_mem _ (List.mem_append_left _ hm)

theorem CallLine.callId_read : Fields.get l.dict.norm (lit "call_id") = .ok (.int l.call.callId) :=
  CallLine.read h (lit "call_id", .int l.call.callId) List.mem_cons_self

theorem CallLine.runId_read : Fields.get l.dict.norm (lit "run_id") = .ok (.str l.call.runId) :=
  CallLine.read h (lit "run_id", .str l.call.runId) (by simp [Reservation.dict])

theorem CallLine.placement_read :
    Fields.get l.dict.norm (lit "placement") = .ok (.str l.call.placement.text) :=
  CallLine.read h (lit "placement", .str l.call.placement.text) (by simp [Reservation.dict])

theorem CallLine.bytes_read :
    Fields.get l.dict.norm (lit "request_bytes") = .ok (.int l.call.requestBytes) :=
  CallLine.read h (lit "request_bytes", .int l.call.requestBytes) (by simp [Reservation.dict])

theorem CallLine.event_read : Fields.get l.dict.norm (lit "event") = .ok (.str l.event) :=
  h.item (by rw [CallLine.dict_eq]; exact List.mem_cons_self)

end Line

/-- The calls of the same event as a line. -/
def CallBook.side (book : CallBook) (l : CallLine) : Dict Int Fields :=
  if l.isReserved = true then book.reserved else book.finished

/-- The book with one more line. -/
def CallBook.add (book : CallBook) (l : CallLine) : CallBook :=
  let calls := (book.side l).set (l.call.callId : Int) l.dict.norm
  if l.isReserved = true then { book with reserved := calls } else { book with finished := calls }

theorem checkCall_ok {jobs : List Job} (hids : (jobs.map Job.runId).Nodup) {book : CallBook}
    {l : CallLine} (h : Clean l.dict) (howned : l.call.runId ∈ jobs.map Job.runId)
    (hnew : (book.side l).get? (l.call.callId : Int) = none) :
    checkCall (entriesOf jobs) book l.dict.norm = .ok (book.add l) := by
  obtain ⟨j, hj, hrun⟩ := List.mem_map.1 howned
  have hknown : (entriesOf jobs).get? l.call.runId ≠ none := by
    rw [← hrun, get?_entriesOf hids hj]
    exact nofun
  rw [CallBook.side] at hnew
  rw [checkCall, CallLine.event_read h, CallLine.callId_read h, CallLine.runId_read h,
    CallBook.add, CallBook.side]
  simp only [bind, Except.bind, asInteger, asText, require_of hknown]
  by_cases hres : l.isReserved = true
  · rw [if_pos hres] at hnew
    have hevent : (Json.str l.event).Same (.str (lit "reserved")) := by
      rw [CallLine.event, if_pos hres]
      exact Json.Same.refl _
    rw [if_pos hevent, require_of hnew, if_pos hres, if_pos hres]
    rfl
  · rw [if_neg hres] at hnew
    have hevent : l.event = lit "finished" := by rw [CallLine.event, if_neg hres]
    have hne : ¬ (Json.str (lit "finished")).Same (.str (lit "reserved")) := by
      intro hs
      exact absurd (Json.str.inj (Json.same_str hs)) (by decide)
    rw [hevent, if_neg hne, require_of ⟨Json.Same.refl _, hnew⟩, if_neg hres, if_neg hres]
    rfl

/-- The calls of a prefix of the journal. -/
def bookOf (ls : List CallLine) : CallBook :=
  ⟨linesById (ls.filter CallLine.isReserved), linesById (ls.filter fun l => !l.isReserved)⟩

theorem notMem_linesById {p : CallLine → Bool} {pre rest : List CallLine} {l : CallLine}
    (hl : p l = true)
    (h : ((pre ++ l :: rest).filter p).Pairwise fun l m => l.call.callId < m.call.callId) :
    (l.call.callId : Int) ∉ (linesById (pre.filter p)).keys := by
  rw [List.filter_append, List.filter_cons_of_pos hl] at h
  rw [keys_linesById]
  intro hm
  obtain ⟨m, hm, he⟩ := List.mem_map.1 hm
  exact absurd (Int.ofNat.inj he) ((List.pairwise_append.1 h).2.2 m hm l List.mem_cons_self).ne

theorem set_linesById {p : CallLine → Bool} {pre rest : List CallLine} {l : CallLine}
    (hl : p l = true)
    (h : ((pre ++ l :: rest).filter p).Pairwise fun l m => l.call.callId < m.call.callId) :
    (linesById (pre.filter p)).set (l.call.callId : Int) l.dict.norm =
      linesById ((pre ++ [l]).filter p) := by
  rw [Dict.set_of_notMem (notMem_linesById hl h), List.filter_append, List.filter_cons_of_pos hl,
    linesById, linesById, List.map_append]
  rfl

/-- A line with a new number is new to the book of the lines before it, and is added to it. -/
theorem bookOf_concat {pre rest : List CallLine} {l : CallLine}
    (hreserved : ((pre ++ l :: rest).filter CallLine.isReserved).Pairwise
      fun l m => l.call.callId < m.call.callId)
    (hfinished : ((pre ++ l :: rest).filter fun l => !l.isReserved).Pairwise
      fun l m => l.call.callId < m.call.callId) :
    ((bookOf pre).side l).get? (l.call.callId : Int) = none ∧
      (bookOf pre).add l = bookOf (pre ++ [l]) := by
  rw [CallBook.add, CallBook.side, Dict.get?_eq_none_iff]
  by_cases hres : l.isReserved = true
  · rw [if_pos hres, if_pos hres]
    refine ⟨notMem_linesById hres hreserved, ?_⟩
    have hside : (pre ++ [l]).filter (fun l => !l.isReserved) = pre.filter fun l => !l.isReserved := by
      simp [hres]
    rw [bookOf, bookOf, set_linesById hres hreserved, hside]
  · have hfin : (!l.isReserved) = true := by simpa using hres
    rw [if_neg hres, if_neg hres]
    refine ⟨notMem_linesById (p := fun l => !l.isReserved) hfin hfinished, ?_⟩
    have hside : (pre ++ [l]).filter CallLine.isReserved = pre.filter CallLine.isReserved := by
      simp [hres]
    rw [bookOf, bookOf, set_linesById (p := fun l => !l.isReserved) hfin hfinished, hside]

theorem checkCalls_ok {jobs : List Job} (hids : (jobs.map Job.runId).Nodup) {ls : List CallLine}
    (hclean : ∀ l ∈ ls, Clean l.dict) (howned : ∀ l ∈ ls, l.call.runId ∈ jobs.map Job.runId) :
    ∀ pre, ((pre ++ ls).filter CallLine.isReserved).Pairwise
        (fun l m => l.call.callId < m.call.callId) →
      ((pre ++ ls).filter fun l => !l.isReserved).Pairwise
        (fun l m => l.call.callId < m.call.callId) →
      checkCalls (entriesOf jobs) (bookOf pre) (ls.map fun l => l.dict.norm) =
        .ok (bookOf (pre ++ ls)) := by
  induction ls with
  | nil => exact fun pre _ _ => by rw [List.append_nil]; rfl
  | cons l ls ih =>
      intro pre hreserved hfinished
      have hmem := List.mem_cons_self (a := l) (l := ls)
      obtain ⟨hnew, hadd⟩ := bookOf_concat hreserved hfinished
      have hrest := ih (fun x hx => hclean x (List.mem_cons_of_mem _ hx))
        (fun x hx => howned x (List.mem_cons_of_mem _ hx)) (pre ++ [l]) (by simpa using hreserved)
        (by simpa using hfinished)
      rw [List.map_cons, checkCalls, checkCall_ok hids (hclean l hmem) (howned l hmem) hnew, hadd]
      simpa [bind, Except.bind] using hrest

/-! ## The files of a run -/

/-- The ledger of every result verifies after it was written. -/
def Verifies (behaviour : Job → Behaviour) (jobs : List Job) : Prop :=
  ∀ job ∈ jobs, ∀ r, (behaviour job).ending = .returned r → ∀ ledger result text,
    r.bind = .ok (ledger, result) → ledger.write = .ok text → ∃ report, verifyLedger text none = .ok report

/-- The trace of a result binds it: its root is the head that the result names, and its last event has
the digest of the result. -/
theorem trace_binds {run : Returned} {ledger : Ledger} {result : Fields} {text : Str}
    (hbind : run.bind = .ok (ledger, result)) (htext : ledger.write = .ok text)
    {report : LedgerReport} (hverified : verifyLedger text none = .ok report) :
    ∃ sha terminal data, digest (.obj run.body) = .ok sha ∧
      result = run.body ++ [(lit "trace_root", Json.str ledger.head)] ∧ report.root = .str ledger.head ∧
      terminalOf text = .ok terminal ∧ terminal.get (lit "data") = .ok data ∧
      data.item (lit "result_sha256") = .ok (.str sha) := by
  obtain ⟨sha, hsha, hrest⟩ := bind_eq_ok.1 hbind
  obtain ⟨l, hadd, hrest⟩ := bind_eq_ok.1 hrest
  cases hrest
  have hwf : (Json.obj [(lit "result_sha256", .str sha), (lit "success", .bool run.success)]).wf = true :=
    by simp [Json.wf, Json.wfFields]; decide
  have hrep := Ledger.add_represents run.represents hwf hadd
  rw [hrep.write] at htext
  cases htext
  obtain ⟨hsafe, hroot⟩ := verifyLedger_root hrep hverified
  have hclean : ∀ d ∈ chain ledgerFormat 0 genesis (run.entries ++
      [eventEntry (lit "run_finished") run.finishedAt _ hwf]), Clean d := fun d hd =>
    ⟨(chain_writable hrep.sealed d hd).1, chain_digestible hrep.sealed d hd,
      (chain_lineSafe_iff lineSafe_genesis _).2 hsafe d hd⟩
  obtain ⟨seq, prev, hlast⟩ := chain_getLast? 0 genesis
    (List.getLast?_concat (l := run.entries) (a := eventEntry (lit "run_finished") run.finishedAt _ hwf))
  refine ⟨sha, ((eventEntry (lit "run_finished") run.finishedAt _ hwf).record ledgerFormat seq prev).norm,
    (Json.obj [(lit "result_sha256", .str sha), (lit "success", .bool run.success)]).norm, hsha, rfl,
    hroot, ?_, ?_, ?_⟩
  · rw [terminalOf, readJsonl_lines hclean]
    simp only [bind, Except.bind, List.getLast?_map, hlast, Option.map_some]
    rfl
  · exact Fields.get_of_get? (get?_record_norm ledgerFormat _ seq prev
      (v := .obj [(lit "result_sha256", .str sha), (lit "success", .bool run.success)])
      (by simp [record_eq, ledgerFormat, eventEntry]))
  · rw [Fields.obj_norm]
    have hnd : ([(lit "result_sha256", Json.str sha), (lit "success", Json.bool run.success)].map
        Prod.fst).Nodup := by
      show [lit "result_sha256", lit "success"].Nodup
      decide
    exact Fields.get_of_get? (by rw [Fields.get?_norm hnd]; rfl)

theorem filter_bound {body : Fields} (h : lit "trace_root" ∉ body.map Prod.fst) (root : Json) :
    (body ++ [(lit "trace_root", root)]).filter (fun kv => kv.1 ≠ lit "trace_root") = body := by
  rw [List.filter_append, List.filter_eq_self.2, List.filter_eq_nil_iff.2, List.append_nil]
  · simp
  · intro kv hkv
    simp only [ne_eq, decide_not, Bool.not_eq_true', decide_eq_false_iff_not]
    exact fun he => h (he ▸ List.mem_map.2 ⟨kv, hkv, rfl⟩)

theorem checkResult_ok {behaviour : Job → Behaviour} {r : Row} (hr : Clean r.dict)
    (hfiled : r.Filed (behaviour r.job) d) (hverifies : Verifies behaviour jobs) (hjob : r.job ∈ jobs) :
    checkResult d r.job.runId r.dict.norm = .ok () := by
  obtain ⟨run, ledger, result, text, graded, sha, hending, hbind, hsha, htext, hgraded, hpassed, hresult,
    hcontroller, hsuccess, hfile, htrace⟩ := hfiled
  obtain ⟨report, hreport⟩ := hverifies r.job hjob run hending ledger result text hbind htext
  obtain ⟨body, terminal, data, hbody, rfl, hroot, hterminal, hdata, hbound⟩ :=
    trace_binds hbind htext hreport
  have hnd : ((run.body ++ [(lit "trace_root", Json.str ledger.head)]).map Prod.fst).Nodup := by
    have hwf := run.wf
    rw [Json.wf, Bool.and_eq_true, decide_eq_true_eq] at hwf
    rw [List.map_append, List.map_singleton]
    exact List.nodup_append'.2 ⟨hwf.1, List.nodup_singleton _,
      List.disjoint_singleton.2 run.unbound⟩
  have hget : Fields.get (run.body ++ [(lit "trace_root", Json.str ledger.head)]) (lit "success") =
      .ok (.bool run.success) :=
    Fields.get_of_get? (Fields.get?_of_mem hnd
      (List.mem_append_left _ (Fields.mem_of_get? run.success_eq)))
  have hgetroot : Fields.get (run.body ++ [(lit "trace_root", Json.str ledger.head)])
      (lit "trace_root") = .ok (.str ledger.head) :=
    Fields.get_of_get? (Fields.get?_of_mem hnd (List.mem_append_right _ List.mem_cons_self))
  have hexpected : Fields.get r.dict.norm (lit "result_sha256") = .ok (.str sha) := by
    have := hr.item (Row.graded_mem hgraded (lit "result_sha256", .str graded.resultSha256)
      (by simp [Graded.dict]))
    rwa [hresult] at this
  have houtcome : outcomeOf r.dict.norm = .ok r.success := by
    have hgrade := hr.item (Row.graded_mem hgraded (lit "grade", verdictDict graded.passed)
      List.mem_cons_self)
    rw [outcomeOf, Row.controller_read hr, hsuccess, hcontroller]
    cases run.success with
    | false => rfl
    | true =>
        simp only [bind, Except.bind, Json.truthy, if_true, hgrade, hpassed, Bool.true_and]
        cases run.passed <;> rfl
  rw [checkResult, readResult, hfile]
  simp only [bind, Except.bind, hsha, hexpected, hget, Row.controller_read hr, houtcome,
    Row.success_read hr, readTrace, htrace, hreport, hterminal, hgetroot, hdata, hbound, hroot,
    filter_bound run.unbound, hbody, hcontroller, require_of (Json.Same.refl _)]

end ResidualHarness.Study
