import ResidualHarness.AiProviders.Attempts

/-!
# Calls and streams keep their receipts

`chat` always keeps `Receipted`. A stream is followed from one `yield` to the next: what was read of the
current candidate is a list of chunks (`Current`), and the candidates before it failed before their first
chunk (`Prior`). The one way to lose a receipt is a stream that ends with a report that `ChatResponse`
refuses (`Router.Reportable`).
-/

set_option autoImplicit false

namespace ResidualHarness.AiProviders

open Python Core

variable [FloatModel] {router : Router} {call : Call} {req : ChatRequest}

/-! ## Attempts that begin -/

theorem candidatesOf_ok {model : Str} {failover : Option (List Str)} {candidates : List Str}
    (h : candidatesOf model failover = .ok candidates) :
    candidates = model :: failover.getD [] ∧ candidates.length ≤ 5 ∧ candidates.Nodup := by
  unfold candidatesOf at h
  dsimp only at h
  split at h
  · cases h
  · rename_i hnot
    cases h
    rw [not_or, not_not] at hnot
    exact ⟨rfl, by omega, hnot.2⟩

theorem begin_attempt {candidate : Str} {index : Nat} {stream : Bool} {a : Attempt}
    (h : router.begin call candidate req index stream = .ok a) : a.begun.attempt = index := by
  obtain ⟨ref, -, h⟩ := bind_eq_ok.1 h
  obtain ⟨provider, -, h⟩ := bind_eq_ok.1 h
  obtain ⟨q, -, h⟩ := bind_eq_ok.1 h
  obtain ⟨bytes, -, h⟩ := bind_eq_ok.1 h
  cases Except.ok.inj h
  rfl

/-! ## Calls -/

/-- The result of a call is the response of the attempt that has ended. -/
def Answered (call : Call) (result : Except Raised ChatResponse) (trace : List Event) : Prop :=
  ∀ i, .ended i ∈ trace → ∃ response, call.chat i = .response response ∧ result = .ok response

/-- A response is returned only with its end recorded. -/
def Handed (result : Except Raised ChatResponse) (trace : List Event) : Prop :=
  ∀ response, result = .ok response → ∃ i, .ended i ∈ trace

variable (router) in
theorem chatFrom_receipted (candidates : List Str) : ∀ (first : Nat) (last : Option ProviderError),
    let after := router.chatFrom call req first candidates last
    Receipted first candidates True after.1 ∧ Answered call after.2 after.1 ∧
      Handed after.2 after.1 := by
  induction candidates with
  | nil =>
      exact fun first _ => ⟨receipted_nil _ _ _, fun _ h => (by cases h), fun _ h => by cases h⟩
  | cons candidate rest ih =>
      intro first last
      simp only [Router.chatFrom]
      cases hbegin : router.begin call candidate req first false with
      | error e => exact ⟨receipted_nil _ _ _, fun _ h => (by cases h), fun _ h => by cases h⟩
      | ok a =>
          have hbegun := begin_attempt hbegin
          -- an attempt that failed, with what follows it
          have hfail : ∀ error : ProviderError,
              let after := if error.retryable = true then
                  router.chatFrom call req (first + 1) rest (some error)
                else ([], .error (.provider error))
              let trace := .dispatched first candidate a.routed ::
                Router.endFailed call a.begun error :: after.1
              Receipted first (candidate :: rest) True trace ∧ Answered call after.2 trace ∧
                Handed after.2 trace := by
            intro error
            by_cases hretry : error.retryable = true
            · simp only [if_pos hretry]
              obtain ⟨hrest, hanswered, hhanded⟩ := ih (first + 1) (some error)
              refine ⟨hrest.retry hbegun hretry, fun i hi => ?_, fun r hr => ?_⟩
              · simp only [Router.endFailed, List.mem_cons, reduceCtorEq, false_or] at hi
                exact hanswered i hi
              · obtain ⟨i, hi⟩ := hhanded r hr
                exact ⟨i, List.mem_cons_of_mem _ (List.mem_cons_of_mem _ hi)⟩
            · simp only [if_neg hretry]
              refine ⟨receipted_last hbegun [] (.failed error), fun i hi => ?_,
                fun _ h => by cases h⟩
              simp [Router.endFailed] at hi
          cases hchat : call.chat first with
          | response response =>
              have hlast : Receipted first (candidate :: rest) True
                  (.dispatched first candidate a.routed ::
                    [Router.endCompleted call a.begun response, .ended a.begun.attempt]) :=
                receipted_last hbegun [] (.completed response)
              rw [hbegun] at hlast
              refine ⟨hlast, fun i hi => ?_, fun r _ => ⟨first, by simp⟩⟩
              simp only [Router.endCompleted, List.mem_cons, reduceCtorEq, Event.ended.injEq,
                List.not_mem_nil, or_false, false_or] at hi
              exact ⟨response, hi ▸ hchat, rfl⟩
          | value => exact hfail _
          | raised e => exact hfail _

/-! ## Streams -/

/-- The stream yields these chunks first. -/
def Reads (s : Nat → Yielded) (chunks : List StreamChunk) : Prop :=
  ∀ k chunk, chunks[k]? = some chunk → s k = .chunk chunk

/-- The stream yields these chunks and ends. -/
def Ends (s : Nat → Yielded) (chunks : List StreamChunk) : Prop :=
  Reads s chunks ∧ s chunks.length = .stop

/-- The report of a stream after these chunks. -/
def reportOf (chunks : List StreamChunk) : Report := chunks.foldl Report.push .none

/-- If the stream ends, its last finish reason is known and its counters are nonnegative integers. -/
def Reported (s : Nat → Yielded) : Prop :=
  ∀ chunks, Ends s chunks → isReported (reportOf chunks).reason (reportOf chunks).usage = true

/-- The first read of the attempt fails with an error that lets the router go on. -/
def Skips (call : Call) (index : Nat) (a : Attempt) (error : ProviderError) : Prop :=
  ∃ e, call.stream index 0 = .raised e ∧ error = Router.errorOf a.provider e ∧
    error.retryable = true

/-- The stream of the candidate that serves the call, the first that does not skip, is reported. -/
def Router.Reportable (router : Router) (call : Call) (req : ChatRequest) : Nat → List Str → Prop
  | _, [] => True
  | index, candidate :: rest => ∀ a, router.begin call candidate req index true = .ok a →
      Reported (call.stream index) ∧
        ∀ error, Skips call index a error → router.Reportable call req (index + 1) rest

/-- The candidates that were skipped, and those that are left. -/
inductive Prior (router : Router) (call : Call) (req : ChatRequest) :
    Nat → List Str → List Event → Nat → List Str → Prop where
  | nil (index : Nat) (candidates : List Str) : Prior router call req index candidates [] index candidates
  | skip {index left : Nat} {candidate : Str} {rest remaining : List Str} {trace : List Event}
      {a : Attempt} {error : ProviderError} :
      router.begin call candidate req index true = .ok a → Skips call index a error →
      Prior router call req (index + 1) rest trace left remaining →
      Prior router call req index (candidate :: rest)
        (.dispatched index candidate a.routed :: Router.endFailed call a.begun error :: trace)
        left remaining

section

variable {first index : Nat} {candidates rest : List Str} {trace : List Event}

theorem Prior.extend {isOver : Prop} {tail : List Event}
    (h : Prior router call req first candidates trace index rest)
    (htail : Receipted index rest isOver tail) : Receipted first candidates isOver (trace ++ tail) := by
  induction h with
  | nil => exact htail
  | skip hbegin hskips _ ih =>
      obtain ⟨e, -, -, hretry⟩ := hskips
      exact (ih htail).retry (begin_attempt hbegin) hretry

theorem Prior.settled (h : Prior router call req first candidates trace index rest) :
    receipted trace = (dispatches trace).map Prod.snd := by
  have := (h.extend (receipted_nil index rest True)).settled trivial
  rwa [List.append_nil] at this

theorem Prior.not_ended (h : Prior router call req first candidates trace index rest) (i : Nat) :
    .ended i ∉ trace := by
  induction h with
  | nil => exact List.not_mem_nil
  | skip _ _ _ ih => simpa [Router.endFailed] using ih

theorem Prior.reportable (h : Prior router call req first candidates trace index rest)
    (hr : router.Reportable call req first candidates) : router.Reportable call req index rest := by
  induction h with
  | nil => exact hr
  | skip hbegin hskips _ ih => exact ih ((hr _ hbegin).2 _ hskips)

/-- A call is reportable if every candidate that it can reach is. -/
theorem reportable_of_reached (candidates : List Str) : ∀ first,
    (∀ trace index candidate rest a, Prior router call req first candidates trace index
      (candidate :: rest) → router.begin call candidate req index true = .ok a →
        Reported (call.stream index)) → router.Reportable call req first candidates := by
  induction candidates with
  | nil => exact fun _ _ => trivial
  | cons candidate rest ih =>
      intro first h a hbegin
      refine ⟨h [] first candidate rest a (.nil _ _) hbegin, fun error hskips => ?_⟩
      exact ih (first + 1) fun trace index c ds b hprior hb =>
        h _ index c ds b (.skip hbegin hskips hprior) hb

/-- No candidate is left, or the next one does not skip. -/
def Stands (router : Router) (call : Call) (req : ChatRequest) (index : Nat) : List Str → Prop
  | [] => True
  | candidate :: _ => ∀ a error, router.begin call candidate req index true = .ok a →
      ¬ Skips call index a error

variable (router call req) in
theorem exists_prior (candidates : List Str) : ∀ first, ∃ trace index rest,
    Prior router call req first candidates trace index rest ∧ Stands router call req index rest := by
  induction candidates with
  | nil => exact fun first => ⟨[], first, [], .nil _ _, trivial⟩
  | cons candidate rest ih =>
      intro first
      by_cases hskip : ∃ a error, router.begin call candidate req first true = .ok a ∧
          Skips call first a error
      · obtain ⟨a, error, hbegin, hskips⟩ := hskip
        obtain ⟨trace, index, ds, hprior, hstands⟩ := ih (first + 1)
        exact ⟨_, index, ds, .skip hbegin hskips hprior, hstands⟩
      · exact ⟨[], first, _, .nil _ _, fun a error hbegin hskips =>
          hskip ⟨a, error, hbegin, hskips⟩⟩

/-- The skipped candidates are what the loop does first. -/
theorem Prior.streamFrom (h : Prior router call req first candidates trace index rest)
    (last : Option ProviderError) : ∃ last', router.streamFrom call req first candidates last =
      let after := router.streamFrom call req index rest last'
      { after with events := trace ++ after.events } := by
  induction h generalizing last with
  | nil => exact ⟨last, rfl⟩
  | @skip index left candidate rest remaining trace a error hbegin hskips _ ih =>
      obtain ⟨e, he, rfl, hretry⟩ := hskips
      obtain ⟨last', hlast⟩ := ih (some (Router.errorOf a.provider e))
      refine ⟨last', ?_⟩
      rw [Router.streamFrom, hbegin]
      simp only [Router.read, Router.startReading, he, Router.caught, hretry, lt_irrefl, decide_false,
        and_self, if_true, hlast]
      rfl

end

/-! ## What a call promises -/

/-- The attempts of a call: in order, each candidate at most once, at most five. -/
structure Attempts (model : Str) (failover : Option (List Str)) (isOver : Prop) (trace : List Event) :
    Prop where
  receipted : Receipted 1 (model :: failover.getD []) isOver trace
  once : ((dispatches trace).map Prod.fst).Nodup
  bounded : (dispatches trace).length ≤ 5

theorem attempts_of_receipted {model : Str} {failover : Option (List Str)} {candidates : List Str}
    (hc : candidatesOf model failover = .ok candidates) {isOver : Prop} {trace : List Event}
    (h : Receipted 1 candidates isOver trace) : Attempts model failover isOver trace := by
  obtain ⟨rfl, hlength, hnodup⟩ := candidatesOf_ok hc
  refine ⟨h, ?_, ?_⟩
  · have := h.ordered.map Prod.fst
    rw [List.zipIdx_map_fst] at this
    exact hnodup.sublist this.sublist
  · have := h.ordered.length_le
    rw [List.length_zipIdx] at this
    omega

theorem attempts_nil (model : Str) (failover : Option (List Str)) (isOver : Prop) :
    Attempts model failover isOver [] :=
  ⟨receipted_nil _ _ _, List.nodup_nil, Nat.zero_le _⟩

/-- The chunks that were delivered. -/
def deliveries (trace : List Event) : List StreamChunk :=
  trace.filterMap fun
    | .delivered _ chunk => some chunk
    | _ => none

/-- A stream that has ended was delivered in full. -/
def Whole (call : Call) (trace : List Event) : Prop :=
  ∀ i, .ended i ∈ trace → Ends (call.stream i) (deliveries trace)

/-! ## The generator -/

/-- A candidate that is being read, and the chunks that were. -/
structure Current (router : Router) (call : Call) (req : ChatRequest) (candidates : List Str)
    (reading : Reading) (prior : List Event) (candidate : Str) (chunks : List StreamChunk) : Prop where
  prior : Prior router call req 1 candidates prior reading.index (candidate :: reading.rest)
  begun : router.begin call candidate req reading.index true = .ok reading.attempt
  reads : Reads (call.stream reading.index) chunks
  count : reading.count = chunks.length
  report : reading.report = reportOf chunks

/-- The events of skipped candidates and of the one that is being read. -/
def openTrace (reading : Reading) (prior : List Event) (candidate : Str) (chunks : List StreamChunk) :
    List Event :=
  prior ++ Event.dispatched reading.index candidate reading.attempt.routed ::
    chunks.map (.delivered reading.index)

/-- The invariant of a generator and the events so far. -/
def Generator.Kept (router : Router) (call : Call) (model : Str) (req : ChatRequest)
    (failover : Option (List Str)) : Generator → List Event → Prop
  | .fresh, trace => trace = []
  | .suspended reading, trace => ∃ candidates prior candidate chunks,
      candidatesOf model failover = .ok candidates ∧ chunks ≠ [] ∧
        Current router call req candidates reading prior candidate chunks ∧
          trace = openTrace reading prior candidate chunks
  | .finished, trace => Attempts model failover True trace ∧ Whole call trace

theorem Prior.deliveries {first index : Nat} {candidates rest : List Str} {trace : List Event}
    (h : Prior router call req first candidates trace index rest) : deliveries trace = [] := by
  induction h with
  | nil => rfl
  | skip _ _ _ ih => exact ih

section

variable {model : Str} {failover : Option (List Str)} {candidates : List Str} {reading : Reading}
  {prior : List Event} {candidate : Str} {chunks : List StreamChunk}

theorem Current.receipted (h : Current router call req candidates reading prior candidate chunks)
    {isOver : Prop} {tail : List Event} (htail : Last call reading.attempt.begun isOver tail) :
    Receipted 1 candidates isOver (openTrace reading prior candidate chunks ++ tail) := by
  rw [openTrace, List.append_assoc, List.cons_append]
  exact h.prior.extend (receipted_last (begin_attempt h.begun) chunks htail)

theorem Current.not_ended (h : Current router call req candidates reading prior candidate chunks)
    (i : Nat) : .ended i ∉ openTrace reading prior candidate chunks := by
  simp [openTrace, h.prior.not_ended i]

theorem Current.deliveries (h : Current router call req candidates reading prior candidate chunks)
    (tail : List Event) : deliveries (openTrace reading prior candidate chunks ++ tail) =
      chunks ++ AiProviders.deliveries tail := by
  have hprior := h.prior.deliveries
  simp only [openTrace, AiProviders.deliveries, List.filterMap_append, List.filterMap_cons,
    List.filterMap_map] at hprior ⊢
  rw [hprior, List.nil_append]
  congr 1
  simp

theorem Current.failed (h : Current router call req candidates reading prior candidate chunks)
    (hc : candidatesOf model failover = .ok candidates) (error : ProviderError) :
    Generator.finished.Kept router call model req failover
      (openTrace reading prior candidate chunks ++
        [Router.endFailed call reading.attempt.begun error]) := by
  refine ⟨attempts_of_receipted hc (h.receipted (.failed error)), fun i hi => ?_⟩
  rcases List.mem_append.1 hi with hi | hi
  · exact absurd hi (h.not_ended i)
  · simp [Router.endFailed] at hi

theorem Current.read (h : Current router call req candidates reading prior candidate chunks)
    (hc : candidatesOf model failover = .ok candidates)
    (hskip : reading.count = 0 → ∀ error, ¬ Skips call reading.index reading.attempt error)
    (hreported : Reported (call.stream reading.index)) (retry : ProviderError → Resumed) :
    (Router.read call reading retry).generator.Kept router call model req failover
      (openTrace reading prior candidate chunks ++ (Router.read call reading retry).events) := by
  have hcaught : ∀ emitted e, ((Router.errorOf reading.attempt.provider e).retryable = true →
      emitted = true) → Router.caught call reading emitted retry e = ⟨.finished,
        [Router.endFailed call reading.attempt.begun (Router.errorOf reading.attempt.provider e)],
        .raised (.provider (Router.errorOf reading.attempt.provider e))⟩ := by
    intro emitted e hretry
    have hnot : ¬ ((Router.errorOf reading.attempt.provider e).retryable = true ∧
        emitted = false) := fun ⟨hr, hemitted⟩ => by simp [hretry hr] at hemitted
    simp only [Router.caught, if_neg hnot]
  unfold Router.read
  cases hread : call.stream reading.index reading.count with
  | chunk chunk =>
      refine ⟨candidates, prior, candidate, chunks ++ [chunk], hc, by simp, ⟨h.prior, h.begun, ?_, ?_, ?_⟩,
        ?_⟩
      · -- the chunks that were read, and the one that is read now
        intro k d hk
        rcases Nat.lt_or_ge k chunks.length with hlt | hge
        · rw [List.getElem?_append_left hlt] at hk
          exact h.reads k d hk
        · rw [List.getElem?_append_right hge, List.getElem?_singleton] at hk
          split at hk
          · cases hk
            have hk' : k = reading.count := by rw [h.count]; omega
            rw [hk']
            exact hread
          · cases hk
      · simp [Reading.push, h.count]
      · simp [Reading.push, h.report, reportOf]
      · simp [openTrace, Reading.push]
  | value e =>
      simp only
      rw [hcaught true e fun _ => rfl]
      exact h.failed hc _
  | raised e =>
      simp only
      rw [hcaught _ e ?_]
      · exact h.failed hc _
      · intro hretry
        rw [decide_eq_true_eq, Nat.pos_iff_ne_zero]
        intro hzero
        exact hskip hzero _ ⟨e, hzero ▸ hread, rfl, hretry⟩
  | stop =>
      have hends : Ends (call.stream reading.index) chunks := ⟨h.reads, h.count ▸ hread⟩
      have hok := hreported chunks hends
      rw [← h.report] at hok
      simp only [ChatResponse.new, dif_pos hok]
      refine ⟨attempts_of_receipted hc ?_, fun i hi => ?_⟩
      · have hlast : Last call reading.attempt.begun True _ := .completed
          ⟨reading.attempt.routed.model, [], [], reading.report.reason, reading.report.usage, hok⟩
        have := h.receipted hlast
        rwa [begin_attempt h.begun] at this
      · rw [h.deliveries]
        rcases List.mem_append.1 hi with hi | hi
        · exact absurd hi (h.not_ended i)
        · simp only [Router.endCompleted, List.mem_cons, reduceCtorEq, Event.ended.injEq,
            List.not_mem_nil, or_false, false_or] at hi
          subst hi
          simpa [Router.endCompleted, AiProviders.deliveries] using hends

/-- The loop over the candidates keeps the invariant, from the first that does not skip. -/
theorem streamFrom_kept (hc : candidatesOf model failover = .ok candidates)
    (hreportable : router.Reportable call req 1 candidates) (last : Option ProviderError) :
    (router.streamFrom call req 1 candidates last).generator.Kept router call model req failover
      (router.streamFrom call req 1 candidates last).events := by
  obtain ⟨trace, index, rest, hprior, hstands⟩ := exists_prior router call req candidates 1
  obtain ⟨last', hlast⟩ := hprior.streamFrom last
  rw [hlast]
  -- no attempt follows the ones that were skipped
  have hover : Generator.finished.Kept router call model req failover (trace ++ []) :=
    ⟨attempts_of_receipted hc (hprior.extend (receipted_nil _ _ _)), fun i hi => by
      rw [List.append_nil] at hi
      exact absurd hi (hprior.not_ended i)⟩
  cases rest with
  | nil => exact hover
  | cons candidate rest =>
      simp only [Router.streamFrom]
      cases hbegin : router.begin call candidate req index true with
      | error e => exact hover
      | ok a =>
          have hcurrent : Current router call req candidates (Router.startReading index rest a) trace
              candidate [] := ⟨hprior, hbegin, nofun, rfl, rfl⟩
          have := hcurrent.read hc (fun _ error => hstands a error hbegin)
            (hprior.reportable hreportable a hbegin).1
            (fun error => router.streamFrom call req (index + 1) rest (some error))
          simpa [openTrace, Router.startReading] using this

theorem drive_kept {g : Generator} {trace : List Event}
    (hreportable : ∀ candidates, candidatesOf model failover = .ok candidates →
      router.Reportable call req 1 candidates)
    (h : g.Kept router call model req failover trace) (demand : Demand) :
    (router.drive call model req failover (g, trace) demand).1.Kept router call model req failover
      (router.drive call model req failover (g, trace) demand).2 := by
  cases g with
  | fresh =>
      cases h
      cases demand with
      | close => exact ⟨attempts_nil _ _ _, nofun⟩
      | next =>
          simp only [Router.drive, Router.resume, List.nil_append]
          cases hc : candidatesOf model failover with
          | error e => exact ⟨attempts_nil _ _ _, nofun⟩
          | ok candidates => exact streamFrom_kept hc (hreportable candidates hc) none
  | suspended reading =>
      obtain ⟨candidates, prior, candidate, chunks, hc, hne, hcurrent, rfl⟩ := h
      cases demand with
      | close => exact hcurrent.failed hc _
      | next =>
          refine hcurrent.read hc (fun hzero => ?_)
            (hcurrent.prior.reportable (hreportable candidates hc) _ hcurrent.begun).1 _
          -- a chunk was read
          have := hcurrent.count
          rw [hzero] at this
          exact absurd (List.length_eq_zero_iff.1 this.symm) hne
  | finished =>
      cases demand <;> simpa [Router.drive, Router.resume] using h

theorem stream_kept (hreportable : ∀ candidates, candidatesOf model failover = .ok candidates →
      router.Reportable call req 1 candidates) (demands : List Demand) :
    (router.stream call model req failover demands).1.Kept router call model req failover
      (router.stream call model req failover demands).2 := by
  induction demands using List.reverseRecOn with
  | nil => rfl
  | append_singleton demands demand ih =>
      rw [Router.stream, List.foldl_append]
      exact drive_kept hreportable ih demand

theorem Generator.Kept.attempts {g : Generator} {trace : List Event}
    (h : g.Kept router call model req failover trace) :
    Attempts model failover (g = .finished) trace ∧ Whole call trace := by
  cases g with
  | fresh =>
      cases h
      exact ⟨attempts_nil _ _ _, nofun⟩
  | suspended reading =>
      obtain ⟨candidates, prior, candidate, chunks, hc, -, hcurrent, rfl⟩ := h
      refine ⟨attempts_of_receipted hc ?_, fun i hi => absurd hi (hcurrent.not_ended i)⟩
      have hlast : Last call reading.attempt.begun (Generator.suspended reading = .finished) [] :=
        .suspended nofun
      simpa using hcurrent.receipted hlast
  | finished => simpa [Generator.Kept] using h

/-! ## A report that is refused -/

/-- A stream that is read to an end whose report is refused: its chunks are delivered, and nothing
follows. -/
theorem drive_refused (rest : List StreamChunk) : ∀ (reading : Reading) (trace : List Event)
    (retry : ProviderError → Resumed), (∀ k chunk, rest[k]? = some chunk →
      call.stream reading.index (reading.count + k) = .chunk chunk) →
    call.stream reading.index (reading.count + rest.length) = .stop →
    isReported (rest.foldl Report.push reading.report).reason
      (rest.foldl Report.push reading.report).usage ≠ true →
    (List.replicate rest.length Demand.next).foldl (router.drive call model req failover)
      ((Router.read call reading retry).generator, trace ++ (Router.read call reading retry).events) =
        (.finished, trace ++ rest.map (Event.delivered reading.index)) := by
  induction rest with
  | nil =>
      intro reading trace retry _ hstop hrefused
      obtain ⟨e, he⟩ := ChatResponse.new_refused reading.attempt.routed.model [] hrefused
      have hread : Router.read call reading retry = ⟨.finished, [], .raised e⟩ := by
        rw [Router.read, show call.stream reading.index reading.count = .stop from hstop]
        simp only [List.foldl_nil] at he
        simp only [he]
      rw [hread]
      rfl
  | cons chunk rest ih =>
      intro reading trace retry hreads hstop hrefused
      have hread : Router.read call reading retry = ⟨.suspended (reading.push chunk),
          [.delivered reading.index chunk], .yielded chunk⟩ := by
        rw [Router.read, show call.stream reading.index reading.count = .chunk chunk from
          hreads 0 chunk rfl]
      have hshift : ∀ k, (reading.push chunk).count + k = reading.count + (k + 1) := fun k =>
        (Nat.add_assoc reading.count 1 k).trans (congrArg _ (Nat.add_comm 1 k))
      have hnext := ih (reading.push chunk) (trace ++ [Event.delivered reading.index chunk])
        (fun error => router.streamFrom call req (reading.index + 1) reading.rest (some error))
        (fun k d hk => by
          rw [hshift]
          exact hreads (k + 1) d hk)
        (by
          rw [hshift]
          exact hstop) hrefused
      rw [hread, List.length_cons, List.replicate_succ, List.foldl_cons, List.map_cons,
        List.append_cons trace _ (rest.map _)]
      exact hnext

/-- The stream of a candidate that is reached, and whose report is refused, is never receipted. -/
theorem refused_unreceipted {index : Nat} {rest : List Str} {a : Attempt} {trace : List Event}
    (hc : candidatesOf model failover = .ok candidates)
    (hprior : Prior router call req 1 candidates trace index (candidate :: rest))
    (hbegin : router.begin call candidate req index true = .ok a) {chunks : List StreamChunk}
    (hends : Ends (call.stream index) chunks)
    (hrefused : isReported (reportOf chunks).reason (reportOf chunks).usage ≠ true) :
    ∃ demands, (router.stream call model req failover demands).1 = .finished ∧
      receipted (router.stream call model req failover demands).2 ≠
        (dispatches (router.stream call model req failover demands).2).map Prod.snd := by
  obtain ⟨last, hlast⟩ := hprior.streamFrom none
  have hrun : router.stream call model req failover
      (List.replicate (chunks.length + 1) Demand.next) =
        (.finished, (trace ++ [Event.dispatched index candidate a.routed]) ++
          chunks.map (.delivered index)) := by
    rw [Router.stream, List.replicate_succ, List.foldl_cons, Router.drive]
    simp only [Router.resume, hc, hlast, Router.streamFrom, hbegin, List.nil_append]
    rw [List.append_cons]
    refine drive_refused chunks (Router.startReading index rest a) _ _ (fun k chunk hk => ?_) ?_
      hrefused
    · simpa [Router.startReading] using hends.1 k chunk hk
    · simpa [Router.startReading] using hends.2
  refine ⟨_, congrArg Prod.fst hrun, fun heq => ?_⟩
  rw [hrun] at heq
  -- one attempt more is dispatched than receipted
  have hlength := congrArg List.length heq
  have hskipped := congrArg List.length hprior.settled
  simp only [receipted_append, receipted_delivered, dispatches_append, dispatches_delivered,
    List.append_nil, List.length_append, List.map_append, List.length_map] at hlength hskipped
  simp [receipted, dispatches] at hlength hskipped
  omega

end

end ResidualHarness.AiProviders
