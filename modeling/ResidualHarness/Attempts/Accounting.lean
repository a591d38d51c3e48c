import ResidualHarness.Attempts.AttemptGuard

/-!
# Accounting of the attempt guard

What every call of the guard preserves (`Accounts`), from one spec for each of its parts, and the
laws over sequences of calls with any arguments, clock readings and failures of the hooks
(`guard_accounting`).
-/

set_option autoImplicit false

namespace ResidualHarness.Factory

open Python Core

variable [FloatModel] {ω : Type}

/-! ## What stays the same -/

/-- The settlement that a note records. -/
def GuardNote.settlement : GuardNote → Option (Str × Int × Int)
  | .settled ticket reserved actual => some (ticket, reserved, actual)
  | .observed _ => none

/-- The settlements, in order: the ticket, its reservation and the tokens reported. -/
def settlements (trace : List GuardNote) : List (Str × Int × Int) :=
  trace.filterMap GuardNote.settlement

/-- The accounts are as they were. -/
structure Same (g g' : Guard ω) : Prop where
  contract : g'.contract = g.contract
  tokens : g'.tokens = g.tokens
  toolCalls : g'.toolCalls = g.toolCalls
  fileWrites : g'.fileWrites = g.fileWrites
  reservations : g'.reservations = g.reservations
  ticket : g'.ticket = g.ticket
  settled : settlements g'.trace = settlements g.trace

theorem Same.refl (g : Guard ω) : Same g g := ⟨rfl, rfl, rfl, rfl, rfl, rfl, rfl⟩

theorem Same.trans {g₁ g₂ g₃ : Guard ω} (h : Same g₁ g₂) (k : Same g₂ g₃) : Same g₁ g₃ :=
  ⟨k.contract.trans h.contract, k.tokens.trans h.tokens, k.toolCalls.trans h.toolCalls,
    k.fileWrites.trans h.fileWrites, k.reservations.trans h.reservations,
    k.ticket.trans h.ticket, k.settled.trans h.settled⟩

/-- Programs of which only the end matters. -/
def Ends {α : Type} (m : Guarded ω α) (g : Guard ω) (post : α → Guard ω → Prop)
    (err : Guard ω → Prop) : Prop :=
  Runs (fun _ _ => True) m g post fun _ => err

/-- The guard after an acknowledged event. -/
def Noted (g g' : Guard ω) (event : Str) : Prop :=
  ∃ w, g' = { g with world := w, trace := g.trace ++ [.observed event] }

theorem Noted.same {g g' : Guard ω} {event : Str} (h : Noted g g' event) : Same g g' := by
  obtain ⟨w, rfl⟩ := h
  refine ⟨rfl, rfl, rfl, rfl, rfl, rfl, ?_⟩
  rw [settlements, List.filterMap_append]
  exact List.append_nil _

theorem Noted.state {g g' : Guard ω} {event : Str} (h : Noted g g' event) : g'.state = g.state := by
  obtain ⟨w, rfl⟩ := h
  rfl

/-- A call that was not carried out: the accounts are as they were, and the state is as it was or
one of failure. -/
def Stopped (g g' : Guard ω) : Prop :=
  Same g g' ∧ (g'.state = g.state ∨ g'.state = .auditFailed ∨ g'.state = .violated)

/-- A violation. -/
def Violated (g g' : Guard ω) : Prop := Same g g' ∧ g'.state = .violated

theorem Violated.stopped {g g' : Guard ω} (h : Violated g g') : Stopped g g' :=
  ⟨h.1, Or.inr (Or.inr h.2)⟩

/-! ## The parts of a call -/

section Parts

variable (h : Hooks ω) {g : Guard ω}

theorem observeHook_ends (event : Str) (fields : GuardEvent) :
    Ends (observeHook h event fields) g
      (fun r g' => (r = .returned → Noted g g' event) ∧ Same g g' ∧ g'.state = g.state)
      fun _ => False := by
  apply runs_bind (runs_read _)
  apply runs_bind (runs_write trivial _)
  apply runs_pure
  refine ⟨?_, ⟨rfl, rfl, rfl, rfl, rfl, rfl, ?_⟩, rfl⟩
  · intro hr
    refine ⟨(h.observe g.world fields).2, ?_⟩
    rw [if_pos hr]
  · rw [settlements, List.filterMap_append]
    split
    · exact List.append_nil _
    · exact List.append_nil _

theorem terminateHook_ends :
    Ends (terminateHook h) g (fun _ g' => Same g g' ∧ g'.state = g.state) fun _ => False := by
  apply runs_bind (runs_read _)
  apply runs_bind (runs_write trivial _)
  apply runs_pure
  exact ⟨⟨rfl, rfl, rfl, rfl, rfl, rfl, rfl⟩, rfl⟩

theorem readClock_ends [FloatArith] :
    Ends (readClock h) g
      (fun now g' => (∃ w, g' = { g with world := w }) ∧
        ∀ t, now = some t → ∃ v, (h.clock g.world).1 = .value v ∧ numberOf v = some t)
      fun g' => ∃ w, g' = { g with world := w } := by
  apply runs_bind (runs_read _)
  apply runs_bind (runs_write trivial _)
  cases hr : (h.clock g.world).1 with
  | value v =>
      apply runs_pure
      exact ⟨⟨_, rfl⟩, fun t ht => ⟨v, rfl, ht⟩⟩
  | raised =>
      apply runs_pure
      exact ⟨⟨_, rfl⟩, nofun⟩
  | aborted =>
      apply runs_raise
      exact ⟨_, rfl⟩

theorem auditFailure_ends (e : PyExn) :
    Ends (auditFailure h e) g (fun _ _ => False) (fun g' => Same g g' ∧ g'.state = .auditFailed) := by
  apply runs_bind (runs_write trivial _)
  apply runs_bind
  refine (terminateHook_ends h).conseq ?_ fun _ _ _ hf => hf.elim
  rintro r g' - ⟨hs, hst⟩
  have hfirst : Same g { g with state := .auditFailed } := ⟨rfl, rfl, rfl, rfl, rfl, rfl, rfl⟩
  have hend : Same g g' ∧ g'.state = .auditFailed := ⟨hfirst.trans hs, hst⟩
  split
  · exact runs_raise hend
  · exact runs_raise hend

theorem emit_ends (event : Str) (data : GuardEvent) :
    Ends (emit h event data) g (fun _ g' => Noted g g' event) (Stopped g) := by
  apply runs_bind (runs_read _)
  split
  · refine (auditFailure_ends h _).conseq (fun _ _ _ hf => hf.elim) ?_
    rintro - g' - ⟨hs, hst⟩
    exact ⟨hs, Or.inr (Or.inl hst)⟩
  · apply runs_bind
    refine (observeHook_ends h event _).conseq ?_ fun _ _ _ hf => hf.elim
    rintro r g' - ⟨hnoted, hs, hst⟩
    cases r with
    | returned => exact runs_pure (hnoted rfl)
    | raised e =>
        refine (auditFailure_ends h e).conseq (fun _ _ _ hf => hf.elim) ?_
        rintro - g'' - ⟨hs', hst'⟩
        exact ⟨hs.trans hs', Or.inr (Or.inl hst')⟩
    | aborted => exact runs_raise ⟨hs, Or.inl hst⟩

theorem violate_ends (boundary field : Str) (action : Value) :
    Ends (violate h boundary field action) g (fun _ _ => False) (Violated g) := by
  have hfirst : Same g { g with state := .violated } := ⟨rfl, rfl, rfl, rfl, rfl, rfl, rfl⟩
  apply runs_bind (runs_write trivial _)
  apply runs_bind (runs_read _)
  split
  · exact runs_raise ⟨hfirst, rfl⟩
  · apply runs_bind
    refine (terminateHook_ends h).conseq ?_ fun _ _ _ hf => hf.elim
    rintro r g₁ - ⟨hs₁, hst₁⟩
    split
    · exact runs_raise ⟨hfirst.trans hs₁, hst₁⟩
    · apply runs_bind
      refine (observeHook_ends h _ _).conseq ?_ fun _ _ _ hf => hf.elim
      rintro r' g₂ - ⟨-, hs₂, hst₂⟩
      have hend : Violated g g₂ := ⟨(hfirst.trans hs₁).trans hs₂, hst₂.trans hst₁⟩
      split
      · exact runs_raise hend
      · exact runs_raise hend

variable [FloatArith]

/-- The clock reading of a call that starts in `g` is before the deadline. -/
def BeforeDeadline (g : Guard ω) : Prop :=
  ∃ v now started, (h.clock g.world).1 = .value v ∧ numberOf v = some now ∧
    g.started = some started ∧ floatLe started now = true ∧
    floatLe g.contract.wallClockBudgetS (FloatArith.sub now started) = false

/-- A call goes on only while the attempt runs, before its deadline. -/
theorem active_ends :
    Ends (active h) g
      (fun _ g' => g.state = .running ∧ BeforeDeadline h g ∧ ∃ w, g' = { g with world := w })
      fun g' => Same g g' ∧ (g' = g ∨ g.state = .running ∧
        (g'.state = .running ∨ g'.state = .violated)) := by
  apply runs_bind (runs_read _)
  split
  · exact runs_raise ⟨Same.refl g, Or.inl rfl⟩
  · rename_i hrun
    rw [not_not] at hrun
    have hlift : ∀ w (g' : Guard ω), Violated { g with world := w } g' →
        Same g g' ∧ (g' = g ∨ g.state = .running ∧ (g'.state = .running ∨ g'.state = .violated)) := by
      rintro w g' ⟨hs, hst⟩
      have hfirst : Same g { g with world := w } := ⟨rfl, rfl, rfl, rfl, rfl, rfl, rfl⟩
      exact ⟨hfirst.trans hs, Or.inr ⟨hrun, Or.inr hst⟩⟩
    apply runs_bind
    refine (readClock_ends h).conseq ?_ ?_
    · rintro now g₁ - ⟨⟨w, rfl⟩, hnow⟩
      cases now with
      | none =>
          exact (violate_ends h _ _ _).conseq (fun _ _ _ hf => hf.elim)
            fun _ g' _ hv => hlift w g' hv
      | some now =>
          obtain ⟨v, hv, hn⟩ := hnow now rfl
          cases hst : g.started with
          | none =>
              apply runs_raise
              exact ⟨⟨rfl, rfl, rfl, rfl, rfl, rfl, rfl⟩, Or.inr ⟨hrun, Or.inl hrun⟩⟩
          | some started =>
              apply runs_bind (runs_read _)
              split
              · exact (violate_ends h _ _ _).conseq (fun _ _ _ hf => hf.elim)
                  fun _ g' _ hv => hlift w g' (by rw [hst]; exact hv)
              · rename_i hle
                split
                · exact (violate_ends h _ _ _).conseq (fun _ _ _ hf => hf.elim)
                    fun _ g' _ hv => hlift w g' (by rw [hst]; exact hv)
                · rename_i hdue
                  apply runs_pure
                  refine ⟨hrun, ⟨v, now, started, hv, hn, hst, ?_, ?_⟩, w, rfl⟩
                  · exact Bool.not_eq_false _ ▸ hle
                  · exact Bool.not_eq_true _ ▸ hdue
    · rintro - g' - ⟨w, rfl⟩
      exact ⟨⟨rfl, rfl, rfl, rfl, rfl, rfl, rfl⟩, Or.inr ⟨hrun, Or.inl hrun⟩⟩

end Parts

/-! ## The accounts -/

/-- The states in which the attempt may still be, or become, a candidate. -/
def GuardState.live (s : GuardState) : Prop := s = .created ∨ s = .running ∨ s = .candidate

/-- The ticket has been given out. -/
def Guard.Given (g : Guard ω) (ticket : Str) : Prop := ∃ n, n ≤ g.ticket ∧ ticket = ticketName n

/-- What holds of a guard between calls. -/
structure Accounts (g : Guard ω) : Prop where
  within : g.state.live → g.tokens + g.reserved ≤ g.contract.tokenBudget ∧
    g.toolCalls ≤ g.contract.maxToolCalls ∧ g.fileWrites ≤ g.contract.maxFileWrites
  given : ∀ ticket ∈ g.reservations.keys, g.Given ticket
  nodup : g.reservations.keys.Nodup
  closed : ∀ r ∈ settlements g.trace, g.Given r.1 ∧ r.1 ∉ g.reservations.keys
  once : ((settlements g.trace).map Prod.fst).Nodup
  exceeded : ∀ r ∈ settlements g.trace, r.2.2 > r.2.1 → g.state = .violated

theorem accounts_init (contract : CheckedContract) (w : ω) : Accounts (Guard.init contract w) := by
  refine ⟨?_, nofun, List.nodup_nil, nofun, List.nodup_nil, nofun⟩
  intro _
  exact ⟨contract.tokens, contract.tools, contract.writes⟩

/-- The accounts are right after a call that has not touched them. -/
theorem Accounts.of_same {g g' : Guard ω} (ha : Accounts g) (hs : Same g g')
    (hlive : g'.state.live → g.state.live)
    (hviolated : g.state = .violated → g'.state = .violated) : Accounts g' := by
  have hgiven : ∀ ticket, g.Given ticket → g'.Given ticket := by
    rintro ticket ⟨n, hn, ht⟩
    exact ⟨n, by rw [hs.ticket]; exact hn, ht⟩
  refine ⟨?_, ?_, ?_, ?_, ?_, ?_⟩
  · intro hl
    rw [hs.contract, hs.tokens, hs.toolCalls, hs.fileWrites, Guard.reserved, hs.reservations]
    exact ha.within (hlive hl)
  · rw [hs.reservations]
    exact fun ticket ht => hgiven ticket (ha.given ticket ht)
  · rw [hs.reservations]
    exact ha.nodup
  · rw [hs.settled, hs.reservations]
    exact fun r hr => ⟨hgiven r.1 (ha.closed r hr).1, (ha.closed r hr).2⟩
  · rw [hs.settled]
    exact ha.once
  · rw [hs.settled]
    exact fun r hr hex => hviolated (ha.exceeded r hr hex)

/-- The accounts are right after a call that was not carried out. -/
theorem Accounts.of_stopped {g g' : Guard ω} (ha : Accounts g) (hs : Stopped g g')
    (hst : g.state ≠ .violated) : Accounts g' := by
  apply ha.of_same hs.1
  · intro hl
    rcases hs.2 with he | he | he
    · rw [← he]
      exact hl
    · rw [he] at hl
      rcases hl with hl | hl | hl <;> cases hl
    · rw [he] at hl
      rcases hl with hl | hl | hl <;> cases hl
  · exact fun h => absurd h hst

omit [FloatModel] in
theorem ticketName_injective {m n : Nat} (h : ticketName m = ticketName n) : m = n := by
  have hr : natRepr m = natRepr n := List.append_cancel_left h
  rw [← natOfDigits_natRepr m, hr, natOfDigits_natRepr]

omit [FloatModel] in
theorem sum_pop {d : Dict Str Int} (hnd : d.keys.Nodup) {k : Str} {v : Int} (hk : d.get? k = some v) :
    (d.map Prod.snd).sum = ((d.pop k).map Prod.snd).sum + v := by
  induction d with
  | nil => cases hk
  | cons kv d ih =>
      obtain ⟨j, w⟩ := kv
      obtain ⟨hj, hnd⟩ := List.nodup_cons.1 hnd
      rw [Dict.get?] at hk
      rw [Dict.pop]
      split at hk
      · rename_i hjk
        cases hk
        rw [if_pos hjk, Dict.pop_of_notMem (hjk ▸ hj)]
        simp [Int.add_comm]
      · rename_i hjk
        rw [if_neg hjk]
        simp [ih hnd hk, Int.add_assoc]

theorem Accounts.reserve {g : Guard ω} (ha : Accounts g) (hst : g.state = .running) {n : Int}
    (hn : g.tokens + g.reserved + n ≤ g.contract.tokenBudget) :
    Accounts { g with
      ticket := g.ticket + 1
      reservations := g.reservations.set (ticketName (g.ticket + 1)) n } := by
  have hfresh : ticketName (g.ticket + 1) ∉ g.reservations.keys := by
    intro hm
    obtain ⟨m, hm, he⟩ := ha.given _ hm
    have := ticketName_injective he
    omega
  have hset := Dict.set_of_notMem hfresh n
  have hwithin := ha.within (Or.inr (Or.inl hst))
  refine ⟨?_, ?_, ?_, ?_, ha.once, ha.exceeded⟩
  · intro _
    refine ⟨?_, hwithin.2⟩
    have hsum : ((g.reservations.set (ticketName (g.ticket + 1)) n).map Prod.snd).sum =
        g.reserved + n := by
      rw [hset, List.map_append, List.sum_append]
      simp [Guard.reserved]
    show g.tokens + ((g.reservations.set (ticketName (g.ticket + 1)) n).map Prod.snd).sum ≤ _
    rw [hsum, ← Int.add_assoc]
    exact hn
  · intro ticket ht
    rcases Dict.mem_keys_set.1 ht with rfl | ht
    · exact ⟨g.ticket + 1, Nat.le_refl _, rfl⟩
    · obtain ⟨m, hm, he⟩ := ha.given ticket ht
      exact ⟨m, Nat.le_succ_of_le hm, he⟩
  · exact Dict.nodup_set ha.nodup _ _
  · intro r hr
    obtain ⟨⟨m, hm, he⟩, hout⟩ := ha.closed r hr
    refine ⟨⟨m, Nat.le_succ_of_le hm, he⟩, ?_⟩
    intro hin
    rcases Dict.mem_keys_set.1 hin with hin | hin
    · rw [he] at hin
      have := ticketName_injective hin
      omega
    · exact hout hin

/-- The settlement of a reservation, in a state that shows it if the reservation was exceeded. -/
theorem Accounts.settle {g g' : Guard ω} (ha : Accounts g) (hst : g.state = .running) {ticket : Str}
    {reserved actual : Int} (hget : g.reservations.get? ticket = some reserved)
    (hs : Same { g with
      tokens := g.tokens + actual
      reservations := g.reservations.pop ticket
      trace := g.trace ++ [.settled ticket reserved actual] } g')
    (hlive : g'.state.live → actual ≤ reserved)
    (hviolated : actual > reserved → g'.state = .violated) : Accounts g' := by
  have hmem : ticket ∈ g.reservations.keys := Dict.mem_keys_of_get? hget
  have hwithin := ha.within (Or.inr (Or.inl hst))
  have hsettled : settlements g'.trace = settlements g.trace ++ [(ticket, reserved, actual)] := by
    rw [hs.settled]
    exact List.filterMap_append
  have hgiven : ∀ t, g.Given t → g'.Given t := by
    rintro t ⟨n, hn, ht⟩
    exact ⟨n, by rw [hs.ticket]; exact hn, ht⟩
  refine ⟨?_, ?_, ?_, ?_, ?_, ?_⟩
  · intro hl
    have hle := hlive hl
    have hsum := sum_pop ha.nodup hget
    rw [hs.contract, hs.tokens, hs.toolCalls, hs.fileWrites, Guard.reserved, hs.reservations]
    refine ⟨?_, hwithin.2⟩
    have hbudget := hwithin.1
    rw [Guard.reserved] at hbudget
    dsimp only
    omega
  · rw [hs.reservations]
    intro t ht
    exact hgiven t (ha.given t (Dict.mem_keys_pop.1 ht).2)
  · rw [hs.reservations]
    exact Dict.nodup_pop ha.nodup ticket
  · rw [hsettled, hs.reservations]
    intro r hr
    rcases List.mem_append.1 hr with hr | hr
    · refine ⟨hgiven r.1 (ha.closed r hr).1, ?_⟩
      intro hin
      exact (ha.closed r hr).2 (Dict.mem_keys_pop.1 hin).2
    · rw [List.mem_singleton.1 hr]
      refine ⟨hgiven ticket (ha.given ticket hmem), ?_⟩
      intro hin
      exact (Dict.mem_keys_pop.1 hin).1 rfl
  · rw [hsettled, List.map_append]
    refine List.nodup_append.2 ⟨ha.once, List.nodup_singleton _, ?_⟩
    rintro a hat b hb rfl
    obtain ⟨r, hr, rfl⟩ := List.mem_map.1 hat
    rw [List.map_cons, List.map_nil, List.mem_singleton] at hb
    exact (ha.closed r hr).2 (hb ▸ hmem)
  · rw [hsettled]
    intro r hr hex
    rcases List.mem_append.1 hr with hr | hr
    · have := ha.exceeded r hr hex
      rw [hst] at this
      cases this
    · rw [List.mem_singleton.1 hr] at hex
      exact hviolated hex

theorem Accounts.of_violated {g g' : Guard ω} (ha : Accounts g)
    (hr : g'.reservations = g.reservations) (ht : g'.ticket = g.ticket)
    (hs : settlements g'.trace = settlements g.trace) (hst : g'.state = .violated) :
    Accounts g' := by
  have hgiven : ∀ ticket, g.Given ticket → g'.Given ticket := by
    rintro ticket ⟨n, hn, he⟩
    exact ⟨n, by rw [ht]; exact hn, he⟩
  refine ⟨?_, ?_, ?_, ?_, ?_, fun _ _ _ => hst⟩
  · intro hl
    rw [hst] at hl
    rcases hl with hl | hl | hl <;> cases hl
  · rw [hr]
    exact fun ticket hm => hgiven ticket (ha.given ticket hm)
  · rw [hr]
    exact ha.nodup
  · rw [hs, hr]
    exact fun r hm => ⟨hgiven r.1 (ha.closed r hm).1, (ha.closed r hm).2⟩
  · rw [hs]
    exact ha.once

theorem Accounts.world {g : Guard ω} (ha : Accounts g) (w : ω) : Accounts { g with world := w } :=
  ha.of_same ⟨rfl, rfl, rfl, rfl, rfl, rfl, rfl⟩ id id

theorem Accounts.count {g : Guard ω} (ha : Accounts g) (toolCalls fileWrites : Int)
    (hle : g.toolCalls ≤ g.contract.maxToolCalls ∧ g.fileWrites ≤ g.contract.maxFileWrites →
      toolCalls ≤ g.contract.maxToolCalls ∧ fileWrites ≤ g.contract.maxFileWrites) :
    Accounts { g with toolCalls := toolCalls, fileWrites := fileWrites } := by
  refine ⟨?_, ha.given, ha.nodup, ha.closed, ha.once, ha.exceeded⟩
  intro hl
  have hw := ha.within hl
  exact ⟨hw.1, hle hw.2⟩

theorem get?_of_reservation {g : Guard ω} {value : Value} {ticket : Str} {reserved : Int}
    (hr : g.reservation value = some (ticket, reserved)) :
    g.reservations.get? ticket = some reserved := by
  unfold Guard.reservation at hr
  split at hr
  · obtain ⟨r, hget, he⟩ := Option.map_eq_some_iff.1 hr
    cases he
    exact hget
  · cases hr

/-! ## Every call -/

section Calls

variable [FloatArith] (h : Hooks ω) {g : Guard ω}

/-- How a call makes an attempt a candidate. -/
def BecomesCandidate (g g' : Guard ω) (c : GuardCall) : Prop :=
  c = .finish ∧ g.state = .running ∧ g.reservations = [] ∧ BeforeDeadline h g ∧
    g'.trace = g.trace ++ [GuardNote.observed (lit "WorkerCandidateReady")]

/-- What holds after every call. -/
structure Kept (c : GuardCall) (g g' : Guard ω) : Prop where
  accounts : Accounts g'
  contract : g'.contract = g.contract
  candidate : g'.state = .candidate → g' ≠ g → BecomesCandidate h g g' c

theorem kept_of_stopped {c : GuardCall} {g₁ g' : Guard ω} (ha : Accounts g₁)
    (hcon : g₁.contract = g.contract) (hst : g₁.state = .running ∨ g₁.state = .created)
    (hs : Stopped g₁ g') : Kept h c g g' := by
  refine ⟨ha.of_stopped hs (by rcases hst with he | he <;> rw [he] <;> nofun),
    hs.1.contract.trans hcon, ?_⟩
  intro hc
  rcases hs.2 with he | he | he
  · rw [he] at hc
    rcases hst with he' | he' <;> rw [he'] at hc <;> cases hc
  · rw [he] at hc
    cases hc
  · rw [he] at hc
    cases hc

theorem kept_of_inactive {c : GuardCall} {g' : Guard ω} (ha : Accounts g) (hs : Same g g')
    (h' : g' = g ∨ g.state = .running ∧ (g'.state = .running ∨ g'.state = .violated)) :
    Kept h c g g' := by
  rcases h' with rfl | ⟨hrun, hst⟩
  · exact ⟨ha, rfl, fun _ hne => absurd rfl hne⟩
  · apply kept_of_stopped h ha rfl (Or.inl hrun)
    refine ⟨hs, ?_⟩
    rcases hst with hst | hst
    · exact Or.inl (hst.trans hrun.symm)
    · exact Or.inr (Or.inr hst)

theorem ends_active {α : Type} {c : GuardCall} {m : Guarded ω α} (ha : Accounts g)
    (hm : ∀ w, g.state = .running → BeforeDeadline h g →
      Ends m { g with world := w } (fun _ => Kept h c g) (Kept h c g)) :
    Ends (active h >>= fun _ => m) g (fun _ => Kept h c g) (Kept h c g) := by
  apply runs_bind
  refine (active_ends h).conseq ?_ ?_
  · rintro - g' - ⟨hrun, hdue, w, rfl⟩
    exact hm w hrun hdue
  · exact fun _ g' _ hg => kept_of_inactive h ha hg.1 hg.2

theorem ends_violate {c : GuardCall} {g₁ : Guard ω} (ha : Accounts g₁)
    (hcon : g₁.contract = g.contract) (hst : g₁.state = .running ∨ g₁.state = .created) (boundary field : Str) (action : Value) :
    Ends (violate h boundary field action) g₁ (fun _ => Kept h c g) (Kept h c g) :=
  (violate_ends h boundary field action).conseq (fun _ _ _ hf => hf.elim)
    fun _ _ _ hv => kept_of_stopped h ha hcon hst hv.stopped

theorem ends_violate_counted {c : GuardCall} {g₂ : Guard ω} (ha : Accounts g)
    (hcon : g₂.contract = g.contract) (hr : g₂.reservations = g.reservations)
    (ht : g₂.ticket = g.ticket) (hs : settlements g₂.trace = settlements g.trace) (boundary field : Str) (action : Value) :
    Ends (violate h boundary field action) g₂ (fun _ => Kept h c g) (Kept h c g) := by
  refine (violate_ends h boundary field action).conseq (fun _ _ _ hf => hf.elim) ?_
  rintro - g' - ⟨hsame, hst⟩
  refine ⟨ha.of_violated (hsame.reservations.trans hr) (hsame.ticket.trans ht)
    (hsame.settled.trans hs) hst, hsame.contract.trans hcon, ?_⟩
  intro hc
  rw [hst] at hc
  cases hc

theorem ends_emit {c : GuardCall} {g₁ : Guard ω} (ha : Accounts g₁)
    (hcon : g₁.contract = g.contract) (hst : g₁.state = .running)
    (event : Str) (data : GuardEvent) :
    Ends (emit h event data) g₁ (fun _ => Kept h c g) (Kept h c g) := by
  refine (emit_ends h event data).conseq ?_ fun _ _ _ hs =>
    kept_of_stopped h ha hcon (Or.inl hst) hs
  rintro - g' - hn
  exact kept_of_stopped h ha hcon (Or.inl hst) ⟨hn.same, Or.inl hn.state⟩

/-- The call has nothing more to do. -/
theorem kept_running {c : GuardCall} (ha : Accounts g) (hst : g.state = .running) (w : ω) :
    Kept h c g { g with world := w } := by
  refine ⟨ha.world w, rfl, ?_⟩
  intro hc
  rw [hst] at hc
  cases hc

theorem start_ends (ha : Accounts g) :
    Ends (start h) g (fun _ => Kept h .start g) (Kept h .start g) := by
  apply runs_bind (runs_read _)
  split
  · exact runs_raise ⟨ha, rfl, fun _ hne => absurd rfl hne⟩
  · rename_i hst
    rw [not_not] at hst
    apply runs_bind
    refine (emit_ends h _ _).conseq ?_ fun _ _ _ hs => kept_of_stopped h ha rfl (Or.inr hst) hs
    rintro - g₁ - hn
    have ha₁ : Accounts g₁ := ha.of_stopped ⟨hn.same, Or.inl hn.state⟩ (by rw [hst]; nofun)
    have hst₁ : g₁.state = .created := hn.state.trans hst
    have hcon₁ : g₁.contract = g.contract := hn.same.contract
    apply runs_bind
    refine (readClock_ends h).conseq ?_ ?_
    · rintro now g₂ - ⟨⟨w, rfl⟩, -⟩
      cases now with
      | none => exact ends_violate (g := g) h (ha₁.world w) hcon₁ (Or.inr hst₁) _ _ _
      | some now =>
          apply runs_bind (runs_write trivial _)
          have ha₂ : Accounts { g₁ with world := w, started := some now } :=
            ha₁.of_same ⟨rfl, rfl, rfl, rfl, rfl, rfl, rfl⟩ id id
          apply runs_bind
          refine (emit_ends h _ _).conseq ?_
            fun _ _ _ hs => kept_of_stopped h ha₂ hcon₁ (Or.inr hst₁) hs
          rintro - g₃ - hn₃
          have ha₃ : Accounts g₃ :=
            ha₂.of_stopped ⟨hn₃.same, Or.inl hn₃.state⟩ (by rw [hst₁]; nofun)
          apply runs_write trivial
          refine ⟨ha₃.of_same ⟨rfl, rfl, rfl, rfl, rfl, rfl, rfl⟩ ?_ ?_,
            hn₃.same.contract.trans hcon₁, nofun⟩
          · intro _
            rw [hn₃.state]
            exact Or.inl hst₁
          · intro hv
            rw [hn₃.state] at hv
            rw [show g₁.state = .violated from hv] at hst₁
            cases hst₁
    · rintro - g' - ⟨w, rfl⟩
      exact kept_of_stopped h ha₁ hcon₁ (Or.inr hst₁)
        ⟨⟨rfl, rfl, rfl, rfl, rfl, rfl, rfl⟩, Or.inl rfl⟩

theorem authorizeTool_ends (text : Value → Str) (tool : Value) (ha : Accounts g) :
    Ends (authorizeTool h text tool) g (fun _ => Kept h (.authorizeTool tool) g)
      (Kept h (.authorizeTool tool) g) := by
  apply ends_active h ha
  intro w hrun _
  apply runs_bind (runs_read _)
  split
  · exact ends_violate (g := g) h (ha.world w) rfl (Or.inl hrun) _ _ _
  · apply runs_bind (runs_write trivial _)
    apply runs_bind (runs_read _)
    split
    · apply ends_violate_counted h ha
      · rfl
      · rfl
      · rfl
      · rfl
    · rename_i hle
      have hcounted := (ha.world w).count (g.toolCalls + 1) g.fileWrites
        fun hw => ⟨not_lt.1 hle, hw.2⟩
      exact ends_emit (g := g) h hcounted rfl hrun _ _

theorem authorizePath_ends (text : Value → Str) (path write : Value) (ha : Accounts g) :
    Ends (authorizePath h text path write) g (fun _ => Kept h (.authorizePath path write) g)
      (Kept h (.authorizePath path write) g) := by
  apply ends_active h ha
  intro w hrun _
  apply runs_bind (runs_read _)
  split
  · exact ends_violate (g := g) h (ha.world w) rfl (Or.inl hrun) _ _ _
  · split
    · apply runs_bind (runs_write trivial _)
      apply runs_bind (runs_read _)
      split
      · apply ends_violate_counted h ha
        · rfl
        · rfl
        · rfl
        · rfl
      · rename_i hle
        have hcounted := (ha.world w).count g.toolCalls (g.fileWrites + 1)
          fun hw => ⟨hw.1, not_lt.1 hle⟩
        exact ends_emit (g := g) h hcounted rfl hrun _ _
    · exact ends_emit (g := g) h (ha.world w) rfl hrun _ _

theorem reserveTokens_ends (n : Value) (ha : Accounts g) :
    Ends (reserveTokens h n) g (fun _ => Kept h (.reserveTokens n) g)
      (Kept h (.reserveTokens n) g) := by
  apply ends_active h ha
  intro w hrun _
  cases integerOf 1 n with
  | none => exact runs_raise (kept_running h ha hrun w)
  | some k =>
      apply runs_bind (runs_read _)
      split
      · apply runs_bind
        exact (ends_violate (g := g) h (ha.world w) rfl (Or.inl hrun) _ _ _).conseq
          (fun _ _ _ hk => runs_pure hk) fun _ _ _ hk => hk
      · rename_i hle
        apply runs_bind (runs_write trivial _)
        apply runs_bind
        have hreserve := (ha.world w).reserve (n := k) hrun (not_lt.1 hle)
        exact (ends_emit (g := g) h hreserve rfl hrun _ _).conseq (fun _ _ _ hk => runs_pure hk)
          fun _ _ _ hk => hk

theorem settleTokens_ends (ticket actual : Value) (ha : Accounts g) :
    Ends (settleTokens h ticket actual) g (fun _ => Kept h (.settleTokens ticket actual) g)
      (Kept h (.settleTokens ticket actual) g) := by
  apply ends_active h ha
  intro w hrun _
  apply runs_bind (runs_read _)
  cases hres : Guard.reservation { g with world := w } ticket with
  | none => exact ends_violate (g := g) h (ha.world w) rfl (Or.inl hrun) _ _ _
  | some found =>
      obtain ⟨t, reserved⟩ := found
      have hget : g.reservations.get? t = some reserved := get?_of_reservation hres
      cases integerOf 0 actual with
      | none => exact ends_violate (g := g) h (ha.world w) rfl (Or.inl hrun) _ _ _
      | some n =>
          apply runs_bind (runs_write trivial _)
          split
          · refine (violate_ends h _ _ _).conseq (fun _ _ _ hf => hf.elim) ?_
            rintro - g' - ⟨hs, hst⟩
            refine ⟨(ha.world w).settle hrun hget hs ?_ fun _ => hst, hs.contract, ?_⟩
            · intro hl
              rw [hst] at hl
              rcases hl with hl | hl | hl <;> cases hl
            · intro hc
              rw [hst] at hc
              cases hc
          · rename_i hle
            have hsettle : ∀ g' : Guard ω, Stopped { g with
                world := w
                tokens := g.tokens + n
                reservations := g.reservations.pop t
                trace := g.trace ++ [.settled t reserved n] } g' →
                Kept h (.settleTokens ticket actual) g g' := by
              intro g' hs
              refine ⟨(ha.world w).settle hrun hget hs.1 (fun _ => not_lt.1 hle)
                fun hex => absurd hex hle, hs.1.contract, ?_⟩
              intro hc
              rcases hs.2 with he | he | he
              · rw [he] at hc
                rw [show g.state = .candidate from hc] at hrun
                cases hrun
              · rw [he] at hc
                cases hc
              · rw [he] at hc
                cases hc
            refine (emit_ends h _ _).conseq ?_ fun _ g' _ hs => hsettle g' hs
            rintro - g' - hn
            exact hsettle g' ⟨hn.same, Or.inl hn.state⟩

theorem checkMemory_ends (n : Value) (ha : Accounts g) :
    Ends (checkMemory h n) g (fun _ => Kept h (.checkMemory n) g) (Kept h (.checkMemory n) g) := by
  apply ends_active h ha
  intro w hrun _
  apply runs_bind (runs_read _)
  cases integerOf 0 n with
  | none => exact ends_violate (g := g) h (ha.world w) rfl (Or.inl hrun) _ _ _
  | some k =>
      dsimp only
      split
      · exact ends_violate (g := g) h (ha.world w) rfl (Or.inl hrun) _ _ _
      · exact runs_pure (kept_running h ha hrun w)

theorem assertLease_ends (leaseId generation : Value) (ha : Accounts g) :
    Ends (assertLease h leaseId generation) g (fun _ => Kept h (.assertLease leaseId generation) g)
      (Kept h (.assertLease leaseId generation) g) := by
  apply ends_active h ha
  intro w hrun _
  apply runs_bind (runs_read _)
  split
  · exact ends_violate (g := g) h (ha.world w) rfl (Or.inl hrun) _ _ _
  · exact runs_pure (kept_running h ha hrun w)

theorem finish_ends (ha : Accounts g) :
    Ends (finish h) g (fun _ => Kept h .finish g) (Kept h .finish g) := by
  apply ends_active h ha
  intro w hrun hdue
  apply runs_bind (runs_read _)
  split
  · exact ends_violate (g := g) h (ha.world w) rfl (Or.inl hrun) _ _ _
  · rename_i hopen
    rw [not_not] at hopen
    apply runs_bind
    refine (emit_ends h _ _).conseq ?_
      fun _ _ _ hs => kept_of_stopped h (ha.world w) rfl (Or.inl hrun) hs
    rintro - g' - ⟨w', rfl⟩
    apply runs_write trivial
    refine ⟨(ha.world w).of_same ⟨rfl, rfl, rfl, rfl, rfl, rfl, ?_⟩ ?_ ?_, rfl, ?_⟩
    · rw [settlements, List.filterMap_append]
      exact List.append_nil _
    · intro _
      exact Or.inr (Or.inl hrun)
    · intro hv
      rw [show g.state = .violated from hv] at hrun
      cases hrun
    · intro _ _
      exact ⟨rfl, hrun, hopen, hdue, rfl⟩

theorem cancel_ends (ha : Accounts g) :
    Ends (cancel h) g (fun _ => Kept h .cancel g) (Kept h .cancel g) := by
  apply runs_bind (runs_read _)
  split
  · exact runs_pure ⟨ha, rfl, fun _ hne => absurd rfl hne⟩
  · rename_i hrun
    rw [not_not] at hrun
    have hkept : ∀ g' : Guard ω, Stopped { g with state := .cancelled } g' → Kept h .cancel g g' := by
      intro g' hs
      have hst : g'.state = .cancelled ∨ g'.state = .auditFailed ∨ g'.state = .violated := hs.2
      have hsame : Same g { g with state := .cancelled } := ⟨rfl, rfl, rfl, rfl, rfl, rfl, rfl⟩
      constructor
      · apply ha.of_same (hsame.trans hs.1)
        · intro hl
          rcases hst with he | he | he <;> rw [he] at hl <;> rcases hl with hl | hl | hl <;> cases hl
        · intro hv
          rw [hv] at hrun
          cases hrun
      · exact hs.1.contract
      · intro hc
        rcases hst with he | he | he <;> rw [he] at hc <;> cases hc
    apply runs_bind (runs_write trivial _)
    apply runs_bind
    refine (terminateHook_ends h).conseq ?_ fun _ _ _ hf => hf.elim
    rintro r g₁ - ⟨hs₁, hst₁⟩
    apply runs_bind
    refine (emit_ends h _ _).conseq ?_ ?_
    · rintro - g₂ - hn
      have hk := hkept g₂ ⟨hs₁.trans hn.same, Or.inl (hn.state.trans hst₁)⟩
      cases r with
      | returned => exact runs_pure hk
      | raised e => exact runs_raise hk
      | aborted => exact runs_raise hk
    · rintro - g₂ - hs₂
      apply hkept
      refine ⟨hs₁.trans hs₂.1, ?_⟩
      rcases hs₂.2 with he | he
      · exact Or.inl (he.trans hst₁)
      · exact Or.inr he

theorem call_ends (text : Value → Str) (c : GuardCall) (ha : Accounts g) :
    Ends (c.program h text) g (fun _ => Kept h c g) (Kept h c g) := by
  cases c with
  | start => exact start_ends h ha
  | checkDeadline =>
      refine (active_ends h).conseq ?_ ?_
      · rintro - g' - ⟨hrun, -, w, rfl⟩
        exact kept_running h ha hrun w
      · exact fun _ g' _ hg => kept_of_inactive h ha hg.1 hg.2
  | authorizeTool tool => exact authorizeTool_ends h text tool ha
  | authorizePath path write => exact authorizePath_ends h text path write ha
  | reserveTokens n =>
      apply runs_bind
      exact (reserveTokens_ends h n ha).conseq (fun _ _ _ hk => runs_pure hk) fun _ _ _ hk => hk
  | settleTokens ticket actual => exact settleTokens_ends h ticket actual ha
  | checkMemory n => exact checkMemory_ends h n ha
  | assertLease leaseId generation => exact assertLease_ends h leaseId generation ha
  | finish => exact finish_ends h ha
  | fail boundary field action =>
      apply ends_active h ha
      intro w hrun _
      exact ends_violate (g := g) h (ha.world w) rfl (Or.inl hrun) _ _ _
  | cancel => exact cancel_ends h ha

/-- What holds after a call, whether it returned or raised. -/
theorem kept_after (text : Value → Str) (c : GuardCall) (ha : Accounts g) :
    Kept h c g (g.after h text c) := by
  obtain ⟨-, hok, herr⟩ := call_ends h text c ha
  cases hr : (c.program h text g).result with
  | ok a => exact hok a hr
  | error e => exact herr e hr

theorem active_idle (hst : g.state ≠ .running) :
    active h g = ⟨.error (.exception (workerContractError "attempt is not running")), g, []⟩ := by
  rw [active, Prog.read_bind, if_pos hst]
  rfl

omit [FloatArith] in
theorem bind_idle {α β : Type} {m : Guarded ω α} {e : Raised} (hm : m g = ⟨.error e, g, []⟩)
    (f : α → Guarded ω β) : (m >>= f) g = ⟨.error e, g, []⟩ := by
  show Prog.andThen m f g = _
  rw [Prog.andThen, hm]

theorem after_terminal (text : Value → Str) (c : GuardCall) (ht : g.state.terminal = true) :
    g.after h text c = g := by
  rw [GuardState.terminal, Bool.and_eq_true, decide_eq_true_iff, decide_eq_true_iff] at ht
  obtain ⟨hcreated, hrun⟩ := ht
  have hidle := active_idle h hrun
  cases c with
  | start =>
      rw [Guard.after, GuardCall.program, start, Prog.read_bind, if_pos hcreated]
      rfl
  | cancel =>
      rw [Guard.after, GuardCall.program, cancel, Prog.read_bind, if_pos hrun]
      rfl
  | checkDeadline => rw [Guard.after, GuardCall.program, hidle]
  | reserveTokens n =>
      exact congrArg Outcome.state (bind_idle (bind_idle hidle _) _)
  | authorizeTool tool => exact congrArg Outcome.state (bind_idle hidle _)
  | authorizePath path write => exact congrArg Outcome.state (bind_idle hidle _)
  | settleTokens ticket actual => exact congrArg Outcome.state (bind_idle hidle _)
  | checkMemory n => exact congrArg Outcome.state (bind_idle hidle _)
  | assertLease leaseId generation => exact congrArg Outcome.state (bind_idle hidle _)
  | finish => exact congrArg Outcome.state (bind_idle hidle _)
  | fail boundary field action => exact congrArg Outcome.state (bind_idle hidle _)

theorem accounts_afterAll (text : Value → Str) (cs : List GuardCall) (ha : Accounts g) :
    Accounts (g.afterAll h text cs) := by
  induction cs generalizing g with
  | nil => exact ha
  | cons c cs ih => exact ih (kept_after h text c ha).accounts

theorem contract_afterAll (text : Value → Str) (cs : List GuardCall) (ha : Accounts g) :
    (g.afterAll h text cs).contract = g.contract := by
  induction cs generalizing g with
  | nil => rfl
  | cons c cs ih =>
      have hk := kept_after h text c ha
      exact (ih hk.accounts).trans hk.contract

theorem afterAll_terminal (text : Value → Str) (cs : List GuardCall)
    (ht : g.state.terminal = true) : g.afterAll h text cs = g := by
  induction cs with
  | nil => rfl
  | cons c cs ih =>
      rw [Guard.afterAll, List.foldl_cons, after_terminal h text c ht]
      exact ih

/-- For every sequence of calls: while the attempt runs or is a candidate its counts are within the
budgets; a ticket is settled once, and for more than its reservation only by a violation; a guard
whose attempt has ended does not change; and an attempt becomes a candidate only by `finish`, while
it runs, without open reservations, before its deadline, after its event was acknowledged. -/
theorem guard_accounting (text : Value → Str) (contract : CheckedContract) (w : ω)
    (cs : List GuardCall) :
    ((((Guard.init contract w).afterAll h text cs).state = .running ∨
        ((Guard.init contract w).afterAll h text cs).state = .candidate) →
      ((Guard.init contract w).afterAll h text cs).tokens +
          ((Guard.init contract w).afterAll h text cs).reserved ≤ contract.tokenBudget ∧
        ((Guard.init contract w).afterAll h text cs).toolCalls ≤ contract.maxToolCalls ∧
        ((Guard.init contract w).afterAll h text cs).fileWrites ≤ contract.maxFileWrites) ∧
    ((settlements ((Guard.init contract w).afterAll h text cs).trace).map Prod.fst).Nodup ∧
    (∀ r ∈ settlements ((Guard.init contract w).afterAll h text cs).trace, r.2.2 > r.2.1 →
      ((Guard.init contract w).afterAll h text cs).state = .violated) ∧
    (((Guard.init contract w).afterAll h text cs).state.terminal = true →
      ∀ more, ((Guard.init contract w).afterAll h text cs).afterAll h text more =
        (Guard.init contract w).afterAll h text cs) ∧
    ∀ c, ((Guard.init contract w).afterAll h text cs).state ≠ .candidate →
      (((Guard.init contract w).afterAll h text cs).after h text c).state = .candidate →
      BecomesCandidate h ((Guard.init contract w).afterAll h text cs)
        (((Guard.init contract w).afterAll h text cs).after h text c) c := by
  have ha := accounts_afterAll h text cs (accounts_init contract w)
  have hcontract : ((Guard.init contract w).afterAll h text cs).contract = contract :=
    contract_afterAll h text cs (accounts_init contract w)
  refine ⟨?_, ha.once, ha.exceeded, fun ht more => afterAll_terminal h text more ht, ?_⟩
  · intro hst
    have hwithin := ha.within (Or.inr hst)
    rw [hcontract] at hwithin
    exact hwithin
  · intro c hnot hc
    apply (kept_after h text c ha).candidate hc
    intro he
    rw [he] at hc
    exact hnot hc

end Calls

end ResidualHarness.Factory
