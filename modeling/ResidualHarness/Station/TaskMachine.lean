import ResidualHarness.Station.Store

/-!
# The task machine over whole runs

Any sequence of `create_project`, `transition`, `update_task`, `claim`, `heartbeat` and `recover`
calls. What a call does to one task is one of five things (`Effect`) (`machineOk_of_allowed`).
-/

set_option autoImplicit false

namespace ResidualHarness.Station

open Python Core

theorem not_mem_transitions (q : TaskState) : q ∉ q.transitions := by
  cases q <;> decide

theorem findE_some {ε α : Type} {p : α → Except ε Bool} {l : List α} {a : α}
    (h : findE p l = .ok (some a)) : a ∈ l ∧ p a = .ok true := by
  induction l with
  | nil => cases h
  | cons b l ih =>
      obtain ⟨hit, hhit, h⟩ := bind_eq_ok.1 h
      cases hit with
      | true =>
          injection h with heq
          injection heq with heq
          subst heq
          exact ⟨List.mem_cons_self, hhit⟩
      | false =>
          obtain ⟨hmem, hp⟩ := ih h
          exact ⟨List.mem_cons_of_mem _ hmem, hp⟩

theorem allIntegrated_true {states : Dict Str TaskState} {deps : List Str}
    (h : allIntegrated states deps = .ok true) : ∀ d ∈ deps, states.get? d = some .integrated := by
  induction deps with
  | nil => exact fun d hd => absurd hd List.not_mem_nil
  | cons d deps ih =>
      rw [allIntegrated] at h
      split at h
      · cases h
      · rename_i q hq
        split at h
        · cases h
        · rename_i hint
          rw [not_not.1 hint] at hq
          intro d' hd'
          rcases List.mem_cons.1 hd' with rfl | hd'
          · exact hq
          · exact ih h d' hd'

/-- A list in which only the element at one key counts. -/
theorem filterMap_single {κ β γ : Type} [DecidableEq κ] {d : Dict κ β} {f : κ × β → Option γ} {k : κ}
    {v : β} (hnd : d.keys.Nodup) (hget : d.get? k = some v)
    (hother : ∀ kv ∈ d, kv.1 ≠ k → f kv = none) : d.filterMap f = (f (k, v)).toList := by
  induction d with
  | nil => cases hget
  | cons kv d ih =>
      obtain ⟨k', v'⟩ := kv
      obtain ⟨hnot, hnd'⟩ := List.nodup_cons.1 hnd
      by_cases hk : k' = k
      · subst hk
        rw [Dict.get?, if_pos rfl] at hget
        cases hget
        have hrest : List.filterMap f d = [] := by
          rw [List.filterMap_eq_nil_iff]
          intro kv hkv
          refine hother kv (List.mem_cons_of_mem _ hkv) fun heq => hnot ?_
          rw [← heq]
          show kv.1 ∈ d.map Prod.fst
          exact List.mem_map_of_mem hkv
        rw [List.filterMap_cons, hrest]
        cases f (k', v) <;> rfl
      · rw [Dict.get?, if_neg hk] at hget
        rw [List.filterMap_cons, hother (k', v') List.mem_cons_self hk]
        exact ih hnd' hget fun kv hkv => hother kv (List.mem_cons_of_mem _ hkv)

section Machine

variable [FloatModel]

/-! ## Runs -/

/-- A call, with what it draws. -/
inductive Call where
  | create (m : Manifest) (mode : Str) (allowCloud : Bool) (pid updatedAt : Str) (draw : Draw)
  | transition (pid tid state actor : Str) (extra : Extra) (lease : Option Str) (now : ℚ)
      (updatedAt : Str) (draw : Draw)
  | updateTask (pid tid : Str) (extra : Extra) (updatedAt : Str)
  | claim (pid owner : Str) (tid : Option Str) (token : Str) (now : ℚ) (updatedAt : Str) (draw : Draw)
  | heartbeat (pid tid lease : Str) (now later : ℚ) (updatedAt : Str)
  | recover (startup : Bool) (now : Nat → ℚ) (updatedAt : Nat → Str) (draw : Nat → Draw)

/-- The result of a call: the task that it hands out, if any, and the tables after it. -/
def exec (s : Store) : Call → Except PyExn (Option Task × Store)
  | .create m mode allowCloud pid updatedAt draw => do
      return (none, ← s.createProject m mode allowCloud pid updatedAt draw)
  | .transition pid tid state actor extra lease now updatedAt draw => do
      return (none, ← s.transition pid tid state actor extra lease now updatedAt draw)
  | .updateTask pid tid extra updatedAt => do return (none, ← s.updateTask pid tid extra updatedAt)
  | .claim pid owner tid token now updatedAt draw => s.claim pid owner tid token now updatedAt draw
  | .heartbeat pid tid lease now later updatedAt => do
      return (none, ← s.heartbeat pid tid lease now later updatedAt)
  | .recover startup now updatedAt draw => do
      return (none, ← s.recover startup now updatedAt draw)

/-- The tables after a call; a call that fails is rolled back. -/
def after (s : Store) (c : Call) : Store :=
  match exec s c with
  | .ok (_, s') => s'
  | .error _ => s

/-- The tables after some calls. -/
def runCalls (s : Store) (cs : List Call) : Store := cs.foldl after s

/-- The task that a call hands out. -/
def handedOut (s : Store) (c : Call) : Option (Str × Str) :=
  match c, exec s c with
  | .claim pid _ _ _ _ _ _, .ok (some t, _) => some (pid, t.id)
  | _, _ => none

/-- The call is for this task and presents its lease, which has not expired. -/
def Presents (c : Call) (key : Str × Str) (t : Task) : Prop :=
  match c with
  | .transition pid tid _ _ _ lease now _ _ =>
      key = (pid, tid) ∧ t.lease ≠ none ∧ lease = t.lease ∧ now ≤ t.leaseUntil
  | _ => False

/-- The call is a `recover`. -/
def IsRecover : Call → Prop
  | .recover _ _ _ _ => True
  | _ => False

/-! ## What is asked of a run -/

/-- The state change that an event records: the project, the task and the new state. -/
def recorded (r : EventRow) : Option (Str × Json × Json) :=
  if r.event.eventType = lit "task.transition" then
    (Dict.get? r.event.data (lit "to")).map fun target => (r.event.projectId, r.event.taskId, target)
  else if r.event.eventType = lit "task.claimed" then
    some (r.event.projectId, r.event.taskId, .str TaskState.running.name)
  else if r.event.eventType = lit "worker.expired" then
    some (r.event.projectId, r.event.taskId, .str TaskState.blocked.name)
  else none

/-- The change of one row between two tables. -/
def rowChange (tasks : Dict (Str × Str) Task) (kv : (Str × Str) × Task) : Option (Str × Json × Json) :=
  match tasks.get? kv.1 with
  | some t => if t.state = kv.2.state then none else some (kv.1.1, .str kv.1.2, .str t.state.name)
  | none => none

/-- The state changes between two tables, in the order of the rows. -/
def changed (s s' : Store) : List (Str × Json × Json) := s.tasks.filterMap (rowChange s'.tasks)

/-- The state changes of a run. -/
def history (s : Store) : List Call → List (Str × Json × Json)
  | [] => []
  | c :: cs => changed s (after s c) ++ history (after s c) cs

/-- Each row has the hash of the row before it. -/
def LinkedFrom : Str → List EventRow → Prop
  | _, [] => True
  | prev, r :: rows => r.prevHash = prev ∧ eventHash prev r.event = .ok r.hash ∧ LinkedFrom r.hash rows

/-- A task is running after these calls. -/
def RunningAfter (cs : List Call) (key : Str × Str) : Prop :=
  ∃ t, (runCalls Store.empty cs).tasks.get? key = some t ∧ t.state = .running

/-- The task was handed out by a call and has been running since. -/
def ClaimedIn (cs : List Call) (key : Str × Str) : Prop :=
  ∃ pre c post, cs = pre ++ c :: post ∧ handedOut (runCalls Store.empty pre) c = some key ∧
    ∀ mid, mid <+: post → RunningAfter (pre ++ c :: mid) key

/-- The dependencies of a task are integrated. -/
def DepsIntegrated (s : Store) (pid : Str) (t : Task) : Prop :=
  ∀ d ∈ t.dependsOn, ∃ td, s.tasks.get? (pid, d) = some td ∧ td.state = .integrated

/-- What the claims, leases, dependencies and events of a run have to be. -/
structure MachineOk (cs : List Call) : Prop where
  running : ∀ key t, (runCalls Store.empty cs).tasks.get? key = some t → t.state = .running →
    ClaimedIn cs key ∧ DepsIntegrated (runCalls Store.empty cs) key.1 t ∧ 1 ≤ t.attempt ∧
      t.attempt ≤ maxTaskAttempts ∧ t.lease ≠ none
  idle : ∀ key t, (runCalls Store.empty cs).tasks.get? key = some t → t.state ≠ .running →
    t.lease = none
  integrated : ∀ pre post key t, cs = pre ++ post →
    (runCalls Store.empty pre).tasks.get? key = some t → t.state = .integrated →
      ∃ t', (runCalls Store.empty cs).tasks.get? key = some t' ∧ t'.state = .integrated
  leaving : ∀ pre c post key t, cs = pre ++ c :: post →
    (runCalls Store.empty pre).tasks.get? key = some t → t.state = .running →
      ¬RunningAfter (pre ++ [c]) key → Presents c key t ∨ IsRecover c
  exclusive : ∀ pre c mid c' post key, cs = pre ++ c :: mid ++ c' :: post →
    handedOut (runCalls Store.empty pre) c = some key →
      handedOut (runCalls Store.empty (pre ++ c :: mid)) c' = some key →
        ∃ part, part <+: mid ∧ ¬RunningAfter (pre ++ c :: part) key
  linked : ∀ pid, LinkedFrom genesis (projectRows (runCalls Store.empty cs).events pid)
  recorded : (runCalls Store.empty cs).events.filterMap recorded = history Store.empty cs

/-- The calls that keep to the machine: `transition` does not start a task, and no fields give a task
the identifier of another. -/
def Allowed (s : Store) : Call → Prop
  | .transition pid tid state _ extra _ _ _ _ =>
      (state = TaskState.running.name → ∀ t, s.tasks.get? (pid, tid) = some t →
        t.state ≠ .ready ∧ t.state ≠ .repairRequired) ∧
        ∀ id, Dict.get? extra.fields (lit "id") = some id → id = .str tid
  | .updateTask pid tid extra _ =>
      ∀ other, Dict.get? extra.fields (lit "id") = some (.str other) →
        other = tid ∨ s.tasks.get? (pid, other) = none
  | _ => True

/-- Calls of a run that all keep to the machine. -/
def AllowedRun (s : Store) : List Call → Prop
  | [] => True
  | c :: cs => Allowed s c ∧ AllowedRun (after s c) cs

/-! ## Growth of the event table -/

/-- The event table of `s'` is that of `s` with rows that record these changes, still linked and in
sequence. -/
structure Grown (s s' : Store) (rs : List (Str × Json × Json)) : Prop where
  events : ∃ new, s'.events = s.events ++ new ∧ new.filterMap recorded = rs
  linked : (∀ pid, LinkedFrom genesis (projectRows s.events pid)) →
    ∀ pid, LinkedFrom genesis (projectRows s'.events pid)
  sound : Sound s.log → Sound s'.log

theorem grown_of_events_eq {s s' : Store} (h : s'.events = s.events) : Grown s s' [] := by
  refine ⟨⟨[], by rw [h, List.append_nil], rfl⟩, ?_, ?_⟩
  · intro hl
    rw [h]
    exact hl
  · intro hs
    rw [Store.log, h]
    exact hs

theorem Grown.trans {s s' s'' : Store} {rs rs' : List (Str × Json × Json)} (h : Grown s s' rs)
    (h' : Grown s' s'' rs') : Grown s s'' (rs ++ rs') := by
  obtain ⟨new, hnew, hrs⟩ := h.events
  obtain ⟨new', hnew', hrs'⟩ := h'.events
  refine ⟨⟨new ++ new', by rw [hnew', hnew, List.append_assoc], ?_⟩, fun hl => h'.linked (h.linked hl),
    fun hs => h'.sound (h.sound hs)⟩
  rw [List.filterMap_append, hrs, hrs']

theorem linkedFrom_concat {prev : Str} {rows : List EventRow} {r : EventRow}
    (h : LinkedFrom prev rows) (hprev : r.prevHash = (rows.getLast?.map EventRow.hash).getD prev)
    (hhash : eventHash r.prevHash r.event = .ok r.hash) : LinkedFrom prev (rows ++ [r]) := by
  induction rows generalizing prev with
  | nil =>
      have hp : r.prevHash = prev := hprev
      exact ⟨hp, hp ▸ hhash, trivial⟩
  | cons a rows ih =>
      refine ⟨h.1, h.2.1, ih h.2.2 ?_⟩
      rw [hprev, List.getLast?_cons]
      cases rows.getLast? <;> rfl

theorem Inserted.grown {s s' : Store} {pid eventType : Str} {taskId : Json} {data : Fields}
    {row : EventRow} (h : Inserted s s' pid eventType taskId data row) :
    Grown s s' (recorded row).toList := by
  refine ⟨⟨[row], by rw [h.store], ?_⟩, ?_, ?_⟩
  · rw [List.filterMap_cons]
    cases recorded row <;> rfl
  · intro hl other
    rw [h.store, projectRows, List.filter_append]
    by_cases hp : other = pid
    · subst hp
      rw [List.filter_cons_of_pos (by simpa using h.project), List.filter_nil]
      exact linkedFrom_concat (hl other) h.prev h.hash
    · have hne : ¬row.event.projectId = other := by
        rw [h.project]
        exact fun heq => hp heq.symm
      rw [List.filter_cons_of_neg (by simpa using hne), List.filter_nil, List.append_nil]
      exact hl other
  · intro hs
    rw [h.log]
    exact hs.append _ _ _ _

/-- The same after rows of other tables were written. -/
theorem Inserted.grownFrom {s s₁ s' : Store} {pid eventType : Str} {taskId : Json} {data : Fields}
    {row : EventRow} (h : Inserted s₁ s' pid eventType taskId data row) (he : s₁.events = s.events) :
    Grown s s' (recorded row).toList := (grown_of_events_eq he).trans h.grown

/-! ## What one call does to one task -/

/-- The effects of a call on a task. -/
inductive Effect (s : Store) (c : Call) (key : Str × Str) (t t' : Task) : Prop where
  /-- The machine part is as before. -/
  | kept (state : t'.state = t.state) (lease : t'.lease = t.lease) (attempt : t'.attempt = t.attempt)
  /-- A transition of a task that was not running. -/
  | moved (old : t.state ≠ .running) (allowed : t'.state ∈ t.state.transitions)
      (new : t'.state ≠ .running) (lease : t'.lease = t.lease)
  /-- A transition of a running task by the holder of its lease. -/
  | left (old : t.state = .running) (presents : Presents c key t) (new : t'.state ≠ .running)
      (lease : t'.lease = none)
  /-- The task is handed out. -/
  | taken (old : t.state ≠ .running) (active : t.state ≠ .integrated) (out : handedOut s c = some key)
      (deps : DepsIntegrated s key.1 t) (new : t'.state = .running)
      (attempt : t'.attempt = t.attempt + 1) (bound : t.attempt < maxTaskAttempts)
      (lease : t'.lease ≠ none)
  /-- The task is taken back. -/
  | expired (recover : IsRecover c) (old : t.state ≠ .integrated) (new : t'.state = .blocked)
      (lease : t'.lease = none)

/-- What holds of the tables between the calls. -/
structure Sane (s : Store) : Prop where
  nodup : s.tasks.keys.Nodup
  ids : ∀ key t, s.tasks.get? key = some t → t.id = key.2
  projects : ∀ pid p, s.projects.get? pid = some p → p.id = pid
  running : ∀ key t, s.tasks.get? key = some t → t.state = .running →
    DepsIntegrated s key.1 t ∧ 1 ≤ t.attempt ∧ t.attempt ≤ maxTaskAttempts ∧ t.lease ≠ none
  idle : ∀ key t, s.tasks.get? key = some t → t.state ≠ .running → t.lease = none
  linked : ∀ pid, LinkedFrom genesis (projectRows s.events pid)
  sound : Sound s.log

/-- What a call does to the tables. -/
structure Stepped (s : Store) (c : Call) (s' : Store) : Prop where
  effect : ∀ key t, s.tasks.get? key = some t → ∃ t', s'.tasks.get? key = some t' ∧ t'.id = t.id ∧
    t'.dependsOn = t.dependsOn ∧ Effect s c key t t'
  created : ∀ key t', s'.tasks.get? key = some t' → s.tasks.get? key = none →
    t'.id = key.2 ∧ t'.state = .proposed ∧ t'.lease = none
  nodup : s'.tasks.keys.Nodup
  projects : ∀ pid p, s'.projects.get? pid = some p → p.id = pid
  grown : Grown s s' (changed s s')

theorem sane_empty : Sane Store.empty where
  nodup := List.nodup_nil
  ids := by
    intro _ _ h
    cases h
  projects := by
    intro _ _ h
    cases h
  running := by
    intro _ _ h
    cases h
  idle := by
    intro _ _ h
    cases h
  linked _ := trivial
  sound := sound_nil

theorem Effect.integrated {s : Store} {c : Call} {key : Str × Str} {t t' : Task}
    (h : Effect s c key t t') (ht : t.state = .integrated) : t'.state = .integrated := by
  cases h with
  | kept state => exact state.trans ht
  | moved _ allowed =>
      rw [ht] at allowed
      exact absurd allowed List.not_mem_nil
  | left old =>
      rw [ht] at old
      cases old
  | taken _ active => exact absurd ht active
  | expired _ old => exact absurd ht old

theorem Stepped.deps {s s' : Store} {c : Call} (h : Stepped s c s') {pid : Str} {t t' : Task}
    (hdeps : t'.dependsOn = t.dependsOn) (ht : DepsIntegrated s pid t) : DepsIntegrated s' pid t' := by
  intro d hd
  rw [hdeps] at hd
  obtain ⟨td, htd, hstate⟩ := ht d hd
  obtain ⟨td', htd', -, -, he⟩ := h.effect _ _ htd
  exact ⟨td', htd', he.integrated hstate⟩

theorem Stepped.sane {s s' : Store} {c : Call} (h : Stepped s c s') (hs : Sane s) : Sane s' := by
  -- a task of the new table was there before or is new
  have hcases : ∀ key t', s'.tasks.get? key = some t' →
      (∃ t, s.tasks.get? key = some t ∧ t'.id = t.id ∧ t'.dependsOn = t.dependsOn ∧ Effect s c key t t') ∨
        (t'.id = key.2 ∧ t'.state = .proposed ∧ t'.lease = none) := by
    intro key t' ht'
    cases hold : s.tasks.get? key with
    | none => exact .inr (h.created key t' ht' hold)
    | some t =>
        obtain ⟨u, hu, hrest⟩ := h.effect key t hold
        rw [ht'] at hu
        cases hu
        exact .inl ⟨t, rfl, hrest⟩
  refine ⟨h.nodup, ?_, h.projects, ?_, ?_, h.grown.linked hs.linked, h.grown.sound hs.sound⟩
  · intro key t' ht'
    rcases hcases key t' ht' with ⟨t, ht, hid, -, -⟩ | ⟨hid, -, -⟩
    · rw [hid]
      exact hs.ids key t ht
    · exact hid
  · intro key t' ht' hrun
    rcases hcases key t' ht' with ⟨t, ht, -, hdeps, he⟩ | ⟨-, hnew, -⟩
    · cases he with
      | kept state lease attempt =>
          obtain ⟨hd, h1, h2, h3⟩ := hs.running key t ht (state ▸ hrun)
          rw [attempt, lease]
          exact ⟨h.deps hdeps hd, h1, h2, h3⟩
      | moved _ _ new => exact absurd hrun new
      | left _ _ new => exact absurd hrun new
      | taken _ _ _ deps _ attempt bound lease =>
          exact ⟨h.deps hdeps deps, by omega, by omega, lease⟩
      | expired _ _ new =>
          rw [hrun] at new
          cases new
    · rw [hrun] at hnew
      cases hnew
  · intro key t' ht' hrun
    rcases hcases key t' ht' with ⟨t, ht, -, -, he⟩ | ⟨-, -, hnew⟩
    · cases he with
      | kept state lease => exact lease.trans (hs.idle key t ht fun heq => hrun (state.trans heq))
      | moved old _ _ lease => exact lease.trans (hs.idle key t ht old)
      | left _ _ _ lease => exact lease
      | taken _ _ _ _ new => exact absurd new hrun
      | expired _ _ _ lease => exact lease
    · exact hnew

/-! ## Calls that write one row -/

theorem changed_set {s s' : Store} (hs : Sane s) {key : Str × Str} {t t' : Task}
    (ht : s.tasks.get? key = some t) (hset : s'.tasks = s.tasks.set key t') :
    changed s s' =
      if t'.state = t.state then [] else [(key.1, .str key.2, .str t'.state.name)] := by
  have hother : ∀ kv ∈ s.tasks, kv.1 ≠ key → rowChange s'.tasks kv = none := by
    intro kv hkv hne
    have hget : s.tasks.get? kv.1 = some kv.2 := Dict.get?_of_mem hs.nodup hkv
    rw [rowChange, hset, Dict.get?_set, if_neg hne, hget]
    exact if_pos rfl
  rw [changed, filterMap_single hs.nodup ht hother, rowChange, hset, Dict.get?_set, if_pos rfl]
  dsimp only
  split <;> rfl

/-- A call that replaces one row and records its change. -/
theorem stepped_set {s s' : Store} {c : Call} (hs : Sane s) {key : Str × Str} {t t' : Task}
    (ht : s.tasks.get? key = some t) (hset : s'.tasks = s.tasks.set key t')
    (hprojects : s'.projects = s.projects) (hid : t'.id = t.id) (hdeps : t'.dependsOn = t.dependsOn)
    (he : Effect s c key t t')
    (hgrown : Grown s s'
      (if t'.state = t.state then [] else [(key.1, .str key.2, .str t'.state.name)])) :
    Stepped s c s' := by
  refine ⟨?_, ?_, ?_, ?_, ?_⟩
  · intro other u hu
    by_cases hk : other = key
    · subst hk
      rw [ht] at hu
      cases hu
      exact ⟨t', by rw [hset, Dict.get?_set, if_pos rfl], hid, hdeps, he⟩
    · exact ⟨u, by rw [hset, Dict.get?_set, if_neg hk, hu], rfl, rfl, .kept rfl rfl rfl⟩
  · intro other u hu hnone
    have hk : other ≠ key := by
      intro heq
      rw [heq, ht] at hnone
      cases hnone
    rw [hset, Dict.get?_set, if_neg hk, hnone] at hu
    cases hu
  · rw [hset]
    exact Dict.nodup_set hs.nodup key t'
  · rw [hprojects]
    exact hs.projects
  · rw [changed_set hs ht hset]
    exact hgrown

theorem stepped_refl {s : Store} (hs : Sane s) (c : Call) : Stepped s c s := by
  refine ⟨fun key t ht => ⟨t, ht, rfl, rfl, .kept rfl rfl rfl⟩, ?_, hs.nodup, hs.projects, ?_⟩
  · intro key t ht hnone
    rw [ht] at hnone
    cases hnone
  · have hnone : changed s s = [] := by
      rw [changed, List.filterMap_eq_nil_iff]
      intro kv hkv
      rw [rowChange, Dict.get?_of_mem hs.nodup hkv]
      exact if_pos rfl
    rw [hnone]
    exact grown_of_events_eq rfl

theorem updateTask_stepped {s s' : Store} (hs : Sane s) {pid tid : Str} {extra : Extra}
    {updatedAt : Str} (ha : Allowed s (.updateTask pid tid extra updatedAt))
    (h : s.updateTask pid tid extra updatedAt = .ok s') :
    Stepped s (.updateTask pid tid extra updatedAt) s' := by
  obtain ⟨_, _, h⟩ := bind_eq_ok.1 h
  obtain ⟨t, htask, h⟩ := bind_eq_ok.1 h
  have ht := task_ok htask
  have hid := hs.ids _ _ ht
  rcases writeTask_ok h with ⟨other, old, rest, hkey, hold, rfl⟩ | ⟨-, rfl⟩
  · -- the row that is written is the row of the task
    have hsame : other = tid := by
      cases hnamed : Dict.get? extra.fields (lit "id") with
      | none =>
          rw [hnamed, Option.getD_none, hid] at hkey
          cases hkey
          rfl
      | some id =>
          rw [hnamed, Option.getD_some] at hkey
          subst hkey
          rcases ha other hnamed with heq | hnone
          · exact heq
          · rw [hnone] at hold
            cases hold
    subst hsame
    exact stepped_set hs ht rfl rfl hid.symm rfl (.kept rfl rfl rfl)
      (by rw [if_pos rfl]; exact grown_of_events_eq rfl)
  · exact stepped_refl hs _

theorem heartbeat_stepped {s s' : Store} (hs : Sane s) {pid tid lease : Str} {now later : ℚ}
    {updatedAt : Str} (h : s.heartbeat pid tid lease now later updatedAt = .ok s') :
    Stepped s (.heartbeat pid tid lease now later updatedAt) s' := by
  obtain ⟨t, htask, h⟩ := bind_eq_ok.1 h
  obtain ⟨_, _, h⟩ := bind_eq_ok.1 h
  obtain ⟨_, _, h⟩ := bind_eq_ok.1 h
  obtain ⟨_, _, h⟩ := bind_eq_ok.1 h
  have ht := task_ok htask
  have hid : t.id = tid := hs.ids _ _ ht
  rw [hid] at h
  obtain ⟨rest, rfl⟩ := writeTask_row h ht
  exact stepped_set hs ht rfl rfl hid.symm rfl (.kept rfl rfl rfl)
    (by rw [if_pos rfl]; exact grown_of_events_eq rfl)

theorem transition_ok {s s' : Store} {pid tid state actor : Str} {extra : Extra} {lease : Option Str}
    {now : ℚ} {updatedAt : Str} {draw : Draw}
    (h : s.transition pid tid state actor extra lease now updatedAt draw = .ok s') :
    ∃ p t next s₁ findings moved, s.projects.get? pid = some p ∧ s.tasks.get? (pid, tid) = some t ∧
      next ∈ t.state.transitions ∧ next.name = state ∧
      (t.state = .running → t.presents lease now = .ok true) ∧
      moved.state = next ∧ moved.dependsOn = t.dependsOn ∧ moved.attempt = t.attempt ∧
      moved.lease = (if t.state = .running then none else t.lease) ∧
      s.writeTask pid (t.update extra).1 moved updatedAt = .ok s₁ ∧
      s₁.insertEvent p (lit "task.transition") actor (some ((t.update extra).1, moved.attempt))
        [(lit "from", .str t.state.name), (lit "to", .str next.name), (lit "findings", findings)] draw =
        .ok s' := by
  obtain ⟨p, hp, h⟩ := bind_eq_ok.1 h
  obtain ⟨t, ht, h⟩ := bind_eq_ok.1 h
  cases hfind : t.state.transitions.find? fun q => decide (q.name = state) with
  | none =>
      rw [hfind] at h
      cases h
  | some next =>
      rw [hfind] at h
      have hmem := List.mem_of_find?_eq_some hfind
      have hname : next.name = state := by
        have hdec := List.find?_some hfind
        exact of_decide_eq_true hdec
      by_cases hrun : t.state = .running
      · simp only [if_pos hrun] at h
        obtain ⟨held, hheld, h⟩ := bind_eq_ok.1 h
        obtain ⟨_, hreq, h⟩ := bind_eq_ok.1 h
        rw [require_eq_ok.1 hreq] at hheld
        obtain ⟨s₁, hwrite, h⟩ := bind_eq_ok.1 h
        obtain ⟨findings, _, h⟩ := bind_eq_ok.1 h
        exact ⟨p, t, next, s₁, findings,
          { (t.update extra).2 with state := next, lease := none, leaseUntil := 0 }, project_ok hp, task_ok ht, hmem, hname, fun _ => hheld, rfl,
          rfl, rfl, (if_pos hrun).symm, hwrite, h⟩
      · simp only [if_neg hrun] at h
        obtain ⟨s₁, hwrite, h⟩ := bind_eq_ok.1 h
        obtain ⟨findings, _, h⟩ := bind_eq_ok.1 h
        exact ⟨p, t, next, s₁, findings, { (t.update extra).2 with state := next }, project_ok hp,
          task_ok ht, hmem, hname,
          fun heq => absurd heq hrun, rfl, rfl, rfl, (if_neg hrun).symm, hwrite, h⟩

theorem recorded_transition {s s' : Store} {pid : Str} {id a b : Json} {q : TaskState} {row : EventRow}
    (h : Inserted s s' pid (lit "task.transition") id
      [(lit "from", a), (lit "to", .str q.name), (lit "findings", b)] row) :
    recorded row = some (pid, id, .str q.name) := by
  rw [recorded, if_pos h.type, h.project, h.task, h.data]
  rfl

theorem transition_stepped {s s' : Store} (hs : Sane s) {pid tid state actor : Str} {extra : Extra}
    {lease : Option Str} {now : ℚ} {updatedAt : Str} {draw : Draw}
    (ha : Allowed s (.transition pid tid state actor extra lease now updatedAt draw))
    (h : s.transition pid tid state actor extra lease now updatedAt draw = .ok s') :
    Stepped s (.transition pid tid state actor extra lease now updatedAt draw) s' := by
  obtain ⟨p, t, next, s₁, findings, moved, hp, ht, hnext, hname, hheld, hstate, hdeps, hattempt, hlease,
    hwrite, hinsert⟩ := transition_ok h
  obtain ⟨hrun, hnamed⟩ := ha
  have hid : t.id = tid := hs.ids _ _ ht
  -- the identifier that is written is the one of the task
  have hkey : (t.update extra).1 = .str tid := by
    show (Dict.get? extra.fields (lit "id")).getD (.str t.id) = .str tid
    cases hget : Dict.get? extra.fields (lit "id") with
    | none => rw [Option.getD_none, hid]
    | some id => rw [Option.getD_some, hnamed id hget]
  rw [hkey] at hwrite hinsert
  obtain ⟨rest, rfl⟩ := writeTask_row hwrite ht
  obtain ⟨row, hrow⟩ := insertEvent_ok hinsert
  rw [hs.projects _ _ hp] at hrow
  have hrecorded := recorded_transition hrow
  have hgrown := hrow.grownFrom (s := s) rfl
  rw [hrecorded] at hgrown
  have hchange : moved.state ≠ t.state := by
    rw [hstate]
    intro heq
    exact not_mem_transitions _ (heq ▸ hnext)
  have hidle : moved.state ≠ .running := by
    rw [hstate]
    intro heq
    rw [heq] at hnext hname
    obtain ⟨hready, hrepair⟩ := hrun hname.symm t ht
    revert hready hrepair hnext
    cases t.state <;> decide
  have hset : s'.tasks = s.tasks.set (pid, tid) { moved with id := tid, rest := rest } := by
    rw [hrow.store]
  refine stepped_set hs ht hset ?_ hid.symm hdeps ?_ ?_
  · rw [hrow.store]
  · by_cases hrunning : t.state = .running
    · rw [if_pos hrunning] at hlease
      obtain ⟨hsome, hsame, htime⟩ := presents_ok (hheld hrunning)
      exact .left hrunning ⟨rfl, hsome, hsame, htime⟩ hidle hlease
    · rw [if_neg hrunning] at hlease
      refine .moved hrunning ?_ hidle hlease
      show moved.state ∈ _
      rw [hstate]
      exact hnext
  · rw [if_neg hchange, hstate]
    exact hgrown

theorem claimable_true {states : Dict Str TaskState} {tid : Option Str} {t : Task}
    (h : claimable states tid t = .ok true) :
    (t.state = .ready ∨ t.state = .repairRequired) ∧
      (∀ d ∈ t.dependsOn, states.get? d = some .integrated) ∧ t.attempt < maxTaskAttempts := by
  rw [claimable] at h
  split at h
  · cases h
  · rename_i hskip
    obtain ⟨free, hfree, h⟩ := bind_eq_ok.1 h
    injection h with hval
    obtain ⟨rfl, hlt⟩ : free = true ∧ t.attempt < maxTaskAttempts := by simpa using hval
    refine ⟨?_, allIntegrated_true hfree, hlt⟩
    by_contra hstate
    exact hskip (.inr (not_or.1 hstate))

theorem mem_projectTasks {s : Store} (hs : Sane s) {pid : Str} {t : Task}
    (h : t ∈ s.projectTasks pid) : s.tasks.get? (pid, t.id) = some t := by
  obtain ⟨⟨key, u⟩, hmem, rfl⟩ := List.mem_map.1 h
  obtain ⟨hrow, hpid⟩ := List.mem_filter.1 hmem
  have hget : s.tasks.get? key = some u := Dict.get?_of_mem hs.nodup hrow
  have hkey : key.1 = pid := of_decide_eq_true hpid
  have hid := hs.ids key u hget
  show s.tasks.get? (pid, u.id) = some u
  rw [hid, ← hkey]
  exact hget

/-- The states that `claim` looks up are those of the tasks. -/
theorem states_get {s : Store} (hs : Sane s) {pid d : Str} {q : TaskState}
    (h : (Dict.ofPairs ((s.projectTasks pid).map fun t => (t.id, t.state))).get? d = some q) :
    ∃ td, s.tasks.get? (pid, d) = some td ∧ td.state = q := by
  rw [Dict.get?_ofPairs, Option.map_eq_some_iff] at h
  obtain ⟨kv, hlast, hq⟩ := h
  obtain ⟨hmem, hkey⟩ := List.mem_filter.1 (List.mem_of_getLast? hlast)
  obtain ⟨td, htd, rfl⟩ := List.mem_map.1 hmem
  have hget := mem_projectTasks hs htd
  rw [show td.id = d from of_decide_eq_true hkey] at hget
  exact ⟨td, hget, hq⟩

theorem claim_ok {s s' : Store} {pid owner : Str} {tid : Option Str} {token : Str} {now : ℚ}
    {updatedAt : Str} {draw : Draw} {out : Option Task}
    (h : s.claim pid owner tid token now updatedAt draw = .ok (out, s')) :
    (out = none ∧ s' = s) ∨
      ∃ p t s₁ route taken, s.projects.get? pid = some p ∧ t ∈ s.projectTasks pid ∧
        claimable (Dict.ofPairs ((s.projectTasks pid).map fun t => (t.id, t.state))) tid t = .ok true ∧
        out = some taken ∧ taken.id = t.id ∧ taken.state = .running ∧ taken.attempt = t.attempt + 1 ∧
        taken.lease ≠ none ∧ taken.dependsOn = t.dependsOn ∧
        s.writeTask pid (.str t.id) taken updatedAt = .ok s₁ ∧
        s₁.insertEvent p (lit "task.claimed") owner (some (.str t.id, taken.attempt))
          [(lit "route", route), (lit "lease_seconds", .int 900)] draw = .ok s' := by
  obtain ⟨p, hp, h⟩ := bind_eq_ok.1 h
  by_cases hpaused : p.paused = true
  · rw [if_pos hpaused] at h
    cases h
    exact .inl ⟨rfl, rfl⟩
  · rw [if_neg hpaused] at h
    obtain ⟨found, hfind, h⟩ := bind_eq_ok.1 h
    cases found with
    | none =>
        cases h
        exact .inl ⟨rfl, rfl⟩
    | some t =>
        obtain ⟨hmem, hclaim⟩ := findE_some hfind
        obtain ⟨s₁, hwrite, h⟩ := bind_eq_ok.1 h
        obtain ⟨route, _, h⟩ := bind_eq_ok.1 h
        obtain ⟨s₂, hinsert, h⟩ := bind_eq_ok.1 h
        cases h
        exact .inr ⟨p, t, s₁, route, _, project_ok hp, hmem, hclaim, rfl, rfl, rfl, rfl, nofun, rfl,
          hwrite, hinsert⟩

theorem recorded_claim {s s' : Store} {pid : Str} {id : Json} {data : Fields} {row : EventRow}
    (h : Inserted s s' pid (lit "task.claimed") id data row) :
    recorded row = some (pid, id, .str TaskState.running.name) := by
  have hne : row.event.eventType ≠ lit "task.transition" := by
    rw [h.type]
    decide
  rw [recorded, if_neg hne, if_pos h.type, h.project, h.task]

theorem claim_stepped {s s' : Store} (hs : Sane s) {pid owner : Str} {tid : Option Str} {token : Str}
    {now : ℚ} {updatedAt : Str} {draw : Draw} {out : Option Task}
    (h : s.claim pid owner tid token now updatedAt draw = .ok (out, s')) :
    Stepped s (.claim pid owner tid token now updatedAt draw) s' := by
  rcases claim_ok h with ⟨-, rfl⟩ | ⟨p, t, s₁, route, taken, hp, hmem, hclaim, hout, hid, hstate, hattempt,
    hlease, hdeps, hwrite, hinsert⟩
  · exact stepped_refl hs _
  · have ht := mem_projectTasks hs hmem
    obtain ⟨hready, hint, hbound⟩ := claimable_true hclaim
    have hopen : t.state ≠ .running ∧ t.state ≠ .integrated := by
      rcases hready with heq | heq <;> rw [heq] <;> decide
    obtain ⟨rest, rfl⟩ := writeTask_row hwrite ht
    obtain ⟨row, hrow⟩ := insertEvent_ok hinsert
    rw [hs.projects _ _ hp] at hrow
    have hgrown := hrow.grownFrom (s := s) rfl
    rw [recorded_claim hrow] at hgrown
    have hhanded : handedOut s (.claim pid owner tid token now updatedAt draw) = some (pid, t.id) := by
      subst hout
      have hexec : exec s (.claim pid owner tid token now updatedAt draw) = .ok (some taken, s') := h
      rw [← hid]
      unfold handedOut
      rw [hexec]
    have hset : s'.tasks = s.tasks.set (pid, t.id) { taken with id := t.id, rest := rest } := by
      rw [hrow.store]
    refine stepped_set hs ht hset ?_ rfl hdeps ?_ ?_
    · rw [hrow.store]
    · exact .taken hopen.1 hopen.2 hhanded (fun d hd => states_get hs (hint d hd)) hstate hattempt hbound
        hlease
    · have hchange : taken.state ≠ t.state := by
        rw [hstate]
        exact hopen.1.symm
      rw [if_neg hchange, hstate]
      exact hgrown

/-! ## Calls that go over the table -/

theorem recorded_expired {s s' : Store} {pid : Str} {id : Json} {data : Fields} {row : EventRow}
    (h : Inserted s s' pid (lit "worker.expired") id data row) :
    recorded row = some (pid, id, .str TaskState.blocked.name) := by
  have hne : row.event.eventType ≠ lit "task.transition" ∧ row.event.eventType ≠ lit "task.claimed" := by
    rw [h.type]
    decide
  rw [recorded, if_neg hne.1, if_neg hne.2, if_pos h.type, h.project, h.task]

theorem lost_state {t : Task} {startup : Bool} {now : ℚ} (h : t.lost startup now = true) :
    t.state ≠ .blocked ∧ t.state ≠ .integrated := by
  have hstate : t.state = .running ∨ t.state = .triaging ∨ t.state = .localVerified := by
    rw [Task.lost, Bool.or_eq_true, Bool.and_eq_true, Bool.and_eq_true, decide_eq_true_eq,
      decide_eq_true_eq] at h
    rcases h with ⟨h, -⟩ | ⟨-, h⟩
    · exact .inl h
    · exact .inr h
  rcases hstate with h | h | h <;> rw [h] <;> decide

/-- What the loop of `recover` has done to a task that it has come to. -/
def TakenBack (t t' : Task) : Prop :=
  t.state ≠ .blocked ∧ t.state ≠ .integrated ∧ t'.id = t.id ∧ t'.dependsOn = t.dependsOn ∧
    t'.state = .blocked ∧ t'.lease = none

/-- The loop of `recover` over rows that are as they were fetched. -/
theorem recoverRows_spec {startup : Bool} {now : Nat → ℚ} {updatedAt : Nat → Str} {draw : Nat → Draw}
    {i : Nat} {rows : Dict (Str × Str) Task} {s s' : Store} (hnd : rows.keys.Nodup)
    (hrows : ∀ kv ∈ rows, s.tasks.get? kv.1 = some kv.2 ∧ kv.2.id = kv.1.2)
    (hprojects : ∀ pid p, s.projects.get? pid = some p → p.id = pid)
    (h : Store.recoverRows startup now updatedAt draw i rows s = .ok s') :
    (∀ key, key ∉ rows.keys → s'.tasks.get? key = s.tasks.get? key) ∧
      (∀ kv ∈ rows, ∃ t', s'.tasks.get? kv.1 = some t' ∧ (t' = kv.2 ∨ TakenBack kv.2 t')) ∧
      s'.tasks.keys = s.tasks.keys ∧ s'.projects = s.projects ∧
      Grown s s' (rows.filterMap (rowChange s'.tasks)) := by
  induction rows generalizing i s with
  | nil =>
      cases h
      exact ⟨fun _ _ => rfl, fun kv hkv => absurd hkv List.not_mem_nil, rfl, rfl, grown_of_events_eq rfl⟩
  | cons kv rows ih =>
      obtain ⟨key, t⟩ := kv
      obtain ⟨hnot, hnd'⟩ := List.nodup_cons.1 hnd
      obtain ⟨ht, hid⟩ := hrows (key, t) List.mem_cons_self
      rw [Store.recoverRows] at h
      by_cases hlost : t.lost startup (now i) = true
      · rw [if_pos hlost] at h
        obtain ⟨s₁, hwrite, h₁⟩ := bind_eq_ok.1 h
        obtain ⟨p, hp, h₂⟩ := bind_eq_ok.1 h₁
        obtain ⟨s₂, hinsert, h₃⟩ := bind_eq_ok.1 h₂
        rw [show t.id = key.2 from hid] at hwrite hinsert
        obtain ⟨rest, rfl⟩ := writeTask_row hwrite ht
        obtain ⟨row, hrow⟩ := insertEvent_ok hinsert
        rw [hprojects _ _ (project_ok hp)] at hrow
        -- the other rows have not been touched
        have hkeep : ∀ other, other ≠ key → s₂.tasks.get? other = s.tasks.get? other := by
          intro other hne
          rw [hrow.store]
          exact (Dict.get?_set _ _ _ _).trans (if_neg hne)
        have hrows' : ∀ kv ∈ rows, s₂.tasks.get? kv.1 = some kv.2 ∧ kv.2.id = kv.1.2 := by
          intro kv hkv
          have hne : kv.1 ≠ key := by
            intro heq
            apply hnot
            rw [← heq]
            show kv.1 ∈ rows.map Prod.fst
            exact List.mem_map_of_mem hkv
          obtain ⟨hget, hid'⟩ := hrows kv (List.mem_cons_of_mem _ hkv)
          exact ⟨(hkeep kv.1 hne).trans hget, hid'⟩
        have hprojects' : s₂.projects = s.projects := by rw [hrow.store]
        obtain ⟨hframe, hdone, hkeys, hproj, hgrown⟩ := ih hnd' hrows' (hprojects' ▸ hprojects) h₃
        have hnew : s'.tasks.get? key = some { t.recovered with id := key.2, rest := rest } := by
          rw [hframe key hnot, hrow.store]
          exact (Dict.get?_set _ _ _ _).trans (if_pos rfl)
        obtain ⟨hblocked, hinteg⟩ := lost_state hlost
        have hchange : rowChange s'.tasks (key, t) =
            some (key.1, .str key.2, .str TaskState.blocked.name) := by
          rw [rowChange, hnew]
          exact if_neg hblocked.symm
        refine ⟨?_, ?_, ?_, hproj.trans hprojects', ?_⟩
        · intro other hother
          have hne : other ≠ key := fun heq => hother (heq ▸ List.mem_cons_self)
          rw [hframe other fun hmem => hother (List.mem_cons_of_mem _ hmem), hkeep other hne]
        · intro kv hkv
          rcases List.mem_cons.1 hkv with rfl | hkv
          · exact ⟨_, hnew, .inr ⟨hblocked, hinteg, hid.symm, rfl, rfl, rfl⟩⟩
          · exact hdone kv hkv
        · rw [hkeys, hrow.store]
          show (s.tasks.set key _).keys = s.tasks.keys
          rw [Dict.keys_set, if_pos (Dict.mem_keys_of_get? ht)]
        · rw [List.filterMap_cons, hchange]
          have hfirst := hrow.grownFrom (s := s) rfl
          rw [recorded_expired hrow] at hfirst
          exact hfirst.trans hgrown
      · rw [if_neg hlost] at h
        obtain ⟨hframe, hdone, hkeys, hproj, hgrown⟩ :=
          ih hnd' (fun kv hkv => hrows kv (List.mem_cons_of_mem _ hkv)) hprojects h
        have hsame : s'.tasks.get? key = some t := by
          rw [hframe key hnot]
          exact ht
        refine ⟨?_, ?_, hkeys, hproj, ?_⟩
        · intro other hother
          exact hframe other fun hmem => hother (List.mem_cons_of_mem _ hmem)
        · intro kv hkv
          rcases List.mem_cons.1 hkv with rfl | hkv
          · exact ⟨t, hsame, .inl rfl⟩
          · exact hdone kv hkv
        · have hchange : rowChange s'.tasks (key, t) = none := by
            rw [rowChange, hsame]
            exact if_pos rfl
          rw [List.filterMap_cons, hchange]
          exact hgrown

theorem recover_stepped {s s' : Store} (hs : Sane s) {startup : Bool} {now : Nat → ℚ}
    {updatedAt : Nat → Str} {draw : Nat → Draw} (h : s.recover startup now updatedAt draw = .ok s') :
    Stepped s (.recover startup now updatedAt draw) s' := by
  have hrows : ∀ kv ∈ s.tasks, s.tasks.get? kv.1 = some kv.2 ∧ kv.2.id = kv.1.2 := by
    intro kv hkv
    have hget : s.tasks.get? kv.1 = some kv.2 := Dict.get?_of_mem hs.nodup hkv
    exact ⟨hget, hs.ids _ _ hget⟩
  obtain ⟨hframe, hdone, hkeys, hproj, hgrown⟩ := recoverRows_spec hs.nodup hrows hs.projects h
  refine ⟨?_, ?_, ?_, ?_, hgrown⟩
  · intro key t ht
    obtain ⟨t', ht', hcase⟩ := hdone (key, t) (Dict.mem_of_get? ht)
    rcases hcase with rfl | ⟨-, hinteg, hid, hdeps, hblocked, hlease⟩
    · exact ⟨_, ht', rfl, rfl, .kept rfl rfl rfl⟩
    · exact ⟨t', ht', hid, hdeps, .expired trivial hinteg hblocked hlease⟩
  · intro key t' ht' hnone
    have hnot : key ∉ s.tasks.keys := Dict.get?_eq_none_iff.1 hnone
    rw [hframe key hnot, hnone] at ht'
    cases ht'
  · rw [hkeys]
    exact hs.nodup
  · rw [hproj]
    exact hs.projects

theorem insertTasks_spec {pid updatedAt : Str} {ds : List Definition} {tasks tasks' : Dict (Str × Str) Task}
    (hnd : tasks.keys.Nodup) (h : ds.foldlM (insertTask pid updatedAt) tasks = .ok tasks') :
    tasks'.keys.Nodup ∧
      (∀ key t, tasks.get? key = some t → tasks'.get? key = some t) ∧
      ∀ key t, tasks'.get? key = some t → tasks.get? key = none →
        t.id = key.2 ∧ t.state = .proposed ∧ t.lease = none := by
  induction ds generalizing tasks with
  | nil =>
      cases h
      refine ⟨hnd, fun _ _ ht => ht, ?_⟩
      intro key t ht hnone
      rw [ht] at hnone
      cases hnone
  | cons d ds ih =>
      rw [List.foldlM_cons] at h
      obtain ⟨mid, hinsert, h⟩ := bind_eq_ok.1 h
      obtain ⟨text, _, hinsert⟩ := bind_eq_ok.1 hinsert
      obtain ⟨bytes, _, hinsert⟩ := bind_eq_ok.1 hinsert
      obtain ⟨_, hnew, hinsert⟩ := bind_eq_ok.1 hinsert
      injection hinsert with hmid
      rw [← Dict.set_of_notMem (require_eq_ok.1 hnew)] at hmid
      subst hmid
      obtain ⟨hnd', hold, hcreated⟩ := ih (Dict.nodup_set hnd _ _) h
      have hnotin := Dict.get?_eq_none_iff.2 (require_eq_ok.1 hnew)
      refine ⟨hnd', ?_, ?_⟩
      · intro key t ht
        apply hold
        have hne : key ≠ (pid, (d.newTask updatedAt).id) := by
          intro heq
          rw [← heq, ht] at hnotin
          cases hnotin
        rw [Dict.get?_set, if_neg hne, ht]
      · intro key t ht hnone
        by_cases hk : key = (pid, (d.newTask updatedAt).id)
        · have hfirst := hold key (d.newTask updatedAt) (by rw [Dict.get?_set, if_pos hk])
          rw [ht] at hfirst
          cases hfirst
          rw [hk]
          exact ⟨rfl, rfl, rfl⟩
        · exact hcreated key t ht (by rw [Dict.get?_set, if_neg hk, hnone])

theorem create_stepped {s s' : Store} (hs : Sane s) {m : Manifest} {mode : Str} {allowCloud : Bool}
    {pid updatedAt : Str} {draw : Draw}
    (h : s.createProject m mode allowCloud pid updatedAt draw = .ok s') :
    Stepped s (.create m mode allowCloud pid updatedAt draw) s' := by
  obtain ⟨specHash, _, h₁⟩ := bind_eq_ok.1 h
  obtain ⟨_, hnew, h₂⟩ := bind_eq_ok.1 h₁
  obtain ⟨tasks', htasks, h₃⟩ := bind_eq_ok.1 h₂
  obtain ⟨hnd, hold, hcreated⟩ := insertTasks_spec hs.nodup htasks
  obtain ⟨row, hrow⟩ := insertEvent_ok h₃
  have hstore := hrow.store
  have hquiet : recorded row = none := by
    have hne : row.event.eventType ≠ lit "task.transition" ∧ row.event.eventType ≠ lit "task.claimed" ∧
        row.event.eventType ≠ lit "worker.expired" := by
      rw [hrow.type]
      decide
    rw [recorded, if_neg hne.1, if_neg hne.2.1, if_neg hne.2.2]
  refine ⟨?_, ?_, ?_, ?_, ?_⟩
  · intro key t ht
    exact ⟨t, by rw [hstore]; exact hold key t ht, rfl, rfl, .kept rfl rfl rfl⟩
  · intro key t' ht' hnone
    rw [hstore] at ht'
    exact hcreated key t' ht' hnone
  · rw [hstore]
    exact hnd
  · intro other q hq
    rw [hstore, ← Dict.set_of_notMem (require_eq_ok.1 hnew), Dict.get?_set] at hq
    split at hq
    · rename_i heq
      cases hq
      exact heq.symm
    · exact hs.projects other q hq
  · have hnone : changed s s' = [] := by
      rw [changed, List.filterMap_eq_nil_iff]
      intro kv hkv
      have hget : s'.tasks.get? kv.1 = some kv.2 := by
        rw [hstore]
        exact hold kv.1 kv.2 (Dict.get?_of_mem hs.nodup hkv)
      rw [rowChange, hget]
      exact if_pos rfl
    have hgrown := hrow.grownFrom (s := s) rfl
    rw [hquiet] at hgrown
    rw [hnone]
    exact hgrown

theorem after_stepped {s : Store} (hs : Sane s) {c : Call} (ha : Allowed s c) : Stepped s c (after s c) := by
  rw [after]
  cases hexec : exec s c with
  | error e => exact stepped_refl hs c
  | ok res =>
      obtain ⟨out, s'⟩ := res
      cases c with
      | create m mode allowCloud pid updatedAt draw =>
          obtain ⟨t, ht, h⟩ := bind_eq_ok.1 hexec
          cases h
          exact create_stepped hs ht
      | transition pid tid state actor extra lease now updatedAt draw =>
          obtain ⟨t, ht, h⟩ := bind_eq_ok.1 hexec
          cases h
          exact transition_stepped hs ha ht
      | updateTask pid tid extra updatedAt =>
          obtain ⟨t, ht, h⟩ := bind_eq_ok.1 hexec
          cases h
          exact updateTask_stepped hs ha ht
      | claim pid owner tid token now updatedAt draw => exact claim_stepped hs hexec
      | heartbeat pid tid lease now later updatedAt =>
          obtain ⟨t, ht, h⟩ := bind_eq_ok.1 hexec
          cases h
          exact heartbeat_stepped hs ht
      | recover startup now updatedAt draw =>
          obtain ⟨t, ht, h⟩ := bind_eq_ok.1 hexec
          cases h
          exact recover_stepped hs ht

/-! ## Whole runs -/

theorem runCalls_append (s : Store) (cs ds : List Call) :
    runCalls s (cs ++ ds) = runCalls (runCalls s cs) ds := List.foldl_append ..

theorem allowedRun_append {s : Store} {cs ds : List Call} (h : AllowedRun s (cs ++ ds)) :
    AllowedRun s cs ∧ AllowedRun (runCalls s cs) ds := by
  induction cs generalizing s with
  | nil => exact ⟨trivial, h⟩
  | cons c cs ih =>
      obtain ⟨hcs, hds⟩ := ih h.2
      exact ⟨⟨h.1, hcs⟩, hds⟩

theorem Sane.run {s : Store} (hs : Sane s) {cs : List Call} (h : AllowedRun s cs) :
    Sane (runCalls s cs) := by
  induction cs generalizing s with
  | nil => exact hs
  | cons c cs ih => exact ih ((after_stepped hs h.1).sane hs) h.2

theorem stepped_at {pre post : List Call} {c : Call} (h : AllowedRun Store.empty (pre ++ c :: post)) :
    Sane (runCalls Store.empty pre) ∧
      Stepped (runCalls Store.empty pre) c (runCalls Store.empty (pre ++ [c])) := by
  obtain ⟨hpre, hrest⟩ := allowedRun_append h
  have hs := sane_empty.run hpre
  rw [runCalls_append]
  exact ⟨hs, after_stepped hs hrest.1⟩

/-- A task that is running was handed out, and has been running since. -/
theorem claimed_of_running {cs : List Call} (h : AllowedRun Store.empty cs) {key : Str × Str} {t : Task}
    (ht : (runCalls Store.empty cs).tasks.get? key = some t) (hrun : t.state = .running) :
    ClaimedIn cs key := by
  induction cs using List.reverseRecOn generalizing t with
  | nil => cases ht
  | append_singleton cs c ih =>
      obtain ⟨hcs, -⟩ := allowedRun_append h
      obtain ⟨hs, hstep⟩ := stepped_at h
      cases hold : (runCalls Store.empty cs).tasks.get? key with
      | none =>
          have hnew := (hstep.created key t ht hold).2.1
          rw [hrun] at hnew
          cases hnew
      | some u =>
          obtain ⟨t', ht', -, -, he⟩ := hstep.effect key u hold
          rw [ht] at ht'
          cases ht'
          cases he with
          | kept state =>
              obtain ⟨pre, c₀, post, rfl, hout, hsince⟩ := ih hcs hold (state ▸ hrun)
              refine ⟨pre, c₀, post ++ [c], by rw [List.append_assoc]; rfl, hout, ?_⟩
              intro mid hmid
              rcases List.prefix_concat_iff.1 hmid with rfl | hmid
              · refine ⟨t, ?_, hrun⟩
                rw [List.append_assoc] at ht
                exact ht
              · exact hsince mid hmid
          | moved _ _ new => exact absurd hrun new
          | left _ _ new => exact absurd hrun new
          | taken _ _ out =>
              refine ⟨cs, c, [], rfl, out, ?_⟩
              intro mid hmid
              rw [List.prefix_nil.1 hmid]
              exact ⟨t, ht, hrun⟩
          | expired _ _ new =>
              rw [hrun] at new
              cases new

theorem integrated_run {s : Store} (hs : Sane s) {cs : List Call} (h : AllowedRun s cs)
    {key : Str × Str} {t : Task} (ht : s.tasks.get? key = some t) (hint : t.state = .integrated) :
    ∃ t', (runCalls s cs).tasks.get? key = some t' ∧ t'.state = .integrated := by
  induction cs generalizing s t with
  | nil => exact ⟨t, ht, hint⟩
  | cons c cs ih =>
      have hstep := after_stepped hs h.1
      obtain ⟨t', ht', -, -, he⟩ := hstep.effect key t ht
      exact ih (hstep.sane hs) h.2 ht' (he.integrated hint)

theorem handedOut_idle {s : Store} (hs : Sane s) {c : Call} {key : Str × Str}
    (h : handedOut s c = some key) : ∃ t, s.tasks.get? key = some t ∧ t.state ≠ .running := by
  unfold handedOut at h
  split at h
  · rename_i pid owner tid token now updatedAt draw out s' hexec
    cases h
    rcases claim_ok hexec with ⟨hnone, -⟩ | ⟨p, t, s₁, route, taken, -, hmem, hclaim, hout, hid, -⟩
    · cases hnone
    · cases hout
      refine ⟨t, ?_, ?_⟩
      · rw [hid]
        exact mem_projectTasks hs hmem
      · rcases (claimable_true hclaim).1 with heq | heq <;> rw [heq] <;> decide
  · cases h

theorem recorded_run {s : Store} (hs : Sane s) {cs : List Call} (h : AllowedRun s cs) :
    (runCalls s cs).events.filterMap recorded = s.events.filterMap recorded ++ history s cs := by
  induction cs generalizing s with
  | nil => exact (List.append_nil _).symm
  | cons c cs ih =>
      have hstep := after_stepped hs h.1
      obtain ⟨new, hnew, hrecorded⟩ := hstep.grown.events
      have hrest := ih (hstep.sane hs) h.2
      rw [hnew, List.filterMap_append, hrecorded, List.append_assoc] at hrest
      exact hrest

/-- In every run whose calls keep to the machine, tasks run only under a claim and a lease, with their
dependencies integrated; the claims of a task do not overlap, and the events are linked and record each
change of state once. -/
theorem machineOk_of_allowed (cs : List Call) (h : AllowedRun Store.empty cs) : MachineOk cs := by
  have hs := sane_empty.run h
  constructor
  case running =>
    intro key t ht hrun
    exact ⟨claimed_of_running h ht hrun, hs.running key t ht hrun⟩
  case idle => exact hs.idle
  case integrated =>
    rintro pre post key t rfl ht hint
    obtain ⟨hpre, hpost⟩ := allowedRun_append h
    rw [runCalls_append]
    exact integrated_run (sane_empty.run hpre) hpost ht hint
  case leaving =>
    rintro pre c post key t rfl ht hrun hleft
    obtain ⟨-, hstep⟩ := stepped_at h
    obtain ⟨t', ht', -, -, he⟩ := hstep.effect key t ht
    cases he with
    | kept state => exact absurd ⟨t', ht', state.trans hrun⟩ hleft
    | moved old => exact absurd hrun old
    | left _ presents => exact .inl presents
    | taken old => exact absurd hrun old
    | expired recover => exact .inr recover
  case exclusive =>
    rintro pre c mid c' post key rfl - hout
    refine ⟨mid, List.prefix_refl mid, ?_⟩
    rintro ⟨t, ht, hrun⟩
    obtain ⟨hpre, -⟩ := allowedRun_append h
    obtain ⟨u, hu, hidle⟩ := handedOut_idle (sane_empty.run hpre) hout
    rw [ht] at hu
    cases hu
    exact hidle hrun
  case linked => exact hs.linked
  case recorded => exact recorded_run sane_empty h

end Machine

/-! ## A task that nobody claimed -/

section Concrete

attribute [local instance] wholeFloats

/-- A manifest with one task. -/
def sampleManifest : Manifest where
  name := lit "demo"
  goal := lit "ship it"
  tasks := [⟨lit "T1", [], [(lit "title", .str (lit "First")), (lit "route", .str (lit "local"))]⟩]
  document := .obj [(lit "schema_version", .int 1), (lit "name", .str (lit "demo"))]
  ids_nodup := by decide
  deps_known := by simp

/-- No fields. -/
def noFields : Extra := ⟨[], fun _ _ => List.not_mem_nil⟩

/-- The event numbers and times that a call draws. -/
def sampleDraw (n : Nat) : Draw := ⟨natRepr n, lit "2026-01-01T00:00:00+00:00"⟩

/-- A transition of the task of the sample. -/
def sampleMove (state : String) (lease : Option Str) (n : Nat) : Call :=
  .transition (lit "p-1") (lit "T1") (lit state) (lit "coordinator") noFields lease 100
    (lit "2026-01-01T00:00:00+00:00") (sampleDraw n)

/-- A project whose task is made ready. -/
def sampleStart : List Call :=
  [.create sampleManifest (lit "live") false (lit "p-1") (lit "2026-01-01T00:00:00+00:00") (sampleDraw 0),
    sampleMove "triaging" none 1, sampleMove "ready" none 2]

/-- The task is claimed and finished under its lease. -/
def sampleCalls : List Call :=
  sampleStart ++ [.claim (lit "p-1") (lit "runner-1") none (lit "token") 50
    (lit "2026-01-01T00:00:00+00:00") (sampleDraw 3), sampleMove "local_verified" (some (lit "token")) 4]

theorem sampleCalls_machineOk :
    ((runCalls Store.empty sampleCalls).tasks.get? (lit "p-1", lit "T1")).map
        (fun t => (t.state, t.attempt, t.lease)) = some (.localVerified, 1, none) ∧
      MachineOk sampleCalls := by
  have hmove : ∀ (s : Store) (state : String) (lease : Option Str) (n : Nat),
      lit state ≠ TaskState.running.name → Allowed s (sampleMove state lease n) := by
    intro s state lease n hne
    exact ⟨fun heq => absurd heq hne, fun id hid => nomatch hid⟩
  refine ⟨by decide +kernel, machineOk_of_allowed sampleCalls ⟨trivial, ?_, ?_, trivial, ?_, trivial⟩⟩
  · exact hmove _ "triaging" none 1 (by decide)
  · exact hmove _ "ready" none 2 (by decide)
  · exact hmove _ "local_verified" (some (lit "token")) 4 (by decide)

/-- A `transition` to `running` starts a task that nobody has claimed, without a lease. -/
theorem transition_starts_unleased : ¬∀ cs, MachineOk cs := by
  intro hall
  have hok := hall (sampleStart ++ [sampleMove "running" none 3])
  have hstate : ((runCalls Store.empty (sampleStart ++ [sampleMove "running" none 3])).tasks.get?
      (lit "p-1", lit "T1")).map (fun t => (t.state, t.lease)) = some (.running, none) := by
    decide +kernel
  obtain ⟨t, ht, hpair⟩ := Option.map_eq_some_iff.1 hstate
  injection hpair with hrun hlease
  exact (hok.running _ t ht hrun).2.2.2.2 hlease

end Concrete

end ResidualHarness.Station
