import ResidualHarness.Python.WholeFloats
import ResidualHarness.Python.Loops
import ResidualHarness.Factory.WorkerContract

/-!
# The runtime journal

The transactions of `RuntimeJournal` in `residual/factory/runtime_journal.py` on its tables of
attempts, lease generations and events. A transaction that raises is rolled back. What a committed
transaction can do to the attempts is said once, as a relation (`Change`, `call_change`); the
invariants and the order of states are derived from it for every run (`attempt_lifecycle`).

Row times are left out: no transaction reads them. The identifiers and the clock of an observation
are arguments of the transaction that appends it.
-/

set_option autoImplicit false

namespace ResidualHarness.Factory

open Python Core

/-! ## Tables -/

/-- `JournalError`. -/
def journalError (msg : String) : PyExn := .userError "JournalError" msg

/-- The states of an attempt. -/
inductive AttemptState where
  | reserved
  | running
  | candidate
  | violated
  | failed
  | cancelled
  | auditFailed
  | purged
deriving DecidableEq, Repr

/-- `state IN ('RESERVED','RUNNING')`. -/
def AttemptState.active : AttemptState → Bool
  | .reserved => true
  | .running => true
  | _ => false

/-- `state IN ('RESERVED','RUNNING','CANDIDATE')`. -/
def AttemptState.live (s : AttemptState) : Bool := s.active || s == .candidate

/-- The name of a state in the table. -/
def AttemptState.name : AttemptState → Str
  | .reserved => lit "RESERVED"
  | .running => lit "RUNNING"
  | .candidate => lit "CANDIDATE"
  | .violated => lit "VIOLATED"
  | .failed => lit "FAILED"
  | .cancelled => lit "CANCELLED"
  | .auditFailed => lit "AUDIT_FAILED"
  | .purged => lit "PURGED"

/-- The states that `finish` accepts. -/
def finishStates : List AttemptState :=
  [.candidate, .violated, .failed, .cancelled, .auditFailed]

/-- A row of the table `attempts`. -/
structure Attempt where
  attemptId : Str
  taskId : Str
  workerId : Str
  swarmId : Str
  planHash : Str
  contractHash : Str
  contractJson : Str
  leaseId : Str
  generation : Int
  workspace : Str
  state : AttemptState
  revoked : Bool
  pid : Option Int
deriving DecidableEq

/-- A row of the table `events`. -/
structure EventRow where
  digest : Str
  record : Str

/-- The tables of the journal. -/
structure Db where
  attempts : List Attempt
  generations : List ((Str × Str) × Int)
  events : List EventRow

/-- The tables of a new journal. -/
def Db.empty : Db := ⟨[], [], []⟩

/-- Integers that fit an SQLite column. -/
def sqliteInteger (i : Int) : Except PyExn Unit :=
  if -2 ^ 63 ≤ i ∧ i < 2 ^ 63 then .ok () else .error .overflowError

/-- The generation recorded for a task. -/
def Db.generation (db : Db) (planHash taskId : Str) : Option Int :=
  db.generations.lookup (planHash, taskId)

/-- `INSERT ... ON CONFLICT DO UPDATE` into `generations`. -/
def putGeneration (key : Str × Str) (generation : Int) :
    List ((Str × Str) × Int) → List ((Str × Str) × Int)
  | [] => [(key, generation)]
  | (k, g) :: rest =>
      if k = key then (k, generation) :: rest else (k, g) :: putGeneration key generation rest

/-- The row of an attempt. -/
def Db.attempt (db : Db) (attemptId : Str) : Option Attempt :=
  db.attempts.find? fun r => r.attemptId = attemptId

/-- `UPDATE attempts SET ... WHERE attempt_id=?`. -/
def Db.update (db : Db) (attemptId : Str) (f : Attempt → Attempt) : Db :=
  { db with attempts := db.attempts.map fun r => if r.attemptId = attemptId then f r else r }

/-- The unique columns of the table `attempts`. -/
def Attempt.Clashes (r s : Attempt) : Prop :=
  r.attemptId = s.attemptId ∨ r.workerId = s.workerId ∨ r.leaseId = s.leaseId ∨
    r.workspace = s.workspace

instance (r s : Attempt) : Decidable (r.Clashes s) := instDecidableOr

/-! ## Rows -/

/-- The change of one row by a transaction. -/
inductive RowMove : Attempt → Attempt → Prop
  | start {r : Attempt} (pid : Int) : r.state = .reserved → r.revoked = false →
      RowMove r { r with state := .running, pid := some pid }
  | revoke {r : Attempt} : r.state.active = true → RowMove r { r with revoked := true }
  | finish {r : Attempt} (final : AttemptState) : r.state.active = true → final ∈ finishStates →
      (final = .candidate → r.revoked = false) → RowMove r { r with state := final }
  | purge {r : Attempt} : r.state.active = false → RowMove r { r with state := .purged }

/-- What a row keeps from one table to a later one. -/
structure Persists (r s : Attempt) : Prop where
  attemptId : s.attemptId = r.attemptId
  taskId : s.taskId = r.taskId
  planHash : s.planHash = r.planHash
  leaseId : s.leaseId = r.leaseId
  generation : s.generation = r.generation
  contractHash : s.contractHash = r.contractHash
  revoked : r.revoked = true → s.revoked = true
  active : s.state.active = true → r.state.active = true
  candidate : s.state = .candidate →
    r.state = .candidate ∨ r.state.active = true ∧ r.revoked = false

theorem Persists.refl (r : Attempt) : Persists r r :=
  ⟨rfl, rfl, rfl, rfl, rfl, rfl, id, id, Or.inl⟩

theorem Persists.trans {r s t : Attempt} (h : Persists r s) (k : Persists s t) : Persists r t where
  attemptId := k.attemptId.trans h.attemptId
  taskId := k.taskId.trans h.taskId
  planHash := k.planHash.trans h.planHash
  leaseId := k.leaseId.trans h.leaseId
  generation := k.generation.trans h.generation
  contractHash := k.contractHash.trans h.contractHash
  revoked := fun hr => k.revoked (h.revoked hr)
  active := fun ht => h.active (k.active ht)
  candidate := by
    intro ht
    rcases k.candidate ht with hs | ⟨hact, hrev⟩
    · exact h.candidate hs
    · refine Or.inr ⟨h.active hact, ?_⟩
      cases hr : r.revoked with
      | false => rfl
      | true =>
          rw [h.revoked hr] at hrev
          cases hrev

/-- The states that may follow a state. -/
def AttemptState.next : AttemptState → List AttemptState
  | .reserved => .running :: finishStates
  | .running => finishStates
  | .purged => []
  | _ => [.purged]

/-- A state stays or moves on. -/
def AttemptState.Moves (s t : AttemptState) : Prop := t = s ∨ t ∈ s.next

theorem active_iff (s : AttemptState) : s.active = true ↔ s = .reserved ∨ s = .running := by
  cases s <;> simp [AttemptState.active]

theorem finishStates_not_active {s : AttemptState} (h : s ∈ finishStates) : s.active = false := by
  simp only [finishStates, List.mem_cons, List.not_mem_nil, or_false] at h
  rcases h with rfl | rfl | rfl | rfl | rfl <;> rfl

theorem RowMove.persists {r s : Attempt} (h : RowMove r s) : Persists r s := by
  cases h with
  | start pid hs hr =>
      refine ⟨rfl, rfl, rfl, rfl, rfl, rfl, id, ?_, nofun⟩
      intro _
      rw [hs]
      rfl
  | revoke ha =>
      exact ⟨rfl, rfl, rfl, rfl, rfl, rfl, fun _ => rfl, id, Or.inl⟩
  | finish final ha hf hc =>
      refine ⟨rfl, rfl, rfl, rfl, rfl, rfl, id, fun _ => ha, ?_⟩
      intro he
      exact Or.inr ⟨ha, hc he⟩
  | purge ha =>
      exact ⟨rfl, rfl, rfl, rfl, rfl, rfl, id, nofun, nofun⟩

theorem RowMove.moves {r s : Attempt} (h : RowMove r s) : r.state.Moves s.state := by
  cases h with
  | start pid hs hr =>
      right
      rw [hs]
      exact List.mem_cons_self
  | revoke ha => exact Or.inl rfl
  | finish final ha hf hc =>
      right
      rcases (active_iff _).1 ha with hs | hs
      · rw [hs]
        exact List.mem_cons_of_mem _ hf
      · rw [hs]
        exact hf
  | purge ha =>
      cases hs : r.state with
      | reserved =>
          rw [hs] at ha
          cases ha
      | running =>
          rw [hs] at ha
          cases ha
      | purged => exact Or.inl rfl
      | _ => exact Or.inr List.mem_cons_self

theorem RowMove.live {r s : Attempt} (h : RowMove r s) (hs : s.state.live = true) :
    r.state.live = true := by
  have hor : s.state.active = true ∨ s.state = .candidate := by
    rw [AttemptState.live, Bool.or_eq_true, beq_iff_eq] at hs
    exact hs
  rw [AttemptState.live, Bool.or_eq_true, beq_iff_eq]
  rcases hor with ha | hc
  · exact Or.inl (h.persists.active ha)
  · rcases h.persists.candidate hc with hr | ⟨ha, -⟩
    · exact Or.inr hr
    · exact Or.inl ha

theorem RowMove.revoked_not_candidate {r s : Attempt} (h : RowMove r s) :
    s.revoked = true → s.state ≠ .candidate := by
  cases h with
  | start pid hs hr => exact fun _ => nofun
  | revoke ha =>
      intro _ he
      change r.state = .candidate at he
      rw [he] at ha
      cases ha
  | finish final ha hf hc =>
      intro hrev he
      change r.revoked = true at hrev
      rw [hc he] at hrev
      cases hrev
  | purge ha => exact fun _ => nofun

theorem attempt_eq_some {db : Db} {attemptId : Str} {r : Attempt}
    (h : db.attempt attemptId = some r) : r ∈ db.attempts ∧ r.attemptId = attemptId := by
  rw [Db.attempt] at h
  have hid := List.find?_some h
  exact ⟨List.mem_of_find?_eq_some h, of_decide_eq_true hid⟩

theorem attempt_of_mem {db : Db} (hnd : (db.attempts.map Attempt.attemptId).Nodup) {r : Attempt}
    (hr : r ∈ db.attempts) : db.attempt r.attemptId = some r := by
  cases hf : db.attempt r.attemptId with
  | some s =>
      obtain ⟨hs, hid⟩ := attempt_eq_some hf
      rw [List.inj_on_of_nodup_map hnd hs hr hid]
  | none =>
      rw [Db.attempt, List.find?_eq_none] at hf
      exact absurd (decide_eq_true rfl) (hf r hr)

/-- The rows after an update: the one row that moved, and the others. -/
theorem mem_update {db : Db} (hnd : (db.attempts.map Attempt.attemptId).Nodup) {attemptId : Str}
    {r : Attempt} (hr : db.attempt attemptId = some r) {f : Attempt → Attempt} {s : Attempt} :
    s ∈ (db.update attemptId f).attempts ↔
      s = f r ∨ s ∈ db.attempts ∧ s.attemptId ≠ attemptId := by
  obtain ⟨hmem, hid⟩ := attempt_eq_some hr
  rw [Db.update, List.mem_map]
  constructor
  · rintro ⟨t, ht, rfl⟩
    by_cases he : t.attemptId = attemptId
    · left
      rw [if_pos he, List.inj_on_of_nodup_map hnd ht hmem (he.trans hid.symm)]
    · right
      rw [if_neg he]
      exact ⟨ht, he⟩
  · rintro (rfl | ⟨hs, hne⟩)
    · exact ⟨r, hmem, if_pos hid⟩
    · exact ⟨s, hs, if_neg hne⟩

theorem lookup_putGeneration (key key' : Str × Str) (g : Int) (l : List ((Str × Str) × Int)) :
    (putGeneration key g l).lookup key' = if key' = key then some g else l.lookup key' := by
  induction l with
  | nil =>
      rw [putGeneration, List.lookup_cons]
      by_cases hk : key' = key
      · rw [if_pos hk, hk, beq_self_eq_true]
      · rw [if_neg hk, beq_false_of_ne hk]
  | cons p l ih =>
      obtain ⟨k, v⟩ := p
      rw [putGeneration]
      by_cases hkk : k = key
      · rw [if_pos hkk, List.lookup_cons, List.lookup_cons, hkk]
        by_cases hk : key' = key
        · rw [if_pos hk, hk, beq_self_eq_true]
        · rw [if_neg hk, beq_false_of_ne hk]
      · rw [if_neg hkk, List.lookup_cons, List.lookup_cons, ih]
        by_cases hk : key' = k
        · simp [hk, hkk]
        · rw [beq_false_of_ne hk]

section Model

variable [FloatModel]

/-! ## Observations -/

/-- The identifiers and the clock that an observation takes from its surroundings. -/
structure Stamp where
  traceId : Str
  obsId : Str
  timestampNs : Int

/-- The dictionary of an observation without its digest. -/
def observationBody (stamp : Stamp) (prevHash : Str) (payload : Json) : Fields :=
  [(lit "obs_id", .str stamp.obsId), (lit "trace_id", .str stamp.traceId),
    (lit "kind", .str (lit "custom")), (lit "timestamp_ns", .int stamp.timestampNs),
    (lit "schema_version", .str (lit "1.1.0")), (lit "prev_hash", .str prevHash),
    (lit "payload", payload),
    (lit "tags", .obj [(lit "component", .str (lit "factory-runtime"))]),
    (lit "source", .str (lit "residual.factory.runtime"))]

/-- `Observation.__post_init__` for the fields that vary. -/
def checkStamp (stamp : Stamp) : Except PyExn Unit :=
  if 0 < stamp.obsId.length ∧ stamp.obsId.length ≤ 200 ∧ 0 < stamp.traceId.length ∧
      stamp.traceId.length ≤ 200 then
    if 0 ≤ stamp.timestampNs then .ok () else .error (.valueError "Invalid observation time")
  else .error (.valueError "Invalid observation identity")

/-- `RuntimeJournal._append(db, payload)`. -/
def Db.append (db : Db) (stamp : Stamp) (payload : Fields) : Except PyExn Db := do
  let payload ← strictJson (← canonical (.obj payload))
  let prev := (db.events.getLast?.map EventRow.digest).getD (lit "GENESIS")
  checkStamp stamp
  let body := observationBody stamp prev payload
  let bytes ← utf8 (← canonical (.obj body))
  if 24000 < bytes.length then
    throw (.valueError "Observation exceeds 24 KB; reference an artifact instead")
  let record ← canonical (.obj (body ++ [(lit "digest", Json.str (sha256 bytes))]))
  if db.events.any fun e => e.digest == sha256 bytes then
    throw (.userError "IntegrityError" "UNIQUE constraint failed: events.digest")
  return { db with events := db.events ++ [⟨sha256 bytes, record⟩] }

/-! ## Transactions -/

/-- The row that `claim` inserts. -/
def claimedRow (c : WorkerContract) (hash json : Str) : Attempt where
  attemptId := c.attemptId
  taskId := c.taskId
  workerId := c.workerId
  swarmId := c.swarmId
  planHash := c.executionPlanHash
  contractHash := hash
  contractJson := json
  leaseId := c.leaseId
  generation := c.leaseGeneration
  workspace := c.workspaceRoot
  state := .reserved
  revoked := false
  pid := none

/-- The generation check of `claim`. -/
def Db.Increases (db : Db) (c : WorkerContract) : Prop :=
  ∀ old ∈ db.generation c.executionPlanHash c.taskId, old < c.leaseGeneration

instance (db : Db) (c : WorkerContract) : Decidable (db.Increases c) :=
  inferInstanceAs (Decidable (∀ old ∈ db.generation c.executionPlanHash c.taskId, _))

/-- `claim(contract, source_hash, approval)`. -/
def Db.claim (db : Db) (stamp : Stamp) (c : WorkerContract) (sourceHash : Str) (approval : Json) :
    Except PyExn Db := do
  require (db.Increases c) (journalError "lease generation must increase across attempts")
  require (∀ r ∈ db.attempts, ¬ (r.planHash = c.executionPlanHash ∧ r.taskId = c.taskId ∧
      r.state.live = true))
    (journalError "task already has an active or quarantined attempt")
  let hash ← c.contractHash
  let json ← canonical (.obj c.toDict)
  sqliteInteger c.leaseGeneration
  let row := claimedRow c hash json
  require (∀ r ∈ db.attempts, ¬ row.Clashes r)
    (journalError "attempt, worker, lease or workspace identity was already used")
  let generations :=
    putGeneration (c.executionPlanHash, c.taskId) c.leaseGeneration db.generations
  Db.append ⟨db.attempts ++ [row], generations, db.events⟩ stamp
    [(lit "event", .str (lit "RuntimeAttemptClaimed")), (lit "contract", .obj c.toDict),
      (lit "contract_hash", .str hash), (lit "execution_plan_hash", .str c.executionPlanHash),
      (lit "attempt_id", .str c.attemptId), (lit "source_sha256", .str sourceHash),
      (lit "approval", approval), (lit "approval_trust", .str (lit "local_operator")),
      (lit "profile", .str (lit "linux-seccomp-broker-v1"))]

/-- `started(contract, pid)`. -/
def Db.started (db : Db) (stamp : Stamp) (c : WorkerContract) (pid : Int) : Except PyExn Db := do
  sqliteInteger pid
  match db.attempt c.attemptId with
  | some r =>
      if r.state = .reserved ∧ r.revoked = false then
        let hash ← c.contractHash
        (db.update c.attemptId fun r => { r with state := .running, pid := some pid }).append stamp
          [(lit "event", .str (lit "RuntimeProcessSpawned")),
            (lit "attempt_id", .str c.attemptId), (lit "contract_hash", .str hash),
            (lit "pid", .int pid)]
      else throw (journalError "attempt is not reserved or has been revoked")
  | none => throw (journalError "attempt is not reserved or has been revoked")

/-- `revoke(attempt_id)`. -/
def Db.revoke (db : Db) (stamp : Stamp) (attemptId : Str) : Except PyExn Db := do
  match db.attempt attemptId with
  | some r =>
      if r.state.active then
        (db.update attemptId fun r => { r with revoked := true }).append stamp
          [(lit "event", .str (lit "RuntimeLeaseRevoked")), (lit "attempt_id", .str attemptId)]
      else throw (journalError "only an active attempt can be revoked")
  | none => throw (journalError "only an active attempt can be revoked")

/-- `{**d, **e}`. -/
def merge (d e : Fields) : Fields :=
  (d.map fun kv => (kv.1, (e.get? kv.1).getD kv.2)) ++ e.filter fun kv => (d.get? kv.1).isNone

/-- `finish(contract, state, **details)`. -/
def Db.finish (db : Db) (stamp : Stamp) (c : WorkerContract) (state : Str) (details : Fields) :
    Except PyExn Db := do
  match finishStates.find? fun s => s.name = state with
  | none => throw (journalError "invalid terminal runtime state")
  | some final =>
      match db.attempt c.attemptId with
      | some r =>
          if r.state.active then
            if final = .candidate ∧ r.revoked then
              throw (journalError "revoked attempt cannot produce a candidate")
            let hash ← c.contractHash
            (db.update c.attemptId fun r => { r with state := final }).append stamp
              (merge [(lit "event", .str (lit "RuntimeAttemptFinished")),
                (lit "attempt_id", .str c.attemptId),
                (lit "execution_plan_hash", .str c.executionPlanHash),
                (lit "contract_hash", .str hash), (lit "state", .str state)] details)
          else throw (journalError "attempt already terminal or unknown")
      | none => throw (journalError "attempt already terminal or unknown")

/-- `mark_purged(attempt_id)`. -/
def Db.markPurged (db : Db) (stamp : Stamp) (attemptId : Str) : Except PyExn Db := do
  match db.attempt attemptId with
  | some r =>
      if r.state.active then throw (journalError "active attempts cannot be purged")
      (db.update attemptId fun r => { r with state := .purged }).append stamp
        [(lit "event", .str (lit "RuntimeCandidatePurged")), (lit "attempt_id", .str attemptId)]
  | none => throw (journalError "active attempts cannot be purged")

/-! ## Lease reads -/

/-- The answers of `lease_read`. -/
inductive LeaseState where
  | current
  | revoked
  | unknown
deriving DecidableEq, Repr

/-- The test of `lease_read` on the row it found. -/
def leaseCurrent (row : Option Attempt) (c : WorkerContract) : Except PyExn Bool :=
  match row with
  | none => .ok false
  | some r =>
      if r.leaseId = c.leaseId ∧ r.generation = c.leaseGeneration ∧ r.revoked = false ∧
          r.state.active = true then do
        let hash ← c.contractHash
        return decide (r.contractHash = hash)
      else .ok false

/-- `lease_read(contract)`; `readable` is false when the store cannot be read within the
deadline. -/
def Db.leaseRead (db : Db) (c : WorkerContract) (readable : Bool) : Except PyExn LeaseState :=
  if readable then do
    if ← leaseCurrent (db.attempt c.attemptId) c then return .current else return .revoked
  else .ok .unknown

/-! ## Runs -/

/-- The transactions of the journal that change attempts. -/
inductive Call where
  | claim (c : WorkerContract) (sourceHash : Str) (approval : Json)
  | started (c : WorkerContract) (pid : Int)
  | revoke (attemptId : Str)
  | finish (c : WorkerContract) (state : Str) (details : Fields)
  | markPurged (attemptId : Str)

/-- The body of a transaction. -/
def Db.call (db : Db) (stamp : Stamp) : Call → Except PyExn Db
  | .claim c sourceHash approval => db.claim stamp c sourceHash approval
  | .started c pid => db.started stamp c pid
  | .revoke attemptId => db.revoke stamp attemptId
  | .finish c state details => db.finish stamp c state details
  | .markPurged attemptId => db.markPurged stamp attemptId

/-- A transaction, which may also fail to be admitted or to commit. -/
structure Txn where
  call : Call
  stamp : Stamp
  commits : Bool

/-- Whether a transaction returns. -/
def Db.succeeds (db : Db) (t : Txn) : Bool :=
  match db.call t.stamp t.call with
  | .ok _ => t.commits
  | .error _ => false

/-- The tables after a transaction: a failed one is rolled back. -/
def Db.step (db : Db) (t : Txn) : Db :=
  match db.call t.stamp t.call with
  | .ok db' => if t.commits then db' else db
  | .error _ => db

/-- The tables after a sequence of transactions. -/
def Db.run (db : Db) (ts : List Txn) : Db := ts.foldl Db.step db

/-! ## What a transaction can do -/

/-- What a committed transaction does to the attempts and the generations. -/
inductive Change (db db' : Db) : Call → Prop
  | claim {c : WorkerContract} {sourceHash : Str} {approval : Json} {hash json : Str} :
      c.contractHash = .ok hash →
      (∀ r ∈ db.attempts, r.attemptId ≠ c.attemptId) →
      (∀ r ∈ db.attempts, r.planHash = c.executionPlanHash → r.taskId = c.taskId →
        r.state.live = false) →
      (∀ g, db.generation c.executionPlanHash c.taskId = some g → g < c.leaseGeneration) →
      db'.attempts = db.attempts ++ [claimedRow c hash json] →
      db'.generations = putGeneration (c.executionPlanHash, c.taskId) c.leaseGeneration
        db.generations →
      Change db db' (.claim c sourceHash approval)
  | update {call : Call} {attemptId : Str} {r : Attempt} {f : Attempt → Attempt} :
      db.attempt attemptId = some r → RowMove r (f r) →
      (∀ c sourceHash approval, call ≠ .claim c sourceHash approval) →
      (∀ a, call = .revoke a → a = attemptId ∧ (f r).revoked = true ∧ (f r).state.active = true) →
      db'.attempts = (db.update attemptId f).attempts → db'.generations = db.generations →
      Change db db' call

theorem append_ok {db db' : Db} {stamp : Stamp} {payload : Fields}
    (h : db.append stamp payload = .ok db') :
    db'.attempts = db.attempts ∧ db'.generations = db.generations := by
  rw [Db.append] at h
  simp only [bind, Except.bind, pure, Except.pure] at h
  -- every check that passes leads to the one result
  repeat' split at h
  all_goals cases h
  all_goals exact ⟨rfl, rfl⟩

theorem claim_change {db db' : Db} {stamp : Stamp} {c : WorkerContract} {sourceHash : Str}
    {approval : Json} (h : db.claim stamp c sourceHash approval = .ok db') :
    Change db db' (.claim c sourceHash approval) := by
  rw [Db.claim] at h
  simp only [bind_eq_ok, require_eq_ok] at h
  obtain ⟨_, hgen, _, hlive, hash, hh, json, -, _, -, _, hclash, h⟩ := h
  obtain ⟨ha, hg⟩ := append_ok h
  refine .claim hh ?_ ?_ hgen ha hg
  · intro r hr he
    exact hclash r hr (Or.inl he.symm)
  · intro r hr hp ht
    cases hl : r.state.live with
    | false => rfl
    | true => exact absurd ⟨hp, ht, hl⟩ (hlive r hr)

theorem started_change {db db' : Db} {stamp : Stamp} {c : WorkerContract} {pid : Int}
    (h : db.started stamp c pid = .ok db') : Change db db' (.started c pid) := by
  rw [Db.started] at h
  simp only [bind, Except.bind] at h
  split at h
  · cases h
  · cases hr : db.attempt c.attemptId with
    | none =>
        rw [hr] at h
        cases h
    | some r =>
        rw [hr] at h
        simp only at h
        split at h
        · rename_i hres
          split at h
          · cases h
          · obtain ⟨ha, hg⟩ := append_ok h
            exact .update hr (.start pid hres.1 hres.2) nofun nofun ha hg
        · cases h

theorem revoke_change {db db' : Db} {stamp : Stamp} {attemptId : Str}
    (h : db.revoke stamp attemptId = .ok db') : Change db db' (.revoke attemptId) := by
  rw [Db.revoke] at h
  cases hr : db.attempt attemptId with
  | none =>
      rw [hr] at h
      cases h
  | some r =>
      rw [hr] at h
      simp only at h
      split at h
      · rename_i hact
        obtain ⟨ha, hg⟩ := append_ok h
        refine .update hr (.revoke hact) nofun ?_ ha hg
        intro a he
        cases he
        exact ⟨rfl, rfl, hact⟩
      · cases h

theorem finish_change {db db' : Db} {stamp : Stamp} {c : WorkerContract} {state : Str}
    {details : Fields} (h : db.finish stamp c state details = .ok db') :
    Change db db' (.finish c state details) := by
  rw [Db.finish] at h
  cases hf : finishStates.find? fun s => s.name = state with
  | none =>
      rw [hf] at h
      cases h
  | some final =>
      rw [hf] at h
      simp only [bind, Except.bind] at h
      cases hr : db.attempt c.attemptId with
      | none =>
          rw [hr] at h
          cases h
      | some r =>
          rw [hr] at h
          simp only at h
          split at h
          · rename_i hact
            split at h
            · cases h
            · rename_i hcand
              split at h
              · cases h
              · obtain ⟨ha, hg⟩ := append_ok h
                refine .update hr (.finish final hact (List.mem_of_find?_eq_some hf) ?_) nofun
                  nofun ha hg
                intro he
                cases hrev : r.revoked with
                | false => rfl
                | true => exact absurd ⟨he, hrev⟩ hcand
          · cases h

theorem markPurged_change {db db' : Db} {stamp : Stamp} {attemptId : Str}
    (h : db.markPurged stamp attemptId = .ok db') : Change db db' (.markPurged attemptId) := by
  rw [Db.markPurged] at h
  cases hr : db.attempt attemptId with
  | none =>
      rw [hr] at h
      cases h
  | some r =>
      rw [hr] at h
      simp only at h
      split at h
      · cases h
      · rename_i hact
        obtain ⟨ha, hg⟩ := append_ok h
        exact .update hr (.purge (Bool.eq_false_iff.2 hact)) nofun nofun ha hg

theorem call_change {db db' : Db} {stamp : Stamp} {call : Call}
    (h : db.call stamp call = .ok db') : Change db db' call := by
  cases call with
  | claim c sourceHash approval => exact claim_change h
  | started c pid => exact started_change h
  | revoke attemptId => exact revoke_change h
  | finish c state details => exact finish_change h
  | markPurged attemptId => exact markPurged_change h

theorem step_change (db : Db) (t : Txn) :
    db.succeeds t = true ∧ Change db (db.step t) t.call ∨
      db.succeeds t = false ∧ db.step t = db := by
  rw [Db.succeeds, Db.step]
  cases hc : db.call t.stamp t.call with
  | error x => exact Or.inr ⟨rfl, rfl⟩
  | ok db' =>
      cases ht : t.commits with
      | false => exact Or.inr ⟨rfl, by simp⟩
      | true =>
          refine Or.inl ⟨rfl, ?_⟩
          simp only [if_true]
          exact call_change hc

/-- The row was claimed for the contract. -/
structure RowOf (r : Attempt) (c : WorkerContract) : Prop where
  attemptId : r.attemptId = c.attemptId
  taskId : r.taskId = c.taskId
  planHash : r.planHash = c.executionPlanHash
  leaseId : r.leaseId = c.leaseId
  generation : r.generation = c.leaseGeneration
  contractHash : c.contractHash = .ok r.contractHash

theorem RowOf.persists {r s : Attempt} {c : WorkerContract} (h : RowOf r c) (k : Persists r s) :
    RowOf s c where
  attemptId := k.attemptId.trans h.attemptId
  taskId := k.taskId.trans h.taskId
  planHash := k.planHash.trans h.planHash
  leaseId := k.leaseId.trans h.leaseId
  generation := k.generation.trans h.generation
  contractHash := by
    rw [k.contractHash]
    exact h.contractHash

/-- The contracts that a run claims. -/
def claimed (ts : List Txn) : Set WorkerContract :=
  { c | ∃ t ∈ ts, ∃ sourceHash approval, t.call = .claim c sourceHash approval }

/-- The invariant of the tables, for attempts of the contracts in `S`. -/
structure Inv (S : Set WorkerContract) (db : Db) : Prop where
  nodup : (db.attempts.map Attempt.attemptId).Nodup
  single : ∀ r ∈ db.attempts, ∀ s ∈ db.attempts, r.state.live = true → s.state.live = true →
    r.planHash = s.planHash → r.taskId = s.taskId → r = s
  generations : ∀ r ∈ db.attempts, ∃ g, db.generation r.planHash r.taskId = some g ∧
    r.generation ≤ g
  revoked : ∀ r ∈ db.attempts, r.revoked = true → r.state ≠ .candidate
  contracts : ∀ r ∈ db.attempts, ∃ c ∈ S, RowOf r c

theorem inv_empty (S : Set WorkerContract) : Inv S Db.empty := by
  refine ⟨List.nodup_nil, ?_, ?_, ?_, ?_⟩ <;>
    · intro _ h
      cases h

theorem change_inv {S : Set WorkerContract} {db db' : Db} {call : Call} (h : Inv S db)
    (hc : Change db db' call)
    (hS : ∀ c sourceHash approval, call = .claim c sourceHash approval → c ∈ S) : Inv S db' := by
  cases hc with
  | @claim c sourceHash approval hash json hh hid hlive hgen ha hg =>
      have hmem : ∀ r, r ∈ db'.attempts ↔ r ∈ db.attempts ∨ r = claimedRow c hash json := by
        intro r
        rw [ha, List.mem_append, List.mem_singleton]
      have hgen' : ∀ p t, db'.generation p t =
          if (p, t) = (c.executionPlanHash, c.taskId) then some c.leaseGeneration
          else db.generation p t := by
        intro p t
        rw [Db.generation, hg, lookup_putGeneration]
        rfl
      constructor
      · rw [ha, List.map_append, List.nodup_append]
        refine ⟨h.nodup, List.nodup_singleton _, ?_⟩
        intro a hmema b hb he
        obtain ⟨r, hr, rfl⟩ := List.mem_map.1 hmema
        rw [List.map_singleton, List.mem_singleton] at hb
        exact hid r hr (he.trans hb)
      · -- the task of the new row had no live row
        intro r hr s hs hrl hsl hp ht
        rcases (hmem r).1 hr with hr | rfl
        · rcases (hmem s).1 hs with hs | rfl
          · exact h.single r hr s hs hrl hsl hp ht
          · rw [hlive r hr hp ht] at hrl
            cases hrl
        · rcases (hmem s).1 hs with hs | rfl
          · rw [hlive s hs hp.symm ht.symm] at hsl
            cases hsl
          · rfl
      · intro r hr
        rcases (hmem r).1 hr with hr | rfl
        · obtain ⟨g, hg', hle⟩ := h.generations r hr
          rw [hgen']
          by_cases hk : (r.planHash, r.taskId) = (c.executionPlanHash, c.taskId)
          · obtain ⟨hp, ht⟩ := Prod.mk.inj hk
            rw [if_pos hk]
            refine ⟨c.leaseGeneration, rfl, ?_⟩
            rw [hp, ht] at hg'
            exact le_of_lt (lt_of_le_of_lt hle (hgen g hg'))
          · rw [if_neg hk]
            exact ⟨g, hg', hle⟩
        · refine ⟨c.leaseGeneration, ?_, le_refl _⟩
          rw [hgen']
          exact if_pos rfl
      · intro r hr
        rcases (hmem r).1 hr with hr | rfl
        · exact h.revoked r hr
        · exact fun _ => nofun
      · intro r hr
        rcases (hmem r).1 hr with hr | rfl
        · exact h.contracts r hr
        · exact ⟨c, hS c sourceHash approval rfl, rfl, rfl, rfl, rfl, rfl, hh⟩
  | @update _ attemptId r f hr hm hnc _ ha hg =>
      obtain ⟨hrm, hrid⟩ := attempt_eq_some hr
      have hp := hm.persists
      have hmem : ∀ s, s ∈ db'.attempts ↔ s = f r ∨ s ∈ db.attempts ∧ s.attemptId ≠ attemptId := by
        intro s
        rw [ha]
        exact mem_update h.nodup hr
      have hgen' : ∀ p t, db'.generation p t = db.generation p t := by
        intro p t
        rw [Db.generation, hg]
        rfl
      constructor
      · -- an update keeps the ids
        have hids : db'.attempts.map Attempt.attemptId = db.attempts.map Attempt.attemptId := by
          rw [ha, Db.update, List.map_map]
          apply List.map_congr_left
          intro t ht
          by_cases he : t.attemptId = attemptId
          · have htr : t = r := List.inj_on_of_nodup_map h.nodup ht hrm (he.trans hrid.symm)
            simp only [Function.comp, if_pos he]
            rw [htr]
            exact hp.attemptId
          · simp only [Function.comp, if_neg he]
        rw [hids]
        exact h.nodup
      · intro s hs t ht hsl htl hpe hte
        rcases (hmem s).1 hs with rfl | ⟨hs, hsn⟩
        · rcases (hmem t).1 ht with rfl | ⟨ht, htn⟩
          · rfl
          · have heq := h.single r hrm t ht (hm.live hsl) htl (hp.planHash.symm.trans hpe)
              (hp.taskId.symm.trans hte)
            rw [← heq] at htn
            exact absurd hrid htn
        · rcases (hmem t).1 ht with rfl | ⟨ht, htn⟩
          · have heq := h.single s hs r hrm hsl (hm.live htl) (hpe.trans hp.planHash)
              (hte.trans hp.taskId)
            rw [heq] at hsn
            exact absurd hrid hsn
          · exact h.single s hs t ht hsl htl hpe hte
      · intro s hs
        rw [hgen']
        rcases (hmem s).1 hs with rfl | ⟨hs, -⟩
        · rw [hp.planHash, hp.taskId, hp.generation]
          exact h.generations r hrm
        · exact h.generations s hs
      · intro s hs
        rcases (hmem s).1 hs with rfl | ⟨hs, -⟩
        · exact hm.revoked_not_candidate
        · exact h.revoked s hs
      · intro s hs
        rcases (hmem s).1 hs with rfl | ⟨hs, -⟩
        · obtain ⟨c, hc, hrow⟩ := h.contracts r hrm
          exact ⟨c, hc, hrow.persists hp⟩
        · exact h.contracts s hs

theorem step_inv {S : Set WorkerContract} {db : Db} (h : Inv S db) {t : Txn}
    (hS : ∀ c sourceHash approval, t.call = .claim c sourceHash approval → c ∈ S) :
    Inv S (db.step t) := by
  rcases step_change db t with ⟨-, hc⟩ | ⟨-, he⟩
  · exact change_inv h hc hS
  · rw [he]
    exact h

theorem run_inv {S : Set WorkerContract} {db : Db} (h : Inv S db) {ts : List Txn}
    (hS : claimed ts ⊆ S) : Inv S (db.run ts) := by
  induction ts generalizing db with
  | nil => exact h
  | cons t ts ih =>
      have ht : Inv S (db.step t) :=
        step_inv h fun c a b he => hS ⟨t, List.mem_cons_self, a, b, he⟩
      apply ih ht
      rintro c ⟨u, hu, a, b, he⟩
      exact hS ⟨u, List.mem_cons_of_mem _ hu, a, b, he⟩

theorem run_append (db : Db) (ts us : List Txn) : db.run (ts ++ us) = (db.run ts).run us :=
  List.foldl_append

/-! ## One table and a later one -/

/-- Every row is still there, with what a row keeps; generations do not decrease. -/
structure Later (db db' : Db) : Prop where
  rows : ∀ r ∈ db.attempts, ∃ s ∈ db'.attempts, Persists r s
  generations : ∀ p t g, db.generation p t = some g → ∃ g', db'.generation p t = some g' ∧ g ≤ g'

omit [FloatModel] in
theorem Later.refl (db : Db) : Later db db :=
  ⟨fun r hr => ⟨r, hr, Persists.refl r⟩, fun _ _ g hg => ⟨g, hg, le_refl g⟩⟩

omit [FloatModel] in
theorem Later.trans {db db' db'' : Db} (h : Later db db') (k : Later db' db'') :
    Later db db'' := by
  constructor
  · intro r hr
    obtain ⟨s, hs, hp⟩ := h.rows r hr
    obtain ⟨t, ht, hq⟩ := k.rows s hs
    exact ⟨t, ht, hp.trans hq⟩
  · intro p t g hg
    obtain ⟨g', hg', hle⟩ := h.generations p t g hg
    obtain ⟨g'', hg'', hle'⟩ := k.generations p t g' hg'
    exact ⟨g'', hg'', le_trans hle hle'⟩

theorem change_later {S : Set WorkerContract} {db db' : Db} {call : Call} (h : Inv S db)
    (hc : Change db db' call) : Later db db' := by
  cases hc with
  | @claim c sourceHash approval hash json hh hid hlive hgen ha hg =>
      constructor
      · intro r hr
        refine ⟨r, ?_, Persists.refl r⟩
        rw [ha]
        exact List.mem_append_left _ hr
      · intro p t g hpt
        rw [Db.generation, hg, lookup_putGeneration]
        by_cases hk : (p, t) = (c.executionPlanHash, c.taskId)
        · obtain ⟨rfl, rfl⟩ := Prod.mk.inj hk
          rw [if_pos rfl]
          exact ⟨c.leaseGeneration, rfl, le_of_lt (hgen g hpt)⟩
        · rw [if_neg hk]
          exact ⟨g, hpt, le_refl g⟩
  | @update _ attemptId r f hr hm hnc hrev ha hg =>
      constructor
      · intro s hs
        by_cases he : s.attemptId = attemptId
        · obtain ⟨hrm, hrid⟩ := attempt_eq_some hr
          have hsr : s = r := List.inj_on_of_nodup_map h.nodup hs hrm (he.trans hrid.symm)
          subst hsr
          refine ⟨f s, ?_, hm.persists⟩
          rw [ha, mem_update h.nodup hr]
          exact Or.inl rfl
        · refine ⟨s, ?_, Persists.refl s⟩
          rw [ha, mem_update h.nodup hr]
          exact Or.inr ⟨hs, he⟩
      · intro p t g hpt
        rw [Db.generation, hg]
        exact ⟨g, hpt, le_refl g⟩

theorem step_later {S : Set WorkerContract} {db : Db} (h : Inv S db) (t : Txn) :
    Later db (db.step t) := by
  rcases step_change db t with ⟨-, hc⟩ | ⟨-, he⟩
  · exact change_later h hc
  · rw [he]
    exact Later.refl db

theorem run_later {S : Set WorkerContract} {db : Db} (h : Inv S db) (ts : List Txn)
    (hS : claimed ts ⊆ S) : Later db (db.run ts) := by
  induction ts generalizing db with
  | nil => exact Later.refl db
  | cons t ts ih =>
      have ht : Inv S (db.step t) :=
        step_inv h fun c a b he => hS ⟨t, List.mem_cons_self, a, b, he⟩
      have htail : claimed ts ⊆ S := by
        rintro c ⟨u, hu, a, b, he⟩
        exact hS ⟨u, List.mem_cons_of_mem _ hu, a, b, he⟩
      exact (step_later h t).trans (ih ht htail)

/-- A row of the later table is an old row that stayed or moved on, or a new reserved one. -/
def StatesMove (db db' : Db) : Prop :=
  ∀ s ∈ db'.attempts,
    (∃ r ∈ db.attempts, r.attemptId = s.attemptId ∧ r.state.Moves s.state) ∨
      (∀ r ∈ db.attempts, r.attemptId ≠ s.attemptId) ∧ s.state = .reserved

theorem change_statesMove {S : Set WorkerContract} {db db' : Db} {call : Call} (h : Inv S db)
    (hc : Change db db' call) : StatesMove db db' := by
  intro s hs
  cases hc with
  | @claim c sourceHash approval hash json hh hid hlive hgen ha hg =>
      rw [ha, List.mem_append, List.mem_singleton] at hs
      rcases hs with hs | rfl
      · exact Or.inl ⟨s, hs, rfl, Or.inl rfl⟩
      · exact Or.inr ⟨hid, rfl⟩
  | @update _ attemptId r f hr hm hnc hrev ha hg =>
      rw [ha, mem_update h.nodup hr] at hs
      left
      rcases hs with rfl | ⟨hs, -⟩
      · exact ⟨r, (attempt_eq_some hr).1, hm.persists.attemptId.symm, hm.moves⟩
      · exact ⟨s, hs, rfl, Or.inl rfl⟩

theorem step_statesMove {S : Set WorkerContract} {db : Db} (h : Inv S db) (t : Txn) :
    StatesMove db (db.step t) := by
  rcases step_change db t with ⟨-, hc⟩ | ⟨-, he⟩
  · exact change_statesMove h hc
  · rw [he]
    exact fun s hs => Or.inl ⟨s, hs, rfl, Or.inl rfl⟩

/-! ## Leases -/

theorem leaseRead_current {db : Db} {c : WorkerContract} {readable : Bool}
    (h : db.leaseRead c readable = .ok .current) :
    ∃ r ∈ db.attempts, r.attemptId = c.attemptId ∧ r.revoked = false ∧ r.state.active = true ∧
      c.contractHash = .ok r.contractHash := by
  rw [Db.leaseRead] at h
  split at h
  · obtain ⟨b, hb, hc⟩ := bind_eq_ok.1 h
    cases b with
    | false => cases hc
    | true =>
        cases hr : db.attempt c.attemptId with
        | none =>
            rw [hr] at hb
            cases hb
        | some r =>
            obtain ⟨hmem, hid⟩ := attempt_eq_some hr
            rw [hr, leaseCurrent] at hb
            split at hb
            · rename_i htest
              obtain ⟨hash, hh, he⟩ := bind_eq_ok.1 hb
              have heq : r.contractHash = hash := of_decide_eq_true (Except.ok.inj he)
              refine ⟨r, hmem, hid, htest.2.2.1, htest.2.2.2, ?_⟩
              rw [heq]
              exact hh
            · cases hb
  · cases h

/-- The read of a contract whose row is there answers by the flag and the state of the row. -/
theorem leaseRead_of_row {S : Set WorkerContract} {db : Db} (h : Inv S db) {c : WorkerContract}
    {r : Attempt} (hr : r ∈ db.attempts) (hrow : RowOf r c) :
    db.leaseRead c true = .ok (if r.revoked = false ∧ r.state.active = true then .current
      else .revoked) := by
  have hfind : db.attempt c.attemptId = some r := by
    rw [← hrow.attemptId]
    exact attempt_of_mem h.nodup hr
  rw [Db.leaseRead, if_pos rfl, hfind, leaseCurrent]
  by_cases hc : r.revoked = false ∧ r.state.active = true
  · rw [if_pos ⟨hrow.leaseId, hrow.generation, hc.1, hc.2⟩, if_pos hc, hrow.contractHash]
    simp [bind, Except.bind, pure, Except.pure]
  · rw [if_neg (fun hh => hc ⟨hh.2.2.1, hh.2.2.2⟩), if_neg hc]
    rfl

/-! ## The life of attempts -/

theorem run_snoc (db : Db) (ts : List Txn) (t : Txn) :
    db.run (ts ++ [t]) = (db.run ts).step t := by
  rw [run_append]
  rfl

theorem run_cons (db : Db) (pre mid : List Txn) (t : Txn) :
    db.run (pre ++ t :: mid) = ((db.run pre).step t).run mid := run_append db pre (t :: mid)

theorem inv_run (ts : List Txn) : Inv Set.univ (Db.empty.run ts) :=
  run_inv (inv_empty _) (Set.subset_univ _)

theorem claim_row {db : Db} {t : Txn} (ht : db.succeeds t = true) {c : WorkerContract}
    {sourceHash : Str} {approval : Json} (hc : t.call = .claim c sourceHash approval) :
    (∃ r ∈ (db.step t).attempts, RowOf r c) ∧
      (∀ g, db.generation c.executionPlanHash c.taskId = some g → g < c.leaseGeneration) ∧
      (db.step t).generation c.executionPlanHash c.taskId = some c.leaseGeneration := by
  rcases step_change db t with ⟨-, hch⟩ | ⟨hf, -⟩
  · rw [hc] at hch
    cases hch with
    | @claim _ _ _ hash json hh hid hlive hgen ha hg =>
        refine ⟨⟨claimedRow c hash json, ?_, rfl, rfl, rfl, rfl, rfl, hh⟩, hgen, ?_⟩
        · rw [ha]
          exact List.mem_append_right _ (List.mem_singleton.2 rfl)
        · rw [Db.generation, hg, lookup_putGeneration, if_pos rfl]
    | update _ _ hnc => exact absurd rfl (hnc c sourceHash approval)
  · rw [ht] at hf
    cases hf

theorem revoke_row {S : Set WorkerContract} {db : Db} (h : Inv S db) {t : Txn}
    (ht : db.succeeds t = true) {attemptId : Str} (hc : t.call = .revoke attemptId) :
    ∃ r ∈ (db.step t).attempts, r.attemptId = attemptId ∧ r.revoked = true ∧
      r.state.active = true := by
  rcases step_change db t with ⟨-, hch⟩ | ⟨hf, -⟩
  · rw [hc] at hch
    cases hch with
    | @update _ a r f hr hm hnc hrev ha hg =>
        obtain ⟨rfl, hrv, hact⟩ := hrev attemptId rfl
        refine ⟨f r, ?_, hm.persists.attemptId.trans (attempt_eq_some hr).2, hrv, hact⟩
        rw [ha, mem_update h.nodup hr]
        exact Or.inl rfl
  · rw [ht] at hf
    cases hf

/-- The life of attempts, after every sequence of transactions: one live attempt per task; growing
generations; states that only move on; no candidate from a revoked attempt; one current lease per
task; and no current lease after a revoked one. -/
theorem attempt_lifecycle (ts : List Txn) :
    (∀ r ∈ (Db.empty.run ts).attempts, ∀ s ∈ (Db.empty.run ts).attempts,
      r.state.live = true → s.state.live = true → r.planHash = s.planHash →
      r.taskId = s.taskId → r = s) ∧
    (∀ pre t mid u c d sourceHash sourceHash' approval approval', ts = pre ++ t :: (mid ++ [u]) →
      t.call = .claim c sourceHash approval → u.call = .claim d sourceHash' approval' →
      (Db.empty.run pre).succeeds t = true → (Db.empty.run (pre ++ t :: mid)).succeeds u = true →
      c.executionPlanHash = d.executionPlanHash → c.taskId = d.taskId →
      c.leaseGeneration < d.leaseGeneration) ∧
    (∀ pre t, ts = pre ++ [t] → StatesMove (Db.empty.run pre) (Db.empty.run ts) ∧
      ∀ r ∈ (Db.empty.run pre).attempts, ∃ s ∈ (Db.empty.run ts).attempts,
        s.attemptId = r.attemptId) ∧
    (∀ pre t mid attemptId, ts = pre ++ t :: mid → t.call = .revoke attemptId →
      (Db.empty.run pre).succeeds t = true →
      ∀ r ∈ (Db.empty.run ts).attempts, r.attemptId = attemptId → r.state ≠ .candidate) ∧
    (∀ c d readable readable', CollisionFree (claimed ts ∪ {c, d}) →
      (Db.empty.run ts).leaseRead c readable = .ok .current →
      (Db.empty.run ts).leaseRead d readable' = .ok .current →
      c.executionPlanHash = d.executionPlanHash → c.taskId = d.taskId → c = d) ∧
    ∀ pre t mid post c sourceHash approval readable, ts = pre ++ t :: (mid ++ post) →
      t.call = .claim c sourceHash approval → (Db.empty.run pre).succeeds t = true →
      (Db.empty.run (pre ++ t :: mid)).leaseRead c true = .ok .revoked →
      (Db.empty.run ts).leaseRead c readable ≠ .ok .current := by
  refine ⟨(inv_run ts).single, ?_, ?_, ?_, ?_, ?_⟩
  · rintro pre t mid u c d sourceHash sourceHash' approval approval' - ht hu hts hus hp hk
    -- the generation of the first claim is still a lower bound at the second
    have hinv := step_inv (inv_run pre) (t := t) fun _ _ _ _ => Set.mem_univ _
    obtain ⟨g, hg, hle⟩ := (run_later hinv mid (Set.subset_univ _)).generations _ _ _
      (claim_row hts ht).2.2
    rw [← run_cons, hp, hk] at hg
    exact lt_of_le_of_lt hle ((claim_row hus hu).2.1 g hg)
  · rintro pre t rfl
    rw [run_snoc]
    refine ⟨step_statesMove (inv_run pre) t, ?_⟩
    intro r hr
    obtain ⟨s, hs, hps⟩ := (step_later (inv_run pre) t).rows r hr
    exact ⟨s, hs, hps.attemptId⟩
  · rintro pre t mid attemptId rfl hc hts r hr hid hcand
    have hinv := step_inv (inv_run pre) (t := t) fun _ _ _ _ => Set.mem_univ _
    obtain ⟨s, hs, hsid, hsrev, -⟩ := revoke_row (inv_run pre) hts hc
    obtain ⟨r', hr', hp⟩ := (run_later hinv mid (Set.subset_univ _)).rows s hs
    rw [← run_cons] at hr'
    have heq : r = r' := List.inj_on_of_nodup_map (inv_run _).nodup hr hr'
      (hid.trans (hsid.symm.trans hp.attemptId.symm))
    exact (inv_run _).revoked r hr (by rw [heq]; exact hp.revoked hsrev) hcand
  · intro c d readable readable' hfree hc hd hp hk
    have hinv : Inv (claimed ts) (Db.empty.run ts) := run_inv (inv_empty _) (Set.Subset.refl _)
    obtain ⟨r, hr, -, -, hract, hrh⟩ := leaseRead_current hc
    obtain ⟨s, hs, -, -, hsact, hsh⟩ := leaseRead_current hd
    -- the hash identifies the contract of a row
    obtain ⟨c', hc', hrow⟩ := hinv.contracts r hr
    obtain ⟨d', hd', hrow'⟩ := hinv.contracts s hs
    have hcc : c = c' := eq_of_contractHash hfree (by simp) (Or.inl hc') hrh hrow.contractHash
    have hdd : d = d' := eq_of_contractHash hfree (by simp) (Or.inl hd') hsh hrow'.contractHash
    subst hcc hdd
    have hlive : ∀ q : Attempt, q.state.active = true → q.state.live = true := by
      intro q hq
      rw [AttemptState.live, hq, Bool.true_or]
    have hrs : r = s := hinv.single r hr s hs (hlive r hract) (hlive s hsact)
      (hrow.planHash.trans (hp.trans hrow'.planHash.symm))
      (hrow.taskId.trans (hk.trans hrow'.taskId.symm))
    rw [hrs] at hrh
    exact eq_of_contractHash hfree (by simp) (by simp) hrh hsh
  · rintro pre t mid post c sourceHash approval readable rfl hc hts hread hcur
    have hinv := step_inv (inv_run pre) (t := t) fun _ _ _ _ => Set.mem_univ _
    obtain ⟨r, hr, hrow⟩ := (claim_row hts hc).1
    obtain ⟨s, hs, hps⟩ := (run_later hinv mid (Set.subset_univ _)).rows r hr
    rw [← run_cons] at hs
    have hinvs := inv_run (pre ++ t :: mid)
    rw [leaseRead_of_row hinvs hs (hrow.persists hps)] at hread
    have hsplit : pre ++ t :: (mid ++ post) = (pre ++ t :: mid) ++ post := by simp
    rw [hsplit] at hcur
    obtain ⟨q, hq, hpq⟩ := (run_later hinvs post (Set.subset_univ _)).rows s hs
    rw [← run_append] at hq
    obtain ⟨q', hq', hid, hrev, hact, -⟩ := leaseRead_current hcur
    have heq : q' = q := List.inj_on_of_nodup_map (inv_run _).nodup hq' hq
      (hid.trans (((hrow.persists hps).persists hpq).attemptId).symm)
    subst heq
    split at hread
    · cases hread
    · rename_i hno
      apply hno
      refine ⟨?_, hpq.active hact⟩
      cases hsr : s.revoked with
      | false => rfl
      | true =>
          rw [hpq.revoked hsr] at hrev
          cases hrev

end Model

/-! ## A concrete run -/

section Concrete

attribute [local instance] wholeFloats

/-- A contract for task `t` of a plan. -/
def sampleContract : WorkerContract where
  taskId := lit "t"
  workerId := lit "w"
  swarmId := lit "s"
  executionPlanHash := List.replicate 64 0x61
  attemptId := lit "a"
  leaseId := lit "l"
  leaseGeneration := 1
  inputCommit := List.replicate 40 0x62
  workspaceRoot := lit "/w"
  inputs := []
  allowedOutputs := [lit "out/"]
  forbidden := []
  requirements := [lit "r"]
  acceptance := [lit "ok"]
  dependencies := []
  allowedTools := []
  forbiddenTools := []
  tokenBudget := 10
  wallClockBudgetS := some 5
  maxToolCalls := 1
  maxFileWrites := 1
  memoryLimitMb := 64
  engineHint := none
  engineClass := lit "local"
  schemaVersion := lit "factory-worker-contract-v1"

/-- A transaction that commits. -/
def sampleTxn (n : Nat) (call : Call) : Txn := ⟨call, ⟨lit "trace", natRepr n, n⟩, true⟩

/-- The claim of the sample contract. -/
def sampleClaim : Txn := sampleTxn 1 (.claim sampleContract (List.replicate 64 0x63) .null)

/-- The sample contract is claimed and its lease is revoked. -/
theorem sample_revoked : Db.empty.succeeds sampleClaim = true ∧
    (Db.empty.run [sampleClaim, sampleTxn 2 (.revoke (lit "a"))]).leaseRead sampleContract true =
      .ok .revoked := by
  decide +kernel

/-- The lease of the sample contract is not current again. -/
theorem sample_lease_not_current :
    (Db.empty.run [sampleClaim, sampleTxn 2 (.revoke (lit "a")),
      sampleTxn 3 (.finish sampleContract (lit "CANCELLED") [])]).leaseRead sampleContract
        true ≠ .ok .current :=
  (attempt_lifecycle _).2.2.2.2.2 [] sampleClaim [sampleTxn 2 (.revoke (lit "a"))]
    [sampleTxn 3 (.finish sampleContract (lit "CANCELLED") [])] sampleContract
    (List.replicate 64 0x63) .null true rfl rfl sample_revoked.1 sample_revoked.2

end Concrete

end ResidualHarness.Factory
