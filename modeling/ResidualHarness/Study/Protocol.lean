import ResidualHarness.Engine.Harness

/-!
# Study protocols

`residual/study.py`: the protocol that `make_protocol` freezes and the schedule of its runs. A
generator shuffles the blocks, one for each case and repeat, and the modes of every block. The
schedule holds every case, repeat and mode exactly once (`mem_jobs_iff`, `triples_nodup`), and the run
identifiers are distinct (`runIds_nodup`).
-/

set_option autoImplicit false

namespace ResidualHarness.Study

open Python Core Engine

/-! ## Schedule -/

/-- `random.Random`: a generator from a seed, and `shuffle`, which reorders. -/
structure Shuffler where
  Rng : Type
  seeded : Int → Rng
  shuffle : {α : Type} → Rng → List α → List α × Rng
  perm : ∀ {α : Type} (rng : Rng) (xs : List α), (shuffle rng xs).1.Perm xs

/-- A case, as the schedule reads it. -/
structure Case where
  id : Str
  family : Str

/-- What `schedule(protocol)` reads. -/
structure Plan where
  seed : Int
  repeats : Nat
  cases : List Case
  modes : List Str

/-- An entry of the schedule. -/
structure Job where
  runId : Str
  caseId : Str
  family : Str
  round : Nat
  mode : Str

/-- `f"run-{n:06d}"`. -/
def runIdOf (n : Nat) : Str :=
  lit "run-" ++ List.replicate (6 - (natRepr n).length) 0x30 ++ natRepr n

/-- The blocks before they are shuffled. -/
def Plan.blocks (p : Plan) : List (Case × Nat) :=
  (List.range p.repeats).flatMap fun round => p.cases.map fun entry => (entry, round)

/-- The modes of every block, shuffled in turn. -/
def Plan.orders (p : Plan) (s : Shuffler) : s.Rng → List (Case × Nat) → List (Case × Nat × Str)
  | _, [] => []
  | rng, block :: blocks =>
      let (modes, rng) := s.shuffle rng p.modes
      (modes.map fun mode => (block.1, block.2, mode)) ++ p.orders s rng blocks

/-- The entry of a case, a repeat and a mode, with the number of entries before it. -/
def jobOf (entry : (Case × Nat × Str) × Nat) : Job where
  runId := runIdOf entry.2
  caseId := entry.1.1.id
  family := entry.1.1.family
  round := entry.1.2.1
  mode := entry.1.2.2

/-- `schedule(protocol)`. -/
def Plan.jobs (p : Plan) (s : Shuffler) : List Job :=
  let (blocks, rng) := s.shuffle (s.seeded p.seed) p.blocks
  (p.orders s rng blocks).zipIdx.map jobOf

/-! ## What the schedule holds -/

theorem runIdOf_injective {m n : Nat} (h : runIdOf m = runIdOf n) : m = n := by
  have hdigits (k : Nat) : natOfDigits (List.replicate (6 - (natRepr k).length) 0x30 ++ natRepr k) = k := by
    have hk := natOfDigits_natRepr k
    rw [natOfDigits] at hk
    rw [natOfDigits, List.reverse_append, List.map_append, List.reverse_replicate,
      List.map_replicate]
    exact (Nat.ofDigits_append_replicate_zero _).trans hk
  rw [runIdOf, runIdOf, List.append_assoc, List.append_assoc] at h
  rw [← hdigits m, List.append_cancel_left h, hdigits]

/-- What an entry schedules. -/
def Job.triple (j : Job) : Str × Nat × Str := (j.caseId, j.round, j.mode)

section Schedule

variable (p : Plan) (s : Shuffler)

theorem orders_perm (blocks : List (Case × Nat)) : ∀ rng, (p.orders s rng blocks).Perm
    (blocks.flatMap fun block => p.modes.map fun mode => (block.1, block.2, mode)) := by
  induction blocks with
  | nil => exact fun _ => List.Perm.nil
  | cons block blocks ih =>
      intro rng
      simp only [Plan.orders, List.flatMap_cons]
      exact ((s.perm rng p.modes).map _).append (ih _)

theorem jobs_triples : (p.jobs s).map Job.triple =
    (p.orders s (s.shuffle (s.seeded p.seed) p.blocks).2
      (s.shuffle (s.seeded p.seed) p.blocks).1).map fun e => (e.1.id, e.2.1, e.2.2) := by
  rw [Plan.jobs]
  simp only [List.map_map]
  rw [show (Job.triple ∘ jobOf) = (fun e : Case × Nat × Str => (e.1.id, e.2.1, e.2.2)) ∘ Prod.fst from
    rfl, ← List.map_map, List.zipIdx_map_fst]

/-- Up to order, the schedule is the product of the repeats, the cases and the modes. -/
theorem triples_perm : ((p.jobs s).map Job.triple).Perm
    ((List.range p.repeats).flatMap fun round => (p.cases.map Case.id).flatMap fun id =>
      p.modes.map fun mode => (id, round, mode)) := by
  rw [jobs_triples]
  refine ((orders_perm p s _ _).trans (List.Perm.flatMap_right _ (s.perm _ _))).map _ |>.trans ?_
  rw [Plan.blocks]
  simp [List.map_flatMap, List.flatMap_assoc, List.flatMap_map, List.map_map, Function.comp_def]

theorem mem_jobs_iff {id mode : Str} {round : Nat} :
    (id, round, mode) ∈ (p.jobs s).map Job.triple ↔
      id ∈ p.cases.map Case.id ∧ round < p.repeats ∧ mode ∈ p.modes := by
  rw [(triples_perm p s).mem_iff]
  simp only [List.mem_flatMap, List.mem_range, List.mem_map, Prod.mk.injEq]
  constructor
  · rintro ⟨r, hr, i, hi, m, hm, rfl, rfl, rfl⟩
    exact ⟨hi, hr, hm⟩
  · rintro ⟨hi, hr, hm⟩
    exact ⟨round, hr, id, hi, mode, hm, rfl, rfl, rfl⟩

variable {p} in
theorem triples_nodup (hids : (p.cases.map Case.id).Nodup) (hmodes : p.modes.Nodup) :
    ((p.jobs s).map Job.triple).Nodup := by
  rw [(triples_perm p s).nodup_iff]
  have hblock (round : Nat) (id : Str) :
      (p.modes.map fun mode => (id, round, mode)).Nodup :=
    hmodes.map fun _ _ h => (Prod.mk.inj (Prod.mk.inj h).2).2
  refine List.nodup_flatMap.2 ⟨fun round _ => List.nodup_flatMap.2 ⟨fun id _ => hblock round id, ?_⟩, ?_⟩
  · refine hids.imp ?_
    intro i j hne
    rw [Function.onFun, List.disjoint_left]
    rintro x hx hy
    obtain ⟨m, -, rfl⟩ := List.mem_map.1 hx
    obtain ⟨n, -, h⟩ := List.mem_map.1 hy
    exact hne (Prod.mk.inj h).1.symm
  · refine List.nodup_range.imp ?_
    intro r t hne
    rw [Function.onFun, List.disjoint_left]
    rintro x hx hy
    obtain ⟨i, -, hx⟩ := List.mem_flatMap.1 hx
    obtain ⟨m, -, rfl⟩ := List.mem_map.1 hx
    obtain ⟨j, -, hy⟩ := List.mem_flatMap.1 hy
    obtain ⟨n, -, h⟩ := List.mem_map.1 hy
    exact hne (Prod.mk.inj (Prod.mk.inj h).2).1.symm

theorem runIds_nodup : ((p.jobs s).map Job.runId).Nodup := by
  rw [Plan.jobs]
  simp only [List.map_map]
  rw [show (Job.runId ∘ jobOf) = runIdOf ∘ Prod.snd from rfl, ← List.map_map, List.zipIdx_map_snd]
  exact List.Nodup.map (fun _ _ h => runIdOf_injective h) List.nodup_range'

end Schedule

/-! ## Protocols -/

/-- A selected case of the suite, with the digests of its task and of its grader. -/
structure SuiteCase extends Case where
  taskSha256 : Str
  graderSha256 : Str

variable [FloatModel]

/-- The inputs of `make_protocol`: what it loaded of the suite, its arguments and the digests of the
sources. -/
structure ProtocolInput where
  suiteName : Str
  suiteSha256 : Str
  evidenceLevel : Str
  split : Str
  config : Json
  sourceHashes : Fields
  cases : List SuiteCase
  modes : List Str
  repeats : Nat
  seed : Nat
  maxTotalCalls : Nat
  maxTotalRemoteBytes : Nat
  localCostPerHour : Json

/-- The protocol before its digest is added. -/
def ProtocolInput.body (p : ProtocolInput) : Fields :=
  [(lit "schema_version", .str (lit "residual.study-protocol.v1")),
    (lit "suite_name", .str p.suiteName), (lit "suite_sha256", .str p.suiteSha256),
    (lit "evidence_level", .str p.evidenceLevel), (lit "split", .str p.split),
    (lit "config", p.config), (lit "source_hashes", .obj p.sourceHashes),
    (lit "cases", .arr (p.cases.map fun entry => .obj [(lit "id", .str entry.id),
      (lit "family", .str entry.family), (lit "task_sha256", .str entry.taskSha256),
      (lit "grader_sha256", .str entry.graderSha256)])),
    (lit "modes", strings p.modes), (lit "repeats", .int p.repeats), (lit "seed", .int p.seed),
    (lit "max_total_calls", .int p.maxTotalCalls),
    (lit "max_total_remote_bytes", .int p.maxTotalRemoteBytes),
    (lit "local_cost_per_hour_usd", p.localCostPerHour), (lit "cache_policy", .str (lit "disabled")),
    (lit "cost_scope", .str (lit "Configured inference prices plus optional modeled local host occupancy; excludes engineering effort and unreported upstream charges."))]

/-- A protocol that `make_protocol` accepted. -/
structure Protocol extends ProtocolInput where
  cases_ne : cases ≠ []
  ids_nodup : (cases.map fun entry => entry.id).Nodup
  modes_ne : modes ≠ []
  modes_nodup : modes.Nodup
  modes_known : ∀ mode ∈ modes, ∃ m : Mode, mode = m.text
  repeats_pos : 0 < repeats
  calls_pos : 0 < maxTotalCalls
  bytes_pos : 0 < maxTotalRemoteBytes
  size : cases.length * repeats * modes.length ≤ 100000
  digestible : Digestible (.obj toProtocolInput.body)

/-- The frozen protocol. -/
def Protocol.dict (p : Protocol) : Fields :=
  p.body ++ [(lit "sha256", Json.str (digestText (.obj p.body)))]

/-- What the schedule of the protocol is made of. -/
def Protocol.plan (p : Protocol) : Plan :=
  ⟨p.seed, p.repeats, p.cases.map SuiteCase.toCase, p.modes⟩

end ResidualHarness.Study
