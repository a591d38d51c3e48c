import ResidualHarness.Factory.Integrator
import ResidualHarness.Python.Program

/-!
# Attribution of a verification failure

`_verify_subset` and `_attribute_failure` of `residual/factory/m4_integrator.py`: the verification
of a set of receipts on a checkout of its own, and the bisection of the receipts of a failed
integration. The worktrees, the application of the receipts and the verifiers are parameters
(`Checkout`). A run of the loop is a derivation of `Bisection` (`bisect_run`), and what holds of
every run is proved by induction on it.
-/

set_option autoImplicit false

namespace ResidualHarness.Factory

open Python Core Graph

section Model

variable [FloatModel]

/-! ## One counterfactual -/

/-- The fields of `VerificationResult` that decide an attribution. -/
structure VerificationResult where
  status : Str
  returncode : Option Int
  terminationReason : Str
deriving DecidableEq

/-- The verifier passed or failed and exited normally. -/
def VerificationResult.normalExit (r : VerificationResult) : Bool :=
  (r.status = lit "pass" || r.status = lit "fail") && r.terminationReason = lit "exit" &&
    match r.returncode with
    | some code => 0 ≤ code
    | none => false

/-- `_passes(results)`. -/
def passes (results : List VerificationResult) : Bool :=
  !results.isEmpty && results.all fun r => r.status = lit "pass"

/-- `_verification_available(results)`. -/
def verificationAvailable (results : List VerificationResult) : Bool :=
  !results.isEmpty && results.all VerificationResult.normalExit

/-- What a counterfactual uses of the repository, for a root commit and a verification policy: the
worktrees, and the verifiers after the receipts were applied in the worktree. -/
structure Checkout where
  sources : Sources
  worktree : Str → Except PyExn Unit
  verify : Str → List WorkerReceipt → Dict Str Str → Except PyExn (List VerificationResult)
  removeWorktree : Str → Except PyExn Unit

variable (co : Checkout)

/-- The `try` block of `_verify_subset`. -/
def counterfactual (receipts : List WorkerReceipt) (name : Str) : Except PyExn (Option Bool) := do
  let (winners, conflicts) ← classifyOverlaps co.sources receipts
  if conflicts ≠ [] then
    return none
  else
    let results ← co.verify name receipts winners
    if verificationAvailable results then
      return some (passes results)
    else
      return none

/-- `_verify_subset(root_commit, receipts, policy, token)`. -/
def verifySubset (receipts : List WorkerReceipt) (token : Str) : Except PyExn (Option Bool) := do
  let supplied ← mapE WorkerReceipt.receiptHash receipts
  if ∃ r ∈ receipts, ∃ parent ∈ r.parentReceipts, parent ∉ supplied then
    return none
  else
    let name := lit "bisect-" ++ token
    co.worktree name
    let verdict := counterfactual co receipts name
    -- `finally`: an error of the removal replaces the verdict
    co.removeWorktree name
    verdict

/-- Every parent of the receipts is among them. -/
def DependencyClosed (receipts : List WorkerReceipt) : Prop :=
  ∀ r ∈ receipts, ∀ parent ∈ r.parentReceipts, parent ∈ receipts.map WorkerReceipt.hash

/-- The receipts were applied without conflict, and every verifier exited normally; `b` tells whether
all of them passed. -/
def VerifiedAs (receipts : List WorkerReceipt) (token : Str) (b : Bool) : Prop :=
  ∃ winners results, classifyOverlaps co.sources receipts = .ok (winners, []) ∧
    co.verify (lit "bisect-" ++ token) receipts winners = .ok results ∧ results ≠ [] ∧
    (∀ x ∈ results, x.normalExit = true) ∧
    (b = true ↔ ∀ x ∈ results, x.status = lit "pass")

theorem counterfactual_some {receipts : List WorkerReceipt} {token : Str} {b : Bool}
    (h : counterfactual co receipts (lit "bisect-" ++ token) = .ok (some b)) :
    VerifiedAs co receipts token b := by
  obtain ⟨⟨winners, conflicts⟩, hclass, h⟩ := bind_eq_ok.1 h
  dsimp only at h
  split at h
  · cases h
  · rename_i hconflicts
    obtain ⟨results, hresults, h⟩ := bind_eq_ok.1 h
    split at h
    · rename_i havailable
      cases h
      rw [verificationAvailable, Bool.and_eq_true, List.all_eq_true] at havailable
      have hne : results ≠ [] := by
        rintro rfl
        cases havailable.1
      rw [not_ne_iff.1 hconflicts] at hclass
      refine ⟨winners, results, hclass, hresults, hne, havailable.2, ?_⟩
      rw [passes, Bool.and_eq_true, List.all_eq_true]
      simp only [havailable.1, true_and, decide_eq_true_eq]
    · cases h

/-- A verdict other than UNKNOWN: no parent is missing, and the verifiers exited normally. -/
theorem verifySubset_some {receipts : List WorkerReceipt} {token : Str} {b : Bool}
    (h : verifySubset co receipts token = .ok (some b)) :
    DependencyClosed receipts ∧ VerifiedAs co receipts token b := by
  obtain ⟨supplied, hsupplied, h⟩ := bind_eq_ok.1 h
  split at h
  · cases h
  · rename_i hparents
    obtain ⟨-, -, h⟩ := bind_eq_ok.1 h
    obtain ⟨-, -, h⟩ := bind_eq_ok.1 h
    refine ⟨?_, counterfactual_some co h⟩
    intro r hr parent hp
    by_contra hmissing
    rw [← hashes_of_mapE hsupplied] at hmissing
    exact hparents ⟨r, hr, parent, hp, hmissing⟩

/-! ## The bisection -/

/-- One call of the verification oracle and its answer. -/
structure Query where
  token : Str
  receipts : List WorkerReceipt
  answer : Except PyExn (Option Bool)

/-- The payload of `M4VerificationBisect`. -/
structure BisectEvent where
  round : Nat
  candidateCount : Nat
  tested : Str
  passes : Option Bool

/-- What an attribution asked and emitted. -/
structure Attribution where
  queries : List Query
  events : List BisectEvent

/-- A call of `_verify_subset`. -/
def ask (receipts : List WorkerReceipt) (token : Str) : Prog Attribution PyExn (Option Bool) := do
  let answer := verifySubset co receipts token
  Prog.write fun t => { t with queries := t.queries ++ [⟨token, receipts, answer⟩] }
  Prog.eval answer

/-- `_emit("M4VerificationBisect", ...)`. -/
def emitBisect (round : Nat) (candidates : List WorkerReceipt) (tested : String)
    (answer : Option Bool) : Prog Attribution PyExn Unit :=
  Prog.write fun t =>
    { t with events := t.events ++ [⟨round, candidates.length, lit tested, answer⟩] }

/-- `f"{round_id}-left"` and `f"{round_id}-right"`. -/
def roundToken (round : Nat) (side : String) : Str := lit (toString round ++ "-" ++ side)

/-- `candidates[:midpoint]`. -/
def leftHalf (candidates : List WorkerReceipt) : List WorkerReceipt :=
  candidates.take (candidates.length / 2)

/-- `candidates[midpoint:]`. -/
def rightHalf (candidates : List WorkerReceipt) : List WorkerReceipt :=
  candidates.drop (candidates.length / 2)

omit [FloatModel] in
theorem leftHalf_length (candidates : List WorkerReceipt) :
    (leftHalf candidates).length = candidates.length / 2 := by
  rw [leftHalf, List.length_take]
  omega

omit [FloatModel] in
theorem rightHalf_length (candidates : List WorkerReceipt) :
    (rightHalf candidates).length = (candidates.length + 1) / 2 := by
  rw [rightHalf, List.length_drop]
  omega

omit [FloatModel] in
theorem leftHalf_append_rightHalf (candidates : List WorkerReceipt) :
    leftHalf candidates ++ rightHalf candidates = candidates :=
  List.take_append_drop _ _

/-- The loop of `_attribute_failure`: the candidates that are left, or `none` where it returns
`None`. -/
def bisect (candidates : List WorkerReceipt) (round : Nat) :
    Prog Attribution PyExn (Option (List WorkerReceipt)) :=
  if _h : 1 < candidates.length then do
    let leftPasses ← ask co (leftHalf candidates) (roundToken round "left")
    emitBisect round candidates "left" leftPasses
    match leftPasses with
    | none => return none
    | some false => bisect (leftHalf candidates) (round + 1)
    | some true => do
        let rightPasses ← ask co (rightHalf candidates) (roundToken round "right")
        emitBisect round candidates "right" rightPasses
        match rightPasses with
        | none => return none
        | some false => bisect (rightHalf candidates) (round + 1)
        | some true => return none
  else
    return some candidates
termination_by candidates.length
decreasing_by
  · rw [leftHalf_length]
    omega
  · rw [rightHalf_length]
    omega

/-- The confirmation that ends `_attribute_failure`. -/
def confirm : Option (List WorkerReceipt) → Prog Attribution PyExn (Option Str)
  | some (r :: rest) => do
      match ← ask co (r :: rest) (lit "confirm") with
      | some false => do
          let h ← Prog.eval r.receiptHash
          return some h
      | _ => return none
  | _ => return none

/-- `_attribute_failure(root_commit, receipts, policy)`. -/
def attributeFailure (receipts : List WorkerReceipt) : Prog Attribution PyExn (Option Str) := do
  match ← ask co [] (lit "baseline") with
  | some true => do
      let candidates ← bisect co receipts 0
      confirm co candidates
  | _ => return none

/-! ## Runs of the loop -/

/-- The query of a subset. -/
def query (receipts : List WorkerReceipt) (token : Str) : Query :=
  ⟨token, receipts, verifySubset co receipts token⟩

/-- The queries of a run of the loop, and its result. -/
inductive Bisection : List WorkerReceipt → Nat → List Query →
    Except PyExn (Option (List WorkerReceipt)) → Prop where
  | last {cs : List WorkerReceipt} {n : Nat} (h : cs.length ≤ 1) : Bisection cs n [] (.ok (some cs))
  | leftRaises {cs : List WorkerReceipt} {n : Nat} {e : PyExn} (h : 1 < cs.length)
      (hl : verifySubset co (leftHalf cs) (roundToken n "left") = .error e) :
      Bisection cs n [query co (leftHalf cs) (roundToken n "left")] (.error e)
  | leftUnknown {cs : List WorkerReceipt} {n : Nat} (h : 1 < cs.length)
      (hl : verifySubset co (leftHalf cs) (roundToken n "left") = .ok none) :
      Bisection cs n [query co (leftHalf cs) (roundToken n "left")] (.ok none)
  | leftFails {cs : List WorkerReceipt} {n : Nat} {qs : List Query}
      {res : Except PyExn (Option (List WorkerReceipt))} (h : 1 < cs.length)
      (hl : verifySubset co (leftHalf cs) (roundToken n "left") = .ok (some false))
      (rest : Bisection (leftHalf cs) (n + 1) qs res) :
      Bisection cs n (query co (leftHalf cs) (roundToken n "left") :: qs) res
  | rightRaises {cs : List WorkerReceipt} {n : Nat} {e : PyExn} (h : 1 < cs.length)
      (hl : verifySubset co (leftHalf cs) (roundToken n "left") = .ok (some true))
      (hr : verifySubset co (rightHalf cs) (roundToken n "right") = .error e) :
      Bisection cs n [query co (leftHalf cs) (roundToken n "left"),
        query co (rightHalf cs) (roundToken n "right")] (.error e)
  | rightUnknown {cs : List WorkerReceipt} {n : Nat} (h : 1 < cs.length)
      (hl : verifySubset co (leftHalf cs) (roundToken n "left") = .ok (some true))
      (hr : verifySubset co (rightHalf cs) (roundToken n "right") = .ok none) :
      Bisection cs n [query co (leftHalf cs) (roundToken n "left"),
        query co (rightHalf cs) (roundToken n "right")] (.ok none)
  | rightFails {cs : List WorkerReceipt} {n : Nat} {qs : List Query}
      {res : Except PyExn (Option (List WorkerReceipt))} (h : 1 < cs.length)
      (hl : verifySubset co (leftHalf cs) (roundToken n "left") = .ok (some true))
      (hr : verifySubset co (rightHalf cs) (roundToken n "right") = .ok (some false))
      (rest : Bisection (rightHalf cs) (n + 1) qs res) :
      Bisection cs n (query co (leftHalf cs) (roundToken n "left") ::
        query co (rightHalf cs) (roundToken n "right") :: qs) res
  | bothPass {cs : List WorkerReceipt} {n : Nat} (h : 1 < cs.length)
      (hl : verifySubset co (leftHalf cs) (roundToken n "left") = .ok (some true))
      (hr : verifySubset co (rightHalf cs) (roundToken n "right") = .ok (some true)) :
      Bisection cs n [query co (leftHalf cs) (roundToken n "left"),
        query co (rightHalf cs) (roundToken n "right")] (.ok none)

theorem ask_final {receipts : List WorkerReceipt} {token : Str} {a : Except PyExn (Option Bool)}
    (h : verifySubset co receipts token = a) (t : Attribution) :
    (ask co receipts token).final t =
      (a, { t with queries := t.queries ++ [query co receipts token] }) := by
  subst h
  rfl

omit [FloatModel] in
theorem emitBisect_final (round : Nat) (candidates : List WorkerReceipt) (tested : String)
    (answer : Option Bool) (t : Attribution) : (emitBisect round candidates tested answer).final t =
      (.ok (), { t with events :=
        t.events ++ [⟨round, candidates.length, lit tested, answer⟩] }) :=
  rfl

theorem bisect_run (cs : List WorkerReceipt) (n : Nat) (t : Attribution) :
    ∃ qs es res, (bisect co cs n).final t = (res, ⟨t.queries ++ qs, es⟩) ∧
      Bisection co cs n qs res := by
  induction hlen : cs.length using Nat.strong_induction_on generalizing cs n t with
  | _ len ih =>
      subst hlen
      rw [bisect]
      by_cases h : 1 < cs.length
      · rw [dif_pos h]
        have hleft : (leftHalf cs).length < cs.length := by
          rw [leftHalf_length]
          omega
        have hright : (rightHalf cs).length < cs.length := by
          rw [rightHalf_length]
          omega
        cases hl : verifySubset co (leftHalf cs) (roundToken n "left") with
        | error e =>
            exact ⟨_, _, _, final_bind_error (ask_final co hl t), .leftRaises h hl⟩
        | ok left =>
            rw [final_bind_ok (ask_final co hl t),
              final_bind_ok (emitBisect_final _ _ _ _ _)]
            rcases left with - | - | -
            · exact ⟨_, _, _, rfl, .leftUnknown h hl⟩
            · obtain ⟨qs, es, res, hrun, hb⟩ := ih _ hleft (leftHalf cs) (n + 1) _ rfl
              refine ⟨_, es, res, hrun.trans ?_, .leftFails h hl hb⟩
              rw [List.append_assoc]
              rfl
            · have hsplit : t.queries ++ [query co (leftHalf cs) (roundToken n "left"),
                  query co (rightHalf cs) (roundToken n "right")] =
                  t.queries ++ [query co (leftHalf cs) (roundToken n "left")] ++
                    [query co (rightHalf cs) (roundToken n "right")] := List.append_cons _ _ _
              cases hr : verifySubset co (rightHalf cs) (roundToken n "right") with
              | error e =>
                  refine ⟨_, t.events ++ [⟨n, cs.length, lit "left", some true⟩], _, ?_,
                    .rightRaises h hl hr⟩
                  rw [hsplit]
                  exact final_bind_error (ask_final co hr _)
              | ok right =>
                  dsimp only
                  rw [final_bind_ok (ask_final co hr _),
                    final_bind_ok (emitBisect_final _ _ _ _ _)]
                  rcases right with - | - | -
                  · refine ⟨_, t.events ++ [⟨n, cs.length, lit "left", some true⟩] ++
                      [⟨n, cs.length, lit "right", none⟩], _, ?_, .rightUnknown h hl hr⟩
                    rw [hsplit]
                    rfl
                  · obtain ⟨qs, es, res, hrun, hb⟩ := ih _ hright (rightHalf cs) (n + 1) _ rfl
                    refine ⟨_, es, res, hrun.trans ?_, .rightFails h hl hr hb⟩
                    rw [List.append_assoc, List.append_assoc]
                    rfl
                  · refine ⟨_, t.events ++ [⟨n, cs.length, lit "left", some true⟩] ++
                      [⟨n, cs.length, lit "right", some true⟩], _, ?_, .bothPass h hl hr⟩
                    rw [hsplit]
                    rfl
      · rw [dif_neg h]
        exact ⟨[], t.events, _, by rw [List.append_nil]; rfl, .last (not_lt.1 h)⟩

variable {co}

/-- Two queries for each halving of the candidates. -/
theorem Bisection.queries_le {cs : List WorkerReceipt} {n : Nat} {qs : List Query}
    {res : Except PyExn (Option (List WorkerReceipt))} (h : Bisection co cs n qs res) :
    qs.length ≤ 2 * Nat.clog 2 cs.length := by
  have hhalving : ∀ {xs : List WorkerReceipt}, 1 < xs.length →
      Nat.clog 2 xs.length = Nat.clog 2 ((xs.length + 1) / 2) + 1 := fun h =>
    Nat.clog_of_two_le (by decide) h
  induction h with
  | last h => exact Nat.zero_le _
  | leftRaises h | leftUnknown h | rightRaises h | rightUnknown h | bothPass h =>
      rw [hhalving h]
      simp only [List.length_cons, List.length_nil]
      omega
  | leftFails h hl rest ih =>
      rename_i cs _ _ _
      have hmono : Nat.clog 2 (leftHalf cs).length ≤ Nat.clog 2 ((cs.length + 1) / 2) := by
        rw [leftHalf_length]
        exact Nat.clog_mono_right 2 (by omega)
      rw [hhalving h, List.length_cons]
      omega
  | rightFails h hl hr rest ih =>
      rw [rightHalf_length] at ih
      rw [hhalving h, List.length_cons, List.length_cons]
      omega

/-- What is left are at most one of the candidates. -/
theorem Bisection.last_of {cs : List WorkerReceipt} {n : Nat} {qs : List Query}
    {res : Except PyExn (Option (List WorkerReceipt))} (h : Bisection co cs n qs res) :
    ∀ left, res = .ok (some left) → left.length ≤ 1 ∧ ∀ r ∈ left, r ∈ cs := by
  induction h with
  | last h =>
      intro left hres
      cases hres
      exact ⟨h, fun _ hr => hr⟩
  | leftRaises | leftUnknown | rightRaises | rightUnknown | bothPass => exact nofun
  | leftFails h hl rest ih =>
      intro left hres
      obtain ⟨hlen, hmem⟩ := ih left hres
      exact ⟨hlen, fun r hr => List.mem_of_mem_take (hmem r hr)⟩
  | rightFails h hl hr rest ih =>
      intro left hres
      obtain ⟨hlen, hmem⟩ := ih left hres
      exact ⟨hlen, fun r hr => List.mem_of_mem_drop (hmem r hr)⟩

theorem Bisection.unknown {cs : List WorkerReceipt} {n : Nat} {qs : List Query}
    {res : Except PyExn (Option (List WorkerReceipt))} (h : Bisection co cs n qs res) :
    (∃ q ∈ qs, q.answer = .ok none) → res = .ok none := by
  have hquery : ∀ {receipts : List WorkerReceipt} {token : Str} {a : Except PyExn (Option Bool)},
      verifySubset co receipts token = a → (query co receipts token).answer = a := fun h => h
  induction h with
  | last h => exact fun ⟨_, hq, _⟩ => absurd hq List.not_mem_nil
  | leftUnknown | rightUnknown | bothPass => exact fun _ => rfl
  | leftRaises h hl =>
      rintro ⟨q, hq, hnone⟩
      rw [List.mem_singleton.1 hq, hquery hl] at hnone
      cases hnone
  | rightRaises h hl hr =>
      rintro ⟨q, hq, hnone⟩
      rcases List.mem_cons.1 hq with rfl | hq
      · rw [hquery hl] at hnone
        cases hnone
      · rw [List.mem_singleton.1 hq, hquery hr] at hnone
        cases hnone
  | leftFails h hl rest ih =>
      rintro ⟨q, hq, hnone⟩
      rcases List.mem_cons.1 hq with rfl | hq
      · rw [hquery hl] at hnone
        cases hnone
      · exact ih ⟨q, hq, hnone⟩
  | rightFails h hl hr rest ih =>
      rintro ⟨q, hq, hnone⟩
      rcases List.mem_cons.1 hq with rfl | hq
      · rw [hquery hl] at hnone
        cases hnone
      · rcases List.mem_cons.1 hq with rfl | hq
        · rw [hquery hr] at hnone
          cases hnone
        · exact ih ⟨q, hq, hnone⟩

/-! ## The receipt that decides -/

/-- A half of the list, or of one of its halves. -/
def Half : List WorkerReceipt → List WorkerReceipt → Prop :=
  Relation.TransGen fun xs hs => hs = leftHalf xs ∨ hs = rightHalf xs

omit [FloatModel] in
theorem half_nil {xs : List WorkerReceipt} (h : xs ≠ []) : Half xs [] := by
  induction hlen : xs.length using Nat.strong_induction_on generalizing xs with
  | _ len ih =>
      subst hlen
      have hpos := List.length_pos_of_ne_nil h
      by_cases hone : xs.length = 1
      · refine Relation.TransGen.single (Or.inl (List.eq_nil_of_length_eq_zero ?_).symm)
        rw [leftHalf_length, hone]
      · have hlength := leftHalf_length xs
        have hne : leftHalf xs ≠ [] := by
          intro hnil
          rw [hnil, List.length_nil] at hlength
          omega
        exact Relation.TransGen.head (Or.inl rfl) (ih _ (by omega) hne rfl)

theorem InOrder.closed {receipts : List WorkerReceipt} (h : InOrder receipts) :
    DependencyClosed receipts := by
  intro r hr parent hp
  obtain ⟨pre, post, rfl⟩ := List.append_of_mem hr
  have := h.parentsFirst.split parent hp
  simp only [List.nil_append] at this
  rw [List.map_append]
  exact List.mem_append_left _ this

variable (co) in
/-- The answers about the halves of the candidates depend on one of them. -/
structure Decides (r : WorkerReceipt) (cs : List WorkerReceipt) : Prop where
  mem : r ∈ cs
  order : InOrder cs
  passes : ∀ hs token, Half cs hs → DependencyClosed hs → r ∉ hs →
    verifySubset co hs token = .ok (some true)
  fails : ∀ hs token, Half cs hs → r ∈ hs → verifySubset co hs token = .ok (some false)

theorem Decides.left {r : WorkerReceipt} {cs : List WorkerReceipt} (h : Decides co r cs)
    (token : Str) : r ∈ leftHalf cs ∧ verifySubset co (leftHalf cs) token = .ok (some false) ∨
      r ∈ rightHalf cs ∧ verifySubset co (leftHalf cs) token = .ok (some true) := by
  have horder := h.order
  rw [← leftHalf_append_rightHalf cs] at horder
  have hhalf : Half cs (leftHalf cs) := Relation.TransGen.single (Or.inl rfl)
  by_cases hr : r ∈ leftHalf cs
  · exact Or.inl ⟨hr, h.fails _ token hhalf hr⟩
  · refine Or.inr ⟨?_, h.passes _ token hhalf (InOrder.closed horder.left) hr⟩
    have hmem := h.mem
    rw [← leftHalf_append_rightHalf cs] at hmem
    exact (List.mem_append.1 hmem).resolve_left hr

theorem Decides.ofLeft {r : WorkerReceipt} {cs : List WorkerReceipt} (h : Decides co r cs)
    (hr : r ∈ leftHalf cs) : Decides co r (leftHalf cs) where
  mem := hr
  order := by
    have horder := h.order
    rw [← leftHalf_append_rightHalf cs] at horder
    exact horder.left
  passes := fun hs token hhalf => h.passes hs token (hhalf.head (Or.inl rfl))
  fails := fun hs token hhalf => h.fails hs token (hhalf.head (Or.inl rfl))

theorem Decides.right {r : WorkerReceipt} {cs : List WorkerReceipt} (h : Decides co r cs)
    (hr : r ∈ rightHalf cs) (token : Str) : verifySubset co (rightHalf cs) token = .ok (some false) :=
  h.fails _ token (Relation.TransGen.single (Or.inr rfl)) hr

theorem Decides.ofRight {r : WorkerReceipt} {cs : List WorkerReceipt} (h : Decides co r cs)
    (hr : r ∈ rightHalf cs) : Decides co r (rightHalf cs) where
  mem := hr
  order := by
    have horder := h.order
    rw [← leftHalf_append_rightHalf cs] at horder
    -- a half that the oracle judged has its parents
    exact horder.right (verifySubset_some co (h.right hr [])).1
  passes := fun hs token hhalf => h.passes hs token (hhalf.head (Or.inr rfl))
  fails := fun hs token hhalf => h.fails hs token (hhalf.head (Or.inr rfl))

/-- The loop ends with the candidate that decides the answers. -/
theorem Bisection.finds {cs : List WorkerReceipt} {n : Nat} {qs : List Query}
    {res : Except PyExn (Option (List WorkerReceipt))} (h : Bisection co cs n qs res)
    {r : WorkerReceipt} (hd : Decides co r cs) : res = .ok (some [r]) := by
  induction h with
  | @last cs n h =>
      obtain ⟨x, rfl⟩ : ∃ x, cs = [x] :=
        List.length_eq_one_iff.1 (le_antisymm h (List.length_pos_of_mem hd.mem))
      rw [List.mem_singleton.1 hd.mem]
  | @leftRaises cs n e h hl =>
      rcases hd.left (roundToken n "left") with ⟨-, ha⟩ | ⟨-, ha⟩ <;> cases hl.symm.trans ha
  | @leftUnknown cs n h hl =>
      rcases hd.left (roundToken n "left") with ⟨-, ha⟩ | ⟨-, ha⟩ <;> cases hl.symm.trans ha
  | @leftFails cs n qs res h hl rest ih =>
      rcases hd.left (roundToken n "left") with ⟨hr, -⟩ | ⟨-, ha⟩
      · exact ih (hd.ofLeft hr)
      · cases hl.symm.trans ha
  | @rightRaises cs n e h hl hr =>
      rcases hd.left (roundToken n "left") with ⟨-, ha⟩ | ⟨hmem, -⟩
      · cases hl.symm.trans ha
      · cases hr.symm.trans (hd.right hmem _)
  | @rightUnknown cs n h hl hr =>
      rcases hd.left (roundToken n "left") with ⟨-, ha⟩ | ⟨hmem, -⟩
      · cases hl.symm.trans ha
      · cases hr.symm.trans (hd.right hmem _)
  | @rightFails cs n qs res h hl hr rest ih =>
      rcases hd.left (roundToken n "left") with ⟨-, ha⟩ | ⟨hmem, -⟩
      · cases hl.symm.trans ha
      · exact ih (hd.ofRight hmem)
  | @bothPass cs n h hl hr =>
      rcases hd.left (roundToken n "left") with ⟨-, ha⟩ | ⟨hmem, -⟩
      · cases hl.symm.trans ha
      · cases hr.symm.trans (hd.right hmem _)

/-! ## Attributions -/

variable (co) in
/-- The queries of an attribution, and its result. -/
inductive Attributes (receipts : List WorkerReceipt) :
    List Query → Except PyExn (Option Str) → Prop where
  | baselineRaises {e : PyExn} (hb : verifySubset co [] (lit "baseline") = .error e) :
      Attributes receipts [query co [] (lit "baseline")] (.error e)
  | noBaseline {b : Option Bool} (hb : verifySubset co [] (lit "baseline") = .ok b)
      (h : b ≠ some true) : Attributes receipts [query co [] (lit "baseline")] (.ok none)
  | loopRaises {qs : List Query} {e : PyExn}
      (hb : verifySubset co [] (lit "baseline") = .ok (some true))
      (loop : Bisection co receipts 0 qs (.error e)) :
      Attributes receipts (query co [] (lit "baseline") :: qs) (.error e)
  | undecided {qs : List Query} (hb : verifySubset co [] (lit "baseline") = .ok (some true))
      (loop : Bisection co receipts 0 qs (.ok none)) :
      Attributes receipts (query co [] (lit "baseline") :: qs) (.ok none)
  | nothing {qs : List Query} (hb : verifySubset co [] (lit "baseline") = .ok (some true))
      (loop : Bisection co receipts 0 qs (.ok (some []))) :
      Attributes receipts (query co [] (lit "baseline") :: qs) (.ok none)
  | confirmRaises {qs : List Query} {cs : List WorkerReceipt} {e : PyExn}
      (hb : verifySubset co [] (lit "baseline") = .ok (some true))
      (loop : Bisection co receipts 0 qs (.ok (some cs)))
      (hc : verifySubset co cs (lit "confirm") = .error e) :
      Attributes receipts (query co [] (lit "baseline") :: qs ++ [query co cs (lit "confirm")])
        (.error e)
  | unconfirmed {qs : List Query} {cs : List WorkerReceipt} {b : Option Bool}
      (hb : verifySubset co [] (lit "baseline") = .ok (some true))
      (loop : Bisection co receipts 0 qs (.ok (some cs)))
      (hc : verifySubset co cs (lit "confirm") = .ok b) (h : b ≠ some false) :
      Attributes receipts (query co [] (lit "baseline") :: qs ++ [query co cs (lit "confirm")])
        (.ok none)
  | confirmed {qs : List Query} {r : WorkerReceipt}
      (hb : verifySubset co [] (lit "baseline") = .ok (some true))
      (loop : Bisection co receipts 0 qs (.ok (some [r])))
      (hc : verifySubset co [r] (lit "confirm") = .ok (some false)) :
      Attributes receipts (query co [] (lit "baseline") :: qs ++ [query co [r] (lit "confirm")])
        (.ok (some r.hash))

theorem receiptHash_of_verified {r : WorkerReceipt} {rest : List WorkerReceipt} {token : Str}
    {b : Bool} (h : verifySubset co (r :: rest) token = .ok (some b)) :
    r.receiptHash = .ok r.hash := by
  obtain ⟨supplied, hsupplied, -⟩ := bind_eq_ok.1 h
  rw [mapE] at hsupplied
  obtain ⟨hash, hhash, -⟩ := bind_eq_ok.1 hsupplied
  rw [hhash, WorkerReceipt.hash_of_receiptHash hhash]

variable (co) in
theorem attributeFailure_run (receipts : List WorkerReceipt) :
    ∃ qs es res, (attributeFailure co receipts).final ⟨[], []⟩ = (res, ⟨qs, es⟩) ∧
      Attributes co receipts qs res := by
  rw [attributeFailure]
  cases hb : verifySubset co [] (lit "baseline") with
  | error e =>
      exact ⟨_, _, _, final_bind_error (ask_final co hb _), .baselineRaises hb⟩
  | ok b =>
      rw [final_bind_ok (ask_final co hb _)]
      rcases b with - | - | -
      · exact ⟨_, _, _, rfl, .noBaseline hb nofun⟩
      · exact ⟨_, _, _, rfl, .noBaseline hb nofun⟩
      dsimp only
      obtain ⟨qs, es, res, hrun, loop⟩ :=
        bisect_run co receipts 0 ⟨[query co [] (lit "baseline")], []⟩
      cases res with
      | error e => exact ⟨_, _, _, final_bind_error hrun, .loopRaises hb loop⟩
      | ok left =>
          rw [List.nil_append, final_bind_ok hrun]
          rcases left with - | - | ⟨r, rest⟩
          · exact ⟨_, _, _, rfl, .undecided hb loop⟩
          · exact ⟨_, _, _, rfl, .nothing hb loop⟩
          rw [confirm]
          cases hc : verifySubset co (r :: rest) (lit "confirm") with
          | error e =>
              exact ⟨_, _, _, final_bind_error (ask_final co hc _),
                .confirmRaises hb loop hc⟩
          | ok b =>
              rw [final_bind_ok (ask_final co hc _)]
              rcases b with - | - | -
              · exact ⟨_, _, _, rfl, .unconfirmed hb loop hc nofun⟩
              · have hlast := (loop.last_of _ rfl).1
                obtain rfl : rest = [] := by
                  rw [List.length_cons] at hlast
                  exact List.eq_nil_of_length_eq_zero (by omega)
                refine ⟨_, es, _, ?_, .confirmed hb loop hc⟩
                dsimp only
                rw [receiptHash_of_verified hc]
                rfl
              · exact ⟨_, _, _, rfl, .unconfirmed hb loop hc nofun⟩

theorem Bisection.returns {cs : List WorkerReceipt} {n : Nat} {qs : List Query}
    {res : Except PyExn (Option (List WorkerReceipt))} (h : Bisection co cs n qs res)
    (hall : ∀ hs token, ∃ a, verifySubset co hs token = .ok a) : ∃ left, res = .ok left := by
  induction h with
  | last | leftUnknown | rightUnknown | bothPass => exact ⟨_, rfl⟩
  | leftRaises h hl =>
      obtain ⟨a, ha⟩ := hall _ _
      cases hl.symm.trans ha
  | rightRaises h hl hr =>
      obtain ⟨a, ha⟩ := hall _ _
      cases hr.symm.trans ha
  | leftFails h hl rest ih => exact ih
  | rightFails h hl hr rest ih => exact ih

variable {receipts : List WorkerReceipt} {qs : List Query} {res : Except PyExn (Option Str)}

/-- The baseline, the halves and the confirmation. -/
theorem Attributes.queries_le (h : Attributes co receipts qs res) :
    qs.length ≤ 2 * Nat.clog 2 receipts.length + 2 := by
  cases h with
  | baselineRaises | noBaseline =>
      rw [List.length_singleton]
      omega
  | loopRaises hb loop | undecided hb loop | nothing hb loop =>
      have := loop.queries_le
      rw [List.length_cons]
      omega
  | confirmRaises hb loop | unconfirmed hb loop | confirmed hb loop =>
      have := loop.queries_le
      rw [List.length_append, List.length_cons, List.length_singleton]
      omega

theorem Attributes.returns (h : Attributes co receipts qs res)
    (hall : ∀ hs token, ∃ a, verifySubset co hs token = .ok a) : ∃ found, res = .ok found := by
  cases h with
  | noBaseline | undecided | nothing | unconfirmed | confirmed => exact ⟨_, rfl⟩
  | baselineRaises hb =>
      obtain ⟨a, ha⟩ := hall _ _
      cases hb.symm.trans ha
  | loopRaises hb loop =>
      obtain ⟨left, hleft⟩ := loop.returns hall
      cases hleft
  | confirmRaises hb loop hc =>
      obtain ⟨a, ha⟩ := hall _ _
      cases hc.symm.trans ha

theorem Attributes.unknown (h : Attributes co receipts qs res)
    (hunknown : ∃ q ∈ qs, q.answer = .ok none) : res = .ok none := by
  obtain ⟨q, hq, hnone⟩ := hunknown
  have hquery : ∀ {subset : List WorkerReceipt} {token : Str} {a : Except PyExn (Option Bool)},
      q = query co subset token → verifySubset co subset token = a → a ≠ .ok none → False := by
    rintro subset token a rfl ha hne
    exact hne (ha.symm.trans hnone)
  -- a query of the loop that is not answered ends the loop without candidates
  have hloop : ∀ {qs : List Query} {res : Except PyExn (Option (List WorkerReceipt))},
      Bisection co receipts 0 qs res → res ≠ .ok none → q ∉ qs :=
    fun loop hne hmem => hne (loop.unknown ⟨q, hmem, hnone⟩)
  cases h with
  | noBaseline | undecided | nothing | unconfirmed => rfl
  | baselineRaises hb => exact (hquery (List.mem_singleton.1 hq) hb nofun).elim
  | loopRaises hb loop =>
      rcases List.mem_cons.1 hq with hq | hq
      · exact (hquery hq hb nofun).elim
      · exact absurd hq (hloop loop nofun)
  | confirmRaises hb loop hc | confirmed hb loop hc =>
      rcases List.mem_append.1 hq with hq | hq
      · rcases List.mem_cons.1 hq with hq | hq
        · exact (hquery hq hb nofun).elim
        · exact absurd hq (hloop loop nofun)
      · exact (hquery (List.mem_singleton.1 hq) hc nofun).elim

/-- A receipt that is closed under dependencies alone is a root. -/
theorem InOrder.root (horder : InOrder receipts) {r : WorkerReceipt} (hr : r ∈ receipts)
    (hclosed : DependencyClosed [r]) : r.parentReceipts = [] := by
  refine List.eq_nil_iff_forall_not_mem.2 fun parent hp => ?_
  have hself : parent = r.hash := List.mem_singleton.1 (hclosed r List.mem_cons_self parent hp)
  obtain ⟨pre, post, rfl⟩ := List.append_of_mem hr
  have hbefore := horder.parentsFirst.split parent hp
  have hnodup := horder.nodup
  rw [List.map_append, List.map_cons] at hnodup
  rw [List.nil_append, hself] at hbefore
  exact List.disjoint_of_nodup_append hnodup hbefore List.mem_cons_self

/-- What is attributed is a root of the receipts, which fails alone. -/
theorem Attributes.root (h : Attributes co receipts qs res) (horder : InOrder receipts) {hash : Str}
    (hres : res = .ok (some hash)) : verifySubset co [] (lit "baseline") = .ok (some true) ∧
      ∃ r ∈ receipts, r.hash = hash ∧ r.parentReceipts = [] ∧
        verifySubset co [r] (lit "confirm") = .ok (some false) := by
  cases h with
  | baselineRaises | noBaseline | loopRaises | undecided | nothing | confirmRaises | unconfirmed =>
      cases hres
  | @confirmed qs r hb loop hc =>
      cases hres
      have hr : r ∈ receipts := (loop.last_of _ rfl).2 r List.mem_cons_self
      exact ⟨hb, r, hr, rfl, horder.root hr (verifySubset_some co hc).1, hc⟩

theorem Attributes.finds (h : Attributes co receipts qs res) {r : WorkerReceipt}
    (hd : Decides co r receipts) (halone : ∀ token, verifySubset co [r] token = .ok (some false)) :
    res = .ok (some r.hash) := by
  have hbase : verifySubset co [] (lit "baseline") = .ok (some true) :=
    hd.passes [] _ (half_nil (List.ne_nil_of_mem hd.mem)) nofun List.not_mem_nil
  cases h with
  | baselineRaises hb => cases hb.symm.trans hbase
  | noBaseline hb hne =>
      cases hb.symm.trans hbase
      exact absurd rfl hne
  | loopRaises hb loop | undecided hb loop | nothing hb loop => cases loop.finds hd
  | confirmRaises hb loop hc =>
      cases loop.finds hd
      cases hc.symm.trans (halone _)
  | unconfirmed hb loop hc hne =>
      cases loop.finds hd
      cases hc.symm.trans (halone _)
      exact absurd rfl hne
  | confirmed hb loop hc =>
      cases loop.finds hd
      rfl

/-- Attribution for receipts in topological order and any verification oracle. It asks at most
`2 * clog 2 n + 2` times, and returns when the oracle does. What it returns is a root, which fails
alone with normal exits on a checkout that passes without it. It finds the receipt that decides the
answers about the halves, and an UNKNOWN answer attributes nothing. -/
theorem failure_attributed (co : Checkout) (receipts : List WorkerReceipt)
    (horder : InOrder receipts) :
    let run := attributeFailure co receipts ⟨[], []⟩
    run.state.queries.length ≤ 2 * Nat.clog 2 receipts.length + 2 ∧
    ((∀ hs token, ∃ a, verifySubset co hs token = .ok a) → ∃ found, run.result = .ok found) ∧
    (∀ hash, run.result = .ok (some hash) → verifySubset co [] (lit "baseline") = .ok (some true) ∧
      ∃ r ∈ receipts, r.hash = hash ∧ r.parentReceipts = [] ∧
        verifySubset co [r] (lit "confirm") = .ok (some false) ∧
        VerifiedAs co [r] (lit "confirm") false) ∧
    (∀ r ∈ receipts, (∀ token, verifySubset co [r] token = .ok (some false)) →
      (∀ hs token, Half receipts hs → DependencyClosed hs → r ∉ hs →
        verifySubset co hs token = .ok (some true)) →
      (∀ hs token, Half receipts hs → r ∈ hs → verifySubset co hs token = .ok (some false)) →
      run.result = .ok (some r.hash)) ∧
    ((∃ q ∈ run.state.queries, q.answer = .ok none) → run.result = .ok none) := by
  intro run
  obtain ⟨qs, es, res, hfinal, h⟩ := attributeFailure_run co receipts
  obtain ⟨hresult, hstate⟩ := Prod.mk.inj hfinal
  have hr : run.result = res := hresult
  have hq : run.state.queries = qs := congrArg Attribution.queries hstate
  rw [hr, hq]
  refine ⟨h.queries_le, h.returns, ?_, ?_, h.unknown⟩
  · intro hash hres
    obtain ⟨hb, r, hmem, rfl, hroot, hc⟩ := h.root horder hres
    exact ⟨hb, r, hmem, rfl, hroot, hc, (verifySubset_some co hc).2⟩
  · intro r hmem halone hpasses hfails
    exact h.finds ⟨hmem, horder, hpasses, hfails⟩ halone

end Model

section Concrete

attribute [local instance] wholeFloats

/-- A checkout whose verifier fails as soon as a receipt is applied. -/
def failingCheckout : Checkout where
  sources := overlapSources
  worktree := fun _ => .ok ()
  verify := fun _ receipts _ =>
    .ok [⟨if receipts = [] then lit "pass" else lit "fail", some 1, lit "exit"⟩]
  removeWorktree := fun _ => .ok ()

/-- Two receipts in order. -/
theorem failure_attributed_sample :
    let run := attributeFailure failingCheckout [leftReceipt, rightReceipt] ⟨[], []⟩
    run.state.queries.length ≤ 4 ∧
      ((∃ q ∈ run.state.queries, q.answer = .ok none) → run.result = .ok none) := by
  obtain ⟨hqueries, -, -, -, hunknown⟩ :=
    failure_attributed failingCheckout [leftReceipt, rightReceipt] overlap_inOrder
  exact ⟨hqueries, hunknown⟩

end Concrete

end ResidualHarness.Factory
