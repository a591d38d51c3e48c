import ResidualHarness.Cic.Prepare
import ResidualHarness.Engine.Result

/-!
# Runs

`Harness.run`: the compilation of a structural task, if the mode asks for it, and the run of what it
gives.
-/

set_option autoImplicit false

namespace ResidualHarness.Engine

open Python Core

variable [FloatModel] {ω : Type}

/-- `Harness`. -/
structure Harness (ω : Type) where
  registry : Registry ω
  worker : Option (Provider ω)
  expert : Option (Provider ω)
  limits : Limits
  mode : Mode
  env : Env ω
  compiler : Cic.Compiler

/-- The modes that compile. -/
def Mode.compiles (m : Mode) : Bool := decide (m = .structural ∨ m = .cic)

/-- What a run of the task works on. -/
def Harness.setup (k : Harness ω) (task : Task) : Except PyExn (Setup ω) :=
  if k.mode.compiles then do
    let (task, registry, structural) ← Cic.prepare k.compiler task k.registry
      (decide (k.mode = .cic)) k.limits.maxStructuralNodes
    return ⟨task, registry, k.worker, k.expert, k.limits, k.mode, some structural, k.env⟩
  else .ok ⟨task, k.registry, k.worker, k.expert, k.limits, k.mode, none, k.env⟩

/-- `Harness.run(task)`, from the initial state. -/
def Harness.run (k : Harness ω) (task : Task) : Run ω Fields := do
  let started ← k.env.now
  if k.mode.compiles then do
    let analysisStarted ← k.env.now
    let h ← Prog.eval (k.setup task)
    let analysisEnded ← k.env.now
    h.main started (k.env.elapsedMs analysisStarted analysisEnded)
  else do
    let h ← Prog.eval (k.setup task)
    h.main started k.env.zeroMs

end ResidualHarness.Engine
