import ResidualHarness.Core.Task

/-!
# Providers

The provider interface of `residual/providers.py`: token usage, replies, prices and the provider
itself. `generate` is a function of a hidden world, so that a provider may answer anything at every
call; `wire_size` is a function of the packet. A reply's constructor checks nothing, so its text,
its time and its finish reason are any Python values.
-/

set_option autoImplicit false

namespace ResidualHarness.Engine

open Python Core

/-- Where a provider runs. -/
inductive Placement where
  | onHost
  | remote
deriving DecidableEq, Repr

/-- The text of a placement. -/
def Placement.text : Placement → Str
  | .onHost => lit "local"
  | .remote => lit "remote"

/-- The role of a call. -/
inductive Role where
  | worker
  | expert
deriving DecidableEq, Repr

/-- The text of a role. -/
def Role.text : Role → Str
  | .worker => lit "local"
  | .expert => lit "expert"

/-- The sources of a usage. -/
inductive UsageSource where
  | reported
  | estimated
  | unavailable
  | simulation
deriving DecidableEq, Repr

/-- The text of a usage source. -/
def UsageSource.text : UsageSource → Str
  | .reported => lit "reported"
  | .estimated => lit "estimated"
  | .unavailable => lit "unavailable"
  | .simulation => lit "simulation"

/-- `Usage`. -/
structure Usage where
  inputTokens : Option Nat
  outputTokens : Option Nat
  cachedInputTokens : Option Nat
  source : UsageSource
  cacheWriteInputTokens : Option Nat
  cached_le : ∀ c ∈ cachedInputTokens, ∀ i ∈ inputTokens, c ≤ i

variable [FloatModel]

/-- A number or `None`. -/
def optionalNat : Option Nat → Json
  | some n => .int n
  | none => .null

/-- `asdict(usage)`. -/
def Usage.asDict (u : Usage) : Json :=
  .obj [(lit "input_tokens", optionalNat u.inputTokens),
    (lit "output_tokens", optionalNat u.outputTokens),
    (lit "cached_input_tokens", optionalNat u.cachedInputTokens),
    (lit "source", .str u.source.text),
    (lit "cache_write_input_tokens", optionalNat u.cacheWriteInputTokens)]

/-- `Reply`. -/
structure Reply where
  text : Value
  usage : Usage
  elapsedMs : Value
  finishReason : Value
  wf : elapsedMs.wf = true ∧ finishReason.wf = true

/-- `Prices`: whether there is a price for cached input, and the float arithmetic of the bill of
input, cached and output tokens, which may overflow. -/
structure Prices where
  hasCachedPrice : Bool
  bill : Nat → Nat → Nat → Option FloatModel.F

/-- `prices.cost(usage)`. -/
def Prices.cost (p : Prices) (u : Usage) : Except PyExn (Option FloatModel.F) :=
  match u.inputTokens, u.outputTokens with
  | some input, some output =>
      if u.source ≠ .reported then .ok none
      else if p.hasCachedPrice && u.cachedInputTokens.isNone then .ok none
      else if u.cacheWriteInputTokens.getD 0 ≠ 0 then .ok none
      else
        match p.bill input (u.cachedInputTokens.getD 0) output with
        | some cost => .ok (some cost)
        | none => .error .overflowError
  | _, _ => .ok none

/-- How a call of `generate` ends: with a reply, another value, a `ProviderError` with its text, or
another exception. -/
inductive GenerateReturn where
  | reply (r : Reply)
  | other
  | providerError (text : Str)
  | raised

/-- `Provider`. -/
structure Provider (ω : Type) where
  name : Str
  placement : Placement
  prices : Option Prices
  wireSize : Json → Nat → Option Int
  generate : ω → Json → Nat → GenerateReturn × ω

/-- The characters of a provider's error code. -/
def isCodeChar (c : CodePoint) : Bool :=
  decide (0x61 ≤ c.val ∧ c.val ≤ 0x7A) || isDigit c || decide (c = 0x5F)

/-- The code that is recorded for a failed call. -/
def errorCode (code : Str) : Str :=
  if code.length > 100 ∨ code.any (fun c => !isCodeChar c) = true then lit "provider_error" else code

end ResidualHarness.Engine
