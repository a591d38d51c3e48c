import ResidualHarness.AiProviders.Core

/-!
# Bounded failover

`Router` of `ai_providers/router.py`. `chat` is a loop over the candidates and `stream` a generator:
a state that each `next` and `close` of the consumer takes on. Both record what is dispatched,
delivered and receipted in order; the response of a stream that has ended is built outside the
`try`.
-/

set_option autoImplicit false

namespace ResidualHarness.AiProviders

open Python Core

variable [FloatModel]

/-! ## Attempts -/

/-- The fields of a receipt that are known when an attempt begins. -/
structure Meta where
  requestId : Str
  attempt : Nat
  provider : Str
  model : Str
  requestBytes : Option Nat

/-- `status` of a receipt. -/
inductive Status where
  | failed
  | completed
deriving DecidableEq

/-- A receipt. -/
structure Receipt where
  begun : Meta
  elapsedMs : Int
  status : Status
  usage : Fields
  finishReason : Option Str
  error : Option ProviderError

/-- What `provider.chat` does. -/
inductive Answer where
  | response (response : ChatResponse)
  | value
  | raised (error : Raised)

/-- What the next read of `provider.stream` does; a value that is not a chunk raises where its fields
are read. -/
inductive Yielded where
  | chunk (chunk : StreamChunk)
  | value (error : Raised)
  | raised (error : Raised)
  | stop

/-- What a call meets: its id, the time that each attempt takes, and what the provider of each attempt
does, read by read for a stream. -/
structure Call where
  requestId : Str
  elapsed : Nat → Int
  chat : Nat → Answer
  stream : Nat → Nat → Yielded

/-- `Router`: `registry.get` and the default. -/
structure Router where
  registry : Str → Except Raised Provider
  defaultProvider : ProviderName

/-- An attempt that was begun. -/
structure Attempt where
  provider : Provider
  routed : ChatRequest
  begun : Meta

/-- What a call does that its surroundings see. A result has `ended` when it was handed over in full:
the response was returned, or the consumer was told that the stream has ended. -/
inductive Event where
  | dispatched (attempt : Nat) (candidate : Str) (routed : ChatRequest)
  | delivered (attempt : Nat) (chunk : StreamChunk)
  | receipt (receipt : Receipt)
  | ended (attempt : Nat)

/-- `_candidates(model, failover)`. -/
def candidatesOf (model : Str) (failover : Option (List Str)) : Except Raised (List Str) :=
  let candidates := model :: failover.getD []
  if 5 < candidates.length ∨ ¬ candidates.Nodup then
    .error (.provider (routerError .invalidRequest))
  else .ok candidates

/-- `request_bytes`: the length of the body, where the provider can tell. -/
def requestBytes (provider : Provider) (routed : ChatRequest) (stream : Bool) :
    Except Raised (Option Nat) :=
  match provider.wireBytes with
  | some wireBytes => (wireBytes routed stream).map fun body => some body.length
  | none => .ok none

namespace Router

/-- `_begin(candidate, req, request_id, index, stream)`; the hook returns. -/
def begin (router : Router) (call : Call) (candidate : Str) (req : ChatRequest) (index : Nat)
    (stream : Bool) : Except Raised Attempt := do
  let ref ← (ModelRef.parse candidate).mapError .provider
  let name := if ref.provider = lit "default" then router.defaultProvider.value else ref.provider
  let provider ← router.registry name
  let routed ← req.withModel ref.model
  let bytes ← requestBytes provider routed stream
  return ⟨provider, routed, ⟨call.requestId, index, name, ref.model, bytes⟩⟩

/-- The error of a `ProviderError` or of another exception. -/
def errorOf (provider : Provider) : Raised → ProviderError
  | .provider error => error
  | .other _ => providerError provider.name .invalidResponse

/-- `_end(meta, tags, start, error=error)`. -/
def endFailed (call : Call) (begun : Meta) (error : ProviderError) : Event :=
  .receipt ⟨begun, call.elapsed begun.attempt, .failed, [], none, some error⟩

/-- `_end(meta, tags, start, resp=response)`. -/
def endCompleted (call : Call) (begun : Meta) (response : ChatResponse) : Event :=
  .receipt ⟨begun, call.elapsed begun.attempt, .completed, response.usage,
    some response.finishReason, none⟩

/-- `raise last or ProviderError(code='exhausted')`. -/
def exhausted (last : Option ProviderError) : Raised := .provider (last.getD (routerError .exhausted))

/-- The loop of `chat`. -/
def chatFrom (router : Router) (call : Call) (req : ChatRequest) :
    Nat → List Str → Option ProviderError → List Event × Except Raised ChatResponse
  | _, [], last => ([], .error (exhausted last))
  | index, candidate :: rest, _ =>
      match router.begin call candidate req index false with
      | .error e => ([], .error e)
      | .ok a =>
          let dispatched := Event.dispatched index candidate a.routed
          let fail (error : ProviderError) :=
            let after :=
              if error.retryable = true then router.chatFrom call req (index + 1) rest (some error)
              else ([], .error (.provider error))
            (dispatched :: endFailed call a.begun error :: after.1, after.2)
          match call.chat index with
          | .response response =>
              ([dispatched, endCompleted call a.begun response, .ended index], .ok response)
          | .value => fail (providerError a.provider.name .invalidResponse)
          | .raised e => fail (errorOf a.provider e)

/-- `chat(model, req, failover)`. -/
def chat (router : Router) (call : Call) (model : Str) (req : ChatRequest)
    (failover : Option (List Str)) : List Event × Except Raised ChatResponse :=
  match candidatesOf model failover with
  | .error e => ([], .error e)
  | .ok candidates => router.chatFrom call req 1 candidates none

end Router

/-! ## The generator of `stream` -/

/-- `usage` and `reason`: what a stream has reported. -/
structure Report where
  usage : Fields
  reason : Str

/-- What a stream has reported before its first chunk. -/
def Report.none : Report := ⟨[], lit "unknown"⟩

/-- `usage.update(other)`. -/
def update (usage other : Fields) : Fields := other.foldl (fun d kv => Dict.set d kv.1 kv.2) usage

/-- The report with that of a chunk. -/
def Report.push (report : Report) (chunk : StreamChunk) : Report where
  usage := update report.usage chunk.usage
  reason :=
    match chunk.finishReason with
    | some (c :: cs) => c :: cs
    | _ => report.reason

/-- A stream that is being read: the candidates after its own, and what was read of it. -/
structure Reading where
  index : Nat
  rest : List Str
  attempt : Attempt
  count : Nat
  report : Report

/-- The generator: not started, suspended at its `yield`, or finished. -/
inductive Generator where
  | fresh
  | suspended (reading : Reading)
  | finished

/-- What the consumer is answered. -/
inductive Reply where
  | yielded (chunk : StreamChunk)
  | stopped
  | raised (error : Raised)
  | closed

/-- What the consumer does. -/
inductive Demand where
  | next
  | close

/-- The generator after a step, what happened in it, and the answer. -/
structure Resumed where
  generator : Generator
  events : List Event
  reply : Reply

/-- The reading after a chunk. -/
def Reading.push (reading : Reading) (chunk : StreamChunk) : Reading :=
  { reading with count := reading.count + 1, report := reading.report.push chunk }

namespace Router

/-- The handler of an exception: another candidate is tried only where nothing was read. -/
def caught (call : Call) (reading : Reading) (emitted : Bool) (retry : ProviderError → Resumed)
    (e : Raised) : Resumed :=
  let error := errorOf reading.attempt.provider e
  let after :=
    if error.retryable = true ∧ emitted = false then retry error
    else ⟨.finished, [], .raised (.provider error)⟩
  { after with events := endFailed call reading.attempt.begun error :: after.events }

/-- The body of the loop of `stream`, from a read of the provider to the next `yield`. -/
def read (call : Call) (reading : Reading) (retry : ProviderError → Resumed) : Resumed :=
  match call.stream reading.index reading.count with
  | .chunk chunk =>
      ⟨.suspended (reading.push chunk), [.delivered reading.index chunk], .yielded chunk⟩
  | .value e => caught call reading true retry e
  | .raised e => caught call reading (decide (0 < reading.count)) retry e
  | .stop =>
      match ChatResponse.new reading.attempt.routed.model [] reading.report.reason
          reading.report.usage with
      | .error e => ⟨.finished, [], .raised e⟩
      | .ok response =>
          ⟨.finished, [endCompleted call reading.attempt.begun response, .ended reading.index], .stopped⟩

/-- The reading of an attempt that was begun. -/
def startReading (index : Nat) (rest : List Str) (a : Attempt) : Reading :=
  ⟨index, rest, a, 0, .none⟩

/-- The loop of `stream` over the candidates. -/
def streamFrom (router : Router) (call : Call) (req : ChatRequest) :
    Nat → List Str → Option ProviderError → Resumed
  | _, [], last => ⟨.finished, [], .raised (exhausted last)⟩
  | index, candidate :: rest, _ =>
      match router.begin call candidate req index true with
      | .error e => ⟨.finished, [], .raised e⟩
      | .ok a =>
          let after := read call (startReading index rest a) fun error =>
            router.streamFrom call req (index + 1) rest (some error)
          { after with events := .dispatched index candidate a.routed :: after.events }

/-- A step of `stream(model, req, failover)`. -/
def resume (router : Router) (call : Call) (model : Str) (req : ChatRequest)
    (failover : Option (List Str)) : Generator → Demand → Resumed
  | .fresh, .next =>
      match candidatesOf model failover with
      | .error e => ⟨.finished, [], .raised e⟩
      | .ok candidates => router.streamFrom call req 1 candidates none
  | .suspended reading, .next =>
      read call reading fun error =>
        router.streamFrom call req (reading.index + 1) reading.rest (some error)
  | .suspended reading, .close =>
      ⟨.finished, [endFailed call reading.attempt.begun
        (providerError reading.attempt.provider.name .streamIncomplete)], .closed⟩
  | .finished, .next => ⟨.finished, [], .stopped⟩
  | .fresh, .close => ⟨.finished, [], .closed⟩
  | .finished, .close => ⟨.finished, [], .closed⟩

/-- The generator and the events so far, after one more step of the consumer. -/
def drive (router : Router) (call : Call) (model : Str) (req : ChatRequest)
    (failover : Option (List Str)) (sofar : Generator × List Event) (demand : Demand) :
    Generator × List Event :=
  let after := router.resume call model req failover sofar.1 demand
  (after.generator, sofar.2 ++ after.events)

/-- The generator and the events after the consumer's steps. -/
def stream (router : Router) (call : Call) (model : Str) (req : ChatRequest)
    (failover : Option (List Str)) (demands : List Demand) : Generator × List Event :=
  demands.foldl (router.drive call model req failover) (.fresh, [])

end Router

end ResidualHarness.AiProviders
