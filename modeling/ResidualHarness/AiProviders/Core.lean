import ResidualHarness.Loop.Goal

/-!
# Provider-agnostic types

`ai_providers/core.py`, `ai_providers/registry.py` and `ModelRef` of `ai_providers/router.py`. A request
and a response are built only by their checks; the chunks of a stream are not checked.
-/

set_option autoImplicit false

namespace ResidualHarness.AiProviders

open Python Core Loop

/-! ## Names and errors -/

/-- `ProviderName`. -/
inductive ProviderName where
  | openai
  | openaiCompatible
  | anthropic
  | google
  | azure
  | bedrock
  | ollama
  | router
deriving DecidableEq

/-- The text of a name. -/
def ProviderName.value : ProviderName → Str
  | .openai => lit "openai"
  | .openaiCompatible => lit "openai_compatible"
  | .anthropic => lit "anthropic"
  | .google => lit "google"
  | .azure => lit "azure"
  | .bedrock => lit "bedrock"
  | .ollama => lit "ollama"
  | .router => lit "router"

/-- All names. -/
def ProviderName.all : List ProviderName :=
  [.openai, .openaiCompatible, .anthropic, .google, .azure, .bedrock, .ollama, .router]

/-- `ProviderName(value)`. -/
def ProviderName.ofValue? (s : Str) : Option ProviderName :=
  ProviderName.all.find? fun name => decide (name.value = s)

theorem ProviderName.ofValue?_value (name : ProviderName) : ofValue? name.value = some name := by
  cases name <;> decide

/-- `ErrorCode`. -/
inductive ErrorCode where
  | authentication
  | rateLimit
  | modelNotFound
  | serverError
  | httpError
  | connection
  | timeout
  | config
  | invalidRequest
  | invalidResponse
  | responseTooLarge
  | redirectRefused
  | notImplemented
  | unknownProvider
  | exhausted
  | streamIncomplete
  | contentFilter
deriving DecidableEq

section

variable [FloatModel]

/-- `ProviderError`, with what `to_dict()` reports of it. -/
structure ProviderError where
  provider : ProviderName
  code : ErrorCode
  retryable : Bool
  status : Option Int
  retryAfter : Option FloatModel.F

/-- `ProviderError(provider=name, code=code)`: an unknown name is the router's. -/
def providerError (name : Str) (code : ErrorCode) : ProviderError :=
  ⟨(ProviderName.ofValue? name).getD .router, code, false, none, none⟩

/-- `ProviderError(code=code)`. -/
def routerError (code : ErrorCode) : ProviderError := ⟨.router, code, false, none, none⟩

/-- An `Exception`. -/
inductive Raised where
  | provider (error : ProviderError)
  | other (error : PyExn)

/-! ## Requests and responses -/

/-- `Role`. -/
inductive Role where
  | system
  | user
  | assistant
  | tool
deriving DecidableEq

/-- `ToolCall`. -/
structure ToolCall where
  id : Str
  name : Str
  arguments : Str

/-- `Message`. -/
structure Message where
  role : Role
  content : Str
  name : Option Str
  toolCallId : Option Str
  metadata : Fields
  toolCalls : List ToolCall
  tool_result : role = .tool → ∃ id, toolCallId = some id ∧ id ≠ []

/-- A message of the system or the user. -/
def Message.text (role : Role) (h : role ≠ .tool) (content : Str) : Message :=
  ⟨role, content, none, none, [], [], fun ht => absurd ht h⟩

/-- `ToolSpec`. -/
structure ToolSpec where
  name : Str
  description : Str
  parameters : Fields

/-- `ChatRequest`. -/
structure ChatRequest where
  model : Str
  messages : List Message
  tools : List ToolSpec
  temperature : Option Loop.Number
  maxTokens : Option Int
  stop : Option (List Str)
  seed : Option Int
  extra : Fields
  responseSchema : Option Fields
  model_length : model.length ≤ 500
  messages_given : messages ≠ []
  tokens_bounded : ∀ n, maxTokens = some n → 1 ≤ n ∧ n ≤ 1000000
  temperature_bounded : ∀ t, temperature = some t → t.isFinite = true ∧ 0 ≤ t.value ∧ t.value ≤ 2
  extra_dumpable : (Json.obj extra).dumpable = true

/-- `replace(req, model=model)`. -/
def ChatRequest.withModel (req : ChatRequest) (model : Str) : Except Raised ChatRequest :=
  if h : model.length ≤ 500 then .ok { req with model := model, model_length := h }
  else .error (.other (.valueError "Invalid model"))

theorem ChatRequest.withModel_self (req : ChatRequest) : req.withModel req.model = .ok req :=
  dif_pos req.model_length

/-- The finish reasons that a response can have. -/
def isFinishReason (s : Str) : Bool :=
  decide (s ∈ [lit "stop", lit "length", lit "tool_calls", lit "content_filter", lit "error",
    lit "unknown"])

/-- `type(value) is int and value >= 0`. -/
def isCounter : Json → Bool
  | .int n => decide (0 ≤ n)
  | _ => false

/-- What the last check of a response is about: its finish reason and its counters. -/
def isReported (finishReason : Str) (usage : Fields) : Bool :=
  isFinishReason finishReason && usage.all fun kv => isCounter kv.2

/-- `ChatResponse`. -/
structure ChatResponse where
  model : Str
  content : Str
  toolCalls : List ToolCall
  finishReason : Str
  usage : Fields
  reported : isReported finishReason usage = true

/-- `ChatResponse(model, content, finish_reason=finishReason, usage=usage)`. -/
def ChatResponse.new (model content finishReason : Str) (usage : Fields) :
    Except Raised ChatResponse :=
  if h : isReported finishReason usage = true then .ok ⟨model, content, [], finishReason, usage, h⟩
  else if isFinishReason finishReason = true then .error (.other (.valueError "Invalid token counter"))
  else .error (.other (.valueError "Unknown finish reason"))

theorem ChatResponse.new_refused (model content : Str) {finishReason : Str} {usage : Fields}
    (h : isReported finishReason usage ≠ true) :
    ∃ e, ChatResponse.new model content finishReason usage = .error e := by
  rw [ChatResponse.new, dif_neg h]
  split
  · exact ⟨_, rfl⟩
  · exact ⟨_, rfl⟩

/-- `StreamChunk`. -/
structure StreamChunk where
  content : Option Str
  toolCall : Option ToolCall
  finishReason : Option Str
  usage : Fields

/-! ## Model references -/

/-- `:`. -/
def colon : CodePoint := 0x3A

/-- `s.split(':', 1)` of a string that has a colon. -/
def splitColon : Str → Option (Str × Str)
  | [] => none
  | c :: s => if c = colon then some ([], s) else (splitColon s).map fun pm => (c :: pm.1, pm.2)

omit [FloatModel] in
theorem splitColon_append {p : Str} (hp : colon ∉ p) (m : Str) :
    splitColon (p ++ colon :: m) = some (p, m) := by
  induction p with
  | nil => simp [splitColon]
  | cons c p ih =>
      rw [List.mem_cons, not_or] at hp
      rw [List.cons_append, splitColon, if_neg (Ne.symm hp.1), ih hp.2]
      rfl

/-- `ModelRef`. -/
structure ModelRef where
  provider : Str
  model : Str

/-- `ModelRef.parse(s)`. -/
def ModelRef.parse (s : Str) : Except ProviderError ModelRef :=
  if s = [] ∨ 600 < s.length then .error (routerError .invalidRequest)
  else
    match splitColon s with
    | some (p, m) =>
        if ProviderName.ofValue? p = none ∨ m = [] then .error (routerError .unknownProvider)
        else .ok ⟨p, m⟩
    | none => .ok ⟨lit "default", s⟩

/-- A name and a model that are joined are split again, whatever the model contains. -/
theorem ModelRef.parse_joined (name : ProviderName) {model : Str} (hne : model ≠ [])
    (hlength : model.length ≤ 500) :
    ModelRef.parse (name.value ++ colon :: model) = .ok ⟨name.value, model⟩ := by
  have hname : name.value.length ≤ 17 ∧ colon ∉ name.value := by
    cases name <;> decide
  have hbound : ¬ (name.value ++ colon :: model = [] ∨
      600 < (name.value ++ colon :: model).length) := by
    simp only [List.append_eq_nil_iff, List.length_append, List.length_cons]
    rintro (⟨-, ⟨⟩⟩ | h)
    omega
  rw [parse, if_neg hbound, splitColon_append hname.2]
  simp [ProviderName.ofValue?_value, hne]

/-! ## Providers -/

/-- A provider, as the router uses it. -/
structure Provider where
  name : Str
  wireBytes : Option (ChatRequest → Bool → Except Raised (List Nat))

/-- `Registry.get(name)`, where the factories return these instances. -/
def registryGet (factories : Dict Str (Except Raised Provider)) (name : Str) :
    Except Raised Provider :=
  match factories.get? name with
  | none => .error (.provider (routerError .unknownProvider))
  | some (.error (.provider error)) => .error (.provider error)
  | some (.error (.other _)) => .error (.provider (providerError name .config))
  | some (.ok instance_) =>
      if instance_.name = name then .ok instance_ else .error (.provider (providerError name .config))

end

end ResidualHarness.AiProviders
