import ResidualHarness.AiProviders.Streams
import ResidualHarness.Python.WholeFloats

/-!
# The bridge to the runner

`HTTPAdapter` of `ai_providers/adapters/_http.py`, with what its subclasses define left to them, and
`normalize_profile` and `ModularProvider` of `residual/modular.py`: the name of the provider and the
model are joined for the router, which splits them again, so that the body that is sent is the one
that was measured.
-/

set_option autoImplicit false

namespace ResidualHarness.AiProviders

open Python Core

section

variable [FloatModel]

/-! ## Adapters -/

/-- `encode(body)`. -/
def encode (body : Json) : Except Raised (List Nat) :=
  (do utf8 (← canonical body)).mapError .other

/-- An `HTTPAdapter`: what its class defines, and the signature of one that signs its requests. -/
structure HTTPAdapter where
  name : Str
  buildBody : ChatRequest → Bool → Except Raised Json
  requestUrl : ChatRequest → Bool → Except Raised Str
  sign : Option (Str → List Nat → Except Raised Unit)

/-- `wire_bytes(req, stream)`. -/
def HTTPAdapter.wireBytes (a : HTTPAdapter) (req : ChatRequest) (stream : Bool) :
    Except Raised (List Nat) := do
  require (req.model ≠ []) (.provider (providerError a.name .invalidRequest))
  encode (← a.buildBody req stream)

/-- The data of the request that `chat(req)` opens; one that is signed has its body first. -/
def HTTPAdapter.posted (a : HTTPAdapter) (req : ChatRequest) : Except Raised (List Nat) :=
  match a.sign with
  | none => do
      let _ ← a.requestUrl req false
      a.wireBytes req false
  | some sign => do
      let body ← a.wireBytes req false
      let url ← a.requestUrl req false
      sign url body
      return body

/-- The adapter as the router sees it. -/
def HTTPAdapter.provider (a : HTTPAdapter) : Provider := ⟨a.name, some a.wireBytes⟩

theorem HTTPAdapter.posted_eq {a : HTTPAdapter} {req : ChatRequest} {data : List Nat}
    (h : a.posted req = .ok data) : a.wireBytes req false = .ok data := by
  unfold posted at h
  split at h
  · obtain ⟨_, -, h⟩ := bind_eq_ok.1 h
    exact h
  · obtain ⟨body, hbody, h⟩ := bind_eq_ok.1 h
    obtain ⟨url, -, h⟩ := bind_eq_ok.1 h
    obtain ⟨_, -, h⟩ := bind_eq_ok.1 h
    cases Except.ok.inj h
    exact hbody

/-! ## Profiles -/

/-- A normalized profile. -/
structure Profile where
  kind : ProviderName
  model : Str
  baseUrl : Str
  placement : Str
  outputTokenField : Str
  region : Json
  apiVersion : Json

/-- What profiles are checked with: `validate_url(url, kind, local=local)`, if it accepts, and the pattern
of a region. -/
structure Endpoints where
  validateUrl : Json → ProviderName → Bool → Option Str
  isRegion : Str → Bool

/-- The default URL of a kind. -/
def defaultUrl : ProviderName → Str
  | .ollama => lit "http://127.0.0.1:11434"
  | .openai => lit "https://api.openai.com/v1"
  | .anthropic => lit "https://api.anthropic.com"
  | .google => lit "https://generativelanguage.googleapis.com/v1beta"
  | _ => []

/-- `value or default`. -/
def orElse (value : Option Json) (default : Json) : Json :=
  match value with
  | some v => if v.truthy = true then v else default
  | none => default

/-- `profile['kind']`, where it is a key of `PROVIDERS`. -/
def kindOf (profile : Fields) : Except PyExn ProviderName :=
  let unsupported := contractError "Choose a supported provider"
  match Fields.get? profile (lit "kind") with
  | some (.str s) =>
      match ProviderName.ofValue? s with
      | some .router => .error unsupported
      | some kind => .ok kind
      | none => .error unsupported
  | some v => if v.hashable = true then .error unsupported else .error .typeError
  | none => .error unsupported

/-- `profile.get('model', '')`, where it is a model name. -/
def modelOf (profile : Fields) : Except PyExn Str :=
  match (Fields.get? profile (lit "model")).getD (.str []) with
  | .str model =>
      if model ≠ [] ∧ model.length ≤ 500 ∧ ∀ c ∈ model, 32 ≤ c.val then .ok model
      else .error (contractError "Enter a model or deployment ID")
  | _ => .error (contractError "Enter a model or deployment ID")

/-- The URL before it is validated: that of a region for `bedrock`. -/
def baseOf (endpoints : Endpoints) (kind : ProviderName) (profile : Fields) (region : Json) :
    Except PyExn Json :=
  let base := orElse (Fields.get? profile (lit "base_url")) (.str (defaultUrl kind))
  if kind = .bedrock ∧ base.truthy = false then
    match region with
    | .str r =>
        if endpoints.isRegion r = true then
          .ok (.str (lit "https://bedrock-runtime." ++ r ++ lit ".amazonaws.com"))
        else .error (contractError "Enter a valid AWS region")
    | _ => .error .typeError
  else .ok base

/-- A model that Ollama runs in its cloud. -/
def isCloudModel (model : Str) : Bool :=
  decide (lit "-cloud" <:+ model ∨ lit ":cloud" <:+ model ∨ lit ":cloud-" <:+: model)

/-- `profile.get('output_token_field', 'max_completion_tokens')`, where it is one of the two. -/
def tokenFieldOf (profile : Fields) : Except PyExn Str :=
  match (Fields.get? profile (lit "output_token_field")).getD (.str (lit "max_completion_tokens")) with
  | .str s =>
      if s = lit "max_tokens" ∨ s = lit "max_completion_tokens" then .ok s
      else .error (contractError "Invalid output-limit field")
  | v =>
      if v.hashable = true then .error (contractError "Invalid output-limit field")
      else .error .typeError

/-- `normalize_profile(profile, placement)`. -/
def normalizeProfile (endpoints : Endpoints) (profile : Json) (placement : Str) :
    Except PyExn Profile :=
  match profile with
  | .obj d => do
      let kind ← kindOf d
      let model ← modelOf d
      let isLocal := decide (placement = lit "local")
      require (isLocal = true → kind = .ollama ∨ kind = .openaiCompatible)
        (contractError "Local routes require Ollama or a compatible loopback server")
      let region := orElse (Fields.get? d (lit "region")) (.str (lit "us-east-1"))
      let base ← baseOf endpoints kind d region
      let base ← (endpoints.validateUrl base kind isLocal).elim
        (.error (contractError "Local endpoints must use loopback; network endpoints require HTTPS without credentials or query parameters"))
        .ok
      require (¬ (isLocal = true ∧ kind = .ollama ∧ isCloudModel model = true))
        (contractError "Ollama cloud models belong in a cloud route")
      let cap ← tokenFieldOf d
      return ⟨kind, model, base, placement, cap, region,
        orElse (Fields.get? d (lit "api_version")) (.str (lit "2024-10-21"))⟩
  | _ => .error (contractError "Choose a supported provider")

theorem modelOf_ok {profile : Fields} {model : Str} (h : modelOf profile = .ok model) :
    model ≠ [] ∧ model.length ≤ 500 := by
  unfold modelOf at h
  split at h
  · split at h
    · rename_i hmodel
      cases h
      exact ⟨hmodel.1, hmodel.2.1⟩
    · cases h
  · cases h

theorem normalizeProfile_model {endpoints : Endpoints} {profile : Json} {placement : Str} {p : Profile}
    (h : normalizeProfile endpoints profile placement = .ok p) :
    p.model ≠ [] ∧ p.model.length ≤ 500 := by
  cases profile with
  | obj d =>
      obtain ⟨kind, -, h⟩ := bind_eq_ok.1 h
      obtain ⟨model, hmodel, h⟩ := bind_eq_ok.1 h
      obtain ⟨_, -, h⟩ := bind_eq_ok.1 h
      obtain ⟨base, -, h⟩ := bind_eq_ok.1 h
      obtain ⟨url, -, h⟩ := bind_eq_ok.1 h
      obtain ⟨_, -, h⟩ := bind_eq_ok.1 h
      obtain ⟨cap, -, h⟩ := bind_eq_ok.1 h
      cases Except.ok.inj h
      exact modelOf_ok hmodel
  | _ => cases h

/-! ## The provider of the runner -/

/-- `ModularProvider`: a normalized profile, and the adapter that `make_adapter` makes of its kind. -/
structure ModularProvider where
  profile : Profile
  system : Str
  schema : Fields
  adapter : HTTPAdapter
  normalized : ∃ endpoints raw placement, normalizeProfile endpoints raw placement = .ok profile
  adapter_name : adapter.name = profile.kind.value

namespace ModularProvider

/-- `request(packet, cap)`. -/
def request (m : ModularProvider) (packet : Json) (cap : Int) : Except Raised ChatRequest := do
  let text ← (canonical packet).mapError .other
  if h : m.profile.model.length ≤ 500 ∧ 1 ≤ cap ∧ cap ≤ 1000000 then
    return {
      model := m.profile.model
      messages := [.text .system nofun m.system, .text .user nofun text]
      tools := []
      temperature := none
      maxTokens := some cap
      stop := none
      seed := none
      extra := []
      responseSchema := some m.schema
      model_length := h.1
      messages_given := nofun
      tokens_bounded := fun _ hn => Option.some.inj hn ▸ h.2
      temperature_bounded := nofun
      extra_dumpable := rfl }
  else throw (.other (.valueError "Invalid output limit"))

/-- `wire_size(packet, max_output_tokens)`. -/
def wireSize (m : ModularProvider) (packet : Json) (cap : Int) : Except Raised Nat := do
  let body ← m.adapter.wireBytes (← m.request packet cap) false
  return body.length

/-- `self.router`. -/
def router (m : ModularProvider) : Router where
  registry := registryGet [(m.profile.kind.value, .ok m.adapter.provider)]
  defaultProvider := m.profile.kind

/-- The call of the router in `generate(packet, max_output_tokens)`. -/
def generate (m : ModularProvider) (call : Call) (packet : Json) (cap : Int) :
    List Event × Except Raised ChatResponse :=
  match m.request packet cap with
  | .error e => ([], .error e)
  | .ok req => m.router.chat call (m.profile.kind.value ++ colon :: m.profile.model) req none

/-- What is sent is what was measured, and what was measured is dispatched. -/
structure Sends (m : ModularProvider) (call : Call) (packet : Json) (cap : Int) : Prop where
  measured : ∀ i candidate routed, .dispatched i candidate routed ∈ (m.generate call packet cap).1 →
    ∃ body, m.wireSize packet cap = .ok body.length ∧ m.request packet cap = .ok routed ∧
      m.adapter.wireBytes routed false = .ok body ∧
      ∀ data, m.adapter.posted routed = .ok data → data = body
  dispatched : ∀ size, m.wireSize packet cap = .ok size → ∃ routed,
    .dispatched 1 (m.profile.kind.value ++ colon :: m.profile.model) routed ∈
      (m.generate call packet cap).1

theorem request_model {m : ModularProvider} {packet : Json} {cap : Int} {req : ChatRequest}
    (h : m.request packet cap = .ok req) : req.model = m.profile.model := by
  obtain ⟨text, -, h⟩ := bind_eq_ok.1 h
  split at h
  · cases Except.ok.inj h
    rfl
  · cases h

/-- The attempt begins with the request itself, when its body can be built. -/
theorem begin_eq (m : ModularProvider) (call : Call) {req : ChatRequest}
    (hreq : req.model = m.profile.model) (index : Nat) :
    m.router.begin call (m.profile.kind.value ++ colon :: m.profile.model) req index false =
      (m.adapter.wireBytes req false).map fun body => ⟨m.adapter.provider, req, ⟨call.requestId, index,
        m.profile.kind.value, m.profile.model, some body.length⟩⟩ := by
  obtain ⟨endpoints, raw, placement, hok⟩ := m.normalized
  obtain ⟨hne, hlength⟩ := normalizeProfile_model hok
  have hdefault : m.profile.kind.value ≠ lit "default" := by
    cases m.profile.kind <;> decide
  have hget : m.router.registry m.profile.kind.value = .ok m.adapter.provider := by
    simp [router, registryGet, Dict.get?, HTTPAdapter.provider, m.adapter_name]
  have hrouted := req.withModel_self
  rw [hreq] at hrouted
  unfold Router.begin
  rw [ModelRef.parse_joined m.profile.kind hne hlength]
  simp only [Except.mapError, if_neg hdefault, bind, Except.bind, hget, hrouted, requestBytes,
    HTTPAdapter.provider]
  cases m.adapter.wireBytes req false <;> rfl

theorem sends (m : ModularProvider) (call : Call) (packet : Json) (cap : Int) :
    m.Sends call packet cap := by
  cases hrequest : m.request packet cap with
  | error e =>
      refine ⟨fun i candidate routed h => ?_, fun size h => ?_⟩
      · rw [generate, hrequest] at h
        cases h
      · rw [wireSize, hrequest] at h
        cases h
  | ok req =>
      have hbegin := m.begin_eq call (request_model hrequest) 1
      have hchat : m.generate call packet cap = m.router.chatFrom call req 1
          [m.profile.kind.value ++ colon :: m.profile.model] none := by
        rw [generate, hrequest]
        rfl
      have hsize : m.wireSize packet cap = (m.adapter.wireBytes req false).map List.length := by
        rw [wireSize, hrequest]
        simp only [bind, Except.bind]
        cases m.adapter.wireBytes req false <;> rfl
      cases hbody : m.adapter.wireBytes req false with
      | error e =>
          rw [hbody] at hbegin hsize
          have hnone : (m.generate call packet cap).1 = [] := by
            rw [hchat, Router.chatFrom, hbegin]
            rfl
          refine ⟨fun i candidate routed h => ?_, fun size h => ?_⟩
          · rw [hnone] at h
            cases h
          · rw [hsize] at h
            cases h
      | ok body =>
          rw [hbody] at hbegin hsize
          have hevents : ∃ tail, (m.generate call packet cap).1 = .dispatched 1
              (m.profile.kind.value ++ colon :: m.profile.model) req :: tail ∧
                ∀ i candidate routed, .dispatched i candidate routed ∉ tail := by
            rw [hchat, Router.chatFrom, hbegin]
            simp only [Except.map]
            cases call.chat 1 with
            | response response =>
                exact ⟨_, rfl, by simp [Router.endCompleted]⟩
            | value =>
                refine ⟨_, rfl, ?_⟩
                split <;> simp [Router.endFailed, Router.chatFrom]
            | raised e =>
                refine ⟨_, rfl, ?_⟩
                split <;> simp [Router.endFailed, Router.chatFrom]
          obtain ⟨tail, htail, hnot⟩ := hevents
          refine ⟨fun i candidate routed h => ?_, fun size _ => ⟨req, ?_⟩⟩
          · rw [htail] at h
            rcases List.mem_cons.1 h with h | h
            · cases h
              refine ⟨body, hsize, hrequest, hbody, fun data hdata => ?_⟩
              have := HTTPAdapter.posted_eq hdata
              rw [hbody] at this
              exact (Except.ok.inj this).symm
            · exact absurd h (hnot i candidate routed)
          · rw [htail]
            exact List.mem_cons_self

end ModularProvider

/-! ## What the router promises -/

/-- What is promised of a call, of a stream whatever its consumer does, and of the bodies of the bridge. -/
structure Routed (router : Router) (call : Call) (model : Str) (req : ChatRequest)
    (failover : Option (List Str)) : Prop where
  chat : Attempts model failover True (router.chat call model req failover).1 ∧
    Answered call (router.chat call model req failover).2 (router.chat call model req failover).1 ∧
      Handed (router.chat call model req failover).2 (router.chat call model req failover).1
  stream : ∀ demands,
    Attempts model failover ((router.stream call model req failover demands).1 = .finished)
      (router.stream call model req failover demands).2 ∧
        Whole call (router.stream call model req failover demands).2
  modular : ∀ (m : ModularProvider) packet cap, m.Sends call packet cap

theorem chat_attempts (router : Router) (call : Call) (model : Str) (req : ChatRequest)
    (failover : Option (List Str)) :
    Attempts model failover True (router.chat call model req failover).1 ∧
      Answered call (router.chat call model req failover).2 (router.chat call model req failover).1 ∧
        Handed (router.chat call model req failover).2 (router.chat call model req failover).1 := by
  unfold Router.chat
  cases hc : candidatesOf model failover with
  | error e => exact ⟨attempts_nil _ _ _, nofun, nofun⟩
  | ok candidates =>
      obtain ⟨hreceipted, hanswered⟩ := chatFrom_receipted router candidates 1 none
      exact ⟨attempts_of_receipted hc hreceipted, hanswered⟩

theorem attempts_receipted (router : Router) (call : Call) (model : Str) (req : ChatRequest)
    (failover : Option (List Str)) : Routed router call model req failover ↔
      ∀ candidates, candidatesOf model failover = .ok candidates →
        router.Reportable call req 1 candidates := by
  refine ⟨fun h candidates hc => ?_, fun h => ?_⟩
  · refine reportable_of_reached candidates 1 fun trace index candidate rest a hprior hbegin => ?_
    intro chunks hends
    by_contra hrefused
    obtain ⟨demands, hover, hne⟩ := refused_unreceipted hc hprior hbegin hends hrefused
    exact hne ((h.stream demands).1.receipted.settled hover)
  · exact ⟨chat_attempts router call model req failover,
      fun demands => (stream_kept h demands).attempts, fun m packet cap => m.sends call packet cap⟩

end

section Concrete

attribute [local instance] wholeFloats

/-- A request. -/
def hello : ChatRequest where
  model := lit "m"
  messages := [.text .user nofun (lit "hi")]
  tools := []
  temperature := none
  maxTokens := none
  stop := none
  seed := none
  extra := []
  responseSchema := none
  model_length := by decide
  messages_given := nofun
  tokens_bounded := nofun
  temperature_bounded := nofun
  extra_dumpable := rfl

/-- A router with one provider. -/
def single : Router := ⟨fun _ => .ok ⟨lit "openai", none⟩, .openai⟩

/-- A stream of one chunk, whose finish reason is not one of a response. -/
def unknownReason : Call where
  requestId := lit "r"
  elapsed := fun _ => 0
  chat := fun _ => .value
  stream := fun _ k => if k = 0 then .chunk ⟨none, none, some (lit "done"), []⟩ else .stop

/-- The stream is delivered, and its attempt has no receipt. -/
theorem stream_unreceipted : ¬ Routed single unknownReason (lit "m") hello none := by
  intro h
  have hsettled := (h.stream [.next, .next]).1.receipted.settled rfl
  revert hsettled
  decide

end Concrete

end ResidualHarness.AiProviders
