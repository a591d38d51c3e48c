import ResidualHarness.Core.Canonical
import ResidualHarness.Core.Links
import ResidualHarness.Python.Loops

/-!
# Observations

`observation_layer/core.py`: the constructor of an observation, which freezes and checks its fields
and takes its digest, the sequencer, and the verification of a chain. A verified chain is a list of
links whose head is the last digest (`verifyChain_iff`), and two chains that verify with one head are
equal (`verifyChain_unique`).
-/

set_option autoImplicit false

namespace ResidualHarness.ObservationLayer

open Python Core

/-- `ObservationKind`. -/
inductive ObservationKind where
  | agentSpawned
  | agentTerminated
  | toolInvoked
  | toolCompleted
  | toolFailed
  | llmRequest
  | llmResponse
  | llmFailed
  | llmStreamChunk
  | stateTransition
  | handoff
  | checkpoint
  | custom
deriving DecidableEq

/-- `kind.value`. -/
def ObservationKind.value : ObservationKind → Str
  | .agentSpawned => lit "agent.spawned"
  | .agentTerminated => lit "agent.terminated"
  | .toolInvoked => lit "tool.invoked"
  | .toolCompleted => lit "tool.completed"
  | .toolFailed => lit "tool.failed"
  | .llmRequest => lit "llm.request"
  | .llmResponse => lit "llm.response"
  | .llmFailed => lit "llm.failed"
  | .llmStreamChunk => lit "llm.stream_chunk"
  | .stateTransition => lit "state.transition"
  | .handoff => lit "handoff"
  | .checkpoint => lit "checkpoint"
  | .custom => lit "custom"

/-- The members of `ObservationKind`. -/
def ObservationKind.all : List ObservationKind :=
  [.agentSpawned, .agentTerminated, .toolInvoked, .toolCompleted, .toolFailed, .llmRequest,
    .llmResponse, .llmFailed, .llmStreamChunk, .stateTransition, .handoff, .checkpoint, .custom]

/-- `SCHEMA_VERSION`. -/
def schemaVersion : Str := lit "1.1.0"

/-- The hash before the first observation. -/
def genesisHash : Str := lit "GENESIS"

variable [FloatModel]

/-- An argument of the constructor: a JSON value, or another object. -/
abbrev Arg := Option {v : Json // v.wf = true}

/-- A string as an argument. -/
def Arg.str (s : Str) : Arg := some ⟨.str s, rfl⟩

/-- `Observation`. The previous hash is checked, but it need not be a string, and the digest is not
checked at all. -/
structure Observation where
  obsId : Str
  traceId : Str
  kind : ObservationKind
  timestampNs : Nat
  schemaVersion : Str
  prevHash : Json
  payload : Fields
  tags : Fields
  source : Str
  digest : Json
  prevHash_wf : prevHash.wf = true
  payload_wf : (Json.obj payload).wf = true
  tags_wf : (Json.obj tags).wf = true
  digest_wf : digest.wf = true

/-- The arguments of the constructor. -/
structure Raw where
  obsId : Arg
  traceId : Arg
  kind : Arg
  timestampNs : Arg
  schemaVersion : Arg
  prevHash : Arg
  payload : Arg
  tags : Arg
  source : Arg
  digest : Arg

/-! ## The constructor -/

/-- A `ValueError` of the layer. -/
def invalid (msg : String) : PyExn := .valueError msg

/-- `ObservationKind(kind)`. -/
def kindOf : Arg → Except PyExn ObservationKind
  | some ⟨.str s, _⟩ =>
      match ObservationKind.all.find? fun k => decide (k.value = s) with
      | some k => .ok k
      | none => .error (invalid "not a valid ObservationKind")
  | _ => .error (invalid "not a valid ObservationKind")

/-- The check of the schema version. -/
def versionOf : Arg → Except PyExn Str
  | some ⟨.str s, _⟩ =>
      if s = schemaVersion then .ok s else .error (invalid "Unsupported observation schema")
  | _ => .error (invalid "Unsupported observation schema")

/-- The check of one identity. -/
def identityOf : Arg → Except PyExn Str
  | some ⟨.str s, _⟩ =>
      if 0 < s.length ∧ s.length ≤ 200 then .ok s
      else .error (invalid "Invalid observation identity")
  | _ => .error (invalid "Invalid observation identity")

/-- The check of the time. -/
def timeOf : Arg → Except PyExn Nat
  | some ⟨.int i, _⟩ =>
      if 0 ≤ i then .ok i.toNat else .error (invalid "Invalid observation time")
  | _ => .error (invalid "Invalid observation time")

/-- A dictionary that `freeze` accepts. An integer too long for `json.dumps`, which refuses it with
the same error, is refused here. -/
def dictOf : Arg → Except PyExn {d : Fields // (Json.obj d).wf = true}
  | some ⟨.obj d, h⟩ =>
      if (Json.obj d).dumpable = true then .ok ⟨d, h⟩
      else .error (invalid "Observation must contain finite JSON values")
  | _ => .error (invalid "Invalid observation payload or tags")

/-- The value is a string. -/
def isStr : Json → Bool
  | .str _ => true
  | _ => false

/-- `c in '0123456789abcdef'` for an element of a list. -/
def isHexPart : Json → Except PyExn Bool
  | .str s => .ok (decide (s <:+: lit "0123456789abcdef"))
  | _ => .error .typeError

/-- The previous hash has 64 elements, all of them hexadecimal. -/
def isHash64 (parts : List Json) : Except PyExn Bool := do
  if parts.length ≠ 64 then return false
  return (← mapE isHexPart parts).all id

/-- The check of the previous hash: strings, lists and dictionaries have a length and elements. -/
def prevHashOf : Arg → Except PyExn {v : Json // v.wf = true}
  | none => .error .typeError
  | some ⟨v, h⟩ => do
      let good ← (match v with
        | .str s => if s = genesisHash then .ok true else isHash64 (s.map fun c => .str [c])
        | .arr xs => isHash64 xs
        | .obj d => isHash64 (d.map fun kv => .str kv.1)
        | _ => .error .typeError)
      require (good = true) (invalid "Invalid previous digest")
      return ⟨v, h⟩

/-- `to_dict()` without the digest. -/
def Observation.body (o : Observation) : Fields :=
  [(lit "obs_id", .str o.obsId), (lit "trace_id", .str o.traceId), (lit "kind", .str o.kind.value),
    (lit "timestamp_ns", .int o.timestampNs), (lit "schema_version", .str o.schemaVersion),
    (lit "prev_hash", o.prevHash), (lit "payload", .obj o.payload), (lit "tags", .obj o.tags),
    (lit "source", .str o.source)]

/-- `to_dict()`. -/
def Observation.toDict (o : Observation) : Fields := o.body ++ [(lit "digest", o.digest)]

/-- `canonical_bytes()`. -/
def Observation.canonicalBytes (o : Observation) : Except PyExn (List Nat) := do
  utf8 (← canonical (.obj o.body))

/-- `hash()`. -/
def Observation.hash (o : Observation) : Except PyExn Str := do
  return sha256 (← o.canonicalBytes)

/-- The digest argument; another object than a JSON value never gets here. -/
def digestArg : Arg → {v : Json // v.wf = true}
  | some v => v
  | none => ⟨.null, rfl⟩

/-- `Observation(…)`: `__post_init__`. -/
def Observation.make (r : Raw) : Except PyExn Observation := do
  let kind ← kindOf r.kind
  let version ← versionOf r.schemaVersion
  let obsId ← identityOf r.obsId
  let traceId ← identityOf r.traceId
  let source ← identityOf r.source
  let time ← timeOf r.timestampNs
  let payload ← dictOf r.payload
  let tags ← dictOf r.tags
  require (tags.1.all (fun kv => isStr kv.2) = true) (invalid "Invalid observation payload or tags")
  let prevHash ← prevHashOf r.prevHash
  let o : Observation :=
    { obsId := obsId, traceId := traceId, kind := kind, timestampNs := time, schemaVersion := version,
      prevHash := prevHash.1, payload := payload.1, tags := tags.1, source := source,
      digest := (digestArg r.digest).1, prevHash_wf := prevHash.2, payload_wf := payload.2,
      tags_wf := tags.2, digest_wf := (digestArg r.digest).2 }
  let bytes ← o.canonicalBytes
  require (bytes.length ≤ 24000) (invalid "Observation exceeds 24 KB")
  return if o.digest.truthy = true then o
    else { o with digest := .str (sha256 bytes), digest_wf := rfl }

/-! ## The sequencer -/

/-- `ObservationSequencer`. -/
structure ObservationSequencer where
  traceId : Str
  prev : Str
  count : Nat

/-- `tags or {}`. -/
def orEmpty : Arg → Arg
  | some v => if v.1.truthy = true then some v else some ⟨.obj [], Json.wf_empty⟩
  | none => none

/-- `draft(kind, payload, tags, source)`, with the id and the time that it reads. -/
def ObservationSequencer.draft (s : ObservationSequencer) (obsId : Str) (timeNs : Nat)
    (kind payload tags source : Arg) : Except PyExn Observation :=
  Observation.make
    { obsId := .str obsId, traceId := .str s.traceId, kind := kind,
      timestampNs := some ⟨.int timeNs, rfl⟩, schemaVersion := .str schemaVersion,
      prevHash := .str s.prev, payload := payload, tags := orEmpty tags, source := source,
      digest := .str [] }

/-- The fields of an observation as arguments. -/
def Observation.raw (o : Observation) : Raw where
  obsId := .str o.obsId
  traceId := .str o.traceId
  kind := .str o.kind.value
  timestampNs := some ⟨.int o.timestampNs, rfl⟩
  schemaVersion := .str o.schemaVersion
  prevHash := some ⟨o.prevHash, o.prevHash_wf⟩
  payload := some ⟨.obj o.payload, o.payload_wf⟩
  tags := some ⟨.obj o.tags, o.tags_wf⟩
  source := .str o.source
  digest := some ⟨o.digest, o.digest_wf⟩

/-- The text of a digest. -/
def digestString : Json → Str
  | .str s => s
  | _ => []

/-- `commit(obs)`. -/
def ObservationSequencer.commit (s : ObservationSequencer) (obs : Observation) :
    Except PyExn (Observation × ObservationSequencer) := do
  let sealedObs ← Observation.make
    { obs.raw with traceId := .str s.traceId, prevHash := .str s.prev, digest := .str [] }
  return (sealedObs, { s with prev := digestString sealedObs.digest, count := s.count + 1 })

/-! ## Verification -/

/-- The value is this string. -/
def isText (v : Json) (s : Str) : Bool :=
  match v with
  | .str t => decide (t = s)
  | _ => false

/-- The loop of `verify_chain`; `none` where it returns `False`. -/
def verifyLoop : Str → Option Str → List Str → Nat → List Observation → Option (Str × Nat)
  | prev, _, _, count, [] => some (prev, count)
  | prev, trace, seen, count, o :: os =>
      match o.hash with
      | .error _ => none
      | .ok h =>
          if o.schemaVersion = schemaVersion ∧ isText o.prevHash prev = true ∧
              isText o.digest h = true ∧ o.obsId ∉ seen ∧ (∀ t ∈ trace, t = o.traceId) then
            verifyLoop h (some o.traceId) (o.obsId :: seen) (count + 1) os
          else none

/-- `verify_chain(observations, expected_head=…, expected_count=…)`. -/
def verifyChain (os : List Observation) (expectedHead : Option Str) (expectedCount : Option Nat) :
    Bool :=
  match verifyLoop genesisHash none [] 0 os with
  | none => false
  | some (prev, count) =>
      expectedHead.all (fun h => decide (prev = h)) &&
        expectedCount.all fun n => decide (count = n)

/-! ## What the constructor checks -/

/-- All that the constructor checks and keeps of its arguments. -/
structure Made (r : Raw) (o : Observation) : Prop where
  kind : kindOf r.kind = .ok o.kind
  version : versionOf r.schemaVersion = .ok o.schemaVersion
  obsId : identityOf r.obsId = .ok o.obsId
  traceId : identityOf r.traceId = .ok o.traceId
  source : identityOf r.source = .ok o.source
  time : timeOf r.timestampNs = .ok o.timestampNs
  payload : dictOf r.payload = .ok ⟨o.payload, o.payload_wf⟩
  tags : dictOf r.tags = .ok ⟨o.tags, o.tags_wf⟩
  tagsText : o.tags.all (fun kv => isStr kv.2) = true
  prevHash : prevHashOf r.prevHash = .ok ⟨o.prevHash, o.prevHash_wf⟩
  bytes : ∃ b, o.canonicalBytes = .ok b ∧ b.length ≤ 24000 ∧
    o.digest = if (digestArg r.digest).1.truthy = true then (digestArg r.digest).1
      else .str (sha256 b)

theorem made_of_make {r : Raw} {o : Observation} (h : Observation.make r = .ok o) : Made r o := by
  obtain ⟨kind, hkind, h⟩ := bind_eq_ok.1 h
  obtain ⟨version, hversion, h⟩ := bind_eq_ok.1 h
  obtain ⟨obsId, hobsId, h⟩ := bind_eq_ok.1 h
  obtain ⟨traceId, htraceId, h⟩ := bind_eq_ok.1 h
  obtain ⟨source, hsource, h⟩ := bind_eq_ok.1 h
  obtain ⟨time, htime, h⟩ := bind_eq_ok.1 h
  obtain ⟨payload, hpayload, h⟩ := bind_eq_ok.1 h
  obtain ⟨tags, htags, h⟩ := bind_eq_ok.1 h
  obtain ⟨_, htext, h⟩ := bind_eq_ok.1 h
  obtain ⟨prevHash, hprev, h⟩ := bind_eq_ok.1 h
  obtain ⟨b, hb, h⟩ := bind_eq_ok.1 h
  obtain ⟨_, hlen, h⟩ := bind_eq_ok.1 h
  cases Except.ok.inj h
  -- the digest plays no part in the other checks
  by_cases ht : (digestArg r.digest).1.truthy = true
  · simp only [ht, if_true]
    exact ⟨hkind, hversion, hobsId, htraceId, hsource, htime, hpayload, htags,
      require_eq_ok.1 htext, hprev, b, hb, require_eq_ok.1 hlen, by simp [ht]⟩
  · simp only [ht]
    exact ⟨hkind, hversion, hobsId, htraceId, hsource, htime, hpayload, htags,
      require_eq_ok.1 htext, hprev, b, hb, require_eq_ok.1 hlen, by simp [ht]⟩

theorem make_of_made {r : Raw} {o : Observation} (h : Made r o) : Observation.make r = .ok o := by
  obtain ⟨b, hb, hlen, hdigest⟩ := h.bytes
  rw [Observation.make, h.kind, h.version, h.obsId, h.traceId, h.source, h.time, h.payload, h.tags]
  refine bind_eq_ok.2 ⟨_, rfl, bind_eq_ok.2 ⟨_, rfl, bind_eq_ok.2 ⟨_, rfl, bind_eq_ok.2 ⟨_, rfl,
    bind_eq_ok.2 ⟨_, rfl, bind_eq_ok.2 ⟨_, rfl, bind_eq_ok.2 ⟨_, rfl, bind_eq_ok.2 ⟨_, rfl,
    bind_eq_ok.2 ⟨_, require_of h.tagsText, bind_eq_ok.2 ⟨_, h.prevHash,
    bind_eq_ok.2 ⟨b, hb, bind_eq_ok.2 ⟨_, require_of hlen, ?_⟩⟩⟩⟩⟩⟩⟩⟩⟩⟩⟩⟩
  obtain ⟨obsId, traceId, kind, timestampNs, version, prevHash, payload, tags, source, digest, _, _,
    _, _⟩ := o
  simp only at hdigest
  subst hdigest
  split
  · rfl
  · rfl

omit [FloatModel] in
theorem find_value (k : ObservationKind) :
    ObservationKind.all.find? (fun j => decide (j.value = k.value)) = some k := by
  cases k <;> rfl

theorem kindOf_value (k : ObservationKind) : kindOf (.str k.value) = .ok k := by
  unfold kindOf Arg.str
  simp only [find_value]

theorem identityOf_eq {a : Arg} {s : Str} (h : identityOf a = .ok s) :
    identityOf (.str s) = .ok s := by
  unfold identityOf at h
  split at h
  · split at h
    · rename_i hs
      cases h
      exact if_pos hs
    · cases h
  · cases h

theorem versionOf_eq {a : Arg} {s : Str} (h : versionOf a = .ok s) : s = schemaVersion := by
  unfold versionOf at h
  split at h
  · split at h
    · rename_i hs
      cases h
      exact hs
    · cases h
  · cases h

theorem timeOf_nat (n : Nat) : timeOf (some ⟨.int n, rfl⟩) = .ok n := by
  unfold timeOf
  simp only [if_pos (Int.natCast_nonneg n), Int.toNat_natCast]

theorem dictOf_eq {a : Arg} {d : Fields} {hd : (Json.obj d).wf = true}
    (h : dictOf a = .ok ⟨d, hd⟩) : a = some ⟨.obj d, hd⟩ ∧ (Json.obj d).dumpable = true := by
  unfold dictOf at h
  split at h
  · split at h
    · rename_i hdump
      cases h
      exact ⟨rfl, hdump⟩
    · cases h
  · cases h

theorem prevHashOf_eq {a : Arg} {v : Json} {hv : v.wf = true}
    (h : prevHashOf a = .ok ⟨v, hv⟩) : a = some ⟨v, hv⟩ := by
  cases a with
  | none => cases h
  | some w =>
      obtain ⟨w, hw⟩ := w
      obtain ⟨good, -, h⟩ := bind_eq_ok.1 h
      obtain ⟨_, -, h⟩ := bind_eq_ok.1 h
      cases h
      rfl

/-- An observation that was constructed is what its own fields construct, once it has a digest. -/
theorem make_raw {r : Raw} {o : Observation} (h : Observation.make r = .ok o) :
    Observation.make o.raw = .ok o := by
  have hm := made_of_make h
  obtain ⟨b, hb, hlen, hdigest⟩ := hm.bytes
  have hv := versionOf_eq hm.version
  have hp := dictOf_eq hm.payload
  have ht := dictOf_eq hm.tags
  refine make_of_made ⟨kindOf_value _, ?_, identityOf_eq hm.obsId, identityOf_eq hm.traceId,
    identityOf_eq hm.source, timeOf_nat _, ?_, ?_, hm.tagsText, ?_, b, hb, hlen, ?_⟩
  · show versionOf (.str o.schemaVersion) = .ok o.schemaVersion
    rw [hv]
    rfl
  · have h := hm.payload
    rwa [hp.1] at h
  · have h := hm.tags
    rwa [ht.1] at h
  · have h := hm.prevHash
    rwa [prevHashOf_eq hm.prevHash] at h
  · show o.digest = if o.digest.truthy = true then o.digest else _
    split
    · rfl
    · rename_i hfalse
      rw [hdigest] at hfalse ⊢
      split at hfalse
      · rename_i htrue
        exact absurd htrue hfalse
      · rename_i hf
        rw [if_neg hf]

/-! ## Chains -/

/-- The text of the digest of an observation. -/
def Observation.text (o : Observation) : Str := digestString o.digest

/-- The text of the previous hash of an observation. -/
def Observation.prevText (o : Observation) : Str := digestString o.prevHash

/-- The digest is the hash of the fields, and the previous hash is a string. -/
structure Observation.Sealed (o : Observation) : Prop where
  version : o.schemaVersion = ObservationLayer.schemaVersion
  hash : o.hash = .ok o.text
  digest : o.digest = .str o.text
  prevHash : o.prevHash = .str o.prevText

theorem isText_iff {v : Json} {s : Str} : isText v s = true ↔ v = .str s := by
  cases v <;> simp [isText]

/-- A list that the loop of `verify_chain` accepts. -/
structure Accepted (prev : Str) (trace : Option Str) (seen : List Str) (os : List Observation) :
    Prop where
  links : Links Observation.prevText Observation.text prev os
  isSealed : ∀ o ∈ os, o.Sealed
  traces : ∀ t ∈ trace, ∀ o ∈ os, o.traceId = t
  oneTrace : ∀ a ∈ os, ∀ b ∈ os, a.traceId = b.traceId
  nodup : (os.map Observation.obsId).Nodup
  fresh : ∀ o ∈ os, o.obsId ∉ seen

theorem accepted_cons {prev : Str} {trace : Option Str} {seen : List Str} {o : Observation}
    {os : List Observation} :
    Accepted prev trace seen (o :: os) ↔ o.prevText = prev ∧ o.Sealed ∧ o.obsId ∉ seen ∧
      (∀ t ∈ trace, t = o.traceId) ∧ Accepted o.text (some o.traceId) (o.obsId :: seen) os := by
  constructor
  · rintro ⟨⟨hp, hl⟩, hs, ht, ho, hn, hf⟩
    rw [List.map_cons, List.nodup_cons] at hn
    refine ⟨hp, hs o List.mem_cons_self, hf o List.mem_cons_self,
      fun t h => (ht t h o List.mem_cons_self).symm, hl, fun d hd => hs d (List.mem_cons_of_mem _ hd),
      ?_, fun a ha b hb => ho a (List.mem_cons_of_mem _ ha) b (List.mem_cons_of_mem _ hb), hn.2, ?_⟩
    · rintro t ⟨⟩ d hd
      exact ho d (List.mem_cons_of_mem _ hd) o List.mem_cons_self
    · intro d hd hmem
      rcases List.mem_cons.1 hmem with heq | hmem
      · exact hn.1 (heq ▸ List.mem_map_of_mem hd)
      · exact hf d (List.mem_cons_of_mem _ hd) hmem
  · rintro ⟨hp, hs, hid, ht, hl, hss, htr, ho, hn, hf⟩
    have hto : ∀ d ∈ o :: os, d.traceId = o.traceId := by
      intro d hd
      rcases List.mem_cons.1 hd with rfl | hd
      · rfl
      · exact htr _ rfl d hd
    refine ⟨⟨hp, hl⟩, List.forall_mem_cons.2 ⟨hs, hss⟩, fun t h d hd => (ht t h).symm ▸ hto d hd,
      fun a ha b hb => (hto a ha).trans (hto b hb).symm, ?_, List.forall_mem_cons.2 ⟨hid, ?_⟩⟩
    · rw [List.map_cons, List.nodup_cons]
      refine ⟨fun hmem => ?_, hn⟩
      obtain ⟨d, hd, heq⟩ := List.mem_map.1 hmem
      exact hf d hd (List.mem_cons.2 (.inl heq))
    · exact fun d hd hmem => hf d hd (List.mem_cons_of_mem _ hmem)

/-- What the loop of `verify_chain` accepts, and what it returns. -/
theorem verifyLoop_eq_some {os : List Observation} : ∀ {prev : Str} {trace : Option Str}
    {seen : List Str} {count : Nat} {r : Str × Nat},
    verifyLoop prev trace seen count os = some r ↔ Accepted prev trace seen os ∧
      r = (linkHead Observation.text prev os, count + os.length) := by
  induction os with
  | nil =>
      intro prev trace seen count r
      have hnil : Accepted prev trace seen [] := ⟨trivial, nofun, fun _ _ => nofun, nofun, .nil, nofun⟩
      simp [verifyLoop, linkHead, hnil, eq_comm]
  | cons o os ih =>
      intro prev trace seen count r
      rw [accepted_cons, verifyLoop]
      cases hh : o.hash with
      | error x =>
          simp only [reduceCtorEq, false_iff]
          rintro ⟨⟨-, hs, -⟩, -⟩
          rw [hs.hash] at hh
          cases hh
      | ok h =>
          simp only
          -- the five tests are what makes the observation a sealed link
          have htests : (o.schemaVersion = schemaVersion ∧ isText o.prevHash prev = true ∧
              isText o.digest h = true ∧ o.obsId ∉ seen ∧ ∀ t ∈ trace, t = o.traceId) ↔
              (o.prevText = prev ∧ o.Sealed ∧ o.obsId ∉ seen ∧ (∀ t ∈ trace, t = o.traceId)) ∧
                h = o.text := by
            rw [isText_iff, isText_iff]
            constructor
            · rintro ⟨hv, hp, hd, hid, ht⟩
              have htext : o.text = h := by rw [Observation.text, hd, digestString]
              have hprev : o.prevText = prev := by rw [Observation.prevText, hp, digestString]
              exact ⟨⟨hprev, ⟨hv, by rw [hh, htext], by rw [hd, htext], by rw [hp, hprev]⟩, hid, ht⟩,
                htext.symm⟩
            · rintro ⟨⟨hp, hs, hid, ht⟩, rfl⟩
              exact ⟨hs.version, hp ▸ hs.prevHash, hs.digest, hid, ht⟩
          have hcount : count + (o :: os).length = count + 1 + os.length := by
            rw [List.length_cons]
            omega
          by_cases htest : o.schemaVersion = schemaVersion ∧ isText o.prevHash prev = true ∧
              isText o.digest h = true ∧ o.obsId ∉ seen ∧ ∀ t ∈ trace, t = o.traceId
          · obtain ⟨⟨hp, hs, hid, ht⟩, rfl⟩ := htests.1 htest
            rw [if_pos htest, ih, hcount, linkHead]
            exact ⟨fun h => ⟨⟨hp, hs, hid, ht, h.1⟩, h.2⟩, fun h => ⟨h.1.2.2.2.2, h.2⟩⟩
          · rw [if_neg htest]
            simp only [reduceCtorEq, false_iff]
            rintro ⟨⟨hp, hs, hid, ht, -⟩, -⟩
            have hht : h = o.text := Except.ok.inj (hh.symm.trans hs.hash)
            exact htest (htests.2 ⟨⟨hp, hs, hid, ht⟩, hht⟩)

/-- `verify_chain` accepts the lists of sealed links of one trace with distinct ids, whose head and
length are the expected ones. -/
theorem verifyChain_iff {os : List Observation} {head : Option Str} {count : Option Nat} :
    verifyChain os head count = true ↔ Accepted genesisHash none [] os ∧
      (∀ h ∈ head, linkHead Observation.text genesisHash os = h) ∧ ∀ n ∈ count, os.length = n := by
  rw [verifyChain]
  cases h : verifyLoop genesisHash none [] 0 os with
  | none =>
      simp only [Bool.false_eq_true, false_iff]
      rintro ⟨ha, -⟩
      have hsome : verifyLoop genesisHash none [] 0 os = some _ := verifyLoop_eq_some.2 ⟨ha, rfl⟩
      rw [h] at hsome
      cases hsome
  | some r =>
      obtain ⟨ha, rfl⟩ := verifyLoop_eq_some.1 h
      simp [ha, Option.all_eq_true]

/-! ## One head, one chain -/

/-- What Python's equality compares: the fields, with dictionaries up to the order of their items. -/
def Observation.content (o : Observation) : Json × Json := ((Json.obj o.body).norm, o.digest)

/-- SHA-256 does not collide on the canonical bytes of these observations. -/
def CollisionFree (xs ys : List Observation) : Prop :=
  ∀ a ∈ xs, ∀ b ∈ ys, ∀ c d, a.canonicalBytes = .ok c → b.canonicalBytes = .ok d →
    sha256 c = sha256 d → c = d

theorem body_nodup (o : Observation) : (o.body.map Prod.fst).Nodup := by
  show [lit "obs_id", lit "trace_id", lit "kind", lit "timestamp_ns", lit "schema_version",
    lit "prev_hash", lit "payload", lit "tags", lit "source"].Nodup
  decide

theorem body_wf (o : Observation) : (Json.obj o.body).wf = true := by
  rw [Json.wf, Bool.and_eq_true, decide_eq_true_eq]
  refine ⟨body_nodup o, ?_⟩
  simp [Observation.body, Json.wfFields, o.prevHash_wf, o.payload_wf, o.tags_wf]
  simp [Json.wf]

theorem canonicalBytes_ok {o : Observation} {b : List Nat} (h : o.canonicalBytes = .ok b) :
    (Json.obj o.body).dumpable = true ∧ b = (Json.obj o.body).render.flatMap utf8Char := by
  obtain ⟨text, ht, hu⟩ := bind_eq_ok.1 h
  obtain ⟨hd, rfl⟩ := dumpable_of_canonical ht
  rw [utf8_of_encodable (encodable_of_utf8 hu)] at hu
  exact ⟨hd, (Except.ok.inj hu).symm⟩

/-- Observations with the same canonical bytes have the same fields. -/
theorem body_norm_of_bytes {a b : Observation} {c : List Nat} (ha : a.canonicalBytes = .ok c)
    (hb : b.canonicalBytes = .ok c) : (Json.obj a.body).norm = (Json.obj b.body).norm := by
  obtain ⟨hda, rfl⟩ := canonicalBytes_ok ha
  obtain ⟨hdb, heq⟩ := canonicalBytes_ok hb
  have hloads := loads_render (body_wf a) hda
  rw [utf8Text_injective heq, loads_render (body_wf b) hdb] at hloads
  exact (Option.some.inj hloads).symm

theorem binding_of_collisionFree {xs ys : List Observation} (hx : ∀ o ∈ xs, o.Sealed)
    (hy : ∀ o ∈ ys, o.Sealed) (hfree : CollisionFree xs ys) :
    Binding Observation.prevText Observation.text Observation.content xs ys := by
  intro a ha b hb htext
  obtain ⟨ca, hca, hsa⟩ := bind_eq_ok.1 (hx a ha).hash
  obtain ⟨cb, hcb, hsb⟩ := bind_eq_ok.1 (hy b hb).hash
  have hc : ca = cb := hfree a ha b hb ca cb hca hcb
    ((Except.ok.inj hsa).trans (htext.trans (Except.ok.inj hsb).symm))
  subst hc
  have hnorm := body_norm_of_bytes hca hcb
  refine ⟨Prod.ext hnorm ?_, ?_⟩
  · show a.digest = b.digest
    rw [(hx a ha).digest, (hy b hb).digest, htext]
  · -- the previous hash is one of the fields
    rw [Fields.obj_norm, Fields.obj_norm] at hnorm
    have hget := Fields.get?_alike (Json.obj.inj hnorm) (body_nodup b) (lit "prev_hash")
    have hprev : ∀ o : Observation, Fields.get? o.body (lit "prev_hash") = some o.prevHash :=
      fun _ => rfl
    rw [hprev, hprev, (hx a ha).prevHash, (hy b hb).prevHash] at hget
    exact Json.str.inj (Option.some.inj hget)

theorem text_ne_genesis {o : Observation} (h : o.Sealed) : o.text ≠ genesisHash := by
  obtain ⟨b, -, hs⟩ := bind_eq_ok.1 h.hash
  intro heq
  have hlen := sha256_length b
  rw [Except.ok.inj hs, heq] at hlen
  exact absurd hlen (by decide)

/-- Two lists that verify with one head hold the same observations. -/
theorem verifyChain_unique {xs ys : List Observation} {head : Str} {m n : Option Nat}
    (hx : verifyChain xs (some head) m = true) (hy : verifyChain ys (some head) n = true)
    (hfree : CollisionFree xs ys) : xs.map Observation.content = ys.map Observation.content := by
  obtain ⟨hax, hheadx, -⟩ := verifyChain_iff.1 hx
  obtain ⟨hay, hheady, -⟩ := verifyChain_iff.1 hy
  exact map_eq_of_head hax.links hay.links (fun a ha => text_ne_genesis (hax.isSealed a ha))
    (fun b hb => text_ne_genesis (hay.isSealed b hb))
    (binding_of_collisionFree hax.isSealed hay.isSealed hfree)
    ((hheadx head rfl).trans (hheady head rfl).symm)

end ResidualHarness.ObservationLayer
