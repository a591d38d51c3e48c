import ResidualHarness.ObservationLayer.Core
import ResidualHarness.Python.JsonStyles
import ResidualHarness.Python.TextFile
import ResidualHarness.Python.WholeFloats

/-!
# The observation bus

`ObservationBus.emit` of `observation_layer/bus.py`, and the JSON lines of `sinks.py` and `query.py`.
The head of the chain advances when an observation is committed, and storage may fail afterwards:
what is stored verifies against the sequencer exactly when no committed observation was lost
(`trace_integrity`), and what is written as JSON lines is read back as it was.
-/

set_option autoImplicit false

namespace ResidualHarness.ObservationLayer

open Python Core

section

variable [FloatModel]

/-! ## The bus -/

/-- What a filter does with an observation. -/
inductive Filtered where
  | dropped
  | kept (obs : Observation)
  | other
  | raised (e : PyExn)

/-- The bus, with what its sink stored and how many committed observations the sink failed on. -/
structure ObservationBus where
  sequencer : ObservationSequencer
  emitted : Nat
  droppedByFilter : Nat
  errors : Nat
  stored : List Observation
  lost : Nat

/-- `ObservationBus(sink, filter, trace_id)`. -/
def ObservationBus.new (traceId : Str) : ObservationBus := ⟨⟨traceId, genesisHash, 0⟩, 0, 0, 0, [], 0⟩

/-- One call of `emit`: its arguments, the id and the time that it draws, what the filter does then,
and whether the sink raises. -/
structure EmitCall where
  kind : Arg
  payload : Arg
  tags : Arg
  source : Arg
  obsId : Str
  timeNs : Nat
  filter : Observation → Filtered
  sinkRaises : Bool

/-- The body of the `try` of `emit`; `none` for an observation that the filter drops. -/
def ObservationBus.deliver (b : ObservationBus) (c : EmitCall) :
    Except PyExn (Option Observation) × ObservationBus :=
  match b.sequencer.draft c.obsId c.timeNs c.kind c.payload c.tags c.source with
  | .error e => (.error e, b)
  | .ok draft =>
      match c.filter draft with
      | .raised e => (.error e, b)
      | .dropped => (.ok none, { b with droppedByFilter := b.droppedByFilter + 1 })
      | .other => (.error (invalid "Invalid filter output"), b)
      | .kept obs =>
          match b.sequencer.commit obs with
          | .error e => (.error e, b)
          | .ok (sealedObs, sequencer) =>
              if c.sinkRaises = true then
                (.error (.runtimeError "OSError" "sink"),
                  { b with sequencer := sequencer, lost := b.lost + 1 })
              else
                (.ok (some sealedObs),
                  { b with
                    sequencer := sequencer
                    stored := b.stored ++ [sealedObs]
                    emitted := b.emitted + 1 })

/-- `emit(kind, payload, tags=…, source=…)`: every exception is caught and counted. -/
def ObservationBus.emit (b : ObservationBus) (c : EmitCall) :
    Except PyExn (Option Observation) × ObservationBus :=
  match b.deliver c with
  | (.ok r, b) => (.ok r, b)
  | (.error _, b) => (.ok none, { b with errors := b.errors + 1 })

/-- The bus after a sequence of calls. -/
def ObservationBus.run (b : ObservationBus) (calls : List EmitCall) : ObservationBus :=
  calls.foldl (fun b c => (b.emit c).2) b

/-! ## JSON lines -/

/-- The line that `JsonlFileSink.emit` writes. -/
def jsonLine (o : Observation) : Str := (Json.obj o.toDict).renderIn fileStyle

/-- The fields of `Observation`. -/
def fieldNames : List Str :=
  [lit "obs_id", lit "trace_id", lit "kind", lit "timestamp_ns", lit "schema_version",
    lit "prev_hash", lit "payload", lit "tags", lit "source", lit "digest"]

/-- A value of a dictionary as an argument. -/
def argOf (d : Fields) (key : String) : Arg :=
  match Dict.get? d (lit key) with
  | some v => if h : v.wf = true then some ⟨v, h⟩ else none
  | none => none

/-- `Observation(**d)`: fields with a default may be missing. -/
def ofDict (d : Fields) : Except PyExn Observation := do
  require (∀ k ∈ d.map Prod.fst, k ∈ fieldNames) .typeError
  require (∀ k ∈ fieldNames.take 7, k ∈ d.map Prod.fst) .typeError
  let default (key : String) (v : Arg) : Arg :=
    if lit key ∈ d.map Prod.fst then argOf d key else v
  Observation.make
    { obsId := argOf d "obs_id", traceId := argOf d "trace_id", kind := argOf d "kind",
      timestampNs := argOf d "timestamp_ns", schemaVersion := argOf d "schema_version",
      prevHash := argOf d "prev_hash", payload := argOf d "payload",
      tags := default "tags" (some ⟨.obj [], Json.wf_empty⟩),
      source := default "source" (.str (lit "unknown")), digest := argOf d "digest" }

/-- The body of the `try` of `load_jsonl`. -/
def readLine (line : Str) : Except PyExn Observation :=
  match loads line with
  | some (.obj d) =>
      match Dict.get? d (lit "digest") with
      | some v => if v.truthy = true then ofDict d else .error (invalid "Missing digest")
      | none => .error (invalid "Missing digest")
  | _ => .error (invalid "Invalid observation")

/-- One line of `load_jsonl`: every error is a `ValueError`. -/
def loadLine (line : Str) : Except PyExn Observation :=
  match readLine line with
  | .ok o => .ok o
  | .error _ => .error (invalid "Invalid observation at line")

/-- `list(load_jsonl(path))` for a file with this text. -/
def loadJsonl (text : Str) : Except PyExn (List Observation) :=
  mapE loadLine ((textLines text).filter fun line => !isBlank line)

/-! ## What the sequencer commits -/

theorem draft_obsId {s : ObservationSequencer} {obsId : Str} {timeNs : Nat}
    {kind payload tags source : Arg} {o : Observation}
    (h : s.draft obsId timeNs kind payload tags source = .ok o) : o.obsId = obsId := by
  have hid := (made_of_make h).obsId
  unfold identityOf Arg.str at hid
  simp only at hid
  split at hid
  · exact (Except.ok.inj hid).symm
  · cases hid

theorem identityOf_str {s t : Str} (h : identityOf (.str s) = .ok t) : t = s := by
  unfold identityOf Arg.str at h
  simp only at h
  split at h
  · exact (Except.ok.inj h).symm
  · cases h

theorem commit_ok {s s' : ObservationSequencer} {obs o : Observation}
    (h : s.commit obs = .ok (o, s')) :
    o.obsId = obs.obsId ∧ o.traceId = s.traceId ∧ o.prevText = s.prev ∧ o.Sealed ∧
      Observation.make o.raw = .ok o ∧ s' = ⟨s.traceId, o.text, s.count + 1⟩ := by
  obtain ⟨o', hmake, h⟩ := bind_eq_ok.1 h
  cases Except.ok.inj h
  have hm := made_of_make hmake
  obtain ⟨b, hb, -, hdigest⟩ := hm.bytes
  have hprev : o.prevHash = .str s.prev := by
    have h := prevHashOf_eq hm.prevHash
    exact (congrArg Subtype.val (Option.some.inj h)).symm
  have hstr : o.digest = .str (sha256 b) := hdigest
  have htext : o.text = sha256 b := by rw [Observation.text, hstr, digestString]
  refine ⟨identityOf_str hm.obsId, identityOf_str hm.traceId, ?_, ?_, make_raw hmake, rfl⟩
  · rw [Observation.prevText, hprev, digestString]
  · refine ⟨versionOf_eq hm.version, ?_, by rw [hstr, htext], ?_⟩
    · rw [htext]
      exact bind_eq_ok.2 ⟨b, hb, rfl⟩
    · rw [Observation.prevText, hprev, digestString]

/-! ## Runs -/

/-- The filter keeps the id of an observation that it does not drop. -/
def EmitCall.PreservesId (c : EmitCall) : Prop :=
  ∀ obs obs', c.filter obs = .kept obs' → obs'.obsId = obs.obsId

/-- The invariant of the bus after the calls. -/
structure Traced (b : ObservationBus) (calls : List EmitCall) : Prop where
  counters : b.emitted + b.droppedByFilter + b.errors = calls.length
  count : b.sequencer.count = b.stored.length + b.lost
  ids : (b.stored.map Observation.obsId).Sublist (calls.map EmitCall.obsId)
  traces : ∀ o ∈ b.stored, o.traceId = b.sequencer.traceId
  isSealed : ∀ o ∈ b.stored, o.Sealed
  made : ∀ o ∈ b.stored, Observation.make o.raw = .ok o
  links : b.lost = 0 → Links Observation.prevText Observation.text genesisHash b.stored ∧
    linkHead Observation.text genesisHash b.stored = b.sequencer.prev

/-- All that one call does: it counts, and a committed observation is stored or lost. -/
inductive Emitted (b : ObservationBus) (c : EmitCall) (b' : ObservationBus) : Prop where
  | uncommitted (d e : Nat) (hcount : d + e = 1)
      (hbus : b' = { b with droppedByFilter := b.droppedByFilter + d, errors := b.errors + e })
  | lost (o : Observation) (s : ObservationSequencer) (obs : Observation)
      (hcommit : b.sequencer.commit obs = .ok (o, s))
      (hbus : b' = { b with sequencer := s, lost := b.lost + 1, errors := b.errors + 1 })
  | stored (o : Observation) (s : ObservationSequencer) (draft obs : Observation)
      (hdraft : draft.obsId = c.obsId) (hfilter : c.filter draft = .kept obs)
      (hcommit : b.sequencer.commit obs = .ok (o, s))
      (hbus : b' = { b with sequencer := s, stored := b.stored ++ [o], emitted := b.emitted + 1 })

theorem emit_returns (b : ObservationBus) (c : EmitCall) : ∃ r, (b.emit c).1 = .ok r := by
  unfold ObservationBus.emit
  split <;> exact ⟨_, rfl⟩

theorem emit_cases (b : ObservationBus) (c : EmitCall) : Emitted b c (b.emit c).2 := by
  unfold ObservationBus.emit ObservationBus.deliver
  cases hd : b.sequencer.draft c.obsId c.timeNs c.kind c.payload c.tags c.source with
  | error e => exact .uncommitted 0 1 rfl rfl
  | ok draft =>
      simp only
      cases hf : c.filter draft with
      | raised e => exact .uncommitted 0 1 rfl rfl
      | dropped => exact .uncommitted 1 0 rfl rfl
      | other => exact .uncommitted 0 1 rfl rfl
      | kept obs =>
          simp only
          cases hc : b.sequencer.commit obs with
          | error e => exact .uncommitted 0 1 rfl rfl
          | ok r =>
              obtain ⟨o, s⟩ := r
              simp only
              by_cases hs : c.sinkRaises = true
              · exact .lost o s obs hc (by simp only [if_pos hs])
              · exact .stored o s draft obs (draft_obsId hd) hf hc (by simp only [if_neg hs])

theorem traced_emit {b : ObservationBus} {calls : List EmitCall} {c : EmitCall}
    (ht : Traced b calls) (hc : c.PreservesId) : Traced (b.emit c).2 (calls ++ [c]) := by
  have hcalls : (calls ++ [c]).map EmitCall.obsId = calls.map EmitCall.obsId ++ [c.obsId] := by simp
  have hlen : (calls ++ [c]).length = calls.length + 1 := by simp
  have hcounters := ht.counters
  have hcount := ht.count
  have hids : (b.stored.map Observation.obsId).Sublist ((calls ++ [c]).map EmitCall.obsId) :=
    hcalls ▸ ht.ids.trans (List.sublist_append_left _ _)
  cases emit_cases b c with
  | uncommitted d e hsum hbus =>
      rw [hbus]
      exact ⟨by simp only; omega, hcount, hids, ht.traces, ht.isSealed, ht.made, ht.links⟩
  | lost o s obs hcommit hbus =>
      obtain ⟨-, -, -, -, -, rfl⟩ := commit_ok hcommit
      rw [hbus]
      exact ⟨by simp only; omega, by simp only; omega, hids, ht.traces, ht.isSealed, ht.made,
        fun h => absurd h (Nat.succ_ne_zero _)⟩
  | stored o s draft obs hdraft hfilter hcommit hbus =>
      obtain ⟨hid, htrace, hprev, hsealed, hmade, rfl⟩ := commit_ok hcommit
      have hobs : o.obsId = c.obsId := by rw [hid, hc _ _ hfilter, hdraft]
      rw [hbus]
      refine ⟨by simp only; omega, by simp only [List.length_append, List.length_singleton]; omega,
        ?_, ?_, ?_, ?_, ?_⟩
      · rw [List.map_append, List.map_singleton, hcalls, hobs]
        exact ht.ids.append_right [c.obsId]
      · exact List.forall_mem_append.2 ⟨ht.traces, List.forall_mem_singleton.2 htrace⟩
      · exact List.forall_mem_append.2 ⟨ht.isSealed, List.forall_mem_singleton.2 hsealed⟩
      · exact List.forall_mem_append.2 ⟨ht.made, List.forall_mem_singleton.2 hmade⟩
      · intro hlost
        obtain ⟨hl, hhead⟩ := ht.links hlost
        -- the new observation is linked to the head before it
        rw [links_append, linkHead_append]
        exact ⟨⟨hl, by rw [hprev, hhead], trivial⟩, rfl⟩

theorem traced_run {traceId : Str} {calls : List EmitCall} (h : ∀ c ∈ calls, c.PreservesId) :
    Traced ((ObservationBus.new traceId).run calls) calls := by
  induction calls using List.reverseRecOn with
  | nil => exact ⟨rfl, rfl, .slnil, nofun, nofun, nofun, fun _ => ⟨trivial, rfl⟩⟩
  | append_singleton calls c ih =>
      rw [ObservationBus.run, List.foldl_append]
      exact traced_emit (ih fun d hd => h d (List.mem_append_left _ hd)) (h c (by simp))

/-! ## Reading back -/

theorem argOf_eq {d : Fields} {key : String} {v : Json} (h : Dict.get? d (lit key) = some v)
    (hv : v.wf = true) : argOf d key = some ⟨v, hv⟩ := by
  unfold argOf
  simp only [h, dif_pos hv]

/-- The dictionary of an observation constructs what its fields construct. -/
theorem ofDict_toDict (o : Observation) : ofDict o.toDict = Observation.make o.raw := by
  have hkeys : o.toDict.map Prod.fst = fieldNames := rfl
  have htags : lit "tags" ∈ o.toDict.map Prod.fst := hkeys ▸ by decide
  have hsource : lit "source" ∈ o.toDict.map Prod.fst := hkeys ▸ by decide
  unfold ofDict
  rw [require_of (by rw [hkeys]; exact fun k hk => hk),
    require_of (by rw [hkeys]; exact fun k hk => List.mem_of_mem_take hk)]
  simp only [if_pos htags, if_pos hsource]
  have hargs : argOf o.toDict "obs_id" = o.raw.obsId ∧ argOf o.toDict "trace_id" = o.raw.traceId ∧
      argOf o.toDict "kind" = o.raw.kind ∧ argOf o.toDict "timestamp_ns" = o.raw.timestampNs ∧
      argOf o.toDict "schema_version" = o.raw.schemaVersion ∧
      argOf o.toDict "prev_hash" = o.raw.prevHash ∧ argOf o.toDict "payload" = o.raw.payload ∧
      argOf o.toDict "tags" = o.raw.tags ∧ argOf o.toDict "source" = o.raw.source ∧
      argOf o.toDict "digest" = o.raw.digest :=
    ⟨argOf_eq rfl rfl, argOf_eq rfl rfl, argOf_eq rfl rfl, argOf_eq rfl rfl, argOf_eq rfl rfl,
      argOf_eq rfl o.prevHash_wf, argOf_eq rfl o.payload_wf, argOf_eq rfl o.tags_wf,
      argOf_eq rfl rfl, argOf_eq rfl o.digest_wf⟩
  obtain ⟨h1, h2, h3, h4, h5, h6, h7, h8, h9, h10⟩ := hargs
  rw [h1, h2, h3, h4, h5, h6, h7, h8, h9, h10]
  rfl

theorem toDict_wf (o : Observation) : (Json.obj o.toDict).wf = true := by
  rw [Json.wf, Bool.and_eq_true, decide_eq_true_eq]
  constructor
  · show fieldNames.Nodup
    decide
  · have hbody := body_wf o
    rw [Json.wf, Bool.and_eq_true, Json.wfFields_iff] at hbody
    rw [Json.wfFields_iff, Observation.toDict]
    exact List.forall_mem_append.2 ⟨hbody.2, List.forall_mem_singleton.2 o.digest_wf⟩

theorem toDict_dumpable {o : Observation} (h : o.Sealed) :
    (Json.obj o.toDict).dumpable = true := by
  obtain ⟨b, hb, -⟩ := bind_eq_ok.1 h.hash
  have hbody := (canonicalBytes_ok hb).1
  rw [Json.dumpable, Json.dumpableFields_iff] at hbody ⊢
  rw [Observation.toDict]
  refine List.forall_mem_append.2 ⟨hbody, List.forall_mem_singleton.2 ?_⟩
  rw [h.digest]
  rfl

theorem loadLine_jsonLine {o : Observation} (hs : o.Sealed) (hm : Observation.make o.raw = .ok o) :
    loadLine (jsonLine o ++ [lf]) = .ok o := by
  have hd := toDict_dumpable hs
  have hloads : loads (jsonLine o ++ [lf]) = some (.obj o.toDict) := by
    have hblank : ∀ c ∈ [lf], isJsonSpace c = true := by
      intro c hc
      rw [List.mem_singleton.1 hc]
      rfl
    have h := loads_renderIn_append (readable_file (toDict_wf o) hd) hblank
      (stops_cons [] (by decide))
    rwa [Json.normIn, if_neg (by decide)] at h
  have hdigest : Dict.get? o.toDict (lit "digest") = some (.str o.text) := by
    rw [← hs.digest]
    rfl
  have htruthy : (Json.str o.text).truthy = true := by
    obtain ⟨b, -, htext⟩ := bind_eq_ok.1 hs.hash
    have hlen := sha256_length b
    rw [Except.ok.inj htext] at hlen
    rw [Json.truthy, decide_eq_true_eq]
    rintro hnil
    rw [hnil] at hlen
    cases hlen
  unfold loadLine readLine
  rw [hloads]
  simp only [hdigest, if_pos htruthy, ofDict_toDict, hm]

theorem loadJsonl_written {os : List Observation} (hs : ∀ o ∈ os, o.Sealed)
    (hm : ∀ o ∈ os, Observation.make o.raw = .ok o) :
    loadJsonl (unlines (os.map jsonLine)) = .ok os := by
  have hlines : textLines (unlines (os.map jsonLine)) = (os.map jsonLine).map (· ++ [lf]) := by
    refine textLines_unlines ?_ ?_
    · intro l hl
      obtain ⟨o, ho, rfl⟩ := List.mem_map.1 hl
      exact (noBreak_file (toDict_dumpable (hs o ho))).1
    · intro l hl
      obtain ⟨o, ho, rfl⟩ := List.mem_map.1 hl
      exact (noBreak_file (toDict_dumpable (hs o ho))).2
  -- every line begins with a brace
  have hfilter : ((os.map jsonLine).map (· ++ [lf])).filter (fun line => !isBlank line) =
      (os.map jsonLine).map (· ++ [lf]) := by
    refine List.filter_eq_self.2 fun l hl => ?_
    obtain ⟨_, hl', rfl⟩ := List.mem_map.1 hl
    obtain ⟨o, -, rfl⟩ := List.mem_map.1 hl'
    have hbrace : isSpace 0x7B = false := by decide
    simp [jsonLine, Json.renderIn, isBlank, hbrace]
  rw [loadJsonl, hlines, hfilter, List.map_map]
  clear hlines hfilter
  induction os with
  | nil => rfl
  | cons o os ih =>
      have ho := loadLine_jsonLine (hs o List.mem_cons_self) (hm o List.mem_cons_self)
      have hrest := ih (fun d hd => hs d (List.mem_cons_of_mem _ hd))
        fun d hd => hm d (List.mem_cons_of_mem _ hd)
      rw [List.map_cons, mapE]
      exact bind_eq_ok.2 ⟨o, ho, bind_eq_ok.2 ⟨os, hrest, rfl⟩⟩

/-! ## Integrity -/

/-- What the bus promises after the calls: `emit` never raises, every call is counted once, what is
stored verifies against the sequencer exactly when no committed observation was lost, its JSON lines
are read back as it, and a chain is determined by its head. -/
structure TraceIntegrity (traceId : Str) (calls : List EmitCall) : Prop where
  returns : ∀ c, ∃ r, (((ObservationBus.new traceId).run calls).emit c).1 = .ok r
  counters : ((ObservationBus.new traceId).run calls).emitted +
    ((ObservationBus.new traceId).run calls).droppedByFilter +
    ((ObservationBus.new traceId).run calls).errors = calls.length
  verifies_iff : verifyChain ((ObservationBus.new traceId).run calls).stored
      (some ((ObservationBus.new traceId).run calls).sequencer.prev)
      (some ((ObservationBus.new traceId).run calls).sequencer.count) = true ↔
    ((ObservationBus.new traceId).run calls).lost = 0
  readsBack : loadJsonl (unlines (((ObservationBus.new traceId).run calls).stored.map jsonLine)) =
    .ok ((ObservationBus.new traceId).run calls).stored
  unique : ∀ xs ys head m n, verifyChain xs (some head) m = true →
    verifyChain ys (some head) n = true → CollisionFree xs ys →
      xs.map Observation.content = ys.map Observation.content

/-- What is stored verifies against the sequencer exactly when no committed observation was lost. -/
theorem verifyChain_stored {b : ObservationBus} {calls : List EmitCall} (ht : Traced b calls)
    (hids : (calls.map EmitCall.obsId).Nodup) :
    verifyChain b.stored (some b.sequencer.prev) (some b.sequencer.count) = true ↔ b.lost = 0 := by
  rw [verifyChain_iff]
  constructor
  · rintro ⟨-, -, hcount⟩
    have hlen := hcount _ rfl
    have := ht.count
    omega
  · intro hlost
    obtain ⟨hl, hhead⟩ := ht.links hlost
    refine ⟨⟨hl, ht.isSealed, nofun, ?_, ht.ids.nodup hids, fun _ _ => List.not_mem_nil⟩, ?_, ?_⟩
    · exact fun x hx y hy => (ht.traces x hx).trans (ht.traces y hy).symm
    · rintro h ⟨⟩
      exact hhead
    · rintro n ⟨⟩
      have := ht.count
      omega

theorem trace_integrity (traceId : Str) (calls : List EmitCall)
    (hids : (calls.map EmitCall.obsId).Nodup) (hfilter : ∀ c ∈ calls, c.PreservesId) :
    TraceIntegrity traceId calls := by
  have ht : Traced ((ObservationBus.new traceId).run calls) calls := traced_run hfilter
  exact ⟨fun c => emit_returns _ c, ht.counters, verifyChain_stored ht hids,
    loadJsonl_written ht.isSealed ht.made, fun _ _ _ _ _ hx hy => verifyChain_unique hx hy⟩

end

section Concrete

attribute [local instance] wholeFloats

/-- A call with an empty payload and no filter. -/
def plainCall (obsId : Str) (sinkRaises : Bool) : EmitCall where
  kind := .str (lit "custom")
  payload := some ⟨.obj [], Json.wf_empty⟩
  tags := some ⟨.null, rfl⟩
  source := .str (lit "unknown")
  obsId := obsId
  timeNs := 0
  filter := .kept
  sinkRaises := sinkRaises

/-- Three calls, of which the sink fails on the second. -/
theorem trace_integrity_three : TraceIntegrity (lit "t")
    [plainCall (lit "a") false, plainCall (lit "b") true, plainCall (lit "c") false] := by
  refine trace_integrity _ _ (by decide) ?_
  intro c hc obs obs' hkept
  simp only [List.mem_cons, List.not_mem_nil, or_false] at hc
  rcases hc with rfl | rfl | rfl <;> exact congrArg Observation.obsId (Filtered.kept.inj hkept).symm

end Concrete

end ResidualHarness.ObservationLayer
