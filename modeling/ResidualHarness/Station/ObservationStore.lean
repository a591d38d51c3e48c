import ResidualHarness.Station.Observability

/-!
# The observation store keeps its chains

Each trace has a list of observations (`Chain`): its rows are their texts, its head is theirs, and they are
linked. An append that succeeds extends the list of one trace; everything else leaves the tables of the
observations alone. From this the summary, the export and the pages are read off (`observation_store`).
-/

set_option autoImplicit false

namespace ResidualHarness.Station

open Python Core ObservationLayer

section

variable [FloatModel]

/-! ## Reading a row -/

/-- The observation with its dictionaries in key order, as it is read back. -/
def sorted (o : Observation) : Observation :=
  { o with
    payload := Fields.norm o.payload
    tags := Fields.norm o.tags
    payload_wf := by
      rw [← Fields.obj_norm]
      exact Json.wf_norm o.payload_wf
    tags_wf := by
      rw [← Fields.obj_norm]
      exact Json.wf_norm o.tags_wf }

theorem norm_sorted_body (o : Observation) :
    (Json.obj (sorted o).body).norm = (Json.obj o.body).norm := by
  have hobj : ∀ d : Fields, (Json.obj (Fields.norm d)).norm = (Json.obj d).norm := by
    intro d
    rw [← Fields.obj_norm, Json.norm_norm]
  have hmap : (sorted o).body.map (fun kv => (kv.1, kv.2.norm)) =
      o.body.map fun kv => (kv.1, kv.2.norm) := by
    simp [Observation.body, sorted, hobj]
  rw [Json.norm_obj, Json.norm_obj, ← sortFields_map, ← sortFields_map, hmap]

theorem canonicalBytes_sorted (o : Observation) :
    (sorted o).canonicalBytes = o.canonicalBytes := by
  have hcanonical : canonical (.obj (sorted o).body) = canonical (.obj o.body) := by
    unfold canonical dumps
    rw [← Json.dumpable_norm, ← Json.render_norm, norm_sorted_body, Json.dumpable_norm,
      Json.render_norm]
  unfold Observation.canonicalBytes
  rw [hcanonical]

theorem sealed_sorted {o : Observation} (h : o.Sealed) : (sorted o).Sealed := by
  refine ⟨h.version, ?_, h.digest, h.prevHash⟩
  have hhash : (sorted o).hash = o.hash := by
    unfold Observation.hash
    rw [canonicalBytes_sorted]
  rw [hhash]
  exact h.hash

theorem norm_idem (d : Fields) : Fields.norm (Fields.norm d) = Fields.norm d := by
  have h := Json.norm_norm (.obj d)
  rw [Fields.obj_norm, Fields.obj_norm] at h
  exact Json.obj.inj h

theorem dictOf_norm {d : Fields} {hd : (Json.obj d).wf = true} {hn : (Json.obj d.norm).wf = true}
    (h : dictOf (some ⟨.obj d, hd⟩) = .ok ⟨d, hd⟩) :
    dictOf (some ⟨.obj d.norm, hn⟩) = .ok ⟨d.norm, hn⟩ := by
  have hdump := (dictOf_eq h).2
  unfold dictOf
  exact if_pos (by rwa [← Fields.obj_norm, Json.dumpable_norm])

theorem made_sorted {o : Observation} (h : Observation.make o.raw = .ok o) :
    Observation.make (sorted o).raw = .ok (sorted o) := by
  have hm := made_of_make h
  obtain ⟨b, hb, hlen, hdigest⟩ := hm.bytes
  refine make_of_made ⟨hm.kind, hm.version, hm.obsId, hm.traceId, hm.source, hm.time,
    dictOf_norm hm.payload, dictOf_norm hm.tags, ?_, hm.prevHash, b, ?_, hlen, hdigest⟩
  · -- the values of the tags are strings, in any order
    rw [List.all_eq_true]
    intro kv hkv
    obtain ⟨kw, hkw, rfl⟩ := List.mem_map.1 hkv
    have hstr := List.all_eq_true.1 hm.tagsText kw (mem_sortFields.1 hkw)
    obtain ⟨k, v⟩ := kw
    cases v with
    | str s => rfl
    | _ => cases hstr
  · rw [canonicalBytes_sorted]
    exact hb

/-- The dictionary of an observation in key order. -/
def keyed (o : Observation) : Fields :=
  [(lit "digest", o.digest), (lit "kind", .str o.kind.value), (lit "obs_id", .str o.obsId),
    (lit "payload", .obj o.payload), (lit "prev_hash", o.prevHash),
    (lit "schema_version", .str o.schemaVersion), (lit "source", .str o.source),
    (lit "tags", .obj o.tags), (lit "timestamp_ns", .int o.timestampNs),
    (lit "trace_id", .str o.traceId)]

theorem norm_toDict {o : Observation} (hs : o.Sealed) :
    Fields.norm o.toDict = keyed (sorted o) := by
  have hdigest : o.digest.norm = o.digest := by
    rw [hs.digest]
    rfl
  have hprev : o.prevHash.norm = o.prevHash := by
    rw [hs.prevHash]
    rfl
  have hnorm : Fields.norm o.toDict = [(lit "digest", o.digest.norm), (lit "kind", .str o.kind.value),
      (lit "obs_id", .str o.obsId), (lit "payload", (Json.obj o.payload).norm),
      (lit "prev_hash", o.prevHash.norm), (lit "schema_version", .str o.schemaVersion),
      (lit "source", .str o.source), (lit "tags", (Json.obj o.tags).norm),
      (lit "timestamp_ns", .int o.timestampNs), (lit "trace_id", .str o.traceId)] := rfl
  rw [hnorm, hdigest, hprev, Fields.obj_norm, Fields.obj_norm]
  rfl

/-- The dictionary of an observation in key order constructs what its fields construct. -/
theorem ofDict_keyed (o : Observation) : ofDict (keyed o) = Observation.make o.raw := by
  have hkeys : ∀ k, k ∈ (keyed o).map Prod.fst ↔ k ∈ fieldNames := by
    intro k
    have hperm : ((keyed o).map Prod.fst).Perm fieldNames := by
      show [lit "digest", lit "kind", lit "obs_id", lit "payload", lit "prev_hash",
        lit "schema_version", lit "source", lit "tags", lit "timestamp_ns", lit "trace_id"].Perm
          fieldNames
      decide
    exact hperm.mem_iff
  have htags : lit "tags" ∈ (keyed o).map Prod.fst := (hkeys _).2 (by decide)
  have hsource : lit "source" ∈ (keyed o).map Prod.fst := (hkeys _).2 (by decide)
  unfold ofDict
  rw [require_of (by exact fun k hk => (hkeys k).1 hk),
    require_of (by exact fun k hk => (hkeys k).2 (List.mem_of_mem_take hk))]
  simp only [if_pos htags, if_pos hsource]
  have hargs : argOf (keyed o) "obs_id" = o.raw.obsId ∧ argOf (keyed o) "trace_id" = o.raw.traceId ∧
      argOf (keyed o) "kind" = o.raw.kind ∧ argOf (keyed o) "timestamp_ns" = o.raw.timestampNs ∧
      argOf (keyed o) "schema_version" = o.raw.schemaVersion ∧
      argOf (keyed o) "prev_hash" = o.raw.prevHash ∧ argOf (keyed o) "payload" = o.raw.payload ∧
      argOf (keyed o) "tags" = o.raw.tags ∧ argOf (keyed o) "source" = o.raw.source ∧
      argOf (keyed o) "digest" = o.raw.digest :=
    ⟨argOf_eq rfl rfl, argOf_eq rfl rfl, argOf_eq rfl rfl, argOf_eq rfl rfl, argOf_eq rfl rfl,
      argOf_eq rfl o.prevHash_wf, argOf_eq rfl o.payload_wf, argOf_eq rfl o.tags_wf,
      argOf_eq rfl rfl, argOf_eq rfl o.digest_wf⟩
  obtain ⟨h1, h2, h3, h4, h5, h6, h7, h8, h9, h10⟩ := hargs
  rw [h1, h2, h3, h4, h5, h6, h7, h8, h9, h10]
  rfl

/-- An observation that can be written and read. -/
structure Storable (o : Observation) : Prop where
  isSealed : o.Sealed
  made : Observation.make o.raw = .ok o

theorem loads_rowText {o : Observation} (h : Storable o) :
    loads (rowText o) = some (.obj (keyed (sorted o))) := by
  rw [rowText, loads_render (toDict_wf o) (toDict_dumpable h.isSealed), Fields.obj_norm,
    norm_toDict h.isSealed]

theorem readValue_rowText {o : Observation} (h : Storable o) :
    readValue (rowText o) = .ok (sorted o) := by
  unfold readValue
  rw [loads_rowText h]
  simp only [ofDict_keyed, made_sorted h.made]

theorem readValues {os : List Observation} (h : ∀ o ∈ os, Storable o) :
    mapE readValue (os.map rowText) = .ok (os.map sorted) := by
  induction os with
  | nil => rfl
  | cons o os ih =>
      have ho := readValue_rowText (h o List.mem_cons_self)
      have hos := ih fun p hp => h p (List.mem_cons_of_mem _ hp)
      exact bind_eq_ok.2 ⟨_, ho, bind_eq_ok.2 ⟨_, hos, rfl⟩⟩

/-- The canonical text of what was read back is the text of the row. -/
theorem canonical_sorted {o : Observation} (h : Storable o) :
    canonical (.obj (sorted o).toDict) = .ok (rowText o) := by
  have hd := toDict_dumpable (sealed_sorted h.isSealed)
  have hdict : (Json.obj (sorted o).toDict).norm = (Json.obj o.toDict).norm := by
    have hsorted : keyed (sorted (sorted o)) = keyed (sorted o) := by
      simp only [keyed, sorted, norm_idem]
    rw [Fields.obj_norm, Fields.obj_norm, norm_toDict h.isSealed,
      norm_toDict (sealed_sorted h.isSealed), hsorted]
  unfold canonical dumps
  rw [if_pos hd, rowText, ← Json.render_norm, hdict, Json.render_norm]

/-! ## Appends -/

/-- All that an append that succeeds does. -/
structure Appended (t : Tables) (trace : Str) (a : Append) (t' : Tables) (o : Observation) : Prop where
  obsId : o.obsId = a.obsId
  traceId : o.traceId = trace
  prev : o.prevText = (t.head trace).1
  storable : Storable o
  tables : t' = { t.insert trace o with heads := t.heads.set trace (o.text, (t.head trace).2 + 1) }

theorem append_ok {t t' : Tables} {trace : Str} {a : Append} {kind payload tags source : Arg}
    {o : Observation} (h : t.append trace a kind payload tags source = (t', .ok o)) :
    Appended t trace a t' o ∧ payload.map Subtype.val = some (.obj o.payload) := by
  unfold Tables.append at h
  cases hseal : sealNext t trace a kind payload tags source with
  | error e =>
      rw [hseal] at h
      cases h
  | ok os =>
      obtain ⟨o', s⟩ := os
      rw [hseal] at h
      obtain ⟨_, -, hseal⟩ := bind_eq_ok.1 hseal
      obtain ⟨draft, hdraft, hcommit⟩ := bind_eq_ok.1 hseal
      obtain ⟨hid, htrace, hprev, hsealed, hmade, rfl⟩ := commit_ok hcommit
      -- the payload goes through both constructors
      have hpayload : o'.payload = draft.payload := by
        obtain ⟨o'', hmake, hcommit⟩ := bind_eq_ok.1 hcommit
        cases Except.ok.inj hcommit
        have := (dictOf_eq (made_of_make hmake).payload).1
        exact (Json.obj.inj (congrArg Subtype.val (Option.some.inj this))).symm
      have hgiven := (dictOf_eq (made_of_make hdraft).payload).1
      simp only at h
      cases hfault : a.fault with
      | none =>
          rw [hfault] at h
          cases h
          refine ⟨⟨hid.trans (draft_obsId hdraft), htrace, hprev, ⟨hsealed, hmade⟩, rfl⟩, ?_⟩
          rw [hpayload]
          exact congrArg (Option.map Subtype.val) hgiven
      | some f =>
          rw [hfault] at h
          cases f <;> cases h

/-- The observations of a trace: their texts are its rows, and their head is its head. -/
structure Chain (t : Tables) (trace : Str) (os : List Observation) : Prop where
  values : (t.rows trace).map ObservationRow.value = os.map rowText
  head : t.head trace = (linkHead Observation.text genesisHash os, os.length)
  links : Links Observation.prevText Observation.text genesisHash os
  storable : ∀ o ∈ os, Storable o
  traces : ∀ o ∈ os, o.traceId = trace

/-- A chain is about the observations and the heads only. -/
theorem Chain.congr {t t' : Tables} {trace : Str} {os : List Observation} (h : Chain t trace os)
    (hobservations : t'.observations = t.observations) (hheads : t'.heads = t.heads) :
    Chain t' trace os := by
  refine ⟨?_, ?_, h.links, h.storable, h.traces⟩
  · rw [Tables.rows, hobservations]
    exact h.values
  · rw [Tables.head, hheads]
    exact h.head

/-- The tables agree with each other: the invariant, with the ids that were drawn so far. -/
structure Coherent (t : Tables) (drawn : List Str) : Prop where
  chains : ∀ trace, ∃ os, Chain t trace os ∧ (os.map Observation.obsId).Sublist drawn
  increasing : Increasing ObservationRow.seq t.observations
  positive : ∀ r ∈ t.observations, 0 < r.seq
  mirrors : (t.mirrors.map Prod.snd).Sublist (t.store.events.map EventRow.hash)
  mirrored : ∀ m ∈ t.mirrors, ∃ r ∈ t.observations, r.seq = m.1 ∧ ∃ o, readValue r.value = .ok o ∧
    Fields.get? o.payload (lit "event_hash") = some (.str m.2)

theorem coherent_empty : Coherent Tables.empty [] :=
  ⟨fun _ => ⟨[], ⟨rfl, rfl, trivial, nofun, nofun⟩, List.nil_sublist _⟩, .nil, nofun, List.nil_sublist _,
    nofun⟩

theorem Coherent.more {t : Tables} {drawn : List Str} (h : Coherent t drawn) (ids : List Str) :
    Coherent t (drawn ++ ids) :=
  { h with
    chains := fun trace => by
      obtain ⟨os, hchain, hids⟩ := h.chains trace
      exact ⟨os, hchain, hids.trans (List.sublist_append_left _ _)⟩ }

theorem Coherent.lt_nextRow {t : Tables} {drawn : List Str} (h : Coherent t drawn) :
    0 < t.nextRow ∧ ∀ r ∈ t.observations, r.seq < t.nextRow := by
  obtain ⟨hle, hkeys⟩ := pageEnd_spec h.increasing h.positive
  rw [Tables.nextRow]
  exact ⟨by omega, fun r hr => Int.lt_add_one_of_le (hkeys r hr)⟩

theorem rows_insert (t : Tables) (trace other : Str) (o : Observation) :
    (t.insert trace o).rows other = t.rows other ++ if trace = other then
      [⟨t.nextRow, trace, o.kind.value, providerOf o.tags, rowText o⟩] else [] := by
  rw [Tables.rows, Tables.rows, Tables.insert, List.filter_append]
  congr 1
  by_cases h : trace = other
  · simp [h]
  · simp [h]

/-- An append extends the chain of its trace and no other. -/
theorem Appended.coherent {t t' : Tables} {trace : Str} {a : Append} {o : Observation}
    {drawn : List Str} (h : Appended t trace a t' o) (hc : Coherent t drawn) :
    Coherent t' (drawn ++ [a.obsId]) := by
  obtain ⟨hpos, hlt⟩ := hc.lt_nextRow
  have htables := h.tables
  subst htables
  refine ⟨fun other => ?_, ?_, ?_, hc.mirrors, ?_⟩
  · obtain ⟨os, hchain, hids⟩ := hc.chains other
    have hrows : ∀ heads, Tables.rows { t.insert trace o with heads := heads } other =
        (t.insert trace o).rows other := fun _ => rfl
    by_cases hsame : trace = other
    · subst hsame
      refine ⟨os ++ [o], ⟨?_, ?_, ?_, ?_, ?_⟩, ?_⟩
      · rw [hrows, rows_insert, if_pos rfl, List.map_append, hchain.values, List.map_append]
        rfl
      · rw [Tables.head, Dict.get?_set, if_pos rfl, linkHead_append, hchain.head]
        simp [linkHead]
      · rw [links_append]
        refine ⟨hchain.links, ?_, trivial⟩
        rw [h.prev, hchain.head]
      · exact List.forall_mem_append.2 ⟨hchain.storable, List.forall_mem_singleton.2 h.storable⟩
      · exact List.forall_mem_append.2 ⟨hchain.traces, List.forall_mem_singleton.2 h.traceId⟩
      · rw [List.map_append, List.map_singleton, h.obsId]
        exact hids.append_right [a.obsId]
    · refine ⟨os, ⟨?_, ?_, hchain.links, hchain.storable, hchain.traces⟩,
        hids.trans (List.sublist_append_left _ _)⟩
      · rw [hrows, rows_insert, if_neg hsame, List.append_nil]
        exact hchain.values
      · rw [Tables.head, Dict.get?_set, if_neg (Ne.symm hsame)]
        exact hchain.head
  · refine List.pairwise_append.2 ⟨hc.increasing, List.pairwise_singleton _ _, ?_⟩
    intro r hr q hq
    rw [List.mem_singleton.1 hq]
    exact hlt r hr
  · exact List.forall_mem_append.2 ⟨hc.positive, List.forall_mem_singleton.2 hpos⟩
  · intro m hm
    obtain ⟨r, hr, hmr⟩ := hc.mirrored m hm
    exact ⟨r, List.mem_append_left _ hr, hmr⟩

/-! ## Steps -/

/-- The observation ids that an action draws. -/
def StationAction.draws : StationAction → List Str
  | .transact admissions _ => admissions.map fun a => a.mirror.obsId
  | .emit _ _ _ _ _ _ a => [a.obsId]
  | .enable _ => []

/-- The tables with another event, which has no mirror yet. -/
theorem Coherent.event {t : Tables} {drawn : List Str} (h : Coherent t drawn) {store : Store}
    {rows : List EventRow} (hs : store.events = t.store.events ++ rows) :
    Coherent { t with store := store } drawn :=
  { h with
    chains := fun trace => by
      obtain ⟨os, hchain, hids⟩ := h.chains trace
      exact ⟨os, hchain.congr rfl rfl, hids⟩
    mirrors := by
      rw [hs, List.map_append]
      exact h.mirrors.trans (List.sublist_append_left _ _) }

/-- The mirror is there, with the hash of its event, or the tables are as they were. -/
theorem observeWorkflow_cases (w : Observing) (e : Event) (eventHash : Str) (a : Append) :
    (w.observeWorkflow e eventHash a).tables = w.tables ∨ ∃ t o,
      Appended w.tables e.projectId a t o ∧ (w.observeWorkflow e eventHash a).failures = w.failures ∧
        Fields.get? o.payload (lit "event_hash") = some (.str eventHash) ∧
          (w.observeWorkflow e eventHash a).tables =
            { t with mirrors := w.tables.mirrors ++ [(w.tables.nextRow, eventHash)] } := by
  unfold Observing.observeWorkflow
  split
  · cases hpayload : mirrorPayload e eventHash with
    | error x => exact .inl rfl
    | ok payload =>
        simp only
        split
        · rename_i tables o happend
          obtain ⟨happended, hgiven⟩ := append_ok happend
          have hsame : o.payload = payload := by
            unfold argument at hgiven
            split at hgiven
            · exact (Json.obj.inj (Option.some.inj hgiven)).symm
            · cases hgiven
          refine .inr ⟨tables, o, happended, rfl, ?_, ?_⟩
          · rw [hsame]
            unfold mirrorPayload at hpayload
            split at hpayload
            · obtain ⟨start, -, hpayload⟩ := bind_eq_ok.1 hpayload
              obtain ⟨target, -, hpayload⟩ := bind_eq_ok.1 hpayload
              cases Except.ok.inj hpayload
              rfl
            · cases Except.ok.inj hpayload
              rfl
          · rw [happended.tables]
            rfl
        · exact .inl rfl
  · exact .inl rfl

theorem mirrorLast_coherent {w : Observing} {drawn : List Str} (h : Coherent w.tables drawn)
    {store : Store} {row : EventRow} (hs : store.events = w.tables.store.events ++ [row]) (a : Append) :
    Coherent (w.mirrorLast store a).tables (drawn ++ [a.obsId]) := by
  have hevent := h.event hs
  have hlast : store.events.getLast? = some row := by rw [hs, List.getLast?_concat]
  unfold Observing.mirrorLast
  simp only [hlast]
  rcases observeWorkflow_cases { w with tables := { w.tables with store := store } } row.event row.hash a
    with hsame | ⟨t, o, happended, -, hhash, htables⟩
  · rw [hsame]
    exact hevent.more _
  · rw [htables]
    have hc := happended.coherent hevent
    have ht := happended.tables
    refine ⟨fun trace => ?_, hc.increasing, hc.positive, ?_, ?_⟩
    · obtain ⟨os, hchain, hids⟩ := hc.chains trace
      exact ⟨os, hchain.congr rfl rfl, hids⟩
    · -- the event of the new mirror is the last one
      have hstore : t.store = store := by rw [ht]; rfl
      simp only [hstore, hs, List.map_append, List.map_singleton]
      exact h.mirrors.append_right [row.hash]
    · intro m hm
      rcases List.mem_append.1 hm with hm | hm
      · obtain ⟨r, hr, hmr⟩ := hevent.mirrored m hm
        refine ⟨r, ?_, hmr⟩
        rw [ht]
        exact List.mem_append_left _ hr
      · rw [List.mem_singleton.1 hm]
        have hread := readValue_rowText happended.storable
        have hnodup : (o.payload.map Prod.fst).Nodup := by
          have hwf := o.payload_wf
          rw [Json.wf, Bool.and_eq_true, decide_eq_true_eq] at hwf
          exact hwf.1
        have hnew : ⟨w.tables.nextRow, row.event.projectId, o.kind.value, providerOf o.tags, rowText o⟩ ∈
            t.observations := by
          rw [ht]
          exact List.mem_append_right w.tables.observations (List.mem_singleton.2 rfl)
        refine ⟨_, hnew, rfl, sorted o, hread, ?_⟩
        show Fields.get? (Fields.norm o.payload) (lit "event_hash") = _
        rw [Fields.get?_norm hnodup, hhash]
        rfl

theorem admitAll_coherent (admissions : List Admission) : ∀ {w : Observing} {drawn : List Str},
    Coherent w.tables drawn → Coherent (w.admitAll admissions).1.tables
      (drawn ++ admissions.map fun a => a.mirror.obsId) := by
  induction admissions with
  | nil =>
      intro w drawn h
      simpa [Observing.admitAll] using h
  | cons a as ih =>
      intro w drawn h
      rw [Observing.admitAll]
      cases hinsert : a.insert w.tables.store with
      | error e => exact h.more _
      | ok store =>
          obtain ⟨row, hrow⟩ := insertEvent_ok hinsert
          have := ih (mirrorLast_coherent h (congrArg Store.events hrow.store) a.mirror)
          simpa using this

theorem emit_cases (w : Observing) (trace : Str) (own : Fields) (kind payload tags source : Arg)
    (a : Append) : (w.emit trace own kind payload tags source a).1.tables = w.tables ∨
      ∃ o, Appended w.tables trace a (w.emit trace own kind payload tags source a).1.tables o := by
  unfold Observing.emit
  split
  · split
    · exact .inl rfl
    · split
      · rename_i happend
        exact .inr ⟨_, (append_ok happend).1⟩
      · exact .inl rfl
  · exact .inl rfl

theorem step_coherent {w : Observing} {drawn : List Str} (h : Coherent w.tables drawn)
    (action : StationAction) : Coherent (w.step action).tables (drawn ++ action.draws) := by
  cases action with
  | transact admissions fails =>
      simp only [Observing.step]
      split
      · exact h.more _
      · exact admitAll_coherent admissions h
  | emit trace own kind payload tags source a =>
      rcases emit_cases w trace own kind payload tags source a with hsame | ⟨o, happended⟩
      · simp only [Observing.step, hsame]
        exact h.more _
      · exact happended.coherent h
  | enable value =>
      simp only [StationAction.draws, List.append_nil]
      refine ⟨fun trace => ?_, h.increasing, h.positive, h.mirrors, h.mirrored⟩
      obtain ⟨os, hchain, hids⟩ := h.chains trace
      exact ⟨os, hchain.congr rfl rfl, hids⟩

theorem run_coherent (actions : List StationAction) :
    Coherent (Observing.new.run actions).tables (actions.flatMap StationAction.draws) := by
  induction actions using List.reverseRecOn with
  | nil => exact coherent_empty
  | append_singleton actions action ih =>
      rw [Observing.run, List.foldl_append, List.flatMap_append, List.flatMap_singleton]
      exact step_coherent ih action

/-! ## Growth -/

theorem Appended.grows {t t' : Tables} {trace : Str} {a : Append} {o : Observation}
    (h : Appended t trace a t' o) : t.observations <+: t'.observations := by
  rw [h.tables]
  exact List.prefix_append _ _

theorem mirrorLast_grows (w : Observing) (store : Store) (a : Append) :
    w.tables.observations <+: (w.mirrorLast store a).tables.observations := by
  unfold Observing.mirrorLast
  simp only
  split
  · rename_i row _
    rcases observeWorkflow_cases { w with tables := { w.tables with store := store } } row.event row.hash
      a with hsame | ⟨t, o, happended, -, -, htables⟩
    · rw [hsame]
    · rw [htables]
      exact happended.grows
  · exact List.prefix_rfl

theorem admitAll_grows (admissions : List Admission) : ∀ w : Observing,
    w.tables.observations <+: (w.admitAll admissions).1.tables.observations := by
  induction admissions with
  | nil => exact fun w => List.prefix_rfl
  | cons a as ih =>
      intro w
      rw [Observing.admitAll]
      cases a.insert w.tables.store with
      | error e => exact List.prefix_rfl
      | ok store => exact (mirrorLast_grows w store a.mirror).trans (ih _)

theorem step_grows (w : Observing) (action : StationAction) :
    w.tables.observations <+: (w.step action).tables.observations := by
  cases action with
  | transact admissions fails =>
      simp only [Observing.step]
      split
      · exact List.prefix_rfl
      · exact admitAll_grows admissions w
  | emit trace own kind payload tags source a =>
      rcases emit_cases w trace own kind payload tags source a with hsame | ⟨o, happended⟩
      · rw [Observing.step, hsame]
      · exact happended.grows
  | enable value => exact List.prefix_rfl

theorem run_grows (w : Observing) (actions : List StationAction) :
    w.tables.observations <+: (w.run actions).tables.observations := by
  induction actions generalizing w with
  | nil => exact List.prefix_rfl
  | cons action actions ih => exact (step_grows w action).trans (ih _)

/-! ## Readers -/

theorem links_sorted (os : List Observation) : ∀ p,
    Links Observation.prevText Observation.text p (os.map sorted) ↔
      Links Observation.prevText Observation.text p os := by
  induction os with
  | nil => exact fun p => Iff.rfl
  | cons o os ih => exact fun p => and_congr Iff.rfl (ih _)

theorem linkHead_sorted (os : List Observation) : ∀ p,
    linkHead Observation.text p (os.map sorted) = linkHead Observation.text p os := by
  induction os with
  | nil => exact fun p => rfl
  | cons o os ih => exact fun p => ih _

/-- What was read back of a chain verifies against its head. -/
theorem Chain.verifies {t : Tables} {trace : Str} {os : List Observation} (h : Chain t trace os)
    (hids : (os.map Observation.obsId).Nodup) :
    verifyChain (os.map sorted) (some (t.head trace).1) (some (t.head trace).2) = true := by
  rw [verifyChain_iff, h.head]
  refine ⟨⟨(links_sorted os _).2 h.links, ?_, nofun, ?_, ?_, fun _ _ => List.not_mem_nil⟩, ?_, ?_⟩
  · intro o ho
    obtain ⟨p, hp, rfl⟩ := List.mem_map.1 ho
    exact sealed_sorted (h.storable p hp).isSealed
  · intro a ha b hb
    obtain ⟨p, hp, rfl⟩ := List.mem_map.1 ha
    obtain ⟨q, hq, rfl⟩ := List.mem_map.1 hb
    exact (h.traces p hp).trans (h.traces q hq).symm
  · rw [List.map_map]
    exact hids
  · rintro head ⟨⟩
    exact linkHead_sorted os _
  · rintro n ⟨⟩
    exact List.length_map _

theorem Chain.length {t : Tables} {trace : Str} {os : List Observation} (h : Chain t trace os) :
    (t.rows trace).length = os.length := by
  have := congrArg List.length h.values
  simpa using this

/-- A summary of a chain is verified, and counts its rows. -/
theorem Chain.summary {w : Observing} {trace : Str} {os : List Observation}
    (h : Chain w.tables trace os) (hids : (os.map Observation.obsId).Nodup) {s : Summary}
    (hs : w.summary trace = .ok s) : s.verified = true ∧ s.eventCount = (w.tables.rows trace).length ∧
      s.headHash = (w.tables.head trace).1 := by
  obtain ⟨_, -, hs⟩ := bind_eq_ok.1 hs
  cases Except.ok.inj hs
  refine ⟨?_, ?_, rfl⟩
  · simp only [h.values, readValues h.storable]
    exact h.verifies hids
  · rw [h.length]
    exact congrArg Prod.snd h.head

/-- The text of an export: the rows of a trace, one a line. -/
def exported (rows : List ObservationRow) : Str :=
  [lf].intercalate (rows.map ObservationRow.value) ++ [lf]

/-- An export is of the rows that its summary verified, whatever was appended since. -/
theorem Chain.exports {w : Observing} {trace : Str} {os : List Observation}
    (h : Chain w.tables trace os) (hids : (os.map Observation.obsId).Nodup) {s : Summary}
    (hs : w.summary trace = .ok s) {later : Tables}
    (hgrows : w.tables.observations <+: later.observations) :
    later.exportFrom trace s = .ok (exported (w.tables.rows trace)) := by
  obtain ⟨hverified, hcount, hhead⟩ := h.summary hids hs
  have hrows : (later.rows trace).take s.eventCount = w.tables.rows trace := by
    obtain ⟨more, hmore⟩ := hgrows
    rw [Tables.rows, ← hmore, List.filter_append, hcount]
    exact List.take_left
  have hcount' : s.eventCount = (w.tables.head trace).2 := by
    rw [hcount, h.length]
    exact (congrArg Prod.snd h.head).symm
  have hlines : mapE (fun o => canonical (.obj (Observation.toDict o))) (os.map sorted) =
      .ok (os.map rowText) := by
    have hstorable := h.storable
    clear h hids
    induction os with
    | nil => rfl
    | cons o os ih =>
        have ho := canonical_sorted (hstorable o List.mem_cons_self)
        have hos := ih fun p hp => hstorable p (List.mem_cons_of_mem _ hp)
        exact bind_eq_ok.2 ⟨_, ho, bind_eq_ok.2 ⟨_, hos, rfl⟩⟩
  unfold Tables.exportFrom
  rw [require_of hverified, hrows, h.values, readValues h.storable]
  refine bind_eq_ok.2 ⟨(), rfl, bind_eq_ok.2 ⟨_, rfl, bind_eq_ok.2 ⟨(), require_of ?_,
    bind_eq_ok.2 ⟨_, hlines, ?_⟩⟩⟩⟩
  · rw [hhead, hcount']
    exact h.verifies hids
  · rw [exported, h.values]
    rfl

/-! ## Pages -/

omit [FloatModel] in
theorem mapE_append {α β : Type} {f : α → Except PyExn β} {l m : List α} {a b : List β}
    (hl : mapE f l = .ok a) (hm : mapE f m = .ok b) : mapE f (l ++ m) = .ok (a ++ b) := by
  induction l generalizing a with
  | nil =>
      cases hl
      exact hm
  | cons x l ih =>
      obtain ⟨y, hy, hl⟩ := bind_eq_ok.1 hl
      obtain ⟨ys, hys, hl⟩ := bind_eq_ok.1 hl
      cases Except.ok.inj hl
      exact bind_eq_ok.2 ⟨y, hy, bind_eq_ok.2 ⟨ys ++ b, ih hys, rfl⟩⟩

theorem Coherent.shows {t : Tables} {drawn : List Str} (h : Coherent t drawn)
    {r : ObservationRow} (hr : r ∈ t.observations) : ∃ d, pageEvent r = .ok d := by
  obtain ⟨os, hchain, -⟩ := h.chains r.trace
  have hrow : r ∈ t.rows r.trace := List.mem_filter.2 ⟨hr, decide_eq_true rfl⟩
  have hvalue := List.mem_map_of_mem (f := ObservationRow.value) hrow
  rw [hchain.values] at hvalue
  obtain ⟨o, ho, hvalue⟩ := List.mem_map.1 hvalue
  unfold pageEvent
  rw [← hvalue, loads_rowText (hchain.storable o ho)]
  exact ⟨_, rfl⟩

/-- A reader that follows `next_cursor`, with what happens before each page: the events it was shown, its
cursor and the store. -/
def follow (trace kind provider : Str) : Observing → Int → List (List StationAction × Int) →
    Except PyExn (List Fields × Int × Observing)
  | w, after, [] => .ok ([], after, w)
  | w, after, (actions, limit) :: visits => do
      let w := w.run actions
      let p ← w.tables.page trace after limit kind provider
      let (events, after, w) ← follow trace kind provider w p.nextCursor visits
      return (p.events ++ events, after, w)

/-- A query that `observations` accepts. -/
structure Query (trace kind provider : Str) (visits : List (List StationAction × Int)) : Prop where
  kind : kind = [] ∨ kind ∈ ObservationKind.all.map ObservationKind.value
  trace : encodable trace = true
  provider : encodable provider = true
  limits : ∀ v ∈ visits, 1 ≤ v.2 ∧ v.2 ≤ 500

/-- The rows that match, up to a cursor. -/
def readUpTo (t : Tables) (trace kind provider : Str) (cursor : Int) : List ObservationRow :=
  upTo ObservationRow.seq cursor (t.matching trace kind provider)

/-- A cursor: 0 or the key of a row. -/
def IsCursor (t : Tables) (cursor : Int) : Prop :=
  cursor = 0 ∨ ∃ r ∈ t.observations, r.seq = cursor

theorem readUpTo_grows {t t' : Tables} {drawn : List Str} (h : Coherent t' drawn)
    (hgrows : t.observations <+: t'.observations) {cursor : Int} (hcursor : IsCursor t cursor)
    (trace kind provider : Str) :
    readUpTo t' trace kind provider cursor = readUpTo t trace kind provider cursor := by
  obtain ⟨more, hmore⟩ := hgrows
  have hinc := h.increasing
  have hpos := h.positive
  rw [← hmore] at hinc hpos
  obtain ⟨-, -, hlater⟩ := increasing_append hinc
  unfold readUpTo Tables.matching
  rw [← hmore, List.filter_append, upTo_append]
  refine (congrArg _ (upTo_eq_nil fun r hr => ?_)).trans (List.append_nil _)
  have hmem := List.mem_of_mem_filter hr
  rcases hcursor with rfl | ⟨q, hq, rfl⟩
  · exact hpos r (List.mem_append_right _ hmem)
  · exact hlater q hq r hmem

/-- One page: the events of the next rows, and whether there are more. -/
theorem Coherent.page {t : Tables} {drawn : List Str} (h : Coherent t drawn)
    {trace kind provider : Str} {cursor limit : Int} (hcursor : IsCursor t cursor)
    (hkind : kind = [] ∨ kind ∈ ObservationKind.all.map ObservationKind.value)
    (htrace : encodable trace = true) (hprovider : encodable provider = true)
    (hlimit : 1 ≤ limit ∧ limit ≤ 500) : ∃ p shown, t.page trace cursor limit kind provider = .ok p ∧
      mapE pageEvent shown = .ok p.events ∧ IsCursor t p.nextCursor ∧
      readUpTo t trace kind provider p.nextCursor = readUpTo t trace kind provider cursor ++ shown ∧
      (p.hasMore = false ↔
        readUpTo t trace kind provider p.nextCursor = t.matching trace kind provider) := by
  have hinc : Increasing ObservationRow.seq (t.matching trace kind provider) := h.increasing.filter _
  have hsub : ∀ r ∈ t.matching trace kind provider, r ∈ t.observations := fun r hr =>
    List.mem_of_mem_filter hr
  have hshown : (Python.page ObservationRow.seq cursor (limit.toNat + 1)
      (t.matching trace kind provider)).take limit.toNat =
        Python.page ObservationRow.seq cursor limit.toNat (t.matching trace kind provider) := by
    rw [Python.page, Python.page, List.take_take, Nat.min_eq_left (Nat.le_succ _)]
  have hmem : ∀ r ∈ Python.page ObservationRow.seq cursor limit.toNat (t.matching trace kind provider),
      r ∈ t.observations := fun r hr =>
    hsub r (List.mem_of_mem_filter (List.mem_of_mem_take hr))
  obtain ⟨events, hevents⟩ := exists_mapE fun r hr => h.shows (hmem r hr)
  have hpos : 0 ≤ cursor := by
    rcases hcursor with rfl | ⟨r, hr, rfl⟩
    · exact le_refl _
    · exact le_of_lt (h.positive r hr)
  refine ⟨⟨events, decide (limit.toNat < (Python.page ObservationRow.seq cursor (limit.toNat + 1)
      (t.matching trace kind provider)).length), pageEnd ObservationRow.seq cursor
        (Python.page ObservationRow.seq cursor limit.toNat (t.matching trace kind provider))⟩, _, ?_,
    hevents, ?_, upTo_pageEnd hinc cursor limit.toNat, ?_⟩
  · unfold Tables.page
    rw [require_of hkind, require_of ⟨hpos, hlimit⟩, utf8_of_encodable htrace,
      utf8_of_encodable hprovider]
    refine bind_eq_ok.2 ⟨(), rfl, bind_eq_ok.2 ⟨(), rfl, bind_eq_ok.2 ⟨_, rfl, bind_eq_ok.2 ⟨_, rfl, ?_⟩⟩⟩⟩
    simp only [hshown]
    exact bind_eq_ok.2 ⟨_, hevents, rfl⟩
  · -- the cursor is the last key of the page, or stays
    show IsCursor t (pageEnd ObservationRow.seq cursor _)
    rw [pageEnd]
    cases hlast : (Python.page ObservationRow.seq cursor limit.toNat
        (t.matching trace kind provider)).getLast? with
    | none => exact hcursor
    | some r => exact .inr ⟨r, hmem r (List.mem_of_getLast? hlast), rfl⟩
  · -- no more rows: the unread ones fit on the page
    have hsplit := upTo_append_unread hinc (pageEnd ObservationRow.seq cursor
      (Python.page ObservationRow.seq cursor limit.toNat (t.matching trace kind provider)))
    rw [unread_pageEnd hinc] at hsplit
    have hall : readUpTo t trace kind provider (pageEnd ObservationRow.seq cursor (Python.page
        ObservationRow.seq cursor limit.toNat (t.matching trace kind provider))) =
          t.matching trace kind provider ↔
        (unread ObservationRow.seq cursor (t.matching trace kind provider)).drop limit.toNat = [] := by
      constructor
      · intro heq
        rw [readUpTo] at heq
        rw [heq] at hsplit
        exact List.append_right_eq_self.1 hsplit
      · intro hnil
        rw [hnil, List.append_nil] at hsplit
        exact hsplit
    simp only
    rw [hall, decide_eq_false_iff_not, List.drop_eq_nil_iff, Python.page, List.length_take]
    omega

theorem IsCursor.grows {t t' : Tables} {cursor : Int} (h : IsCursor t cursor)
    (hgrows : t.observations <+: t'.observations) : IsCursor t' cursor := by
  rcases h with rfl | ⟨r, hr, rfl⟩
  · exact .inl rfl
  · exact .inr ⟨r, hgrows.subset hr, rfl⟩

theorem run_append (w : Observing) (as bs : List StationAction) : w.run (as ++ bs) = (w.run as).run bs :=
  List.foldl_append

/-- Whatever happens between the pages, a reader is shown the rows up to its cursor, each once. -/
theorem follow_spec {trace kind provider : Str} (visits : List (List StationAction × Int)) :
    Query trace kind provider visits → ∀ (before : List StationAction) {cursor : Int} {read : List Fields},
    IsCursor (Observing.new.run before).tables cursor →
    mapE pageEvent (readUpTo (Observing.new.run before).tables trace kind provider cursor) = .ok read →
      ∃ events cursor' after, follow trace kind provider (Observing.new.run before) cursor visits =
          .ok (events, cursor', Observing.new.run after) ∧
        mapE pageEvent (readUpTo (Observing.new.run after).tables trace kind provider cursor') =
          .ok (read ++ events) := by
  induction visits with
  | nil =>
      intro _ before cursor read _ hread
      exact ⟨[], cursor, before, rfl, by rw [List.append_nil]; exact hread⟩
  | cons visit visits ih =>
      intro hquery before cursor read hcursor hread
      obtain ⟨actions, limit⟩ := visit
      have hlimit := hquery.limits _ List.mem_cons_self
      have hrun := run_append Observing.new before actions
      have hgrows := run_grows (Observing.new.run before) actions
      rw [← hrun] at hgrows
      have hcoherent := run_coherent (before ++ actions)
      obtain ⟨p, shown, hpage, hevents, hnext, hreads, -⟩ := hcoherent.page (hcursor.grows hgrows)
        hquery.kind hquery.trace hquery.provider hlimit
      rw [← readUpTo_grows hcoherent hgrows hcursor trace kind provider] at hread
      have hread' := mapE_append hread hevents
      rw [← hreads] at hread'
      obtain ⟨events, cursor', after, hfollow, hafter⟩ := ih
        ⟨hquery.kind, hquery.trace, hquery.provider,
          fun v hv => hquery.limits v (List.mem_cons_of_mem _ hv)⟩ (before ++ actions) hnext hread'
      refine ⟨p.events ++ events, cursor', after, ?_, by rw [← List.append_assoc]; exact hafter⟩
      rw [follow]
      simp only [← hrun]
      exact bind_eq_ok.2 ⟨p, hpage, bind_eq_ok.2 ⟨_, hfollow, rfl⟩⟩

/-! ## Admissions -/

/-- The store of a transaction that admits these events, without any observation. -/
def insertAll : Store → List Admission → Except PyExn Store
  | s, [] => .ok s
  | s, a :: as => do insertAll (← a.insert s) as

/-- The tables of the events after an action, whatever happens to the observations. -/
def storeAfter (s : Store) : StationAction → Store
  | .transact admissions fails =>
      match insertAll s admissions with
      | .ok s' => if fails = true then s else s'
      | .error _ => s
  | _ => s

theorem mirrorLast_store (w : Observing) (store : Store) (a : Append) :
    (w.mirrorLast store a).tables.store = store := by
  unfold Observing.mirrorLast
  simp only
  split
  · rename_i row _
    rcases observeWorkflow_cases { w with tables := { w.tables with store := store } } row.event row.hash
      a with hsame | ⟨t, o, happended, -, -, htables⟩
    · rw [hsame]
    · rw [htables]
      simp only
      rw [happended.tables]
      rfl
  · rfl

theorem admitAll_store (admissions : List Admission) : ∀ w : Observing,
    match insertAll w.tables.store admissions with
    | .ok s => (w.admitAll admissions).1.tables.store = s ∧ (w.admitAll admissions).2 = false
    | .error _ => (w.admitAll admissions).2 = true := by
  induction admissions with
  | nil => exact fun w => ⟨rfl, rfl⟩
  | cons a as ih =>
      intro w
      rw [insertAll, Observing.admitAll]
      cases a.insert w.tables.store with
      | error e => rfl
      | ok store =>
          have h := ih (w.mirrorLast store a.mirror)
          rw [mirrorLast_store] at h
          exact h

/-- The admission of events does not depend on their mirrors. -/
theorem step_store (w : Observing) (action : StationAction) :
    (w.step action).tables.store = storeAfter w.tables.store action := by
  cases action with
  | transact admissions fails =>
      have h := admitAll_store admissions w
      simp only [Observing.step, storeAfter]
      cases hinsert : insertAll w.tables.store admissions with
      | error e =>
          rw [hinsert] at h
          rw [if_pos (.inl h)]
      | ok s =>
          rw [hinsert] at h
          obtain ⟨hstore, hfailed⟩ := h
          cases fails with
          | true =>
              rw [if_pos (.inr rfl)]
              rfl
          | false =>
              rw [if_neg (by simp [hfailed])]
              exact hstore
  | emit trace own kind payload tags source a =>
      rcases emit_cases w trace own kind payload tags source a with hsame | ⟨o, happended⟩
      · rw [Observing.step, hsame]
        rfl
      · rw [Observing.step, happended.tables]
        rfl
  | enable value => rfl

/-! ## The store -/

/-- What the observation store promises after a sequence of actions. -/
structure ObservationsKept (actions : List StationAction) : Prop where
  summary : ∀ trace, encodable trace = true → ∃ s, (Observing.new.run actions).summary trace = .ok s ∧
    s.verified = true ∧ s.eventCount = ((Observing.new.run actions).tables.rows trace).length
  /-- At most one mirror for an event, in the order of the events. -/
  mirrors : ((Observing.new.run actions).tables.mirrors.map Prod.snd).Sublist
    ((Observing.new.run actions).tables.store.events.map EventRow.hash)
  /-- A mirror is an observation with the hash of its event. -/
  mirrored : ∀ m ∈ (Observing.new.run actions).tables.mirrors,
    ∃ r ∈ (Observing.new.run actions).tables.observations, r.seq = m.1 ∧ ∃ o,
      readValue r.value = .ok o ∧ Fields.get? o.payload (lit "event_hash") = some (.str m.2)
  /-- Admissions are what they would be without mirrors. -/
  admitted : ∀ action, ((Observing.new.run actions).step action).tables.store =
    storeAfter (Observing.new.run actions).tables.store action
  /-- A mirror that fails leaves the tables, and with them every head. -/
  failed : ∀ e eventHash a, ((Observing.new.run actions).observeWorkflow e eventHash a).failures ≠
      (Observing.new.run actions).failures →
    ((Observing.new.run actions).observeWorkflow e eventHash a).tables =
      (Observing.new.run actions).tables
  /-- An export whose rows are read after more actions. -/
  exports : ∀ trace later s, (Observing.new.run actions).summary trace = .ok s →
    ((Observing.new.run actions).run later).tables.exportFrom trace s =
      .ok (exported ((Observing.new.run actions).tables.rows trace))
  /-- A reader that starts at 0, with more actions before each page. -/
  pages : ∀ trace kind provider visits, Query trace kind provider visits →
    ∃ events cursor after, follow trace kind provider (Observing.new.run actions) 0 visits =
        .ok (events, cursor, Observing.new.run after) ∧
      mapE pageEvent (readUpTo (Observing.new.run after).tables trace kind provider cursor) = .ok events
  /-- A page that has no more ends at the last row that matches. -/
  last : ∀ trace kind provider cursor limit p, IsCursor (Observing.new.run actions).tables cursor →
    (Observing.new.run actions).tables.page trace cursor limit kind provider = .ok p →
    (p.hasMore = false ↔ readUpTo (Observing.new.run actions).tables trace kind provider p.nextCursor =
      (Observing.new.run actions).tables.matching trace kind provider)

theorem page_query {t : Tables} {trace kind provider : Str} {cursor limit : Int} {p : Page}
    (h : t.page trace cursor limit kind provider = .ok p) :
    (kind = [] ∨ kind ∈ ObservationKind.all.map ObservationKind.value) ∧ encodable trace = true ∧
      encodable provider = true ∧ 1 ≤ limit ∧ limit ≤ 500 := by
  obtain ⟨_, hkind, h⟩ := bind_eq_ok.1 h
  obtain ⟨_, hlimit, h⟩ := bind_eq_ok.1 h
  obtain ⟨_, htrace, h⟩ := bind_eq_ok.1 h
  obtain ⟨_, hprovider, h⟩ := bind_eq_ok.1 h
  exact ⟨require_eq_ok.1 hkind, encodable_of_utf8 htrace, encodable_of_utf8 hprovider,
    (require_eq_ok.1 hlimit).2⟩

end

section Concrete

attribute [local instance] wholeFloats

/-- A bus emits twice on its trace; the second append fails between its two statements. -/
def emitTwice : List StationAction :=
  [.emit (lit "t") [] (.str (lit "custom")) (some ⟨.obj [], Json.wf_empty⟩) none (.str (lit "s"))
      ⟨lit "a", 1, none⟩,
    .emit (lit "t") [] (.str (lit "custom")) (some ⟨.obj [], Json.wf_empty⟩) none (.str (lit "s"))
      ⟨lit "b", 2, some .head⟩]

end Concrete

end ResidualHarness.Station
