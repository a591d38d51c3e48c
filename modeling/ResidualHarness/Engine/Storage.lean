import ResidualHarness.Core.HashChain
import ResidualHarness.Core.Task
import ResidualHarness.Python.WholeFloats

/-!
# Cache and ledger

`residual/storage.py`: the cache of canonical texts and the ledger of hash-linked events. The ledger
of a run represents the list of its entries (`Ledger.Represents`). Its file verifies unless a string
of an entry has U+0085, U+2028 or U+2029 (`verifyLedger_chain`).
-/

set_option autoImplicit false

namespace ResidualHarness.Engine

open Python Core

section Ledgers

variable [FloatModel]

/-! ## Cache -/

/-- The rows of the cache: texts by key. -/
abbrev CacheRows := Dict Str Str

/-- `Cache.get(key)`: a row that is no JSON is a miss. -/
def CacheRows.lookup (rows : CacheRows) (key : Str) : Option Json :=
  match rows.get? key with
  | none => none
  | some text => loads text

/-- `Cache.put(key, value)`. -/
def CacheRows.put (rows : CacheRows) (key : Str) (value : Json) : Except PyExn CacheRows := do
  return rows.set key (← canonical value)

/-! ## Ledger -/

/-- `Ledger`. -/
structure Ledger where
  events : List Fields
  head : Str

/-- `Ledger()`. -/
def Ledger.empty : Ledger := ⟨[], genesis⟩

/-- The keys of an event. -/
def ledgerFormat : Format where
  prevKey := lit "previous"
  payloadKey := lit "data"
  hashKey := lit "sha256"
  nodup := by decide
  plain := by decide

/-- `Ledger.add(kind, **data)` at a time. -/
def Ledger.add (l : Ledger) (kind : Str) (timeNs : Int) (data : Fields) : Except PyExn Ledger := do
  let payload := recordBody ledgerFormat l.events.length kind timeNs l.head (.obj data)
  let head ← digest (.obj payload)
  return ⟨l.events ++ [payload ++ [(lit "sha256", Json.str head)]], head⟩

/-- `Ledger.write(path)`: the text of the file. -/
def Ledger.write (l : Ledger) : Except PyExn Str := do
  let lines ← mapE (fun e => canonical (.obj e)) l.events
  let text := unlines lines
  let _ ← utf8 text
  return text

/-- The checks of `verify_ledger` on one event, with the hash of the event before. -/
def verifyRecord (index : Nat) (record : Fields) (previous : Json) :
    Except PyExn (Fields × Json) := do
  let expected ← record.get (lit "sha256")
  let event : Fields := record.filter fun kv => kv.1 ≠ lit "sha256"
  let mismatch := contractError s!"trace integrity mismatch at event {index}"
  let seq ← event.get (lit "seq")
  if ¬ seq.Same (.int index) then throw mismatch
  let prev ← event.get (lit "previous")
  if ¬ prev.Same previous then throw mismatch
  let actual ← digest (.obj event)
  if ¬ (Json.str actual).Same expected then throw mismatch
  return (event, expected)

/-- One iteration of the loop of `verify_ledger`. -/
def verifyEvent (index : Nat) (line : Str) (previous : Json) : Except PyExn (Fields × Json) :=
  match strictJson line with
  | .error x => .error x
  | .ok (.obj record) => verifyRecord index record previous
  | .ok (.arr _) => .error .typeError
  | .ok _ => .error .attributeError

/-- The loop of `verify_ledger`. -/
def verifyEvents : Nat → List Str → List Fields × Json → Except PyExn (List Fields × Json)
  | _, [], read => .ok read
  | index, line :: lines, (events, previous) => do
      let (event, expected) ← verifyEvent index line previous
      verifyEvents (index + 1) lines (events ++ [event], expected)

/-- The check of `verify_ledger` on the first and the last event. -/
def verifyEnds (events : List Fields) : Except PyExn Unit := do
  let incomplete := contractError "trace is empty or incomplete"
  match events.head?, events.getLast? with
  | some first, some last =>
      let kind ← Fields.get first (lit "kind")
      if ¬ kind.Same (.str (lit "run_started")) then throw incomplete
      let kind ← Fields.get last (lit "kind")
      if ¬ kind.Same (.str (lit "run_finished")) then throw incomplete
  | _, _ => throw incomplete

/-- What `verify_ledger` returns. -/
structure LedgerReport where
  events : Nat
  root : Json
  externallyAnchored : Bool
deriving DecidableEq

/-- `verify_ledger(path, expected_root)` on the text of the file. -/
def verifyLedger (text : Str) (expectedRoot : Option Str) : Except PyExn LedgerReport := do
  let (events, previous) ←
    verifyEvents 0 (splitLines false (universalNewlines text)) ([], .str genesis)
  verifyEnds events
  if ∃ root ∈ expectedRoot, ¬ previous.Same (.str root) then
    throw (contractError "trace differs from supplied root")
  return ⟨events.length, previous, expectedRoot.isSome⟩

/-! ## The ledger represents its entries -/

/-- The entry of an event. -/
def eventEntry (kind : Str) (timeNs : Int) (data : Fields)
    (h : (Json.obj data).wf = true) : Entry := ⟨kind, .obj data, timeNs, h⟩

/-- The ledger holds the records of the entries. -/
structure Ledger.Represents (l : Ledger) (es : List Entry) : Prop where
  sealed : Sealed ledgerFormat 0 genesis es
  events : l.events = chain ledgerFormat 0 genesis es
  head : l.head = chainHead ledgerFormat 0 genesis es

theorem Ledger.empty_represents : Ledger.empty.Represents [] := ⟨trivial, rfl, rfl⟩

theorem Ledger.Represents.length {l : Ledger} {es : List Entry} (h : l.Represents es) :
    l.events.length = es.length := by
  rw [h.events, length_chain]

/-- A successful `add` adds its entry. -/
theorem Ledger.add_represents {l l' : Ledger} {es : List Entry} (h : l.Represents es) {kind : Str}
    {timeNs : Int} {data : Fields} (hwf : (Json.obj data).wf = true)
    (hadd : l.add kind timeNs data = .ok l') :
    l'.Represents (es ++ [eventEntry kind timeNs data hwf]) := by
  have hbody : recordBody ledgerFormat l.events.length kind timeNs l.head (.obj data) =
      (eventEntry kind timeNs data hwf).body ledgerFormat es.length
        (chainHead ledgerFormat 0 genesis es) := by
    rw [h.length, h.head]
    rfl
  rw [Ledger.add, hbody] at hadd
  obtain ⟨head, hd, hadd⟩ := bind_eq_ok.1 hadd
  obtain ⟨hdig, rfl⟩ := digest_eq_ok_iff.1 hd
  cases hadd
  refine ⟨?_, ?_, ?_⟩
  · rw [sealed_append, Nat.zero_add]
    exact ⟨h.sealed, hdig, trivial⟩
  · rw [chain_append, Nat.zero_add, h.events]
    rfl
  · rw [chainHead_append, Nat.zero_add]
    rfl

theorem Ledger.Represents.write {l : Ledger} {es : List Entry} (h : l.Represents es) :
    l.write = .ok (jsonLines (chain ledgerFormat 0 genesis es)) := by
  have hdig := chain_digestible h.sealed
  have hlines : mapE (fun e => canonical (.obj e)) l.events =
      .ok ((chain ledgerFormat 0 genesis es).map fun r => (Json.obj r).render) := by
    rw [h.events]
    generalize chain ledgerFormat 0 genesis es = rs at hdig
    induction rs with
    | nil => rfl
    | cons r rs ih =>
        rw [mapE, canonical_of_dumpable (hdig r List.mem_cons_self).1,
          ih fun x hx => hdig x (List.mem_cons_of_mem _ hx)]
        rfl
  have henc : encodable (jsonLines (chain ledgerFormat 0 genesis es)) = true := by
    rw [encodable_iff]
    intro c hc
    obtain ⟨line, hline, hcl⟩ := List.mem_flatMap.1 hc
    obtain ⟨r, hr, rfl⟩ := List.mem_map.1 hline
    rcases List.mem_append.1 hcl with hcl | hcl
    · have hr' : encodable (Json.obj r).render = true := by
        rw [encodable_render (hdig r hr).1]
        exact (hdig r hr).2
      exact (encodable_iff _).1 hr' c hcl
    · rw [List.mem_singleton.1 hcl]
      rfl
  rw [Ledger.write, hlines]
  show (do let _ ← utf8 (jsonLines (chain ledgerFormat 0 genesis es))
           return jsonLines (chain ledgerFormat 0 genesis es)) = _
  rw [utf8_of_encodable henc]
  rfl

/-- The event of an entry as `verify_ledger` keeps it: read back, without its hash. -/
def readEvent (r : Fields) : Fields := r.norm.filter fun kv => kv.1 ≠ lit "sha256"

theorem get_readEvent (e : Entry) (seq : Nat) (prev : Str) {key : Str} {v : Json}
    (hm : (key, v) ∈ e.record ledgerFormat seq prev) (hk : key ≠ lit "sha256") :
    (readEvent (e.record ledgerFormat seq prev)).get key = .ok v.norm := by
  apply Fields.get_of_get?
  rw [readEvent, Fields.get?_filter_ne _ hk, get?_record_norm ledgerFormat e seq prev hm]

omit [FloatModel] in
theorem ledgerKeys_ne : lit "seq" ≠ lit "sha256" ∧ lit "previous" ≠ lit "sha256" ∧
    lit "kind" ≠ lit "sha256" := by
  decide

/-- An event on a line of its own is accepted after the event it is linked to. -/
theorem verifyEvent_record {e : Entry} {seq : Nat} {prev : Str}
    (h : Digestible (.obj (e.body ledgerFormat seq prev))) :
    verifyEvent seq (Json.obj (e.record ledgerFormat seq prev)).render (.str prev) =
      .ok (readEvent (e.record ledgerFormat seq prev), .str (e.hash ledgerFormat seq prev)) := by
  have hsha : (e.record ledgerFormat seq prev).norm.get (lit "sha256") =
      .ok (.str (e.hash ledgerFormat seq prev)) :=
    Fields.get_of_get? (get?_record_norm ledgerFormat e seq prev
      (v := .str (e.hash ledgerFormat seq prev)) (by simp [record_eq, ledgerFormat]))
  have hseq := get_readEvent e seq prev (v := .int seq) (by simp [record_eq]) ledgerKeys_ne.1
  have hprev := get_readEvent e seq prev (v := .str prev) (by simp [record_eq, ledgerFormat])
    ledgerKeys_ne.2.1
  have hkey : lit "sha256" = ledgerFormat.hashKey := rfl
  have hdig : digest (.obj (readEvent (e.record ledgerFormat seq prev))) =
      .ok (e.hash ledgerFormat seq prev) := by
    rw [readEvent, hkey]
    exact digest_body_norm h
  rw [verifyEvent, strictJson_render (record_wf ledgerFormat e seq prev) (record_dumpable h),
    Fields.obj_norm]
  simp only [verifyRecord, ← readEvent.eq_1, bind, Except.bind, pure, Except.pure, hsha, hseq,
    hprev, hdig, Json.norm, Json.Same.refl, not_true_eq_false, if_false]

/-- The events of a chain, one on each line, are accepted in order. -/
theorem verifyEvents_chain {seq : Nat} {prev : Str} {es : List Entry}
    (h : Sealed ledgerFormat seq prev es) (done : List Fields) :
    verifyEvents seq ((chain ledgerFormat seq prev es).map fun r => (Json.obj r).render)
        (done, .str prev) =
      .ok (done ++ (chain ledgerFormat seq prev es).map readEvent,
        .str (chainHead ledgerFormat seq prev es)) := by
  induction es generalizing seq prev done with
  | nil =>
      rw [chain, List.map_nil, List.map_nil, List.append_nil]
      rfl
  | cons e es ih =>
      obtain ⟨hd, hs⟩ := h
      rw [chain, List.map_cons, verifyEvents, verifyEvent_record hd]
      simp only [bind, Except.bind]
      rw [ih hs, List.append_assoc, List.map_cons, chainHead]
      rfl

theorem verifyEvents_append (index : Nat) (ls ms : List Str) (read : List Fields × Json) :
    verifyEvents index (ls ++ ms) read =
      (verifyEvents index ls read).bind fun r => verifyEvents (index + ls.length) ms r := by
  induction ls generalizing index read with
  | nil => rfl
  | cons l ls ih =>
      rw [List.cons_append, verifyEvents, verifyEvents]
      cases verifyEvent index l read.2 with
      | error x => rfl
      | ok r =>
          simp only [bind, Except.bind] at ih ⊢
          rw [ih, List.length_cons, Nat.add_assoc, Nat.add_comm 1]

theorem chain_head? {es : List Entry} {e : Entry} (seq : Nat) (prev : Str)
    (h : es.head? = some e) : (chain ledgerFormat seq prev es).head? =
      some (e.record ledgerFormat seq prev) := by
  cases es with
  | nil => cases h
  | cons f es =>
      cases h
      rfl

theorem chain_getLast? {es : List Entry} {e : Entry} (seq : Nat) (prev : Str)
    (h : es.getLast? = some e) : ∃ seq' prev', (chain ledgerFormat seq prev es).getLast? =
      some (e.record ledgerFormat seq' prev') := by
  obtain ⟨fs, rfl⟩ := List.getLast?_eq_some_iff.1 h
  rw [chain_append]
  exact ⟨_, _, List.getLast?_concat⟩

/-- A complete trace passes the check of its ends. -/
theorem verifyEnds_chain {es : List Entry} {first last : Entry} (hfirst : es.head? = some first)
    (hlast : es.getLast? = some last) (hf : first.kind = lit "run_started")
    (hl : last.kind = lit "run_finished") :
    verifyEnds ((chain ledgerFormat 0 genesis es).map readEvent) = .ok () := by
  obtain ⟨seq', prev', hlast'⟩ := chain_getLast? 0 genesis hlast
  have hkf := get_readEvent first 0 genesis (v := .str first.kind) (by simp [record_eq])
    ledgerKeys_ne.2.2
  have hkl := get_readEvent last seq' prev' (v := .str last.kind) (by simp [record_eq])
    ledgerKeys_ne.2.2
  rw [verifyEnds, List.head?_map, List.getLast?_map, chain_head? 0 genesis hfirst, hlast']
  simp only [Option.map_some, hkf, hkl, bind, Except.bind, pure, Except.pure, Json.norm, hf, hl,
    Json.Same.refl, not_true_eq_false, if_false]

/-- Events with a line break in a string are not read. -/
theorem verifyEvents_cut {es : List Entry} (h : Sealed ledgerFormat 0 genesis es)
    (hsafe : ¬ ∀ e ∈ es, e.lineSafe = true) :
    ∃ x, verifyEvents 0 (splitLines false (jsonLines (chain ledgerFormat 0 genesis es)))
      ([], .str genesis) = .error x := by
  have hcut : ¬ ∀ r ∈ chain ledgerFormat 0 genesis es, (Json.obj r).allStr lineSafe = true :=
    fun hall => hsafe ((chain_lineSafe_iff lineSafe_genesis es).1 hall)
  obtain ⟨pre, r, post, a, tail, hsplit, -, hlines, -, hbad⟩ :=
    splitLines_jsonLines_cut (chain_writable h) hcut
  -- the events before the cut are a chain of their own and are accepted
  obtain ⟨fs, gs, rfl, hfs⟩ := chain_split hsplit
  refine ⟨contractError "invalid JSON", ?_⟩
  have hread := verifyEvents_chain ((sealed_append ledgerFormat 0 genesis fs gs).1 h).1 []
  rw [hfs] at hread
  rw [hlines, verifyEvents_append, hread]
  simp only [Except.bind, List.nil_append]
  rw [verifyEvents, verifyEvent, strictJson_of_loads_none hbad]
  rfl

/-- A ledger that verifies ends in its head, and no string of it has a line break. -/
theorem verifyLedger_root {l : Ledger} {es : List Entry} (h : l.Represents es) {report : LedgerReport}
    (hok : verifyLedger (jsonLines (chain ledgerFormat 0 genesis es)) none = .ok report) :
    (∀ e ∈ es, e.lineSafe = true) ∧ report.root = .str l.head := by
  have hw := chain_writable h.sealed
  rw [verifyLedger, universalNewlines_jsonLines hw] at hok
  obtain ⟨read, hread, hok⟩ := bind_eq_ok.1 hok
  by_cases hsafe : ∀ e ∈ es, e.lineSafe = true
  · rw [splitLines_jsonLines hw ((chain_lineSafe_iff lineSafe_genesis es).2 hsafe),
      verifyEvents_chain h.sealed []] at hread
    cases hread
    obtain ⟨_, -, hok⟩ := bind_eq_ok.1 hok
    have hnone : ¬ ∃ root ∈ (none : Option Str),
        ¬ (Json.str (chainHead ledgerFormat 0 genesis es)).Same (.str root) := by
      rintro ⟨root, hroot, -⟩
      cases hroot
    simp only [if_neg hnone] at hok
    cases hok
    exact ⟨hsafe, congrArg Json.str h.head.symm⟩
  · obtain ⟨x, hx⟩ := verifyEvents_cut h.sealed hsafe
    rw [hx] at hread
    cases hread

/-- A complete ledger that was written passes the verification against its head, or some string of
an event is cut and the file is refused. -/
theorem verifyLedger_chain {l : Ledger} {es : List Entry} (h : l.Represents es)
    {first last : Entry} (hfirst : es.head? = some first) (hlast : es.getLast? = some last)
    (hf : first.kind = lit "run_started") (hl : last.kind = lit "run_finished") :
    ∃ text, l.write = .ok text ∧
      ((∀ e ∈ es, e.lineSafe = true) ∧
          verifyLedger text (some l.head) = .ok ⟨l.events.length, .str l.head, true⟩ ∨
        (¬ ∀ e ∈ es, e.lineSafe = true) ∧ ∃ x, verifyLedger text (some l.head) = .error x) := by
  refine ⟨_, h.write, ?_⟩
  have hw := chain_writable h.sealed
  rw [verifyLedger, universalNewlines_jsonLines hw]
  by_cases hsafe : ∀ e ∈ es, e.lineSafe = true
  · refine Or.inl ⟨hsafe, ?_⟩
    rw [splitLines_jsonLines hw ((chain_lineSafe_iff lineSafe_genesis es).2 hsafe),
      verifyEvents_chain h.sealed []]
    have hroot : ¬ ∃ root ∈ some (chainHead ledgerFormat 0 genesis es),
        ¬ (Json.str (chainHead ledgerFormat 0 genesis es)).Same (.str root) := by
      rintro ⟨root, hroot, hne⟩
      cases hroot
      exact hne (Json.Same.refl _)
    simp only [bind, Except.bind, pure, Except.pure, List.nil_append,
      verifyEnds_chain hfirst hlast hf hl, h.head, if_neg hroot, List.length_map, h.events,
      Option.isSome_some]
  · refine Or.inr ⟨hsafe, ?_⟩
    obtain ⟨x, hx⟩ := verifyEvents_cut h.sealed hsafe
    rw [hx]
    exact ⟨x, rfl⟩

end Ledgers

section Concrete

attribute [local instance] wholeFloats

/-- The events of a run that has nothing to do. -/
def idleEvents : List Entry :=
  [eventEntry (lit "run_started") 0 [] Json.wf_empty,
    eventEntry (lit "run_finished") 1 [] Json.wf_empty]

theorem idleEvents_sealed : Sealed ledgerFormat 0 genesis idleEvents := by
  refine ⟨by decide, ?_, trivial⟩
  rw [digestible_obj]
  simp [Entry.body, recordBody, eventEntry, Entry.hash, digestText, digestible_str, digestible_int,
    digestible_obj, sha256_encodable, encodable_lit, ledgerFormat]
  decide

theorem verifyLedger_idle : ∃ (l : Ledger) (text : Str), l.write = .ok text ∧
    verifyLedger text (some l.head) = .ok ⟨2, .str l.head, true⟩ := by
  obtain ⟨text, hwrite, ⟨-, hok⟩ | ⟨hsafe, -⟩⟩ := verifyLedger_chain
    (l := ⟨chain ledgerFormat 0 genesis idleEvents, chainHead ledgerFormat 0 genesis idleEvents⟩)
    ⟨idleEvents_sealed, rfl, rfl⟩ rfl rfl rfl rfl
  · exact ⟨_, text, hwrite, hok⟩
  · exact absurd (by decide) hsafe

end Concrete

end ResidualHarness.Engine
