import ResidualHarness.Core.HashChain

/-!
# The durable journal

`residual/dsm/journal.py`: a file with one hash-linked record per line, and the records of the open
process. The abstract journal is the list of entries appended to it. `Represents` relates the two;
`append` extends the entries by one (`append_represents`), and opening the file gives a journal of
the same entries or fails (`open_represents`). It fails exactly when a string of some entry has
U+0085, U+2028 or U+2029, where `splitlines` cuts the record (`open_ok_iff`).
-/

set_option autoImplicit false

namespace ResidualHarness.Dsm

open Python Core

variable [FloatModel]

/-! ## The journal as the code keeps it -/

/-- `JournalError`. -/
def journalError (msg : String) : PyExn := .userError "JournalError" msg

/-- A `Journal`: the text of the file at its path, the records and the head of the process. -/
structure Journal where
  disk : Str
  records : List Fields
  head : Str

/-- The keys of a journal record. -/
def journalFormat : Format where
  prevKey := lit "prev_hash"
  payloadKey := lit "payload"
  hashKey := lit "hash"
  nodup := by decide
  plain := by decide

/-- The checks of `Journal._load` on one record, after the records and the hash in `read`. -/
def loadRecord (index : Nat) (record : Fields) (read : List Fields × Str) :
    Except PyExn (List Fields × Str) := do
  let expected := record.get? (lit "hash")
  let body := record.filter fun kv => kv.1 ≠ lit "hash"
  let mismatch := journalError s!"journal integrity mismatch at record {index}"
  let seq ← record.get (lit "seq")
  if ¬ seq.Same (.int index) then throw mismatch
  let prev ← record.get (lit "prev_hash")
  if ¬ prev.Same (.str read.2) then throw mismatch
  let actual ← digest (.obj body)
  if expected ≠ some (.str actual) then throw mismatch
  return (read.1 ++ [record], actual)

/-- One iteration of the loop of `Journal._load`. -/
def loadLine (index : Nat) (line : Str) (read : List Fields × Str) :
    Except PyExn (List Fields × Str) :=
  if isBlank line then .ok read
  else
    match strictJson line with
    | .ok (.obj record) => loadRecord index record read
    | .ok _ => .error .attributeError
    | .error x => .error x

/-- The loop of `Journal._load`. -/
def loadLines : Nat → List Str → List Fields × Str → Except PyExn (List Fields × Str)
  | _, [], read => .ok read
  | index, line :: lines, read => do
      let next ← loadLine index line read
      loadLines (index + 1) lines next

/-- `Journal._load` on the text of the file. -/
def load (disk : Str) : Except PyExn (List Fields × Str) :=
  loadLines 0 (splitLines false (universalNewlines disk)) ([], genesis)

/-- `Journal(path)` on an existing file. -/
def Journal.open (disk : Str) : Except PyExn Journal := do
  let (records, head) ← load disk
  return ⟨disk, records, head⟩

/-- `Journal(path)` on a new file. -/
def Journal.empty : Journal := ⟨[], [], genesis⟩

/-- `Journal.append(kind, payload, time_ns)`. -/
def Journal.append (j : Journal) (kind : Str) (payload : Json) (timeNs : Int) :
    Except PyExn (Journal × Fields) := do
  let body := recordBody journalFormat j.records.length kind timeNs j.head payload
  let hash ← digest (.obj body)
  let record := body ++ [(lit "hash", Json.str hash)]
  let line ← canonical (.obj record)
  let _ ← utf8 (line ++ [lf])
  return (⟨j.disk ++ (line ++ [lf]), j.records ++ [record], hash⟩, record)

/-- The filter of `Journal.replay`. -/
def replayFrom (fromSeq : Int) : List Fields → Except PyExn (List Fields)
  | [] => .ok []
  | record :: records => do
      let seq ← record.get (lit "seq")
      match Json.less (.int fromSeq) seq with
      | none => throw .typeError
      | some later =>
          let rest ← replayFrom fromSeq records
          return if later then record :: rest else rest

/-- `Journal.replay(from_seq)`. -/
def Journal.replay (j : Journal) (fromSeq : Int) : Except PyExn (List Fields) :=
  replayFrom fromSeq j.records

/-! ## The entries of a journal -/

/-- The journal holds the records of the entries, in the file as written and in the process up to
the order of the keys, which reading sorts. -/
structure Represents (j : Journal) (es : List Entry) : Prop where
  sealed : Sealed journalFormat 0 genesis es
  disk : j.disk = jsonLines (chain journalFormat 0 genesis es)
  records : j.records.map Fields.norm = (chain journalFormat 0 genesis es).map Fields.norm
  head : j.head = chainHead journalFormat 0 genesis es

/-! ## Reading the file -/

theorem loadLine_record {e : Entry} {seq : Nat} {prev : Str}
    (h : Digestible (.obj (e.body journalFormat seq prev))) (done : List Fields) :
    loadLine seq (Json.obj (e.record journalFormat seq prev)).render (done, prev) =
      .ok (done ++ [(e.record journalFormat seq prev).norm], e.hash journalFormat seq prev) := by
  have hblank : isBlank (Json.obj (e.record journalFormat seq prev)).render = false :=
    render_obj_not_blank (List.append_nil _).symm (by rw [Json.render_obj]; simp)
  have hseq : (e.record journalFormat seq prev).norm.get (lit "seq") = .ok (.int seq) :=
    Fields.get_of_get? (get?_record_norm journalFormat e seq prev (v := .int seq) (by simp [record_eq, journalFormat]))
  have hprev : (e.record journalFormat seq prev).norm.get (lit "prev_hash") = .ok (.str prev) :=
    Fields.get_of_get? (get?_record_norm journalFormat e seq prev (v := .str prev) (by simp [record_eq, journalFormat]))
  have hhash : (e.record journalFormat seq prev).norm.get? (lit "hash") = some (.str (e.hash journalFormat seq prev)) :=
    get?_record_norm journalFormat e seq prev (v := .str (e.hash journalFormat seq prev)) (by simp [record_eq, journalFormat])
  have hkey : lit "hash" = journalFormat.hashKey := rfl
  have hdig : digest (.obj ((e.record journalFormat seq prev).norm.filter
      fun kv => ¬ kv.1 = lit "hash")) = .ok (e.hash journalFormat seq prev) := by
    rw [hkey]
    exact digest_body_norm h
  rw [loadLine, if_neg (by rw [hblank]; decide),
    strictJson_render (record_wf journalFormat e seq prev) (record_dumpable h), Fields.obj_norm]
  simp only [loadRecord, bind, Except.bind, pure, Except.pure, hseq, hprev, hhash,
    hdig, Json.Same.refl, not_true_eq_false, if_false, ne_eq]

theorem loadLine_unreadable (index : Nat) {line : Str} (hb : isBlank line = false)
    (hl : loads line = none) (read : List Fields × Str) :
    ∃ x, loadLine index line read = .error x := by
  refine ⟨contractError "invalid JSON", ?_⟩
  rw [loadLine, if_neg (by rw [hb]; decide), strictJson_of_loads_none hl]

theorem loadLines_append (index : Nat) (ls ms : List Str) (read : List Fields × Str) :
    loadLines index (ls ++ ms) read =
      (loadLines index ls read).bind fun r => loadLines (index + ls.length) ms r := by
  induction ls generalizing index read with
  | nil => rfl
  | cons l ls ih =>
      rw [List.cons_append, loadLines, loadLines]
      cases loadLine index l read with
      | error x => rfl
      | ok r =>
          simp only [bind, Except.bind] at ih ⊢
          rw [ih, List.length_cons, Nat.add_assoc, Nat.add_comm 1]

/-- The records of a chain, one on each line, are read back in order. -/
theorem loadLines_chain {seq : Nat} {prev : Str} {es : List Entry} (h : Sealed journalFormat seq prev es)
    (done : List Fields) :
    loadLines seq ((chain journalFormat seq prev es).map fun r => (Json.obj r).render) (done, prev) =
      .ok (done ++ (chain journalFormat seq prev es).map Fields.norm, chainHead journalFormat seq prev es) := by
  induction es generalizing seq prev done with
  | nil =>
      rw [chain, List.map_nil, List.map_nil, List.append_nil]
      rfl
  | cons e es ih =>
      obtain ⟨hd, hs⟩ := h
      rw [chain, List.map_cons, loadLines, loadLine_record hd]
      simp only [bind, Except.bind]
      rw [ih hs, List.append_assoc, List.map_cons, chainHead]
      rfl

/-- Reading the file of a chain: the chain, or a failure at the first record that is cut. -/
theorem load_chain {es : List Entry} (h : Sealed journalFormat 0 genesis es) :
    (∀ e ∈ es, e.lineSafe = true) ∧
        load (jsonLines (chain journalFormat 0 genesis es)) =
          .ok ((chain journalFormat 0 genesis es).map Fields.norm, chainHead journalFormat 0 genesis es) ∨
      (¬ ∀ e ∈ es, e.lineSafe = true) ∧
        ∃ x, load (jsonLines (chain journalFormat 0 genesis es)) = .error x := by
  have hw := chain_writable h
  rw [load, universalNewlines_jsonLines hw]
  by_cases hsafe : ∀ e ∈ es, e.lineSafe = true
  · refine Or.inl ⟨hsafe, ?_⟩
    rw [splitLines_jsonLines hw ((chain_lineSafe_iff lineSafe_genesis es).2 hsafe)]
    exact loadLines_chain h []
  · refine Or.inr ⟨hsafe, ?_⟩
    have hcut : ¬ ∀ r ∈ chain journalFormat 0 genesis es, (Json.obj r).allStr lineSafe = true :=
      fun hall => hsafe ((chain_lineSafe_iff lineSafe_genesis es).1 hall)
    obtain ⟨pre, r, post, a, tail, hsplit, -, hlines, hb, hl⟩ := splitLines_jsonLines_cut hw hcut
    -- the records before the cut are a chain of their own and are read
    obtain ⟨fs, gs, rfl, hfs⟩ := chain_split hsplit
    obtain ⟨x, hx⟩ := loadLine_unreadable (0 + (pre.map fun x => (Json.obj x).render).length)
      hb hl (pre.map Fields.norm, chainHead journalFormat 0 genesis fs)
    refine ⟨x, ?_⟩
    have hread := loadLines_chain ((sealed_append journalFormat 0 genesis fs gs).1 h).1 []
    rw [hfs] at hread
    rw [hlines, loadLines_append, hread]
    simp only [Except.bind, List.nil_append]
    rw [loadLines, hx]
    rfl

/-! ## The journal refines its entries -/

theorem empty_represents : Represents Journal.empty [] := ⟨trivial, rfl, rfl, rfl⟩

theorem Represents.length {j : Journal} {es : List Entry} (h : Represents j es) :
    j.records.length = es.length := by
  have hlen := congrArg List.length h.records
  rw [List.length_map, List.length_map, length_chain] at hlen
  exact hlen

theorem append_represents {j j' : Journal} {es : List Entry} {e : Entry} {r : Fields}
    (h : Represents j es) (happ : j.append e.kind e.payload e.timeNs = .ok (j', r)) :
    Represents j' (es ++ [e]) := by
  have hbody : recordBody journalFormat j.records.length e.kind e.timeNs j.head e.payload =
      e.body journalFormat es.length (chainHead journalFormat 0 genesis es) := by
    rw [h.length, h.head]
    rfl
  rw [Journal.append, hbody] at happ
  simp only [bind, Except.bind, pure, Except.pure] at happ
  cases hd : digest (.obj (e.body journalFormat es.length (chainHead journalFormat 0 genesis es))) with
  | error x =>
      rw [hd] at happ
      cases happ
  | ok hash =>
      obtain ⟨hdig, rfl⟩ := digest_eq_ok_iff.1 hd
      have hseal : Sealed journalFormat 0 genesis (es ++ [e]) := by
        rw [sealed_append, Nat.zero_add]
        exact ⟨h.sealed, hdig, trivial⟩
      have hchain : chain journalFormat 0 genesis (es ++ [e]) =
          chain journalFormat 0 genesis es ++ [e.record journalFormat es.length (chainHead journalFormat 0 genesis es)] := by
        rw [chain_append, Nat.zero_add]
        rfl
      have hcan : canonical (.obj (e.body journalFormat es.length (chainHead journalFormat 0 genesis es) ++
          [(lit "hash", Json.str (digestText (.obj (e.body journalFormat es.length (chainHead journalFormat 0 genesis es)))))])) =
          .ok (Json.obj (e.record journalFormat es.length (chainHead journalFormat 0 genesis es))).render :=
        canonical_of_dumpable (record_dumpable hdig)
      rw [hd] at happ
      simp only [hcan] at happ
      split at happ
      · cases happ
      · cases happ
        refine ⟨hseal, ?_, ?_, ?_⟩
        · rw [hchain, jsonLines_snoc, h.disk]
        · rw [hchain, List.map_append, List.map_append, h.records]
          rfl
        · rw [chainHead_append, Nat.zero_add]
          rfl

/-- Reading a record back twice changes nothing. -/
theorem map_norm_norm (rs : List Fields) :
    (rs.map Fields.norm).map Fields.norm = rs.map Fields.norm := by
  rw [List.map_map]
  refine List.map_congr_left ?_
  intro r _
  have hn := Json.norm_norm (.obj r)
  rw [Fields.obj_norm, Fields.obj_norm] at hn
  exact Json.obj.inj hn

/-- Opening the file of a journal gives a journal of the same entries. -/
theorem open_represents {j j' : Journal} {es : List Entry} (h : Represents j es)
    (ho : Journal.open j.disk = .ok j') :
    Represents j' es ∧ j'.records.map Fields.norm = j.records.map Fields.norm ∧
      j'.head = j.head ∧ j'.disk = j.disk := by
  rw [Journal.open, h.disk] at ho
  rcases load_chain h.sealed with ⟨-, hl⟩ | ⟨-, x, hl⟩
  · rw [hl] at ho
    cases ho
    refine ⟨⟨h.sealed, rfl, map_norm_norm _, rfl⟩, ?_, h.head.symm, h.disk.symm⟩
    rw [h.records]
    exact map_norm_norm _
  · rw [hl] at ho
    cases ho

/-- The file can be opened exactly when no string of an entry has a line boundary of
`splitlines` that JSON leaves unescaped. -/
theorem open_ok_iff {j : Journal} {es : List Entry} (h : Represents j es) :
    (∃ j', Journal.open j.disk = .ok j') ↔ ∀ e ∈ es, e.lineSafe = true := by
  rw [Journal.open, h.disk]
  rcases load_chain h.sealed with ⟨hs, hl⟩ | ⟨hs, x, hl⟩
  · rw [hl]
    exact ⟨fun _ => hs, fun _ => ⟨_, rfl⟩⟩
  · rw [hl]
    constructor
    · rintro ⟨j', hj⟩
      cases hj
    · intro hs'
      exact absurd hs' hs

/-! ## Reading a represented journal -/

/-- The record was written for the entry, or read back from what was written for it. -/
def Records (r : Fields) (e : Entry) : Prop := ∃ seq prev, r.norm = (e.record journalFormat seq prev).norm

theorem records_of_norm_eq : ∀ (es : List Entry) (seq : Nat) (prev : Str) (rs : List Fields),
    rs.map Fields.norm = (chain journalFormat seq prev es).map Fields.norm → List.Forall₂ Records rs es
  | [], _, _, rs, h => by
      rw [chain, List.map_nil, List.map_eq_nil_iff] at h
      rw [h]
      exact List.Forall₂.nil
  | e :: es, seq, prev, rs, h => by
      cases rs with
      | nil => cases h
      | cons r rs =>
          rw [chain, List.map_cons, List.map_cons, List.cons.injEq] at h
          exact List.Forall₂.cons ⟨seq, prev, h.1⟩ (records_of_norm_eq es _ _ rs h.2)

theorem Represents.forall₂ {j : Journal} {es : List Entry} (h : Represents j es) :
    List.Forall₂ Records j.records es := records_of_norm_eq es 0 genesis j.records h.records

theorem Records.get {r : Fields} {e : Entry} (h : Records r e) :
    ∃ seq prev, ∀ key w, (key, w) ∈ e.record journalFormat seq prev → ∃ v, r.get key = .ok v ∧ v.Alike w := by
  obtain ⟨seq, prev, hn⟩ := h
  refine ⟨seq, prev, ?_⟩
  intro key w hm
  obtain ⟨v, hv, ha⟩ := Fields.get?_alike_some hn (record_nodup journalFormat e seq prev)
    (Fields.get?_of_mem (record_nodup journalFormat e seq prev) hm)
  exact ⟨v, Fields.get_of_get? hv, ha⟩

theorem Records.seq {r : Fields} {e : Entry} (h : Records r e) :
    ∃ n : Nat, r.get (lit "seq") = .ok (.int n) := by
  obtain ⟨seq, prev, hget⟩ := h.get
  obtain ⟨v, hv, ha⟩ := hget (lit "seq") (.int seq) (by simp [record_eq, journalFormat])
  rw [Json.alike_int ha] at hv
  exact ⟨seq, hv⟩

theorem Records.kind {r : Fields} {e : Entry} (h : Records r e) :
    r.get (lit "kind") = .ok (.str e.kind) := by
  obtain ⟨seq, prev, hget⟩ := h.get
  obtain ⟨v, hv, ha⟩ := hget (lit "kind") (.str e.kind) (by simp [record_eq, journalFormat])
  rw [Json.alike_str ha] at hv
  exact hv

theorem Records.payload {r : Fields} {e : Entry} (h : Records r e) :
    ∃ p, r.get (lit "payload") = .ok p ∧ p.Alike e.payload := by
  obtain ⟨seq, prev, hget⟩ := h.get
  exact hget (lit "payload") e.payload (by simp [record_eq, journalFormat])

theorem replayFrom_start {rs : List Fields} {es : List Entry} (h : List.Forall₂ Records rs es) :
    replayFrom (-1) rs = .ok rs := by
  induction h with
  | nil => rfl
  | @cons r e rs es hr _ ih =>
      obtain ⟨n, hn⟩ := hr.seq
      have hlt : Json.less (.int (-1)) (.int n) = some true := by
        have hpos : ((-1 : Int) : ℚ) < ((n : Int) : ℚ) := Int.cast_lt.2 (by omega)
        rw [Json.less.eq_def]
        simp only [Json.number]
        rw [decide_eq_true hpos]
      rw [replayFrom, hn]
      simp only [bind, Except.bind]
      rw [hlt]
      simp only [ih, if_true]
      rfl

/-- Replaying from before the first record yields every record. -/
theorem Represents.replay {j : Journal} {es : List Entry} (h : Represents j es) :
    j.replay (-1) = .ok j.records := replayFrom_start h.forall₂

end ResidualHarness.Dsm
