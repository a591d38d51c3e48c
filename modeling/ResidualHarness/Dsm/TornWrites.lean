import ResidualHarness.Python.Decode
import ResidualHarness.Python.Loops
import ResidualHarness.Python.WholeFloats
import ResidualHarness.Dsm.Journal

/-!
# Appends that fail

A `Journal` whose `append` may raise after any number of bytes of its line are on disk, while the
caller goes on with the same object. The records and the head of the process are only updated by an
append that returned. If each failed append leaves nothing, or leaves its whole record and nothing
is written after it, then the file can be read back with all acknowledged records
(`intact_recovers`).
-/

set_option autoImplicit false

namespace ResidualHarness.Dsm

open Python Core

section Model

variable [FloatModel]

/-! ## The device -/

/-- A `Journal` with the bytes of its file. -/
structure Device where
  bytes : Bytes
  records : List Fields
  head : Str

/-- `Journal(path)` on a new file. -/
def Device.empty : Device := ⟨[], [], genesis⟩

/-- A call of `append`; `fault` is the number of bytes that are on disk when opening, writing,
flushing or syncing the file raises. -/
structure Attempt where
  entry : Entry
  fault : Option Nat

/-- The part of `append` before the file is opened, and the bytes that are then written: the record,
its hash and its line. -/
def Device.line (d : Device) (e : Entry) : Except PyExn (Fields × Str × Bytes) := do
  let body := recordBody journalFormat d.records.length e.kind e.timeNs d.head e.payload
  let hash ← digest (.obj body)
  let record := body ++ [(lit "hash", Json.str hash)]
  let text ← canonical (.obj record)
  let data ← utf8 (text ++ [lf])
  return (record, hash, data)

/-- `append(kind, payload, time_ns)`: the device after it, and the record with whether the call
returned, if it got as far as the file. -/
def Device.append (d : Device) (a : Attempt) : Device × Option (Fields × Bool) :=
  match d.line a.entry with
  | .error _ => (d, none)
  | .ok (record, hash, data) =>
      match a.fault with
      | none => (⟨d.bytes ++ data, d.records ++ [record], hash⟩, some (record, true))
      | some n => ({ d with bytes := d.bytes ++ data.take n }, some (record, false))

/-- A sequence of calls: the device after them, and the records in their order. -/
def Device.run : Device → List Attempt → Device × List (Fields × Bool)
  | d, [] => (d, [])
  | d, a :: rest =>
      let r := (d.append a).1.run rest
      (r.1, (d.append a).2.toList ++ r.2)

/-- `Journal(path)` on the file of the device. -/
def Device.reopen (d : Device) : Except PyExn Journal :=
  match utf8Decode d.bytes with
  | some text => Journal.open text
  | none => .error (.valueError "UnicodeDecodeError")

/-- The file is read back with the records of all calls that returned, and otherwise only with whole
records of calls that raised. -/
def Recovers (r : Device × List (Fields × Bool)) : Prop :=
  ∃ (j : Journal) (kept : List (Fields × Bool)), r.1.reopen = .ok j ∧ kept.Sublist r.2 ∧
    (kept.filter fun x => x.2) = (r.2.filter fun x => x.2) ∧
    j.records.map Fields.norm = kept.map fun x => x.1.norm

/-- A call that leaves nothing on disk. -/
def Device.silent (d : Device) (a : Attempt) : Bool :=
  !(d.line a.entry).toBool || a.fault == some 0

/-- Each call that raised has left nothing on disk, or its whole record, with or without the newline,
and nothing is written after it; and no line is cut by a string of its record. -/
def Device.intact : Device → List Attempt → Bool
  | _, [] => true
  | d, a :: rest =>
      match d.line a.entry with
      | .error _ => d.intact rest
      | .ok (_, _, data) =>
          match a.fault with
          | none => a.entry.lineSafe && (d.append a).1.intact rest
          | some 0 => d.intact rest
          | some n => a.entry.lineSafe && decide (data.length ≤ n + 1) && rest.all d.silent

/-! ## Reading the device -/

omit [FloatModel] in
theorem utf8_append {s t : Str} {a b : Bytes} (hs : utf8 s = .ok a) (ht : utf8 t = .ok b) :
    utf8 (s ++ t) = .ok (a ++ b) := by
  rw [utf8] at hs ht
  split at hs
  · rename_i hes
    split at ht
    · rename_i het
      cases hs
      cases ht
      have henc : encodable (s ++ t) = true := by
        rw [encodable_append, hes, het]
        rfl
      rw [utf8_of_encodable henc, List.flatMap_append]
    · cases ht
  · cases hs

omit [FloatModel] in
theorem splitLinesFrom_last (cur : Str) {l : Str} (hl : ∀ c ∈ l, isLineBreak c = false)
    (hne : l ≠ []) : splitLinesFrom false cur l = [cur ++ l] := by
  induction l generalizing cur with
  | nil => exact absurd rfl hne
  | cons c l ih =>
      have hc : isLineBreak c = false := hl c List.mem_cons_self
      have hcr : c ≠ cr := by
        rintro rfl
        rw [isLineBreak_cr] at hc
        cases hc
      rw [splitLinesFrom_cons _ _ _ _ hcr, hc, if_neg Bool.false_ne_true]
      cases l with
      | nil => simp [splitLinesFrom]
      | cons d l =>
          rw [ih (cur ++ [c]) (fun x hx => hl x (List.mem_cons_of_mem _ hx)) (by simp)]
          simp

omit [FloatModel] in
theorem splitLines_unlines_append (ls : List Str) (h : ∀ l ∈ ls, ∀ c ∈ l, isLineBreak c = false)
    {l : Str} (hl : ∀ c ∈ l, isLineBreak c = false) (hne : l ≠ []) :
    splitLines false (unlines ls ++ l) = ls ++ [l] := by
  rw [splitLines]
  induction ls with
  | nil =>
      rw [unlines, List.flatMap_nil, List.nil_append, List.nil_append]
      exact splitLinesFrom_last [] hl hne
  | cons m ls ih =>
      rw [unlines_cons, List.append_assoc, List.cons_append,
        splitLinesFrom_noBreak [] m _ (h m List.mem_cons_self), List.nil_append,
        ih fun x hx => h x (List.mem_cons_of_mem _ hx), List.cons_append]

/-- The device holds the records of the entries. -/
def DeviceOf (d : Device) (es : List Entry) : Prop :=
  ∃ text, utf8 text = .ok d.bytes ∧ Represents ⟨text, d.records, d.head⟩ es

theorem deviceOf_empty : DeviceOf Device.empty [] := ⟨[], rfl, empty_represents⟩

/-- A file that ends with the last record, with or without its newline. -/
theorem load_unfinished {es : List Entry} (h : Sealed journalFormat 0 genesis es)
    (hsafe : ∀ e ∈ es, e.lineSafe = true) {rs : List Fields} {r : Fields}
    (hrs : chain journalFormat 0 genesis es = rs ++ [r]) :
    load (jsonLines rs ++ (Json.obj r).render) = load (jsonLines (rs ++ [r])) := by
  have hw := chain_writable h
  have hs : ∀ x ∈ chain journalFormat 0 genesis es, (Json.obj x).allStr lineSafe = true :=
    (chain_lineSafe_iff lineSafe_genesis es).2 hsafe
  rw [hrs] at hw hs
  have hr : r ∈ rs ++ [r] := by simp
  have hold : ∀ x ∈ rs, x ∈ rs ++ [r] := fun x hx => List.mem_append_left _ hx
  have hcr : cr ∉ jsonLines rs ++ (Json.obj r).render := by
    intro hm
    rcases List.mem_append.1 hm with hm | hm
    · obtain ⟨l, hl, hml⟩ := List.mem_flatMap.1 hm
      obtain ⟨x, hx, rfl⟩ := List.mem_map.1 hl
      rcases List.mem_append.1 hml with hml | hml
      · exact cr_notMem_render (hw x (hold x hx)).2 hml
      · exact absurd (List.mem_singleton.1 hml) (by decide)
    · exact cr_notMem_render (hw r hr).2 hm
  have hsplit : splitLines false (jsonLines rs ++ (Json.obj r).render) =
      (rs ++ [r]).map fun x => (Json.obj x).render := by
    rw [jsonLines, splitLines_unlines_append, List.map_append, List.map_singleton]
    · intro l hl
      obtain ⟨x, hx, rfl⟩ := List.mem_map.1 hl
      exact render_noLineBreak (hw x (hold x hx)) (hs x (hold x hx))
    · exact render_noLineBreak (hw r hr) (hs r hr)
    · rw [Json.render_obj]
      simp
  rw [load, load, universalNewlines_eq_self _ hcr, hsplit, universalNewlines_jsonLines hw,
    splitLines_jsonLines hw hs]

theorem append_of_line {d : Device} {e : Entry} {record : Fields} {hash : Str} {data : Bytes}
    (h : d.line e = .ok (record, hash, data)) :
    utf8 ((Json.obj record).render ++ [lf]) = .ok data ∧
      record = recordBody journalFormat d.records.length e.kind e.timeNs d.head e.payload ++
        [(lit "hash", Json.str hash)] ∧
      hash = digestText (.obj (recordBody journalFormat d.records.length e.kind e.timeNs d.head
        e.payload)) ∧
      ∀ disk, Journal.append ⟨disk, d.records, d.head⟩ e.kind e.payload e.timeNs =
        .ok (⟨disk ++ ((Json.obj record).render ++ [lf]), d.records ++ [record], hash⟩, record) := by
  obtain ⟨hash', hd, h⟩ := bind_eq_ok.1 h
  obtain ⟨text, ht, h⟩ := bind_eq_ok.1 h
  obtain ⟨data', hdata, h⟩ := bind_eq_ok.1 h
  cases h
  have htext := (dumpable_of_canonical ht).2
  subst htext
  refine ⟨hdata, rfl, (digest_eq_ok_iff.1 hd).2, ?_⟩
  intro disk
  exact bind_eq_ok.2 ⟨hash, hd, bind_eq_ok.2 ⟨_, ht, bind_eq_ok.2 ⟨data, hdata, rfl⟩⟩⟩

/-- A call whose record has a digest gets as far as the file. -/
theorem line_of_digestible {d : Device} {e : Entry}
    (h : Digestible (.obj (e.body journalFormat d.records.length d.head))) :
    ∃ record hash data, d.line e = .ok (record, hash, data) := by
  have hrecord := record_digestible h
  have hencodable : encodable ((Json.obj (e.record journalFormat d.records.length d.head)).render ++
      [lf]) = true := by
    rw [encodable_append, encodable_render hrecord.1, hrecord.2]
    decide
  exact ⟨_, _, _, bind_eq_ok.2 ⟨_, digest_eq_ok_iff.2 ⟨h, rfl⟩, bind_eq_ok.2
    ⟨_, canonical_of_dumpable hrecord.1, bind_eq_ok.2 ⟨_, utf8_of_encodable hencodable, rfl⟩⟩⟩⟩

theorem DeviceOf.append {d : Device} {es : List Entry} (h : DeviceOf d es) {e : Entry}
    {record : Fields} {hash : Str} {data : Bytes} (hl : d.line e = .ok (record, hash, data)) :
    DeviceOf ⟨d.bytes ++ data, d.records ++ [record], hash⟩ (es ++ [e]) ∧
      chain journalFormat 0 genesis (es ++ [e]) = chain journalFormat 0 genesis es ++ [record] := by
  obtain ⟨disk, hdisk, hrep⟩ := h
  obtain ⟨hdata, hrecord, hhash, happ⟩ := append_of_line hl
  refine ⟨⟨_, utf8_append hdisk hdata, append_represents hrep (happ disk)⟩, ?_⟩
  have hlen : d.records.length = es.length := hrep.length
  have hhead : d.head = chainHead journalFormat 0 genesis es := hrep.head
  rw [chain_append, Nat.zero_add, hrecord, hhash, hlen, hhead]
  rfl

theorem reopen_of_load {d : Device} {t : Str} {es : List Entry} (ht : utf8 t = .ok d.bytes)
    (hseal : Sealed journalFormat 0 genesis es) (hsafe : ∀ e ∈ es, e.lineSafe = true)
    (hload : load t = load (jsonLines (chain journalFormat 0 genesis es))) :
    ∃ j, d.reopen = .ok j ∧
      j.records.map Fields.norm = (chain journalFormat 0 genesis es).map Fields.norm := by
  rw [Device.reopen, utf8Decode_of_utf8 ht]
  rcases load_chain hseal with ⟨-, hl⟩ | ⟨hno, -⟩
  · rw [← hload] at hl
    exact ⟨_, bind_eq_ok.2 ⟨_, hl, rfl⟩, map_norm_norm _⟩
  · exact absurd hsafe hno

theorem DeviceOf.reopen {d : Device} {es : List Entry} (h : DeviceOf d es)
    (hsafe : ∀ e ∈ es, e.lineSafe = true) :
    ∃ j, d.reopen = .ok j ∧
      j.records.map Fields.norm = (chain journalFormat 0 genesis es).map Fields.norm := by
  obtain ⟨text, htext, hrep⟩ := h
  have hdisk : text = jsonLines (chain journalFormat 0 genesis es) := hrep.disk
  exact reopen_of_load htext hrep.sealed hsafe (congrArg load hdisk)

/-- A device whose last line lacks at most its newline can be opened, too. -/
theorem DeviceOf.reopen_whole {d : Device} {es : List Entry} (h : DeviceOf d es)
    (hsafe : ∀ e ∈ es, e.lineSafe = true) {e : Entry} (he : e.lineSafe = true) {record : Fields}
    {hash : Str} {data : Bytes} (hl : d.line e = .ok (record, hash, data)) {n : Nat}
    (hn : data.length ≤ n + 1) :
    ∃ j, Device.reopen { d with bytes := d.bytes ++ data.take n } = .ok j ∧
      j.records.map Fields.norm =
        (chain journalFormat 0 genesis es).map Fields.norm ++ [record.norm] := by
  obtain ⟨⟨full, hfull, hrep'⟩, hchain⟩ := h.append hl
  have hsafe' : ∀ x ∈ es ++ [e], x.lineSafe = true := by
    intro x hx
    rcases List.mem_append.1 hx with hx | hx
    · exact hsafe x hx
    · rw [List.mem_singleton.1 hx]
      exact he
  have hdisk' : full = jsonLines (chain journalFormat 0 genesis (es ++ [e])) := hrep'.disk
  have hmap : (chain journalFormat 0 genesis (es ++ [e])).map Fields.norm =
      (chain journalFormat 0 genesis es).map Fields.norm ++ [record.norm] := by
    rw [hchain, List.map_append, List.map_singleton]
  rw [← hmap]
  rcases Nat.lt_or_ge n data.length with hlt | hge
  · -- the newline is the only byte that is missing
    obtain ⟨disk, hdisk, hrep⟩ := h
    obtain ⟨hdata, -, -, -⟩ := append_of_line hl
    have henc : encodable (Json.obj record).render = true := by
      have hboth := encodable_of_utf8 hdata
      rw [encodable_append, Bool.and_eq_true] at hboth
      exact hboth.1
    have hbody := utf8_of_encodable henc
    have hnewline : utf8 [lf] = .ok [10] := by decide
    have hcat : data = (Json.obj record).render.flatMap utf8Char ++ [10] := by
      have hboth := utf8_append hbody hnewline
      rw [hdata] at hboth
      exact Except.ok.inj hboth
    have htake : data.take n = (Json.obj record).render.flatMap utf8Char := by
      have hlen := congrArg List.length hcat
      rw [List.length_append, List.length_singleton] at hlen
      rw [hcat, List.take_append_of_le_length (by omega), List.take_of_length_le (by omega)]
    have hold : disk = jsonLines (chain journalFormat 0 genesis es) := hrep.disk
    refine reopen_of_load (t := disk ++ (Json.obj record).render) ?_ hrep'.sealed hsafe' ?_
    · rw [htake]
      exact utf8_append hdisk hbody
    · rw [hold, load_unfinished hrep'.sealed hsafe' hchain, hchain]
  · rw [List.take_of_length_le hge]
    exact reopen_of_load hfull hrep'.sealed hsafe' (congrArg load hdisk')

/-- A record with another number than its line cannot be read. -/
theorem loadLine_misnumbered (index : Nat) {e : Entry} {seq : Nat} {prev : Str}
    (h : Digestible (.obj (e.body journalFormat seq prev))) (hne : seq ≠ index)
    (read : List Fields × Str) :
    ∃ x, loadLine index (Json.obj (e.record journalFormat seq prev)).render read = .error x := by
  have hblank : isBlank (Json.obj (e.record journalFormat seq prev)).render = false :=
    render_obj_not_blank (List.append_nil _).symm (by rw [Json.render_obj]; simp)
  have hseq : (e.record journalFormat seq prev).norm.get (lit "seq") = .ok (.int seq) :=
    Fields.get_of_get? (get?_record_norm journalFormat e seq prev (v := .int seq)
      (by simp [record_eq, journalFormat]))
  have hother : ¬ (Json.int seq).Same (.int index) := by
    intro hsame
    have hint : Json.int seq = Json.int index := hsame
    exact hne (Int.ofNat.inj (Json.int.inj hint))
  rw [loadLine, if_neg (by rw [hblank]; decide),
    strictJson_render (record_wf journalFormat e seq prev) (record_dumpable h), Fields.obj_norm]
  simp only [loadRecord, bind, Except.bind, hseq, hother, not_false_eq_true, if_true]
  exact ⟨_, rfl⟩

/-- A file in which two lines have the same number cannot be opened. -/
theorem DeviceOf.not_reopens {d : Device} {es : List Entry} (h : DeviceOf d es)
    (hsafe : ∀ e ∈ es, e.lineSafe = true) {e e' : Entry} (he : e.lineSafe = true)
    (he' : e'.lineSafe = true) {r r' : Fields} {hash hash' : Str} {data data' : Bytes}
    (hl : d.line e = .ok (r, hash, data)) (hl' : d.line e' = .ok (r', hash', data'))
    (records : List Fields) (head : Str) (j : Journal) :
    (Device.mk (d.bytes ++ data ++ data') records head).reopen ≠ .ok j := by
  obtain ⟨⟨full, hfull, hrep⟩, -⟩ := h.append hl
  obtain ⟨⟨_, -, hrep'⟩, hchain'⟩ := h.append hl'
  obtain ⟨hdata', -⟩ := append_of_line hl'
  have hsafeAll : ∀ {x : Entry}, x.lineSafe = true → ∀ y ∈ es ++ [x], y.lineSafe = true := by
    intro x hx y hy
    rcases List.mem_append.1 hy with hy | hy
    · exact hsafe y hy
    · rw [List.mem_singleton.1 hy]
      exact hx
  have hr' : r' = e'.record journalFormat (0 + es.length) (chainHead journalFormat 0 genesis es) := by
    rw [chain_append, chain, chain] at hchain'
    exact (List.cons.inj (List.append_cancel_left hchain')).1.symm
  have hdigestible : Digestible (.obj (e'.body journalFormat (0 + es.length)
      (chainHead journalFormat 0 genesis es))) :=
    ((sealed_append journalFormat 0 genesis es [e']).1 hrep'.sealed).2.1
  have hmem : r' ∈ chain journalFormat 0 genesis (es ++ [e']) := by
    rw [hchain']
    exact List.mem_append_right _ List.mem_cons_self
  have hw : ∀ x ∈ chain journalFormat 0 genesis (es ++ [e]) ++ [r'], Writable x := by
    intro x hx
    rcases List.mem_append.1 hx with hx | hx
    · exact chain_writable hrep.sealed x hx
    · rw [List.mem_singleton.1 hx]
      exact chain_writable hrep'.sealed r' hmem
  have hs : ∀ x ∈ chain journalFormat 0 genesis (es ++ [e]) ++ [r'],
      (Json.obj x).allStr lineSafe = true := by
    intro x hx
    rcases List.mem_append.1 hx with hx | hx
    · exact (chain_lineSafe_iff lineSafe_genesis _).2 (hsafeAll he) x hx
    · rw [List.mem_singleton.1 hx]
      exact (chain_lineSafe_iff lineSafe_genesis _).2 (hsafeAll he') r' hmem
  have htext : full ++ ((Json.obj r').render ++ [lf]) =
      jsonLines (chain journalFormat 0 genesis (es ++ [e]) ++ [r']) := by
    rw [jsonLines_snoc]
    exact congrArg (· ++ _) hrep.disk
  -- All lines but the last are a chain, and the last one has the number of the line before it.
  obtain ⟨x, hx⟩ := loadLine_misnumbered (0 + (es.length + 1)) hdigestible (by omega)
    (((chain journalFormat 0 genesis (es ++ [e])).map Fields.norm),
      chainHead journalFormat 0 genesis (es ++ [e]))
  have hload : load (full ++ ((Json.obj r').render ++ [lf])) = .error x := by
    rw [htext, load, universalNewlines_jsonLines hw, splitLines_jsonLines hw hs, List.map_append,
      loadLines_append, loadLines_chain hrep.sealed [], List.nil_append, List.map_singleton, hr',
      List.length_map, length_chain, List.length_append, List.length_singleton]
    simp only [Except.bind]
    rw [loadLines, hx]
    rfl
  have hdecode : utf8 (full ++ ((Json.obj r').render ++ [lf])) = .ok (d.bytes ++ data ++ data') :=
    utf8_append hfull hdata'
  rw [Device.reopen, utf8Decode_of_utf8 hdecode]
  intro hopen
  obtain ⟨_, hread, -⟩ := bind_eq_ok.1 hopen
  rw [hload] at hread
  cases hread

/-! ## Runs -/

theorem run_silent {d : Device} {l : List Attempt} (h : ∀ a ∈ l, d.silent a = true) :
    (d.run l).1 = d ∧ ((d.run l).2.filter fun x => x.2) = [] := by
  induction l with
  | nil => exact ⟨rfl, rfl⟩
  | cons a rest ih =>
      obtain ⟨hdev, hlog⟩ := ih fun b hb => h b (List.mem_cons_of_mem _ hb)
      have ha := h a List.mem_cons_self
      cases hl : d.line a.entry with
      | error x =>
          have happ : d.append a = (d, none) := by rw [Device.append, hl]
          rw [Device.run, happ]
          exact ⟨hdev, hlog⟩
      | ok w =>
          obtain ⟨record, hash, data⟩ := w
          have hzero : a.fault = some 0 := by
            rw [Device.silent, hl] at ha
            exact beq_iff_eq.1 ha
          have happ : d.append a = (d, some (record, false)) := by
            simp [Device.append, hl, hzero]
          rw [Device.run, happ]
          exact ⟨hdev, hlog⟩

theorem DeviceOf.run {d : Device} {es : List Entry} (h : DeviceOf d es)
    (hsafe : ∀ e ∈ es, e.lineSafe = true) {as : List Attempt} (hi : d.intact as = true) :
    ∃ (j : Journal) (kept : List (Fields × Bool)), (d.run as).1.reopen = .ok j ∧
      kept.Sublist (d.run as).2 ∧
      (kept.filter fun x => x.2) = ((d.run as).2.filter fun x => x.2) ∧
      j.records.map Fields.norm =
        (chain journalFormat 0 genesis es).map Fields.norm ++ kept.map fun x => x.1.norm := by
  induction as generalizing d es with
  | nil =>
      obtain ⟨j, hj, hrecords⟩ := h.reopen hsafe
      exact ⟨j, [], hj, List.Sublist.refl _, rfl, by rw [hrecords, List.map_nil, List.append_nil]⟩
  | cons a rest ih =>
      rw [Device.intact] at hi
      cases hl : d.line a.entry with
      | error x =>
          rw [hl] at hi
          have happ : d.append a = (d, none) := by rw [Device.append, hl]
          rw [Device.run, happ]
          exact ih h hsafe hi
      | ok w =>
          obtain ⟨record, hash, data⟩ := w
          rw [hl] at hi
          cases hf : a.fault with
          | none =>
              -- the record joins the entries that the rest of the run starts from
              rw [hf] at hi
              obtain ⟨hsa, hi⟩ := Bool.and_eq_true_iff.1 hi
              have happ : d.append a =
                  (⟨d.bytes ++ data, d.records ++ [record], hash⟩, some (record, true)) := by
                rw [Device.append, hl, hf]
              rw [happ] at hi
              obtain ⟨hd, hchain⟩ := h.append hl
              have hsafe' : ∀ x ∈ es ++ [a.entry], x.lineSafe = true := by
                intro x hx
                rcases List.mem_append.1 hx with hx | hx
                · exact hsafe x hx
                · rw [List.mem_singleton.1 hx]
                  exact hsa
              obtain ⟨j, kept, hj, hsub, hfil, hrecords⟩ := ih hd hsafe' hi
              rw [Device.run, happ]
              refine ⟨j, (record, true) :: kept, hj, hsub.cons_cons _, ?_, ?_⟩
              · simp only [Option.toList_some, List.singleton_append, List.filter_cons_of_pos, hfil]
              · rw [hrecords, hchain, List.map_append, List.append_assoc]
                rfl
          | some n =>
              rw [hf] at hi
              cases n with
              | zero =>
                  have happ : d.append a = (d, some (record, false)) := by
                    simp [Device.append, hl, hf]
                  obtain ⟨j, kept, hj, hsub, hfil, hrecords⟩ := ih h hsafe hi
                  rw [Device.run, happ]
                  exact ⟨j, kept, hj, hsub.cons _, hfil, hrecords⟩
              | succ n =>
                  -- nothing is written after a record that was left behind
                  obtain ⟨hi, hrest⟩ := Bool.and_eq_true_iff.1 hi
                  obtain ⟨hsa, hlen⟩ := Bool.and_eq_true_iff.1 hi
                  obtain ⟨j, hj, hrecords⟩ := h.reopen_whole hsafe hsa hl (of_decide_eq_true hlen)
                  have happ : d.append a =
                      ({ d with bytes := d.bytes ++ data.take (n + 1) }, some (record, false)) := by
                    rw [Device.append, hl, hf]
                  obtain ⟨hdev, hlog⟩ := run_silent (l := rest)
                    (d := { d with bytes := d.bytes ++ data.take (n + 1) }) (List.all_eq_true.1 hrest)
                  rw [Device.run, happ]
                  refine ⟨j, [(record, false)], ?_, ?_, ?_, hrecords⟩
                  · rw [hdev]
                    exact hj
                  · exact (List.nil_sublist _).cons_cons _
                  · exact hlog.symm

/-- A failed append is harmless if it leaves nothing, or leaves its record and is the last one. -/
theorem intact_recovers {as : List Attempt} (hi : Device.empty.intact as = true) :
    Recovers (Device.empty.run as) := by
  obtain ⟨j, kept, hj, hsub, hfil, hrecords⟩ := deviceOf_empty.run nofun hi
  exact ⟨j, kept, hj, hsub, hfil, hrecords⟩

end Model

section Concrete

attribute [local instance] wholeFloats

/-- An event with an empty payload. -/
def noted (kind : String) : Entry := ⟨lit kind, .obj [], 0, rfl⟩

theorem intact_recovers_last :
    Recovers (Device.empty.run
      [⟨noted "a", none⟩, ⟨noted "b", some 0⟩, ⟨noted "c", none⟩, ⟨noted "d", some 1000⟩]) :=
  intact_recovers (by decide +kernel)

/-- A sample call gets as far as the file. -/
theorem line_noted {d : Device} (hd : encodable d.head = true)
    (hn : (Json.int d.records.length).dumpable = true) (kind : String) :
    ∃ record hash data, d.line (noted kind) = .ok (record, hash, data) := by
  refine line_of_digestible (digestible_obj.2 ?_)
  simp only [Entry.body, recordBody, noted, List.forall_mem_cons]
  refine ⟨⟨encodable_lit _, hn, rfl⟩, ⟨encodable_lit _, digestible_str.2 (encodable_lit _)⟩,
    ⟨encodable_lit _, rfl, rfl⟩, ⟨encodable_lit _, digestible_str.2 hd⟩,
    ⟨encodable_lit _, rfl, rfl⟩, List.forall_mem_nil _⟩

theorem second_line_short : (((Device.empty.append ⟨noted "a", none⟩).1.line (noted "b")).toOption.all
    fun w => decide (w.2.2.length ≤ 1000)) = true := by
  decide +kernel

/-- The record of a call that failed after the write has the number that the next one takes again,
and the file cannot be read any more. -/
theorem not_recovers_after_failed_sync :
    ¬ Recovers (Device.empty.run
      [⟨noted "a", none⟩, ⟨noted "b", some 1000⟩, ⟨noted "c", none⟩]) := by
  rintro ⟨j, kept, hj, -⟩
  obtain ⟨r, head, data, hl⟩ := line_noted (d := Device.empty) (by decide) (by decide) "a"
  have hd := (deviceOf_empty.append hl).1
  have happ : Device.empty.append ⟨noted "a", none⟩ =
      (⟨Device.empty.bytes ++ data, Device.empty.records ++ [r], head⟩, some (r, true)) := by
    simp only [Device.append, hl]
  have hhead : encodable (Device.mk (Device.empty.bytes ++ data) (Device.empty.records ++ [r])
      head).head = true := by
    show encodable head = true
    rw [(append_of_line hl).2.2.1]
    exact sha256_encodable _
  have hone : (Json.int (1 : Nat)).dumpable = true := by decide
  obtain ⟨r₂, head₂, data₂, hl₂⟩ := line_noted hhead hone "b"
  obtain ⟨r₃, head₃, data₃, hl₃⟩ := line_noted hhead hone "c"
  have hshort := second_line_short
  rw [happ, hl₂] at hshort
  have htake : data₂.take 1000 = data₂ := List.take_of_length_le (of_decide_eq_true hshort)
  have hrun : (Device.empty.run [⟨noted "a", none⟩, ⟨noted "b", some 1000⟩, ⟨noted "c", none⟩]).1 =
      ⟨Device.empty.bytes ++ data ++ data₂ ++ data₃, Device.empty.records ++ [r] ++ [r₃], head₃⟩ := by
    have happ₂ : Device.append ⟨Device.empty.bytes ++ data, Device.empty.records ++ [r], head⟩
        ⟨noted "b", some 1000⟩ = (⟨Device.empty.bytes ++ data ++ data₂, Device.empty.records ++ [r],
          head⟩, some (r₂, false)) := by
      simp only [Device.append, hl₂, htake]
    have happ₃ : Device.append ⟨Device.empty.bytes ++ data ++ data₂, Device.empty.records ++ [r], head⟩
        ⟨noted "c", none⟩ = (⟨Device.empty.bytes ++ data ++ data₂ ++ data₃,
          Device.empty.records ++ [r] ++ [r₃], head₃⟩, some (r₃, true)) := by
      have hl₃' : Device.line ⟨Device.empty.bytes ++ data ++ data₂, Device.empty.records ++ [r], head⟩
          (noted "c") = .ok (r₃, head₃, data₃) := hl₃
      simp only [Device.append, hl₃']
    rw [Device.run, happ, Device.run, happ₂, Device.run, happ₃, Device.run]
  rw [hrun] at hj
  refine hd.not_reopens ?_ rfl rfl hl₂ hl₃ _ _ j hj
  intro e he
  rw [List.nil_append, List.mem_singleton] at he
  rw [he]
  rfl

end Concrete

end ResidualHarness.Dsm
