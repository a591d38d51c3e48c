import ResidualHarness.Core.HashChain
import ResidualHarness.Python.Comprehensions

/-!
# The journal of operations

`EventJournal` of `residual/hadr/events.py`. An event is taken exactly when its time is finite and all
its details have a canonical text that can be encoded (`record_iff`).
-/

set_option autoImplicit false

namespace ResidualHarness.Hadr

open Python Core

section

variable [FloatModel]

/-- Differences and comparisons of clock readings. -/
class Readings where
  sub : FloatModel.F → FloatModel.F → FloatModel.F
  lt : FloatModel.F → FloatModel.F → Bool

/-- `EVENT_SCHEMA`. -/
def eventSchema : Str := lit "residual.hadr.event.v1"

/-- `_KINDS`. -/
inductive EventKind where
  | failover
  | backup
  | restoreTest
  | takeover
  | degradedSync
  | replicationLagAlert
deriving DecidableEq

/-- The text of a kind. -/
def EventKind.text : EventKind → Str
  | .failover => lit "failover"
  | .backup => lit "backup"
  | .restoreTest => lit "restore-test"
  | .takeover => lit "takeover"
  | .degradedSync => lit "degraded-sync"
  | .replicationLagAlert => lit "replication-lag-alert"

/-- `EventReceipt`, with the hash that `record` gives it. -/
structure EventReceipt where
  eventHash : Str
  kind : EventKind
  time : FloatModel.F
  details : List (Str × Str)
  prevHash : Str
  hashed : isHash eventHash = true

/-- The body under the hash of an event. -/
def eventBody (kind : EventKind) (time : FloatModel.F) (details : List (Str × Str)) (prev : Str) :
    Fields :=
  [(lit "kind", .str kind.text), (lit "at", .float time),
    (lit "details", .arr (details.map fun kv => strings [kv.1, kv.2])), (lit "prev_hash", .str prev)]

/-- `sorted((str(k), canonical(v)) for k, v in details.items())`. -/
def normalized (details : Fields) : Except PyExn (List (Str × Str)) := do
  let texts ← mapE (fun kv : Str × Json => do return (kv.1, ← canonical kv.2)) details
  return texts.insertionSort fun a b => a.1 ≤ b.1

/-- `self.receipts[-1].event_hash`, or zeros. -/
def lastEvent (journal : List EventReceipt) : Str :=
  (journal.getLast?.map EventReceipt.eventHash).getD genesis

/-- `record(kind, details)` at a time. -/
def record (journal : List EventReceipt) (kind : EventKind) (details : Fields)
    (time : FloatModel.F) : Except PyExn (List EventReceipt) := do
  let texts ← normalized details
  let text ← canonical (.obj (eventBody kind time texts (lastEvent journal)))
  let data ← utf8 (eventSchema ++ lf :: text)
  return journal ++ [⟨sha256 data, kind, time, texts, lastEvent journal, sha256_isHash data⟩]

/-- The journal can take an event with these details at this time. -/
def Recordable (details : Fields) (time : FloatModel.F) : Prop :=
  FloatModel.isFinite time = true ∧ ∀ kv ∈ details, encodable kv.1 = true ∧ Digestible kv.2

theorem lastEvent_encodable (journal : List EventReceipt) : encodable (lastEvent journal) = true := by
  rw [lastEvent]
  cases journal.getLast? with
  | none => exact (by decide : encodable genesis = true)
  | some e => exact encodable_of_isAscii (isAscii_of_isHash e.hashed)

theorem normalized_ok {details : Fields} {texts : List (Str × Str)}
    (h : normalized details = .ok texts) :
    (∀ kv ∈ details, kv.2.dumpable = true) ∧
      ∀ kt : Str × Str, kt ∈ texts ↔ ∃ kv ∈ details, kt = (kv.1, kv.2.render) := by
  obtain ⟨unsorted, hmap, hret⟩ := bind_eq_ok.1 h
  cases hret
  have hall := mapE_eq_ok hmap
  constructor
  · intro kv hkv
    obtain ⟨kt, -, hkt⟩ := forall₂_mem_left hall hkv
    obtain ⟨t, ht, -⟩ := bind_eq_ok.1 hkt
    exact (dumpable_of_canonical ht).1
  · intro kt
    rw [List.mem_insertionSort]
    constructor
    · intro hkt
      obtain ⟨kv, hkv, heq⟩ := of_mem_mapE hmap hkt
      obtain ⟨t, ht, hret⟩ := bind_eq_ok.1 heq
      cases hret
      exact ⟨kv, hkv, by rw [(dumpable_of_canonical ht).2]⟩
    · rintro ⟨kv, hkv, rfl⟩
      obtain ⟨kt, hkt, heq⟩ := forall₂_mem_left hall hkv
      obtain ⟨t, ht, hret⟩ := bind_eq_ok.1 heq
      cases hret
      rwa [← (dumpable_of_canonical ht).2]

theorem digestible_body {kind : EventKind} {time : FloatModel.F} {texts : List (Str × Str)}
    {prev : Str} (hprev : encodable prev = true) :
    Digestible (.obj (eventBody kind time texts prev)) ↔ FloatModel.isFinite time = true ∧
      ∀ kt ∈ texts, encodable kt.1 = true ∧ encodable kt.2 = true := by
  have hkind : encodable kind.text = true := by cases kind <;> exact encodable_lit _
  rw [digestible_obj, eventBody]
  simp only [List.mem_cons, List.not_mem_nil, or_false, forall_eq_or_imp, forall_eq, encodable_lit,
    digestible_str, digestible_float, digestible_arr, List.mem_map, forall_exists_index, and_imp,
    forall_apply_eq_imp_iff₂, digestible_strings, hkind, hprev, true_and, and_true]

/-- A text under a schema can be hashed exactly when its value can be digested. -/
theorem schema_utf8_iff (schema : Str) (hschema : encodable (schema ++ [lf]) = true) {v : Json} :
    (∃ text data, canonical v = .ok text ∧ utf8 (schema ++ lf :: text) = .ok data) ↔ Digestible v := by
  constructor
  · rintro ⟨text, data, htext, hdata⟩
    obtain ⟨hdump, rfl⟩ := dumpable_of_canonical htext
    have henc := encodable_of_utf8 hdata
    rw [List.append_cons, encodable_append, Bool.and_eq_true, encodable_render hdump] at henc
    exact ⟨hdump, henc.2⟩
  · intro h
    refine ⟨_, _, canonical_of_dumpable h.1, utf8_of_encodable ?_⟩
    rw [List.append_cons, encodable_append, hschema, encodable_render h.1, h.2]
    rfl

theorem record_iff (journal : List EventReceipt) (kind : EventKind) (details : Fields)
    (time : FloatModel.F) :
    (∃ j, record journal kind details time = .ok j) ↔ Recordable details time := by
  have hbody : ∀ texts, (∃ text data,
      canonical (.obj (eventBody kind time texts (lastEvent journal))) = .ok text ∧
        utf8 (eventSchema ++ lf :: text) = .ok data) ↔ FloatModel.isFinite time = true ∧
          ∀ kt ∈ texts, encodable kt.1 = true ∧ encodable kt.2 = true := fun texts =>
    (schema_utf8_iff eventSchema (by decide)).trans (digestible_body (lastEvent_encodable journal))
  constructor
  · rintro ⟨j, h⟩
    obtain ⟨texts, htexts, h⟩ := bind_eq_ok.1 h
    obtain ⟨text, htext, h⟩ := bind_eq_ok.1 h
    obtain ⟨data, hdata, -⟩ := bind_eq_ok.1 h
    obtain ⟨hfinite, hencs⟩ := (hbody texts).1 ⟨text, data, htext, hdata⟩
    obtain ⟨hdumps, hmem⟩ := normalized_ok htexts
    refine ⟨hfinite, fun kv hkv => ?_⟩
    obtain ⟨hkey, htext⟩ := hencs _ ((hmem _).2 ⟨kv, hkv, rfl⟩)
    exact ⟨hkey, hdumps kv hkv, by rw [← encodable_render (hdumps kv hkv)]; exact htext⟩
  · rintro ⟨hfinite, hdetails⟩
    obtain ⟨texts, hmap⟩ := exists_mapE (f := fun kv : Str × Json => (do
      return (kv.1, ← canonical kv.2) : Except PyExn (Str × Str))) (l := details) fun kv hkv =>
        ⟨(kv.1, kv.2.render), bind_eq_ok.2 ⟨_, canonical_of_dumpable (hdetails kv hkv).2.1, rfl⟩⟩
    have htexts : normalized details = .ok (texts.insertionSort fun a b => a.1 ≤ b.1) :=
      bind_eq_ok.2 ⟨texts, hmap, rfl⟩
    obtain ⟨text, data, htext, hdata⟩ :=
        (hbody (texts.insertionSort fun a b => a.1 ≤ b.1)).2 ⟨hfinite, fun kt hkt => by
      obtain ⟨kv, hkv, rfl⟩ := ((normalized_ok htexts).2 kt).1 hkt
      obtain ⟨hkey, hvalue⟩ := hdetails kv hkv
      exact ⟨hkey, by rw [encodable_render hvalue.1]; exact hvalue.2⟩⟩
    exact ⟨_, bind_eq_ok.2 ⟨_, htexts, bind_eq_ok.2 ⟨text, htext, bind_eq_ok.2 ⟨data, hdata, rfl⟩⟩⟩⟩

end

end ResidualHarness.Hadr
