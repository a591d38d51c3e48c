import ResidualHarness.Core.Canonical

/-!
# Hash-linked records

Files with one record per line, each record with the hash of the one before it and a hash of its
own. The names of the keys are a parameter (`Format`). A record read back is the record up to the
order of its keys, and without its hash it is the body that was hashed (`digest_body_norm`); its
strings other than those of the entry are plain (`record_lineSafe`).
-/

set_option autoImplicit false

namespace ResidualHarness.Core

open Python

/-- The names of the keys that differ between formats. -/
structure Format where
  prevKey : Str
  payloadKey : Str
  hashKey : Str
  nodup : [lit "seq", lit "kind", lit "time_ns", prevKey, payloadKey, hashKey].Nodup
  plain : ∀ k ∈ [lit "seq", lit "kind", lit "time_ns", prevKey, payloadKey, hashKey],
    lineSafe k = true ∧ encodable k = true

variable [FloatModel]

/-- The hash before the first record. -/
def genesis : Str := List.replicate 64 0x30

/-- The body of a record. -/
def recordBody (fmt : Format) (seq : Nat) (kind : Str) (timeNs : Int) (prev : Str)
    (payload : Json) : Fields :=
  [(lit "seq", .int seq), (lit "kind", .str kind), (lit "time_ns", .int timeNs),
    (fmt.prevKey, .str prev), (fmt.payloadKey, payload)]

/-- What one record is written for. A Python dictionary has distinct keys. -/
structure Entry where
  kind : Str
  payload : Json
  timeNs : Int
  payload_wf : payload.wf = true

namespace Entry

/-- The body of the record of an entry. -/
def body (fmt : Format) (e : Entry) (seq : Nat) (prev : Str) : Fields :=
  recordBody fmt seq e.kind e.timeNs prev e.payload

/-- The hash of the record of an entry. -/
def hash (fmt : Format) (e : Entry) (seq : Nat) (prev : Str) : Str := digestText (.obj (e.body fmt seq prev))

/-- The record of an entry. -/
def record (fmt : Format) (e : Entry) (seq : Nat) (prev : Str) : Fields :=
  e.body fmt seq prev ++ [(fmt.hashKey, Json.str (e.hash fmt seq prev))]

/-- No string of the entry has a character at which `splitlines` cuts. -/
def lineSafe (e : Entry) : Bool := Python.lineSafe e.kind && e.payload.allStr Python.lineSafe

end Entry

/-- The records of a list of entries, each linked to the hash of the one before. -/
def chain (fmt : Format) : Nat → Str → List Entry → List Fields
  | _, _, [] => []
  | seq, prev, e :: es => e.record fmt seq prev :: chain fmt (seq + 1) (e.hash fmt seq prev) es

/-- The hash of the last record of a chain. -/
def chainHead (fmt : Format) : Nat → Str → List Entry → Str
  | _, prev, [] => prev
  | seq, prev, e :: es => chainHead fmt (seq + 1) (e.hash fmt seq prev) es

/-- Every body of a chain has a digest, so every record could be written. -/
def Sealed (fmt : Format) : Nat → Str → List Entry → Prop
  | _, _, [] => True
  | seq, prev, e :: es =>
      Digestible (.obj (e.body fmt seq prev)) ∧ Sealed fmt (seq + 1) (e.hash fmt seq prev) es

omit [FloatModel] in
theorem lineSafe_genesis : lineSafe genesis = true := by decide

theorem record_eq (fmt : Format) (e : Entry) (seq : Nat) (prev : Str) :
    e.record fmt seq prev = [(lit "seq", .int seq), (lit "kind", .str e.kind),
      (lit "time_ns", .int e.timeNs), (fmt.prevKey, .str prev), (fmt.payloadKey, e.payload),
      (fmt.hashKey, .str (e.hash fmt seq prev))] := rfl

theorem record_nodup (fmt : Format) (e : Entry) (seq : Nat) (prev : Str) :
    ((e.record fmt seq prev).map Prod.fst).Nodup := fmt.nodup

theorem record_wf (fmt : Format) (e : Entry) (seq : Nat) (prev : Str) :
    (Json.obj (e.record fmt seq prev)).wf = true := by
  rw [Json.wf, Bool.and_eq_true, decide_eq_true_eq]
  refine ⟨record_nodup fmt e seq prev, ?_⟩
  simp [record_eq, Json.wfFields, Json.wf, e.payload_wf]

theorem record_dumpable {fmt : Format} {e : Entry} {seq : Nat} {prev : Str}
    (h : Digestible (.obj (e.body fmt seq prev))) :
    (Json.obj (e.record fmt seq prev)).dumpable = true := by
  have hd := h.1
  simp only [Entry.body, recordBody, Json.dumpable, Json.dumpableFields, Bool.true_and,
    Bool.and_true] at hd
  simp only [record_eq, Json.dumpable, Json.dumpableFields, Bool.true_and, Bool.and_true]
  exact hd

theorem record_writable {fmt : Format} {e : Entry} {seq : Nat} {prev : Str}
    (h : Digestible (.obj (e.body fmt seq prev))) : Writable (e.record fmt seq prev) :=
  ⟨record_wf fmt e seq prev, record_dumpable h⟩

theorem record_digestible {fmt : Format} {e : Entry} {seq : Nat} {prev : Str}
    (h : Digestible (.obj (e.body fmt seq prev))) : Digestible (.obj (e.record fmt seq prev)) := by
  refine ⟨record_dumpable h, ?_⟩
  have hh : encodable (e.hash fmt seq prev) = true := sha256_encodable _
  have hkey : encodable fmt.hashKey = true := (fmt.plain _ (by simp)).2
  have hs := h.2
  simp only [Entry.body, recordBody, Json.allStr, Json.allStrFields, Bool.and_true] at hs
  simp only [record_eq, Json.allStr, Json.allStrFields, hh, hkey, Bool.and_true]
  exact hs

/-- The strings of a record other than those of the entry are literals and hashes. -/
theorem record_lineSafe (fmt : Format) (e : Entry) {seq : Nat} {prev : Str} (hp : lineSafe prev = true) :
    (Json.obj (e.record fmt seq prev)).allStr lineSafe = e.lineSafe := by
  have hh : lineSafe (e.hash fmt seq prev) = true := sha256_lineSafe _
  have hkeys := fmt.plain
  simp only [List.forall_mem_cons] at hkeys
  simp only [record_eq, Json.allStr, Json.allStrFields, Entry.lineSafe, hkeys, hp, hh,
    Bool.true_and, Bool.and_true]

theorem get?_record_norm (fmt : Format) (e : Entry) (seq : Nat) (prev : Str) {key : Str} {v : Json}
    (hm : (key, v) ∈ e.record fmt seq prev) : (e.record fmt seq prev).norm.get? key = some v.norm := by
  rw [Fields.get?_norm (record_nodup fmt e seq prev), Fields.get?_of_mem (record_nodup fmt e seq prev) hm]
  rfl

/-- Dropping the hash of a record that was read back leaves the body that was sealed. -/
theorem body_norm (fmt : Format) (e : Entry) (seq : Nat) (prev : Str) :
    (Json.obj ((e.record fmt seq prev).norm.filter fun kv => kv.1 ≠ fmt.hashKey)).norm =
      (Json.obj (e.body fmt seq prev)).norm := by
  have hnd : (((e.record fmt seq prev).norm.filter fun kv => kv.1 ≠ fmt.hashKey).map Prod.fst).Nodup :=
    (Fields.nodup_norm (record_nodup fmt e seq prev)).sublist (List.filter_sublist.map _)
  have hperm : ((e.record fmt seq prev).norm.filter fun kv => kv.1 ≠ fmt.hashKey).Perm
      ((e.body fmt seq prev).map fun kv => (kv.1, kv.2.norm)) := by
    have hsort : (e.record fmt seq prev).norm.Perm
        ((e.record fmt seq prev).map fun kv => (kv.1, kv.2.norm)) :=
      (List.perm_insertionSort _ _).map _
    refine (hsort.filter _).trans (List.Perm.of_eq ?_)
    have hkeys := fmt.nodup
    simp only [List.nodup_cons, List.mem_cons, not_or] at hkeys
    simp [record_eq, Entry.body, recordBody, hkeys]
  rw [Json.norm_obj_perm hperm hnd, Json.norm_obj, Json.norm_obj, sortFields_map, List.map_map]
  refine congrArg Json.obj (List.map_congr_left ?_)
  intro kv _
  simp only [Function.comp, Json.norm_norm]

theorem digest_body_norm {fmt : Format} {e : Entry} {seq : Nat} {prev : Str}
    (h : Digestible (.obj (e.body fmt seq prev))) :
    digest (.obj ((e.record fmt seq prev).norm.filter fun kv => kv.1 ≠ fmt.hashKey)) =
      .ok (e.hash fmt seq prev) := by
  rw [digest_eq_ok_iff, ← digestible_norm, ← digestText_norm, body_norm, digestible_norm,
    digestText_norm]
  exact ⟨h, rfl⟩

theorem chain_append (fmt : Format) (seq : Nat) (prev : Str) (es fs : List Entry) :
    chain fmt seq prev (es ++ fs) =
      chain fmt seq prev es ++ chain fmt (seq + es.length) (chainHead fmt seq prev es) fs := by
  induction es generalizing seq prev with
  | nil => rfl
  | cons e es ih =>
      rw [List.cons_append, chain, ih, chain, chainHead, List.length_cons, List.cons_append,
        Nat.add_right_comm, Nat.add_assoc]

theorem chainHead_append (fmt : Format) (seq : Nat) (prev : Str) (es fs : List Entry) :
    chainHead fmt seq prev (es ++ fs) = chainHead fmt (seq + es.length) (chainHead fmt seq prev es) fs := by
  induction es generalizing seq prev with
  | nil => rfl
  | cons e es ih =>
      rw [List.cons_append, chainHead, ih, chainHead, List.length_cons, Nat.add_right_comm,
        Nat.add_assoc]

theorem sealed_append (fmt : Format) (seq : Nat) (prev : Str) (es fs : List Entry) :
    Sealed fmt seq prev (es ++ fs) ↔
      Sealed fmt seq prev es ∧ Sealed fmt (seq + es.length) (chainHead fmt seq prev es) fs := by
  induction es generalizing seq prev with
  | nil => exact (true_and _).symm.to_iff
  | cons e es ih =>
      rw [List.cons_append, Sealed, Sealed, ih, chainHead, List.length_cons, Nat.add_right_comm,
        Nat.add_assoc, and_assoc]

theorem length_chain (fmt : Format) (seq : Nat) (prev : Str) (es : List Entry) :
    (chain fmt seq prev es).length = es.length := by
  induction es generalizing seq prev with
  | nil => rfl
  | cons e es ih => rw [chain, List.length_cons, ih, List.length_cons]

theorem chain_writable {fmt : Format} {seq : Nat} {prev : Str} {es : List Entry} (h : Sealed fmt seq prev es) :
    ∀ r ∈ chain fmt seq prev es, Writable r := by
  induction es generalizing seq prev with
  | nil => exact nofun
  | cons e es ih =>
      intro r hr
      rcases List.mem_cons.1 hr with rfl | hr
      · exact record_writable h.1
      · exact ih h.2 r hr

theorem chain_digestible {fmt : Format} {seq : Nat} {prev : Str} {es : List Entry}
    (h : Sealed fmt seq prev es) : ∀ r ∈ chain fmt seq prev es, Digestible (.obj r) := by
  induction es generalizing seq prev with
  | nil => exact nofun
  | cons e es ih =>
      intro r hr
      rcases List.mem_cons.1 hr with rfl | hr
      · exact record_digestible h.1
      · exact ih h.2 r hr

theorem chain_lineSafe_iff {fmt : Format} {seq : Nat} {prev : Str} (hp : lineSafe prev = true)
    (es : List Entry) :
    (∀ r ∈ chain fmt seq prev es, (Json.obj r).allStr lineSafe = true) ↔
      ∀ e ∈ es, e.lineSafe = true := by
  induction es generalizing seq prev with
  | nil => exact ⟨fun _ => nofun, fun _ => nofun⟩
  | cons e es ih =>
      have hh : lineSafe (e.hash fmt seq prev) = true := sha256_lineSafe _
      rw [chain, List.forall_mem_cons, List.forall_mem_cons, record_lineSafe fmt e hp, ih hh]

theorem chain_split {fmt : Format} {seq : Nat} {prev : Str} {es : List Entry} {pre post : List Fields}
    {r : Fields} (h : chain fmt seq prev es = pre ++ r :: post) :
    ∃ fs gs, es = fs ++ gs ∧ chain fmt seq prev fs = pre := by
  refine ⟨es.take pre.length, es.drop pre.length, (List.take_append_drop _ _).symm, ?_⟩
  have hcat := chain_append fmt seq prev (es.take pre.length) (es.drop pre.length)
  rw [List.take_append_drop, h] at hcat
  have hle : pre.length ≤ es.length := by
    rw [← length_chain fmt seq prev es, h]
    simp
  have hlen : (chain fmt seq prev (es.take pre.length)).length = pre.length := by
    rw [length_chain, List.length_take]
    omega
  exact (List.append_inj_left hcat hlen.symm).symm

end ResidualHarness.Core
