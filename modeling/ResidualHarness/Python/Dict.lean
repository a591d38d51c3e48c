import Mathlib.Data.List.Nodup

/-!
# Dictionaries

A Python `dict` as a list of items in insertion order. Assignment keeps the place of a key that is
there and puts a new key last; `pop` takes a key out. `get?_set`, `get?_pop` and `mem_keys_set` say
all that the operations do to look-ups and keys.
-/

set_option autoImplicit false

namespace ResidualHarness.Python

variable {κ β : Type} [DecidableEq κ]

/-- Items in insertion order. -/
abbrev Dict (κ β : Type) := List (κ × β)

namespace Dict

/-- `d.get(k)`. -/
def get? : Dict κ β → κ → Option β
  | [], _ => none
  | (k', v) :: d, k => if k' = k then some v else get? d k

/-- `list(d)`. -/
def keys (d : Dict κ β) : List κ := d.map Prod.fst

/-- `d[k] = v`. -/
def set : Dict κ β → κ → β → Dict κ β
  | [], k, v => [(k, v)]
  | (k', v') :: d, k, v => if k' = k then (k, v) :: d else (k', v') :: set d k v

/-- `d.pop(k, None)`. -/
def pop : Dict κ β → κ → Dict κ β
  | [], _ => []
  | (k', v') :: d, k => if k' = k then pop d k else (k', v') :: pop d k

/-- The dictionary of a sequence of assignments. -/
def ofPairs (kvs : List (κ × β)) : Dict κ β := kvs.foldl (fun d kv => d.set kv.1 kv.2) []

@[simp]
theorem get?_nil (k : κ) : get? ([] : Dict κ β) k = none := rfl

@[simp]
theorem get?_set (d : Dict κ β) (k k' : κ) (v : β) :
    (d.set k v).get? k' = if k' = k then some v else d.get? k' := by
  induction d with
  | nil =>
      by_cases h : k = k'
      · simp [set, get?, h]
      · simp [set, get?, h, Ne.symm h]
  | cons kv d ih =>
      obtain ⟨j, w⟩ := kv
      rw [set]
      by_cases hj : j = k
      · subst hj
        rw [if_pos rfl, get?, get?]
        by_cases h : j = k'
        · rw [if_pos h, if_pos h.symm]
        · rw [if_neg h, if_neg (Ne.symm h), if_neg h]
      · rw [if_neg hj, get?, ih, get?]
        by_cases h : j = k'
        · subst h
          rw [if_pos rfl, if_neg hj, if_pos rfl]
        · rw [if_neg h, if_neg h]

@[simp]
theorem get?_pop (d : Dict κ β) (k k' : κ) :
    (d.pop k).get? k' = if k' = k then none else d.get? k' := by
  induction d with
  | nil => simp [pop]
  | cons kv d ih =>
      obtain ⟨j, w⟩ := kv
      rw [pop]
      by_cases hj : j = k
      · subst hj
        rw [if_pos rfl, ih, get?]
        by_cases h : k' = j
        · rw [if_pos h, if_pos h]
        · rw [if_neg h, if_neg h, if_neg (Ne.symm h)]
      · rw [if_neg hj, get?, get?, ih]
        by_cases h : j = k'
        · subst h
          rw [if_pos rfl, if_neg hj, if_pos rfl]
        · rw [if_neg h, if_neg h]

theorem get?_eq_none_iff {d : Dict κ β} {k : κ} : d.get? k = none ↔ k ∉ d.keys := by
  induction d with
  | nil => simp [keys]
  | cons kv d ih =>
      obtain ⟨j, w⟩ := kv
      rw [get?]
      by_cases h : j = k
      · simp [h, keys]
      · rw [if_neg h, ih]
        simp [keys, Ne.symm h]

theorem mem_keys_iff {d : Dict κ β} {k : κ} : k ∈ d.keys ↔ ∃ v, d.get? k = some v := by
  rw [← Option.isSome_iff_exists, ← not_iff_not, ← get?_eq_none_iff]
  cases d.get? k <;> simp

theorem mem_keys_of_get? {d : Dict κ β} {k : κ} {v : β} (h : d.get? k = some v) : k ∈ d.keys :=
  mem_keys_iff.2 ⟨v, h⟩

theorem mem_of_get? {d : Dict κ β} {k : κ} {v : β} (h : d.get? k = some v) : (k, v) ∈ d := by
  induction d with
  | nil => cases h
  | cons kv d ih =>
      obtain ⟨j, w⟩ := kv
      rw [get?] at h
      split at h
      · rename_i hj
        cases h
        rw [hj]
        exact List.mem_cons_self
      · exact List.mem_cons_of_mem _ (ih h)

theorem get?_of_mem {d : Dict κ β} (hnd : d.keys.Nodup) {k : κ} {v : β} (h : (k, v) ∈ d) :
    d.get? k = some v := by
  induction d with
  | nil => cases h
  | cons kv d ih =>
      obtain ⟨j, w⟩ := kv
      rw [keys, List.map_cons, List.nodup_cons] at hnd
      rw [get?]
      rcases List.mem_cons.1 h with h | h
      · cases h
        rw [if_pos rfl]
      · have hne : j ≠ k := by
          rintro rfl
          exact hnd.1 (List.mem_map.2 ⟨_, h, rfl⟩)
        rw [if_neg hne]
        exact ih hnd.2 h

@[simp]
theorem mem_keys_set {d : Dict κ β} {k k' : κ} {v : β} :
    k' ∈ (d.set k v).keys ↔ k' = k ∨ k' ∈ d.keys := by
  rw [mem_keys_iff, mem_keys_iff]
  by_cases h : k' = k
  · simp [h]
  · simp [h]

@[simp]
theorem mem_keys_pop {d : Dict κ β} {k k' : κ} :
    k' ∈ (d.pop k).keys ↔ k' ≠ k ∧ k' ∈ d.keys := by
  rw [mem_keys_iff, mem_keys_iff]
  by_cases h : k' = k
  · simp [h]
  · simp [h]

theorem keys_set (d : Dict κ β) (k : κ) (v : β) :
    (d.set k v).keys = if k ∈ d.keys then d.keys else d.keys ++ [k] := by
  induction d with
  | nil => simp [set, keys]
  | cons kv d ih =>
      obtain ⟨j, w⟩ := kv
      rw [set]
      by_cases hj : j = k
      · simp [hj, keys]
      · have hcons : keys ((j, w) :: d) = j :: keys d := rfl
        have hset : keys ((j, w) :: set d k v) = j :: keys (set d k v) := rfl
        rw [if_neg hj, hcons, hset, ih]
        by_cases hk : k ∈ keys d
        · rw [if_pos hk, if_pos (List.mem_cons_of_mem _ hk)]
        · have hk' : k ∉ j :: keys d := by simp [hk, Ne.symm hj]
          rw [if_neg hk, if_neg hk', List.cons_append]

theorem set_of_notMem {d : Dict κ β} {k : κ} (h : k ∉ d.keys) (v : β) :
    d.set k v = d ++ [(k, v)] := by
  induction d with
  | nil => rfl
  | cons kv d ih =>
      obtain ⟨j, w⟩ := kv
      rw [keys, List.map_cons, List.mem_cons, not_or] at h
      rw [set, if_neg (Ne.symm h.1), ih h.2]
      rfl

theorem nodup_set {d : Dict κ β} (hnd : d.keys.Nodup) (k : κ) (v : β) :
    (d.set k v).keys.Nodup := by
  rw [keys_set]
  split
  · exact hnd
  · rename_i hk
    exact List.nodup_append.2 ⟨hnd, List.nodup_singleton k, by
      rintro a ha b hb rfl
      rw [List.mem_singleton.1 hb] at ha
      exact hk ha⟩

/-- The last assignment to a key is the one that stands. -/
theorem get?_ofPairs (kvs : List (κ × β)) (k : κ) :
    (ofPairs kvs).get? k = (kvs.filter fun kv => kv.1 = k).getLast?.map Prod.snd := by
  have hgen : ∀ (l : List (κ × β)) (d : Dict κ β),
      (l.foldl (fun d kv => d.set kv.1 kv.2) d).get? k =
        ((l.filter fun kv => kv.1 = k).getLast?.map Prod.snd).or (d.get? k) := by
    intro l
    induction l with
    | nil =>
        intro d
        simp
    | cons kv l ih =>
        intro d
        rw [List.foldl_cons, ih, get?_set]
        by_cases hk : kv.1 = k
        · rw [if_pos hk.symm, List.filter_cons_of_pos (by simpa using hk)]
          cases hl : l.filter fun kv => kv.1 = k with
          | nil => rfl
          | cons x xs => simp [List.getLast?_eq_some_getLast]
        · rw [if_neg fun h => hk h.symm, List.filter_cons_of_neg (by simpa using hk)]
  rw [ofPairs, hgen]
  simp

/-- Distinct keys assigned one after the other stand in their order. -/
theorem ofPairs_of_nodup {kvs : List (κ × β)} (h : (kvs.map Prod.fst).Nodup) : ofPairs kvs = kvs := by
  have hgen : ∀ (l : List (κ × β)) (d : Dict κ β), (d.keys ++ l.map Prod.fst).Nodup →
      l.foldl (fun d kv => d.set kv.1 kv.2) d = d ++ l := by
    intro l
    induction l with
    | nil =>
        intro d _
        simp
    | cons kv l ih =>
        intro d hd
        rw [List.map_cons, List.nodup_append] at hd
        have hk : kv.1 ∉ d.keys := fun hm => hd.2.2 _ hm _ List.mem_cons_self rfl
        rw [List.foldl_cons, set_of_notMem hk, ih]
        · simp
        · rw [keys, List.map_append, List.append_assoc]
          exact List.nodup_append.2 hd
  exact hgen kvs [] (by simpa [keys] using h)

theorem pop_sublist (d : Dict κ β) (k : κ) : List.Sublist (d.pop k) d := by
  induction d with
  | nil => exact List.Sublist.slnil
  | cons kv d ih =>
      rw [pop]
      split
      · exact ih.cons kv
      · exact ih.cons_cons kv

theorem nodup_pop {d : Dict κ β} (hnd : d.keys.Nodup) (k : κ) : (d.pop k).keys.Nodup :=
  hnd.sublist ((pop_sublist d k).map Prod.fst)

theorem pop_of_notMem {d : Dict κ β} {k : κ} (h : k ∉ d.keys) : d.pop k = d := by
  induction d with
  | nil => rfl
  | cons kv d ih =>
      rw [keys, List.map_cons, List.mem_cons, not_or] at h
      rw [pop, if_neg (Ne.symm h.1), ih h.2]

omit [DecidableEq κ] in
/-- A comprehension over the items that drops some of them keeps the keys of the others. -/
theorem keys_filterMap_sublist {γ : Type} (g : β → Option γ) (d : Dict κ β) :
    (keys (d.filterMap fun kv => (g kv.2).map fun w => (kv.1, w))).Sublist d.keys := by
  induction d with
  | nil => exact List.Sublist.slnil
  | cons kv d ih =>
      rw [List.filterMap_cons]
      cases g kv.2 with
      | none => exact ih.cons kv.1
      | some w => exact ih.cons_cons kv.1

end Dict

end ResidualHarness.Python
