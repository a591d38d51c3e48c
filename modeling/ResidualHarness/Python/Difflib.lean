import Mathlib.Data.List.Sort
import Mathlib.Data.List.Infix

/-!
# Edit scripts

`difflib.SequenceMatcher.get_opcodes` over the matching blocks of two sequences, for any matcher
that meets the documentation of `get_matching_blocks` (`MatchingBlocks`). The non-equal opcodes are a
complete description of the change: patching the first sequence with them gives the second
(`patch_editsFrom`), and as they are ordered by their start, the set of them is enough
(`eq_of_edits_mem_iff`).
-/

set_option autoImplicit false

namespace ResidualHarness.Python

variable {α β : Type}

/-- The tags of an opcode. -/
inductive OpTag where
  | replace
  | delete
  | insert
  | equal
deriving DecidableEq, Repr

/-- An opcode: `a[i1:i2]` becomes `b[j1:j2]`. -/
structure Opcode where
  tag : OpTag
  i1 : Nat
  i2 : Nat
  j1 : Nat
  j2 : Nat
deriving DecidableEq, Repr

/-- A slice `xs[i:j]` of a list. -/
def slice (xs : List α) (i j : Nat) : List α := (xs.drop i).take (j - i)

/-- A matching block: `a[i:i+n] == b[j:j+n]`. -/
abbrev Block := Nat × Nat × Nat

/-- The loop of `get_opcodes`, with the ends of the previous block in `i` and `j`. -/
def opcodesFrom : Nat → Nat → List Block → List Opcode
  | _, _, [] => []
  | i, j, (ai, bj, n) :: blocks =>
      (if i < ai ∧ j < bj then [⟨.replace, i, ai, j, bj⟩]
        else if i < ai then [⟨.delete, i, ai, j, bj⟩]
        else if j < bj then [⟨.insert, i, ai, j, bj⟩]
        else []) ++
      (if n ≠ 0 then [⟨.equal, ai, ai + n, bj, bj + n⟩] else []) ++
      opcodesFrom (ai + n) (bj + n) blocks

/-- `get_opcodes()`. -/
def getOpcodes (blocks : List Block) : List Opcode := opcodesFrom 0 0 blocks

/-- What `get_matching_blocks` documents of the blocks from `(i, j)` on: they match, they do not
overlap and increase in both sequences, and the last one, the only empty one, stands at the ends. -/
def BlocksFrom (a b : List α) : Nat → Nat → List Block → Prop
  | _, _, [] => False
  | i, j, [(ai, bj, n)] => n = 0 ∧ ai = a.length ∧ bj = b.length ∧ i ≤ ai ∧ j ≤ bj
  | i, j, (ai, bj, n) :: blocks =>
      0 < n ∧ i ≤ ai ∧ j ≤ bj ∧ ai + n ≤ a.length ∧ bj + n ≤ b.length ∧
        slice a ai (ai + n) = slice b bj (bj + n) ∧ BlocksFrom a b (ai + n) (bj + n) blocks

/-- A matcher that behaves as `get_matching_blocks` is documented to. -/
def MatchingBlocks (matcher : List α → List α → List Block) : Prop :=
  ∀ a b, BlocksFrom a b 0 0 (matcher a b)

/-- An edit of `a`: the tag, the slice that goes and the items that come. -/
structure LineEdit (α : Type) where
  tag : OpTag
  i1 : Nat
  i2 : Nat
  replacement : List α
deriving DecidableEq, Repr

/-- The edits of a list of opcodes with the target `b`. -/
def editsOf (b : List α) (ops : List Opcode) : List (LineEdit α) :=
  (ops.filter fun op => op.tag ≠ .equal).map fun op => ⟨op.tag, op.i1, op.i2, slice b op.j1 op.j2⟩

/-- The sequence that edits, in order, make of `a` from position `i` on. -/
def patch (a : List α) : Nat → List (LineEdit α) → List α
  | i, [] => a.drop i
  | i, e :: es => slice a i e.i1 ++ e.replacement ++ patch a e.i2 es

/-- An edit with other names for its items. -/
def LineEdit.map (f : α → β) (e : LineEdit α) : LineEdit β :=
  ⟨e.tag, e.i1, e.i2, e.replacement.map f⟩

theorem slice_map (f : α → β) (a : List α) (i j : Nat) :
    slice (a.map f) i j = (slice a i j).map f := by
  simp [slice, List.map_take, List.map_drop]

theorem slice_self (a : List α) (i : Nat) : slice a i i = [] := by simp [slice]

theorem slice_append_drop (a : List α) {i j : Nat} (h : i ≤ j) :
    slice a i j ++ a.drop j = a.drop i := by
  have hd : a.drop j = (a.drop i).drop (j - i) := by
    rw [List.drop_drop]
    congr 1
    omega
  rw [slice, hd, List.take_append_drop]

theorem slice_append_slice (a : List α) {i j k : Nat} (hij : i ≤ j) (hjk : j ≤ k) :
    slice a i j ++ slice a j k = slice a i k := by
  have hd : a.drop j = (a.drop i).drop (j - i) := by
    rw [List.drop_drop]
    congr 1
    omega
  have hk : k - i = (j - i) + (k - j) := by omega
  rw [slice, slice, slice, hd, hk, ← List.take_add]

theorem patch_map (f : α → β) (a : List α) (i : Nat) (es : List (LineEdit α)) :
    patch (a.map f) i (es.map (LineEdit.map f)) = (patch a i es).map f := by
  induction es generalizing i with
  | nil => simp [patch]
  | cons e es ih =>
      rw [List.map_cons, patch, patch, ih, List.map_append, List.map_append, ← slice_map]
      rfl

/-- Edits that start at `j` or later leave what stands before `j`. -/
theorem patch_skip (a : List α) {i j : Nat} (hij : i ≤ j) {es : List (LineEdit α)}
    (hes : ∀ e ∈ es, j ≤ e.i1) : patch a i es = slice a i j ++ patch a j es := by
  cases es with
  | nil => rw [patch, patch, slice_append_drop a hij]
  | cons e es =>
      have hj : j ≤ e.i1 := hes e List.mem_cons_self
      rw [patch, patch, ← slice_append_slice a hij hj]
      simp only [List.append_assoc]

theorem editsOf_append (b : List α) (ops ops' : List Opcode) :
    editsOf b (ops ++ ops') = editsOf b ops ++ editsOf b ops' := by
  simp [editsOf]

theorem editsOf_equal (b : List α) (ai bj n : Nat) :
    editsOf b (if n ≠ 0 then [⟨.equal, ai, ai + n, bj, bj + n⟩] else []) = [] := by
  split <;> simp [editsOf]

/-- The change before a block is one edit, or none where nothing changes. -/
theorem editsOf_gap (b : List α) {i j ai bj : Nat} (hi : i ≤ ai) (hj : j ≤ bj) :
    (∃ tag, editsOf b (if i < ai ∧ j < bj then [⟨.replace, i, ai, j, bj⟩]
        else if i < ai then [⟨.delete, i, ai, j, bj⟩]
        else if j < bj then [⟨.insert, i, ai, j, bj⟩] else []) =
      [⟨tag, i, ai, slice b j bj⟩]) ∨
    (i = ai ∧ j = bj ∧ editsOf b (if i < ai ∧ j < bj then [⟨.replace, i, ai, j, bj⟩]
        else if i < ai then [⟨.delete, i, ai, j, bj⟩]
        else if j < bj then [⟨.insert, i, ai, j, bj⟩] else []) = []) := by
  split
  · exact Or.inl ⟨.replace, rfl⟩
  · split
    · exact Or.inl ⟨.delete, rfl⟩
    · split
      · exact Or.inl ⟨.insert, rfl⟩
      · exact Or.inr ⟨by omega, by omega, rfl⟩

/-- What the blocks from `(i, j)` on contribute: the gap before the first block, and the rest. -/
theorem editsOf_opcodesFrom_cons (b : List α) (i j ai bj n : Nat) (blocks : List Block) :
    editsOf b (opcodesFrom i j ((ai, bj, n) :: blocks)) =
      editsOf b (if i < ai ∧ j < bj then [⟨.replace, i, ai, j, bj⟩]
        else if i < ai then [⟨.delete, i, ai, j, bj⟩]
        else if j < bj then [⟨.insert, i, ai, j, bj⟩] else []) ++
      editsOf b (opcodesFrom (ai + n) (bj + n) blocks) := by
  rw [opcodesFrom, editsOf_append, editsOf_append, editsOf_equal, List.append_nil]

theorem le_i1_of_mem_edits {a b : List α} {blocks : List Block} {i j : Nat}
    (h : BlocksFrom a b i j blocks) : ∀ e ∈ editsOf b (opcodesFrom i j blocks), i ≤ e.i1 := by
  induction blocks generalizing i j with
  | nil => exact h.elim
  | cons block blocks ih =>
      obtain ⟨ai, bj, n⟩ := block
      intro e he
      rw [editsOf_opcodesFrom_cons] at he
      have hle : i ≤ ai ∧ j ≤ bj := by
        cases blocks with
        | nil => exact ⟨h.2.2.2.1, h.2.2.2.2⟩
        | cons c cs => exact ⟨h.2.1, h.2.2.1⟩
      rcases List.mem_append.1 he with he | he
      · rcases editsOf_gap b hle.1 hle.2 with ⟨tag, hgap⟩ | ⟨-, -, hgap⟩
        · rw [hgap] at he
          rw [List.mem_singleton.1 he]
        · rw [hgap] at he
          cases he
      · cases blocks with
        | nil => cases he
        | cons c cs =>
            have := ih h.2.2.2.2.2.2 e he
            omega

/-- Edits start at strictly increasing positions: a block of unchanged items stands between two. -/
theorem edits_pairwise {a b : List α} {blocks : List Block} {i j : Nat}
    (h : BlocksFrom a b i j blocks) :
    (editsOf b (opcodesFrom i j blocks)).Pairwise fun e e' => e.i1 < e'.i1 := by
  induction blocks generalizing i j with
  | nil => exact h.elim
  | cons block blocks ih =>
      obtain ⟨ai, bj, n⟩ := block
      rw [editsOf_opcodesFrom_cons]
      cases blocks with
      | nil =>
          rcases editsOf_gap b h.2.2.2.1 h.2.2.2.2 with ⟨tag, hgap⟩ | ⟨-, -, hgap⟩ <;>
            rw [hgap] <;> simp [opcodesFrom, editsOf]
      | cons c cs =>
          obtain ⟨hn, hi, hj, -, -, -, hrest⟩ := h
          have hlater := le_i1_of_mem_edits hrest
          rcases editsOf_gap b hi hj with ⟨tag, hgap⟩ | ⟨-, -, hgap⟩
          · rw [hgap, List.singleton_append, List.pairwise_cons]
            refine ⟨?_, ih hrest⟩
            intro e he
            have := hlater e he
            show i < e.i1
            omega
          · rw [hgap, List.nil_append]
            exact ih hrest

theorem patch_editsFrom {a b : List α} {blocks : List Block} {i j : Nat}
    (h : BlocksFrom a b i j blocks) :
    patch a i (editsOf b (opcodesFrom i j blocks)) = b.drop j := by
  induction blocks generalizing i j with
  | nil => exact h.elim
  | cons block blocks ih =>
      obtain ⟨ai, bj, n⟩ := block
      rw [editsOf_opcodesFrom_cons]
      -- after the gap, what remains of `b` starts at `bj`
      have hrest : i ≤ ai ∧ j ≤ bj ∧
          patch a ai (editsOf b (opcodesFrom (ai + n) (bj + n) blocks)) = b.drop bj := by
        cases blocks with
        | nil =>
            obtain ⟨rfl, rfl, rfl, hi, hj⟩ := h
            refine ⟨hi, hj, ?_⟩
            simp [opcodesFrom, editsOf, patch]
        | cons c cs =>
            obtain ⟨hn, hi, hj, -, -, hs, hr⟩ := h
            refine ⟨hi, hj, ?_⟩
            rw [patch_skip a (Nat.le_add_right ai n) (le_i1_of_mem_edits hr), ih hr, hs,
              slice_append_drop b (Nat.le_add_right bj n)]
      obtain ⟨hi, hj, hrest⟩ := hrest
      rcases editsOf_gap b hi hj with ⟨tag, hgap⟩ | ⟨rfl, rfl, hgap⟩
      · rw [hgap, List.singleton_append, patch, slice_self, List.nil_append, hrest,
          slice_append_drop b hj]
      · rw [hgap, List.nil_append, hrest]

/-- A map that is injective on the items of two lists distinguishes the lists. -/
theorem eq_of_map_eq {f : α → β} {l l' : List α} (h : l.map f = l'.map f)
    (hf : ∀ x ∈ l, ∀ y ∈ l', f x = f y → x = y) : l = l' := by
  induction l generalizing l' with
  | nil =>
      cases l' with
      | nil => rfl
      | cons y l' => cases h
  | cons x l ih =>
      cases l' with
      | nil => cases h
      | cons y l' =>
          obtain ⟨hxy, hll⟩ := List.cons.inj h
          rw [hf x List.mem_cons_self y List.mem_cons_self hxy,
            ih hll fun a ha b hb => hf a (List.mem_cons_of_mem _ ha) b (List.mem_cons_of_mem _ hb)]

theorem pairwise_map_edits {es : List (LineEdit α)} (f : α → β)
    (h : es.Pairwise fun e e' => e.i1 < e'.i1) :
    (es.map (LineEdit.map f)).Pairwise fun e e' => e.i1 < e'.i1 :=
  List.pairwise_map.2 h

/-- Lists of edits ordered by their starts are equal when they have the same members. -/
theorem eq_of_edits_mem_iff {es es' : List (LineEdit α)}
    (h : es.Pairwise fun e e' => e.i1 < e'.i1) (h' : es'.Pairwise fun e e' => e.i1 < e'.i1)
    (hmem : ∀ e, e ∈ es ↔ e ∈ es') : es = es' := by
  have hnd : ∀ {l : List (LineEdit α)}, (l.Pairwise fun e e' => e.i1 < e'.i1) → l.Nodup :=
    fun hl => hl.imp fun hlt heq => absurd hlt (by rw [heq]; exact lt_irrefl _)
  have hperm : es.Perm es' := (List.perm_ext_iff_of_nodup (hnd h) (hnd h')).2 hmem
  apply hperm.eq_of_pairwise _ h h'
  intro e e' _ _ hlt hlt'
  exact absurd (lt_trans hlt hlt') (lt_irrefl _)

/-- Sequences whose edits relative to one sequence have the same members, up to renaming of the
items, are equal up to the renaming. -/
theorem map_eq_of_edits {a b b' : List α} {blocks blocks' : List Block} (f : α → β)
    (h : BlocksFrom a b 0 0 blocks) (h' : BlocksFrom a b' 0 0 blocks')
    (hmem : ∀ e, e ∈ (editsOf b (getOpcodes blocks)).map (LineEdit.map f) ↔
      e ∈ (editsOf b' (getOpcodes blocks')).map (LineEdit.map f)) : b.map f = b'.map f := by
  have hes : (editsOf b (getOpcodes blocks)).map (LineEdit.map f) =
      (editsOf b' (getOpcodes blocks')).map (LineEdit.map f) :=
    eq_of_edits_mem_iff (pairwise_map_edits f (edits_pairwise h))
      (pairwise_map_edits f (edits_pairwise h')) hmem
  calc b.map f
      = (patch a 0 (editsOf b (getOpcodes blocks))).map f := by
        rw [getOpcodes, patch_editsFrom h, List.drop_zero]
    _ = patch (a.map f) 0 ((editsOf b (getOpcodes blocks)).map (LineEdit.map f)) :=
        (patch_map f a 0 _).symm
    _ = patch (a.map f) 0 ((editsOf b' (getOpcodes blocks')).map (LineEdit.map f)) := by rw [hes]
    _ = (patch a 0 (editsOf b' (getOpcodes blocks'))).map f := patch_map f a 0 _
    _ = b'.map f := by rw [getOpcodes, patch_editsFrom h', List.drop_zero]

end ResidualHarness.Python
