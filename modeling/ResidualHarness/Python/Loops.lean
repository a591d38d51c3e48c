import Mathlib.Data.List.Forall2

/-!
# Code that can raise

Checks and sequences (`require_eq_ok`, `bind_eq_ok`), and comprehensions and searches whose element
expressions may raise. Each loop has one rule: if the element expression succeeds on every element,
the loop is the pure list operation. A run of a state machine is a fold of its step, with one rule
for invariants (`foldl_invariant`).
-/

set_option autoImplicit false

namespace ResidualHarness.Python

variable {ε α β γ : Type}

/-- `if not p: raise x`. -/
def require (p : Prop) [Decidable p] (x : ε) : Except ε Unit := if p then .ok () else .error x

theorem require_eq_ok {p : Prop} [Decidable p] {x : ε} {u : Unit} :
    require p x = .ok u ↔ p := by
  rw [require]
  constructor
  · intro h
    split at h
    · assumption
    · cases h
  · intro h
    rw [if_pos h]

theorem require_of {p : Prop} [Decidable p] {x : ε} (h : p) : require p x = .ok () :=
  require_eq_ok.2 h

theorem bind_eq_ok {x : Except ε α} {f : α → Except ε β} {b : β} :
    (x >>= f) = .ok b ↔ ∃ a, x = .ok a ∧ f a = .ok b := by
  cases x with
  | error e => exact ⟨nofun, fun ⟨_, h, _⟩ => nomatch h⟩
  | ok a => exact ⟨fun h => ⟨a, rfl, h⟩, fun ⟨_, he, h⟩ => by cases he; exact h⟩

/-- An invariant of every step is an invariant of every run. -/
theorem foldl_invariant {σ : Type} {P : σ → Prop} {f : σ → α → σ}
    (hstep : ∀ s a, P s → P (f s a)) (as : List α) {s : σ} (h : P s) : P (as.foldl f s) := by
  induction as generalizing s with
  | nil => exact h
  | cons a as ih => exact ih (hstep s a h)

/-- `[a for a in l if p(a)]`. -/
def filterE (p : α → Except ε Bool) : List α → Except ε (List α)
  | [] => .ok []
  | a :: l => do
      let keep ← p a
      let rest ← filterE p l
      return if keep then a :: rest else rest

/-- `[f(a) for a in l]`. -/
def mapE (f : α → Except ε β) : List α → Except ε (List β)
  | [] => .ok []
  | a :: l => do
      let b ← f a
      let rest ← mapE f l
      return b :: rest

/-- The first element with `p`, as a loop that returns from its body. -/
def findE (p : α → Except ε Bool) : List α → Except ε (Option α)
  | [] => .ok none
  | a :: l => do
      if ← p a then return some a
      findE p l

theorem forall₂_mem_left {R : α → γ → Prop} {l : List α} {m : List γ} (h : List.Forall₂ R l m)
    {a : α} (ha : a ∈ l) : ∃ c ∈ m, R a c := by
  induction h with
  | nil => cases ha
  | @cons b c l m hbc _ ih =>
      rcases List.mem_cons.1 ha with rfl | ha
      · exact ⟨c, List.mem_cons_self, hbc⟩
      · obtain ⟨d, hd, hR⟩ := ih ha
        exact ⟨d, List.mem_cons_of_mem _ hd, hR⟩

theorem forall₂_mem_right {R : α → γ → Prop} {l : List α} {m : List γ} (h : List.Forall₂ R l m)
    {c : γ} (hc : c ∈ m) : ∃ a ∈ l, R a c := forall₂_mem_left h.flip hc

theorem pairwise_of_forall₂ {R : α → γ → Prop} {P : α → α → Prop} {Q : γ → γ → Prop} {l : List α}
    {m : List γ} (h : List.Forall₂ R l m) (hm : m.Pairwise Q)
    (hPQ : ∀ a b c d, R a c → R b d → Q c d → P a b) : l.Pairwise P := by
  induction h with
  | nil => exact List.Pairwise.nil
  | @cons a c l m hac hlm ih =>
      obtain ⟨hc, hm⟩ := List.pairwise_cons.1 hm
      refine List.pairwise_cons.2 ⟨?_, ih hm⟩
      intro b hb
      obtain ⟨d, hd, hbd⟩ := forall₂_mem_left hlm hb
      exact hPQ a b c d hac hbd (hc d hd)

theorem eq_map_of_forall₂ {f : γ → α} {l : List α} {m : List γ}
    (h : List.Forall₂ (fun a c => a = f c) l m) : l = m.map f := by
  rw [← List.forall₂_eq_eq_eq, List.forall₂_map_right_iff]
  exact h

theorem filterE_forall₂ {R : α → γ → Prop} {p : α → Except ε Bool} {q : γ → Bool} {l : List α}
    {m : List γ} (h : List.Forall₂ R l m) (hp : ∀ a c, R a c → p a = .ok (q c)) :
    ∃ l', filterE p l = .ok l' ∧ List.Forall₂ R l' (m.filter q) := by
  induction h with
  | nil => exact ⟨[], rfl, List.Forall₂.nil⟩
  | @cons a c l m hac _ ih =>
      obtain ⟨l', hl, hR⟩ := ih
      cases hq : q c with
      | true =>
          refine ⟨a :: l', ?_, ?_⟩
          · simp [filterE, hp a c hac, hl, hq, bind, Except.bind, pure, Except.pure]
          · rw [List.filter_cons_of_pos hq]
            exact List.Forall₂.cons hac hR
      | false =>
          refine ⟨l', ?_, ?_⟩
          · simp [filterE, hp a c hac, hl, hq, bind, Except.bind, pure, Except.pure]
          · rw [List.filter_cons_of_neg (by rw [hq]; exact Bool.false_ne_true)]
            exact hR

theorem mapE_forall₂ {R : α → γ → Prop} {S : β → γ → Prop} {f : α → Except ε β} {l : List α}
    {m : List γ} (h : List.Forall₂ R l m) (hf : ∀ a c, R a c → ∃ b, f a = .ok b ∧ S b c) :
    ∃ l', mapE f l = .ok l' ∧ List.Forall₂ S l' m := by
  induction h with
  | nil => exact ⟨[], rfl, List.Forall₂.nil⟩
  | @cons a c l m hac _ ih =>
      obtain ⟨l', hl, hS⟩ := ih
      obtain ⟨b, hb, hbc⟩ := hf a c hac
      refine ⟨b :: l', ?_, List.Forall₂.cons hbc hS⟩
      simp [mapE, hb, hl, bind, Except.bind, pure, Except.pure]

/-- A comprehension that does not raise has the value of its element expression at each place. -/
theorem mapE_eq_ok {f : α → Except ε β} {l : List α} {l' : List β} (h : mapE f l = .ok l') :
    List.Forall₂ (fun a b => f a = .ok b) l l' := by
  induction l generalizing l' with
  | nil =>
      cases h
      exact List.Forall₂.nil
  | cons a l ih =>
      obtain ⟨b, hb, h⟩ := bind_eq_ok.1 h
      obtain ⟨bs, hbs, h⟩ := bind_eq_ok.1 h
      cases h
      exact List.Forall₂.cons hb (ih hbs)

/-- What every element expression keeps, the comprehension keeps. -/
theorem map_of_mapE {f : α → Except ε β} {g : β → γ} {k : α → γ} {l : List α} {l' : List β}
    (h : mapE f l = .ok l') (hg : ∀ a ∈ l, ∀ b, f a = .ok b → g b = k a) : l'.map g = l.map k := by
  induction l generalizing l' with
  | nil =>
      cases h
      rfl
  | cons a l ih =>
      obtain ⟨b, hb, h⟩ := bind_eq_ok.1 h
      obtain ⟨bs, hbs, h⟩ := bind_eq_ok.1 h
      cases h
      rw [List.map_cons, List.map_cons, hg a List.mem_cons_self b hb,
        ih hbs fun x hx => hg x (List.mem_cons_of_mem _ hx)]

/-- An element of a comprehension is the value of an element expression. -/
theorem of_mem_mapE {f : α → Except ε β} {l : List α} {l' : List β} (h : mapE f l = .ok l') {b : β}
    (hb : b ∈ l') : ∃ a ∈ l, f a = .ok b := by
  induction l generalizing l' with
  | nil =>
      cases h
      cases hb
  | cons a l ih =>
      obtain ⟨b', hb', h⟩ := bind_eq_ok.1 h
      obtain ⟨rest, hrest, h⟩ := bind_eq_ok.1 h
      cases h
      rcases List.mem_cons.1 hb with rfl | hb
      · exact ⟨a, List.mem_cons_self, hb'⟩
      · obtain ⟨x, hx, hfx⟩ := ih hrest hb
        exact ⟨x, List.mem_cons_of_mem _ hx, hfx⟩

/-- A comprehension returns when every element expression does. -/
theorem exists_mapE {f : α → Except ε β} {l : List α} (h : ∀ a ∈ l, ∃ b, f a = .ok b) :
    ∃ l', mapE f l = .ok l' := by
  induction l with
  | nil => exact ⟨[], rfl⟩
  | cons a l ih =>
      obtain ⟨b, hb⟩ := h a List.mem_cons_self
      obtain ⟨rest, hrest⟩ := ih fun x hx => h x (List.mem_cons_of_mem _ hx)
      exact ⟨b :: rest, by rw [mapE, hb, hrest]; rfl⟩

/-- Paired values of a comprehension: the element expression at each place. -/
theorem mem_zip_of_mapE {f : α → Except ε β} {l : List α} {l' : List β}
    (h : mapE f l = .ok l') {a : α} (ha : a ∈ l) : ∃ b, (a, b) ∈ l.zip l' ∧ f a = .ok b := by
  have hf := mapE_eq_ok h
  clear h
  induction hf with
  | nil => cases ha
  | cons hab _ ih =>
      rcases List.mem_cons.1 ha with rfl | ha
      · exact ⟨_, List.mem_cons_self, hab⟩
      · obtain ⟨b, hb, hfb⟩ := ih ha
        exact ⟨b, List.mem_cons_of_mem _ hb, hfb⟩

theorem of_mem_zip_mapE {f : α → Except ε β} {l : List α} {l' : List β}
    (h : mapE f l = .ok l') {p : α × β} (hp : p ∈ l.zip l') : p.1 ∈ l ∧ f p.1 = .ok p.2 := by
  have hf := mapE_eq_ok h
  clear h
  induction hf with
  | nil => cases hp
  | cons hab _ ih =>
      rcases List.mem_cons.1 hp with rfl | hp
      · exact ⟨List.mem_cons_self, hab⟩
      · exact ⟨List.mem_cons_of_mem _ (ih hp).1, (ih hp).2⟩

/-- A loop that does not raise keeps an invariant of the elements it has passed. -/
theorem foldlM_invariant {σ : Type} {P : List α → σ → Prop} {f : σ → α → Except ε σ} {l : List α}
    {s s' : σ} (h : l.foldlM f s = .ok s') (h0 : P [] s)
    (hstep : ∀ pre x post t t', l = pre ++ x :: post → P pre t → f t x = .ok t' →
      P (pre ++ [x]) t') : P l s' := by
  have hgen : ∀ (pre post : List α) (t : σ), l = pre ++ post → P pre t →
      post.foldlM f t = .ok s' → P l s' := by
    intro pre post
    induction post generalizing pre with
    | nil =>
        intro t hl hP hf
        cases hf
        rw [hl, List.append_nil]
        exact hP
    | cons x post ih =>
        intro t hl hP hf
        rw [List.foldlM_cons] at hf
        obtain ⟨t', ht', hf⟩ := bind_eq_ok.1 hf
        exact ih (pre ++ [x]) t' (by rw [hl]; simp) (hstep pre x post t t' hl hP ht') hf
  exact hgen [] l s rfl h0 h

/-- A search finds nothing exactly when no element has the property. -/
theorem findE_forall₂ {R : α → γ → Prop} {p : α → Except ε Bool} {q : γ → Bool} {l : List α}
    {m : List γ} (h : List.Forall₂ R l m) (hp : ∀ a c, R a c → p a = .ok (q c)) :
    (∃ a c, findE p l = .ok (some a) ∧ R a c ∧ c ∈ m ∧ q c = true) ∨
      findE p l = .ok none ∧ ∀ c ∈ m, q c = false := by
  induction h with
  | nil => exact Or.inr ⟨rfl, nofun⟩
  | @cons a c l m hac _ ih =>
      cases hq : q c with
      | true =>
          refine Or.inl ⟨a, c, ?_, hac, List.mem_cons_self, hq⟩
          simp [findE, hp a c hac, hq, bind, Except.bind, pure, Except.pure]
      | false =>
          have hstep : findE p (a :: l) = findE p l := by
            simp [findE, hp a c hac, hq, bind, Except.bind]
          rw [hstep]
          rcases ih with ⟨a', c', hf, hR, hc, hq'⟩ | ⟨hf, hall⟩
          · exact Or.inl ⟨a', c', hf, hR, List.mem_cons_of_mem _ hc, hq'⟩
          · refine Or.inr ⟨hf, ?_⟩
            intro d hd
            rcases List.mem_cons.1 hd with rfl | hd
            · exact hq
            · exact hall d hd

end ResidualHarness.Python
