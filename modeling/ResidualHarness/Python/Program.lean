import Mathlib.Logic.Relation
import Mathlib.Data.List.Basic

/-!
# Programs with state and exceptions

A program reads and writes a state and may raise. Its outcome records the state after every write,
so that a property can be stated at every point of a run. `Runs R m s post err` says that every
write of `m` from `s` is a step of `R`, and what holds where `m` returns and where it raises; there
is one rule for each way to build a program. `reach_invariant` turns an invariant of the steps into
one of the points.
-/

set_option autoImplicit false

namespace ResidualHarness.Python

variable {σ ε α β : Type}

/-- What a program did: its result, its last state and the states after its writes. -/
structure Outcome (σ ε α : Type) where
  result : Except ε α
  state : σ
  points : List σ

/-- Programs over a state that may raise. -/
def Prog (σ ε α : Type) : Type := σ → Outcome σ ε α

namespace Prog

/-- Return a value. -/
def ret (a : α) : Prog σ ε α := fun s => ⟨.ok a, s, []⟩

/-- One program after the other; an exception ends the sequence and keeps the state. -/
def andThen (m : Prog σ ε α) (f : α → Prog σ ε β) : Prog σ ε β := fun s =>
  let o := m s
  match o.result with
  | .ok a =>
      let p := f a o.state
      ⟨p.result, p.state, o.points ++ p.points⟩
  | .error e => ⟨.error e, o.state, o.points⟩

instance : Monad (Prog σ ε) where
  pure := ret
  bind := andThen

/-- `raise e`. -/
def raise (e : ε) : Prog σ ε α := fun s => ⟨.error e, s, []⟩

/-- The current state. -/
def read : Prog σ ε σ := fun s => ⟨.ok s, s, []⟩

theorem read_bind (f : σ → Prog σ ε α) (s : σ) : (read >>= f) s = f s s := rfl

/-- A write: a point of the run. -/
def write (f : σ → σ) : Prog σ ε Unit := fun s => ⟨.ok (), f s, [f s]⟩

/-- An expression that may raise. -/
def eval (x : Except ε α) : Prog σ ε α := fun s => ⟨x, s, []⟩

/-- `try`: the program's result, whether it returned or raised. -/
def attempt (m : Prog σ ε α) : Prog σ ε (Except ε α) := fun s =>
  let o := m s
  ⟨.ok o.result, o.state, o.points⟩

/-- `for x in xs`. -/
def each : List β → (β → Prog σ ε Unit) → Prog σ ε Unit
  | [], _ => ret ()
  | x :: xs, f => andThen (f x) fun _ => each xs f

end Prog

/-- The result of a program and its last state. -/
def Prog.final (m : Prog σ ε α) (s : σ) : Except ε α × σ := ((m s).result, (m s).state)

theorem final_bind_ok {m : Prog σ ε α} {f : α → Prog σ ε β} {s t : σ} {a : α}
    (h : m.final s = (.ok a, t)) : (m >>= f).final s = (f a).final t := by
  obtain ⟨hr, rfl⟩ := Prod.mk.inj h
  show (Prog.andThen m f).final s = _
  simp only [Prog.final, Prog.andThen, hr]

theorem final_bind_error {m : Prog σ ε α} {f : α → Prog σ ε β} {s t : σ} {e : ε}
    (h : m.final s = (.error e, t)) : (m >>= f).final s = (.error e, t) := by
  obtain ⟨hr, rfl⟩ := Prod.mk.inj h
  show (Prog.andThen m f).final s = _
  simp only [Prog.final, Prog.andThen, hr]

/-- The points lead from `s` to `t` by steps of `R`. -/
def Steps (R : σ → σ → Prop) : σ → List σ → σ → Prop
  | s, [], t => s = t
  | s, p :: ps, t => R s p ∧ Steps R p ps t

variable {R : σ → σ → Prop}

theorem Steps.append {s t u : σ} {ps qs : List σ} (h : Steps R s ps t) (h' : Steps R t qs u) :
    Steps R s (ps ++ qs) u := by
  induction ps generalizing s with
  | nil =>
      rw [List.nil_append]
      have hst : s = t := h
      rw [hst]
      exact h'
  | cons p ps ih => exact ⟨h.1, ih h.2⟩

theorem Steps.mono {R' : σ → σ → Prop} (hR : ∀ s t, R s t → R' s t) {s t : σ} {ps : List σ}
    (h : Steps R s ps t) : Steps R' s ps t := by
  induction ps generalizing s with
  | nil => exact h
  | cons p ps ih => exact ⟨hR s p h.1, ih h.2⟩

theorem Steps.reach {s t : σ} {ps : List σ} (h : Steps R s ps t) : Relation.ReflTransGen R s t := by
  induction ps generalizing s with
  | nil =>
      have hst : s = t := h
      rw [hst]
  | cons p ps ih => exact Relation.ReflTransGen.head h.1 (ih h.2)

theorem Steps.reach_point {s t : σ} {ps : List σ} (h : Steps R s ps t) {p : σ} (hp : p ∈ ps) :
    Relation.ReflTransGen R s p := by
  induction ps generalizing s with
  | nil => cases hp
  | cons q ps ih =>
      rcases List.mem_cons.1 hp with rfl | hp
      · exact Relation.ReflTransGen.single h.1
      · exact Relation.ReflTransGen.head h.1 (ih h.2 hp)

theorem Steps.reach_between {s t : σ} {pre post : List σ} {p q : σ}
    (h : Steps R s (pre ++ p :: post) t) (hq : q ∈ post) : Relation.ReflTransGen R p q := by
  induction pre generalizing s with
  | nil => exact Steps.reach_point h.2 hq
  | cons r pre ih => exact ih h.2

/-- Of two points the later is reached from the earlier. -/
theorem Steps.pairwise {s t : σ} {ps : List σ} (h : Steps R s ps t) :
    ps.Pairwise (Relation.ReflTransGen R) := by
  induction ps generalizing s with
  | nil => exact List.Pairwise.nil
  | cons p ps ih => exact List.pairwise_cons.2 ⟨fun q hq => h.2.reach_point hq, ih h.2⟩

/-- What every step preserves holds of every state reached. -/
theorem reach_invariant {I : σ → Prop} (hI : ∀ s t, R s t → I s → I t) {s t : σ}
    (h : Relation.ReflTransGen R s t) (hs : I s) : I t := by
  induction h with
  | refl => exact hs
  | tail _ hstep ih => exact hI _ _ hstep ih

/-- A relation that holds across every step and composes holds across every run. -/
theorem reach_relation {Q : σ → σ → Prop} (hrefl : ∀ s, Q s s)
    (htrans : ∀ s t u, Q s t → Q t u → Q s u) (hQ : ∀ s t, R s t → Q s t) {s t : σ}
    (h : Relation.ReflTransGen R s t) : Q s t := by
  induction h with
  | refl => exact hrefl s
  | tail _ hstep ih => exact htrans _ _ _ ih (hQ _ _ hstep)

/-- Every write of `m` from `s` is a step of `R`; `post` holds where `m` returns and `err` where it
raises. -/
def Runs (R : σ → σ → Prop) (m : Prog σ ε α) (s : σ) (post : α → σ → Prop) (err : ε → σ → Prop) :
    Prop :=
  Steps R s (m s).points (m s).state ∧
    (∀ a, (m s).result = .ok a → post a (m s).state) ∧
    ∀ e, (m s).result = .error e → err e (m s).state

section Rules

variable {m : Prog σ ε α} {s : σ} {post post' : α → σ → Prop} {err err' : ε → σ → Prop}

theorem Runs.steps (h : Runs R m s post err) : Steps R s (m s).points (m s).state := h.1

/-- Runs of a relation are runs of every larger one. -/
theorem Runs.mono {R' : σ → σ → Prop} (h : Runs R m s post err) (hR : ∀ s t, R s t → R' s t) :
    Runs R' m s post err :=
  ⟨h.1.mono hR, h.2⟩

theorem Runs.reach (h : Runs R m s post err) : Relation.ReflTransGen R s (m s).state :=
  h.1.reach

theorem Runs.conseq (h : Runs R m s post err)
    (hpost : ∀ a t, Relation.ReflTransGen R s t → post a t → post' a t)
    (herr : ∀ e t, Relation.ReflTransGen R s t → err e t → err' e t) : Runs R m s post' err' :=
  ⟨h.1, fun a ha => hpost a _ h.reach (h.2.1 a ha), fun e he => herr e _ h.reach (h.2.2 e he)⟩

theorem runs_pure {a : α} (h : post a s) : Runs R (pure a) s post err := by
  refine ⟨rfl, ?_, ?_⟩
  · intro b hb
    cases hb
    exact h
  · intro e he
    cases he

theorem runs_raise {e : ε} (h : err e s) : Runs R (Prog.raise e : Prog σ ε α) s post err := by
  refine ⟨rfl, ?_, ?_⟩
  · intro b hb
    cases hb
  · intro e' he
    cases he
    exact h

theorem runs_read {post : σ → σ → Prop} (h : post s s) : Runs R Prog.read s post err := by
  refine ⟨rfl, ?_, ?_⟩
  · intro b hb
    cases hb
    exact h
  · intro e he
    cases he

theorem runs_write {f : σ → σ} {post : Unit → σ → Prop} (hR : R s (f s)) (h : post () (f s)) :
    Runs R (Prog.write f) s post err := by
  refine ⟨⟨hR, rfl⟩, ?_, ?_⟩
  · intro b _
    exact h
  · intro e he
    cases he

theorem runs_eval {x : Except ε α} (hok : ∀ a, x = .ok a → post a s)
    (herr : ∀ e, x = .error e → err e s) : Runs R (Prog.eval x) s post err :=
  ⟨rfl, hok, herr⟩

theorem andThen_ok {f : α → Prog σ ε β} {a : α} (hr : (m s).result = .ok a) :
    Prog.andThen m f s = ⟨(f a (m s).state).result, (f a (m s).state).state,
      (m s).points ++ (f a (m s).state).points⟩ := by
  simp only [Prog.andThen, hr]

theorem andThen_error {f : α → Prog σ ε β} {e : ε} (hr : (m s).result = .error e) :
    Prog.andThen m f s = ⟨.error e, (m s).state, (m s).points⟩ := by
  simp only [Prog.andThen, hr]

theorem runs_bind {f : α → Prog σ ε β} {post : β → σ → Prop}
    (h : Runs R m s (fun a t => Runs R (f a) t post err) err) : Runs R (m >>= f) s post err := by
  obtain ⟨hsteps, hok, herr⟩ := h
  show Runs R (Prog.andThen m f) s post err
  cases hr : (m s).result with
  | ok a =>
      obtain ⟨hsteps', hok', herr'⟩ := hok a hr
      rw [Runs, andThen_ok hr]
      exact ⟨hsteps.append hsteps', hok', herr'⟩
  | error e =>
      rw [Runs, andThen_error hr]
      refine ⟨hsteps, nofun, ?_⟩
      intro e' he
      cases he
      exact herr e hr

/-- The rule for sequences, with what the first program did. -/
theorem runs_bind_reach {f : α → Prog σ ε β} {post : β → σ → Prop} {mid : α → σ → Prop}
    (h : Runs R m s mid err)
    (hf : ∀ a t, Relation.ReflTransGen R s t → mid a t → Runs R (f a) t post err) :
    Runs R (m >>= f) s post err :=
  runs_bind (h.conseq hf fun _ _ _ he => he)

theorem runs_attempt {post : Except ε α → σ → Prop}
    (h : Runs R m s (fun a t => post (.ok a) t) (fun e t => post (.error e) t)) :
    Runs R (Prog.attempt m) s post err := by
  obtain ⟨hsteps, hok, herr⟩ := h
  refine ⟨hsteps, ?_, nofun⟩
  intro r hr
  have hres : (m s).result = r := Except.ok.inj hr
  cases r with
  | ok a => exact hok a hres
  | error e => exact herr e hres

/-- The rule for loops, with an invariant of the elements that have been passed. -/
theorem runs_each {xs : List β} {f : β → Prog σ ε Unit} {I : List β → σ → Prop}
    (h0 : I [] s)
    (hstep : ∀ pre x rest t, xs = pre ++ x :: rest → Relation.ReflTransGen R s t → I pre t →
      Runs R (f x) t (fun _ u => I (pre ++ [x]) u) err) :
    Runs R (Prog.each xs f) s (fun _ t => I xs t) err := by
  have hgen : ∀ (post pre : List β) (t : σ), xs = pre ++ post → Relation.ReflTransGen R s t →
      I pre t → Runs R (Prog.each post f) t (fun _ u => I xs u) err := by
    intro post
    induction post with
    | nil =>
        intro pre t hxs _ hI
        rw [hxs, List.append_nil]
        exact runs_pure hI
    | cons x post ih =>
        intro pre t hxs hreach hI
        apply runs_bind_reach (hstep pre x post t hxs hreach hI)
        intro _ u hu hI'
        exact ih (pre ++ [x]) u (by rw [hxs]; simp) (hreach.trans hu) hI'
  exact hgen xs [] s rfl Relation.ReflTransGen.refl h0

end Rules

/-! ## Ends -/

/-- `post` holds where `m` returns and `err` where it raises; the points between do not matter. -/
def Yields (m : Prog σ ε α) (s : σ) (post : α → σ → Prop) (err : ε → σ → Prop) : Prop :=
  (∀ a, (m s).result = .ok a → post a (m s).state) ∧
    ∀ e, (m s).result = .error e → err e (m s).state

section Ends

variable {m : Prog σ ε α} {s : σ} {post post' : α → σ → Prop} {err err' : ε → σ → Prop}

theorem yields_any : Yields m s (fun _ _ => True) fun _ _ => True :=
  ⟨fun _ _ => trivial, fun _ _ => trivial⟩

theorem Yields.conseq (h : Yields m s post err) (hpost : ∀ a t, post a t → post' a t)
    (herr : ∀ e t, err e t → err' e t) : Yields m s post' err' :=
  ⟨fun a ha => hpost a _ (h.1 a ha), fun e he => herr e _ (h.2 e he)⟩

theorem yields_pure {a : α} (h : post a s) : Yields (pure a) s post err := by
  refine ⟨?_, nofun⟩
  intro b hb
  cases hb
  exact h

theorem yields_raise {e : ε} (h : err e s) : Yields (Prog.raise e : Prog σ ε α) s post err := by
  refine ⟨nofun, ?_⟩
  intro e' he
  cases he
  exact h

theorem yields_bind {f : α → Prog σ ε β} {post : β → σ → Prop} {p : α → σ → Prop}
    (hm : Yields m s p err) (hf : ∀ a t, p a t → Yields (f a) t post err) :
    Yields (m >>= f) s post err := by
  show Yields (Prog.andThen m f) s post err
  cases hr : (m s).result with
  | ok a =>
      rw [Yields, andThen_ok hr]
      exact hf a _ (hm.1 a hr)
  | error e =>
      rw [Yields, andThen_error hr]
      refine ⟨nofun, ?_⟩
      intro e' he
      cases he
      exact hm.2 e hr

theorem yields_read_bind {f : σ → Prog σ ε β} {post : β → σ → Prop}
    (h : Yields (f s) s post err) : Yields (Prog.read >>= f) s post err := h

theorem yields_write_bind {f : σ → σ} {k : Unit → Prog σ ε β} {post : β → σ → Prop}
    (h : Yields (k ()) (f s) post err) : Yields (Prog.write f >>= k) s post err := by
  apply yields_bind (p := fun _ t => t = f s)
  · exact ⟨fun _ _ => rfl, nofun⟩
  · rintro _ t rfl
    exact h

theorem yields_attempt {post : Except ε α → σ → Prop}
    (h : Yields m s (fun a t => post (.ok a) t) fun e t => post (.error e) t) :
    Yields (Prog.attempt m) s post err := by
  refine ⟨?_, nofun⟩
  intro r hr
  have hres : (m s).result = r := Except.ok.inj hr
  cases r with
  | ok a => exact h.1 a hres
  | error e => exact h.2 e hres

end Ends

end ResidualHarness.Python
