import Mathlib.Data.List.Basic
import Mathlib.Order.Lattice

/-!
# Pages of an append-only log

A log is a list with strictly increasing keys. A reader holds a cursor, the key up to which it has
read; a page is the beginning of what comes after it, of a bounded length. Reading a page and moving
the cursor to its last key adds exactly the page to what has been read (`upTo_pageEnd`), and entries
appended later change nothing about that (`upTo_append`).
-/

set_option autoImplicit false

namespace ResidualHarness.Python

section Paging

variable {α κ : Type} [LinearOrder κ] (key : α → κ)

/-- The keys strictly increase. -/
def Increasing (l : List α) : Prop := l.Pairwise fun a b => key a < key b

/-- What a reader with this cursor has read. -/
def upTo (c : κ) (l : List α) : List α := l.filter fun a => decide (key a ≤ c)

/-- What it has not read. -/
def unread (c : κ) (l : List α) : List α := l.filter fun a => decide (c < key a)

/-- The next page: `SELECT .. WHERE key > c ORDER BY key LIMIT n`. -/
def page (c : κ) (n : Nat) (l : List α) : List α := (unread key c l).take n

/-- The cursor after a page. -/
def pageEnd (c : κ) (p : List α) : κ := (p.getLast?.map key).getD c

variable {key}

/-- A log is what has been read followed by what has not. -/
theorem upTo_append_unread {l : List α} (h : Increasing key l) (c : κ) :
    upTo key c l ++ unread key c l = l := by
  induction l with
  | nil => rfl
  | cons a l ih =>
      have htail := (List.pairwise_cons.1 h).2
      have hhead := (List.pairwise_cons.1 h).1
      by_cases ha : key a ≤ c
      · rw [upTo, unread, List.filter_cons_of_pos (by simpa using ha),
          List.filter_cons_of_neg (by simpa using ha), List.cons_append]
        exact congrArg (a :: ·) (ih htail)
      · -- everything after an unread entry is unread
        have hnone : upTo key c l = [] := by
          rw [upTo, List.filter_eq_nil_iff]
          intro b hb
          have hlt : c < key b := lt_trans (not_le.1 ha) (hhead b hb)
          simpa using hlt
        have hall : unread key c l = l := by
          rw [unread, List.filter_eq_self]
          intro b hb
          exact decide_eq_true (lt_trans (not_le.1 ha) (hhead b hb))
        rw [upTo, unread, List.filter_cons_of_neg (by simpa using ha),
          List.filter_cons_of_pos (by simpa using ha)]
        show upTo key c l ++ a :: unread key c l = a :: l
        rw [hnone, hall, List.nil_append]

theorem upTo_eq_self {l : List α} {c : κ} (h : ∀ a ∈ l, key a ≤ c) : upTo key c l = l := by
  rw [upTo, List.filter_eq_self]
  intro a ha
  exact decide_eq_true (h a ha)

theorem upTo_eq_nil {l : List α} {c : κ} (h : ∀ a ∈ l, c < key a) : upTo key c l = [] := by
  rw [upTo, List.filter_eq_nil_iff]
  intro a ha
  simpa using h a ha

theorem upTo_append (c : κ) (l l' : List α) :
    upTo key c (l ++ l') = upTo key c l ++ upTo key c l' := List.filter_append ..

theorem increasing_append {l l' : List α} (h : Increasing key (l ++ l')) :
    Increasing key l ∧ Increasing key l' ∧ ∀ a ∈ l, ∀ b ∈ l', key a < key b :=
  List.pairwise_append.1 h

theorem Increasing.unread {l : List α} (h : Increasing key l) (c : κ) :
    Increasing key (unread key c l) := h.filter _

/-- The last key of a page is above the cursor, and no key of the page is above it. -/
theorem pageEnd_spec {c : κ} {p : List α} (hp : Increasing key p) (hc : ∀ a ∈ p, c < key a) :
    c ≤ pageEnd key c p ∧ ∀ a ∈ p, key a ≤ pageEnd key c p := by
  rcases List.eq_nil_or_concat p with rfl | ⟨q, z, rfl⟩
  · exact ⟨le_refl c, fun a ha => absurd ha List.not_mem_nil⟩
  · rw [List.concat_eq_append] at hp hc ⊢
    have hend : pageEnd key c (q ++ [z]) = key z := by
      rw [pageEnd, List.getLast?_concat, Option.map_some, Option.getD_some]
    rw [hend]
    refine ⟨le_of_lt (hc z (by simp)), ?_⟩
    intro a ha
    rcases List.mem_append.1 ha with ha | ha
    · exact le_of_lt ((increasing_append hp).2.2 a ha z (by simp))
    · rw [List.mem_singleton.1 ha]

/-- Reading a page: what has been read grows by the page. -/
theorem upTo_pageEnd {l : List α} (h : Increasing key l) (c : κ) (n : Nat) :
    upTo key (pageEnd key c (page key c n l)) l = upTo key c l ++ page key c n l := by
  have hrest := Increasing.unread h c
  have habove : ∀ a ∈ unread key c l, c < key a := fun a ha =>
    of_decide_eq_true (List.mem_filter.1 ha).2
  have hsplit : page key c n l ++ (unread key c l).drop n = unread key c l := List.take_append_drop ..
  have hpage : ∀ a ∈ page key c n l, c < key a := fun a ha => habove a (List.mem_of_mem_take ha)
  have hinc : Increasing key (page key c n l) := hrest.sublist (List.take_sublist n _)
  obtain ⟨hle, hkeys⟩ := pageEnd_spec hinc hpage
  rw [← hsplit] at hrest
  -- past the page nothing is read: every later key is above the last one of the page
  have hlater : upTo key (pageEnd key c (page key c n l)) ((unread key c l).drop n) = [] := by
    apply upTo_eq_nil
    intro b hb
    rcases List.eq_nil_or_concat (page key c n l) with hnil | ⟨q, z, hz⟩
    · rw [hnil]
      exact habove b (List.mem_of_mem_drop hb)
    · have hlt := (increasing_append hrest).2.2 z (by rw [hz]; simp) b hb
      rw [hz, pageEnd, List.concat_eq_append, List.getLast?_concat, Option.map_some, Option.getD_some]
      exact hlt
  have hold : upTo key (pageEnd key c (page key c n l)) (upTo key c l) = upTo key c l := by
    apply upTo_eq_self
    intro a ha
    exact le_trans (of_decide_eq_true (List.mem_filter.1 ha).2) hle
  calc upTo key (pageEnd key c (page key c n l)) l
      = upTo key (pageEnd key c (page key c n l))
          (upTo key c l ++ (page key c n l ++ (unread key c l).drop n)) := by
        rw [hsplit, upTo_append_unread h]
    _ = upTo key c l ++ (page key c n l ++ []) := by
        rw [upTo_append, hold, upTo_append, hlater, upTo_eq_self hkeys]
    _ = upTo key c l ++ page key c n l := by rw [List.append_nil]

theorem unread_pageEnd {l : List α} (h : Increasing key l) (c : κ) (n : Nat) :
    unread key (pageEnd key c (page key c n l)) l = (unread key c l).drop n := by
  have h1 := upTo_append_unread h (pageEnd key c (page key c n l))
  have h2 := upTo_append_unread h c
  rw [upTo_pageEnd h, List.append_assoc] at h1
  have h3 : page key c n l ++ unread key (pageEnd key c (page key c n l)) l = unread key c l :=
    List.append_cancel_left (h1.trans h2.symm)
  have h4 : page key c n l ++ (unread key c l).drop n = unread key c l := List.take_append_drop ..
  exact List.append_cancel_left (h3.trans h4.symm)

end Paging

end ResidualHarness.Python
