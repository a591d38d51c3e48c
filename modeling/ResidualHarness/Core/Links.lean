import Mathlib.Data.List.Basic
import Mathlib.Data.List.Induction

/-!
# Linked lists of hashes

Items with a hash and the hash of the item before. When equal hashes come from items with equal
content and equal predecessors, the hash of the last item commits to the whole list
(`map_eq_of_head`), and no hash occurs twice (`hash_nodup`).
-/

set_option autoImplicit false

namespace ResidualHarness.Core

variable {α β η : Type} (prev hash : α → η)

/-- Every item has the hash of the item before it. -/
def Links : η → List α → Prop
  | _, [] => True
  | p, a :: as => prev a = p ∧ Links (hash a) as

/-- The hash of the last item, or the one before the first. -/
def linkHead : η → List α → η
  | p, [] => p
  | _, a :: as => linkHead (hash a) as

variable {prev hash}

@[simp]
theorem links_nil (p : η) : Links prev hash p [] := trivial

@[simp]
theorem links_cons {p : η} {a : α} {as : List α} :
    Links prev hash p (a :: as) ↔ prev a = p ∧ Links prev hash (hash a) as := Iff.rfl

@[simp]
theorem linkHead_append (p : η) (as bs : List α) :
    linkHead hash p (as ++ bs) = linkHead hash (linkHead hash p as) bs := by
  induction as generalizing p with
  | nil => rfl
  | cons a as ih => exact ih (hash a)

@[simp]
theorem links_append {p : η} {as bs : List α} :
    Links prev hash p (as ++ bs) ↔
      Links prev hash p as ∧ Links prev hash (linkHead hash p as) bs := by
  induction as generalizing p with
  | nil => simp [linkHead]
  | cons a as ih => simp [linkHead, ih, and_assoc]

/-- Equal hashes come from items with equal content and equal predecessors. -/
def Binding (prev hash : α → η) (content : α → β) (as bs : List α) : Prop :=
  ∀ a ∈ as, ∀ b ∈ bs, hash a = hash b → content a = content b ∧ prev a = prev b

/-- The hash of the last item commits to the whole list. -/
theorem map_eq_of_head {content : α → β} {g : η} {as : List α} : ∀ {bs : List α},
    Links prev hash g as → Links prev hash g bs → (∀ a ∈ as, hash a ≠ g) → (∀ b ∈ bs, hash b ≠ g) →
    Binding prev hash content as bs → linkHead hash g as = linkHead hash g bs →
      as.map content = bs.map content := by
  induction as using List.reverseRecOn with
  | nil =>
      intro bs _ _ _ hb _ hhead
      cases bs using List.reverseRecOn with
      | nil => rfl
      | append_singleton bs b =>
          rw [linkHead_append] at hhead
          exact absurd hhead.symm (hb b (by simp))
  | append_singleton as a ih =>
      intro bs hl hl' ha hb hbind hhead
      cases bs using List.reverseRecOn with
      | nil =>
          rw [linkHead_append] at hhead
          exact absurd hhead (ha a (by simp))
      | append_singleton bs b =>
          rw [linkHead_append, linkHead_append] at hhead
          obtain ⟨hcontent, hprev⟩ := hbind a (by simp) b (by simp) hhead
          rw [links_append] at hl hl'
          -- the items agree, so the lists before them have one head
          have hheads : linkHead hash g as = linkHead hash g bs := by
            rw [← hl.2.1, ← hl'.2.1, hprev]
          have hrest := ih hl.1 hl'.1 (fun c hc => ha c (by simp [hc]))
            (fun c hc => hb c (by simp [hc]))
            (fun c hc d hd => hbind c (by simp [hc]) d (by simp [hd])) hheads
          rw [List.map_append, List.map_append, hrest]
          simp [hcontent]

/-- A list whose head is the hash of an item of another list is a prefix of it. -/
theorem isPrefix_of_head {content : α → β} {g : η} {as bs : List α} (hl : Links prev hash g as)
    (hl' : Links prev hash g bs) (ha : ∀ a ∈ as, hash a ≠ g) (hb : ∀ b ∈ bs, hash b ≠ g)
    (hbind : Binding prev hash content as bs) {b : α} (hmem : b ∈ bs)
    (hhead : linkHead hash g as = hash b) : as.map content <+: bs.map content := by
  obtain ⟨before, after, rfl⟩ := List.append_of_mem hmem
  have hcut : before ++ b :: after = (before ++ [b]) ++ after := by simp
  rw [hcut] at hl' hb hbind ⊢
  have heq := map_eq_of_head hl (links_append.1 hl').1 ha
    (fun c hc => hb c (List.mem_append_left _ hc))
    (fun c hc d hd => hbind c hc d (List.mem_append_left _ hd)) (by simp [hhead, linkHead])
  rw [heq]
  exact ⟨after.map content, by simp⟩

theorem hash_nodup {content : α → β} {g : η} {as : List α} (hl : Links prev hash g as)
    (ha : ∀ a ∈ as, hash a ≠ g) (hbind : Binding prev hash content as as) : (as.map hash).Nodup := by
  induction as using List.reverseRecOn with
  | nil => exact .nil
  | append_singleton as a ih =>
      have hpre := (links_append.1 hl).1
      rw [List.map_append, List.nodup_append]
      refine ⟨ih hpre (fun c hc => ha c (by simp [hc]))
        (fun c hc d hd => hbind c (by simp [hc]) d (by simp [hd])), by simp, ?_⟩
      rintro h hmem _ hlast rfl
      obtain ⟨b, hb, hbh⟩ := List.mem_map.1 hmem
      have hha : h = hash a := by simpa using hlast
      obtain ⟨before, after, rfl⟩ := List.append_of_mem hb
      -- the list up to the earlier item would be the whole list
      have hcut : Links prev hash g (before ++ [b]) := by
        have h : before ++ b :: after = (before ++ [b]) ++ after := by simp
        rw [h, links_append] at hpre
        exact hpre.1
      have heq := map_eq_of_head hl hcut ha (fun c hc => ha c (by
          rcases List.mem_append.1 hc with hc | hc
          · simp [hc]
          · simp [List.mem_singleton.1 hc]))
        (fun c hc d hd => hbind c hc d (by
          rcases List.mem_append.1 hd with hd | hd
          · simp [hd]
          · simp [List.mem_singleton.1 hd])) (by simp [linkHead, hbh, hha])
      have hlen := congrArg List.length heq
      simp only [List.length_map, List.length_append, List.length_cons, List.length_nil] at hlen
      omega

end ResidualHarness.Core
