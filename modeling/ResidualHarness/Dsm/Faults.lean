import ResidualHarness.Python.Text
import ResidualHarness.Python.Loops

/-!
# The faulty channel

`residual/dsm/faults.py`: a schedule of faults at send indices, and the channel that applies it to a
list of messages. Reorder faults swap messages on the list first; then the messages are sent one by
one, lost, held or doubled. The swaps use Python indices, which count from the end when negative:
the channel raises `IndexError` exactly when a reorder fault lies before the start of the list, and
otherwise delivers only messages it was given (`transmit_cases`).
-/

set_option autoImplicit false

namespace ResidualHarness.Dsm

open Python

/-! ## Python lists -/

/-- The `IndexError` of a list. -/
def indexError : PyExn := .runtimeError "IndexError" "list index out of range"

/-- The position an index stands for in a list of length `n`. -/
def position (n : Nat) (i : Int) : Except PyExn Nat :=
  let j := if i < 0 then i + n else i
  if 0 ≤ j ∧ j < n then .ok j.toNat else .error indexError

section Lists

variable {α : Type}

/-- `xs[i]`. -/
def getItem (xs : List α) (i : Int) : Except PyExn α := do
  match xs[← position xs.length i]? with
  | some x => return x
  | none => throw indexError

/-- `xs[i] = x`. -/
def setItem (xs : List α) (i : Int) (x : α) : Except PyExn (List α) := do
  return xs.set (← position xs.length i) x

end Lists

/-! ## Schedules -/

/-- `FAULT_KINDS`. -/
inductive FaultKind where
  | duplicate
  | delay
  | reorder
  | loss
deriving DecidableEq, Repr

/-- `Fault`; the field `at` is `sendIndex` here. -/
structure Fault where
  sendIndex : Int
  kind : FaultKind
  param : Int

/-- `FaultSchedule`. -/
structure FaultSchedule where
  faults : List Fault

/-- `FaultSchedule.at_index(index)`. -/
def FaultSchedule.atIndex (s : FaultSchedule) (index : Int) : List Fault :=
  s.faults.filter fun f => f.sendIndex = index

/-- `{f.kind: f for f in at_index(index)}.get(kind)`: the last fault of the kind. -/
def FaultSchedule.faultAt (s : FaultSchedule) (index : Int) (kind : FaultKind) : Option Fault :=
  ((s.atIndex index).filter fun f => f.kind = kind).getLast?

/-- `sorted(swap)`: the indices of the reorder faults. -/
def FaultSchedule.swaps (s : FaultSchedule) : List Int :=
  ((s.faults.filter fun f => f.kind = .reorder).map Fault.sendIndex).dedup.insertionSort (· ≤ ·)

/-! ## The channel -/

section Channel

variable {α : Type}

/-- The swap of one reorder fault. -/
def swapNext (messages : List α) (i : Int) : Except PyExn (List α) := do
  if i + 1 < messages.length then
    let next ← getItem messages (i + 1)
    let this ← getItem messages i
    setItem (← setItem messages i next) (i + 1) this
  else return messages

/-- Messages that are held: their index and the cycles that remain, in the order of `sorted`. -/
def sortedHeld (held : List (Nat × Int)) : List (Nat × Int) :=
  held.insertionSort fun a b => a.1 ≤ b.1

/-- The release of held messages before a send: what is delivered and what is still held. -/
def release (messages : List α) :
    List (Nat × Int) → Except PyExn (List α × List (Nat × Int))
  | [] => .ok ([], [])
  | (heldIndex, cycles) :: held => do
      if cycles - 1 ≤ 0 then
        let message ← getItem messages heldIndex
        let (delivered, kept) ← release messages held
        return (message :: delivered, kept)
      else
        let (delivered, kept) ← release messages held
        return (delivered, (heldIndex, cycles - 1) :: kept)

/-- The send loop of `transmit`, from an index on. -/
def send (s : FaultSchedule) (messages : List α) :
    Nat → List α → List (Nat × Int) → Except PyExn (List α)
  | _, [], held => mapE (fun h => getItem messages (Nat.cast h.1)) (sortedHeld held)
  | index, message :: rest, held => do
      let (delivered, kept) ← release messages (sortedHeld held)
      if (s.faultAt index .loss).isSome then
        return delivered ++ (← send s messages (index + 1) rest kept)
      else
        match s.faultAt index .delay with
        | some f =>
            let cycles := max 1 (if f.param = 0 then 1 else f.param)
            return delivered ++ (← send s messages (index + 1) rest (kept ++ [(index, cycles)]))
        | none =>
            let copies := if (s.faultAt index .duplicate).isSome then [message, message] else [message]
            return delivered ++ (copies ++ (← send s messages (index + 1) rest kept))

/-- `FaultyChannel(schedule).transmit(messages)`. -/
def transmit (s : FaultSchedule) (messages : List α) : Except PyExn (List α) := do
  let messages ← s.swaps.foldlM swapNext messages
  send s messages 0 messages []

/-- `simulate(messages, schedule)`. -/
def simulate (messages : List α) (schedule : FaultSchedule) : Except PyExn (List α) :=
  transmit schedule messages

/-! ## Indices -/

theorem position_cases (n : Nat) (i : Int) :
    ((-(n : Int) ≤ i ∧ i < n) ∧ ∃ p < n, position n i = .ok p) ∨
      ¬ (-(n : Int) ≤ i ∧ i < n) ∧ position n i = .error indexError := by
  have hiff : (0 ≤ (if i < 0 then i + n else i) ∧ (if i < 0 then i + n else i) < (n : Int)) ↔
      -(n : Int) ≤ i ∧ i < n := by
    split <;> omega
  by_cases h : -(n : Int) ≤ i ∧ i < n
  · refine Or.inl ⟨h, (if i < 0 then i + n else i).toNat, ?_, if_pos (hiff.2 h)⟩
    have hpos := hiff.2 h
    omega
  · exact Or.inr ⟨h, if_neg fun hpos => h (hiff.1 hpos)⟩

theorem position_eq_ok {n : Nat} {i : Int} {p : Nat} (h : position n i = .ok p) : p < n := by
  rcases position_cases n i with ⟨-, q, hq, he⟩ | ⟨-, he⟩
  · rw [h] at he
    cases he
    exact hq
  · rw [h] at he
    cases he

theorem position_ok {n : Nat} {i : Int} (hlow : -(n : Int) ≤ i) (hi : i < n) :
    ∃ p, position n i = .ok p := by
  rcases position_cases n i with ⟨-, p, -, he⟩ | ⟨hn, -⟩
  · exact ⟨p, he⟩
  · exact absurd ⟨hlow, hi⟩ hn

theorem getItem_eq_ok {xs : List α} {i : Int} {x : α} :
    getItem xs i = .ok x ↔ ∃ p, position xs.length i = .ok p ∧ xs[p]? = some x := by
  rw [getItem, bind_eq_ok]
  refine exists_congr fun p => and_congr_right fun _ => ?_
  cases xs[p]? with
  | none => exact ⟨nofun, nofun⟩
  | some y => exact ⟨fun h => congrArg some (Except.ok.inj h), fun h => congrArg _ (Option.some.inj h)⟩

theorem getItem_of_position {xs : List α} {i : Int} {p : Nat} (h : position xs.length i = .ok p) :
    getItem xs i = .ok (xs.get ⟨p, position_eq_ok h⟩) :=
  getItem_eq_ok.2 ⟨p, h, List.getElem?_eq_getElem _⟩

theorem getItem_mem {xs : List α} {i : Int} {x : α} (h : getItem xs i = .ok x) : x ∈ xs := by
  obtain ⟨p, -, hx⟩ := getItem_eq_ok.1 h
  exact List.mem_of_getElem? hx

theorem getItem_nat {xs : List α} {n : Nat} (h : n < xs.length) : ∃ x, getItem xs n = .ok x := by
  obtain ⟨p, hp⟩ := position_ok (n := xs.length) (i := n) (by omega) (by exact_mod_cast h)
  exact ⟨_, getItem_of_position hp⟩

theorem getItem_error {xs : List α} {i : Int} (h : ¬ (-(xs.length : Int) ≤ i ∧ i < xs.length)) :
    getItem xs i = .error indexError := by
  rcases position_cases xs.length i with ⟨hi, -⟩ | ⟨-, he⟩
  · exact absurd hi h
  · rw [getItem, he]
    rfl

theorem getItem_cases (xs : List α) (i : Int) :
    (∃ x, getItem xs i = .ok x) ∨ getItem xs i = .error indexError := by
  by_cases h : -(xs.length : Int) ≤ i ∧ i < xs.length
  · obtain ⟨p, hp⟩ := position_ok h.1 h.2
    exact Or.inl ⟨_, getItem_of_position hp⟩
  · exact Or.inr (getItem_error h)

/-! ## Reordering -/

/-- The index of a reorder fault is not before the start of a list of length `n`. -/
def InRange (n : Nat) (i : Int) : Prop := i + 1 < n → -(n : Int) ≤ i

instance (n : Nat) (i : Int) : Decidable (InRange n i) := inferInstanceAs (Decidable (_ → _))

/-- A swap in range permutes the messages; out of range it raises. -/
theorem swapNext_cases (messages : List α) (i : Int) :
    (InRange messages.length i ∧ ∃ out, swapNext messages i = .ok out ∧ out.Perm messages) ∨
      ¬ InRange messages.length i ∧ swapNext messages i = .error indexError := by
  rw [swapNext, InRange]
  by_cases hi : i + 1 < messages.length
  · rw [if_pos hi]
    by_cases hlow : -(messages.length : Int) ≤ i
    · left
      refine ⟨fun _ => hlow, ?_⟩
      obtain ⟨q, hq⟩ := position_ok (n := messages.length) (i := i + 1) (by omega) hi
      obtain ⟨p, hp⟩ := position_ok (n := messages.length) hlow (by omega)
      have hq' : position (messages.set p (messages.get ⟨q, position_eq_ok hq⟩)).length (i + 1) =
          .ok q := by
        rw [List.length_set]
        exact hq
      refine ⟨(messages.set p (messages.get ⟨q, position_eq_ok hq⟩)).set q
        (messages.get ⟨p, position_eq_ok hp⟩), ?_, ?_⟩
      · rw [getItem_of_position hq, getItem_of_position hp]
        simp only [setItem, hp, hq', bind, Except.bind, pure, Except.pure]
      · exact List.set_set_perm (position_eq_ok hp) (position_eq_ok hq)
    · right
      refine ⟨fun h => hlow (h hi), ?_⟩
      -- the message after the fault is read first, and it may still be in range
      rw [getItem_error (i := i) (by omega)]
      rcases getItem_cases messages (i + 1) with ⟨x, hx⟩ | herr
      · rw [hx]
        rfl
      · rw [herr]
        rfl
  · rw [if_neg hi]
    exact Or.inl ⟨fun h => absurd h hi, messages, rfl, List.Perm.refl _⟩

theorem swaps_cases (is : List Int) (messages : List α) :
    ((∀ i ∈ is, InRange messages.length i) ∧
        ∃ out, is.foldlM swapNext messages = .ok out ∧ out.Perm messages) ∨
      (¬ ∀ i ∈ is, InRange messages.length i) ∧
        is.foldlM swapNext messages = .error indexError := by
  induction is generalizing messages with
  | nil => exact Or.inl ⟨nofun, messages, rfl, List.Perm.refl _⟩
  | cons i is ih =>
      rw [List.foldlM_cons]
      rcases swapNext_cases messages i with ⟨hi, out, hout, hperm⟩ | ⟨hi, herr⟩
      · rw [hout]
        rcases ih out with ⟨his, out', hout', hperm'⟩ | ⟨his, herr⟩
        · rw [hperm.length_eq] at his
          exact Or.inl ⟨List.forall_mem_cons.2 ⟨hi, his⟩, out', hout', hperm'.trans hperm⟩
        · rw [hperm.length_eq] at his
          exact Or.inr ⟨fun h => his (List.forall_mem_cons.1 h).2, herr⟩
      · rw [herr]
        exact Or.inr ⟨fun h => hi (List.forall_mem_cons.1 h).1, rfl⟩

theorem mem_swaps {s : FaultSchedule} {i : Int} :
    i ∈ s.swaps ↔ ∃ f ∈ s.faults, f.kind = .reorder ∧ f.sendIndex = i := by
  rw [FaultSchedule.swaps, List.mem_insertionSort, List.mem_dedup, List.mem_map]
  simp only [List.mem_filter, decide_eq_true_eq, and_assoc]

/-! ## Sending -/

/-- Every held message is one of the messages. -/
def Holds (n : Nat) (held : List (Nat × Int)) : Prop := ∀ h ∈ held, h.1 < n

theorem holds_sorted {n : Nat} {held : List (Nat × Int)} (h : Holds n held) :
    Holds n (sortedHeld held) := fun x hx => h x ((List.mem_insertionSort _).1 hx)

theorem release_spec (messages : List α) {held : List (Nat × Int)}
    (h : Holds messages.length held) :
    ∃ delivered kept, release messages held = .ok (delivered, kept) ∧
      (∀ m ∈ delivered, m ∈ messages) ∧ Holds messages.length kept := by
  induction held with
  | nil => exact ⟨[], [], rfl, nofun, nofun⟩
  | cons hc held ih =>
      obtain ⟨i, cycles⟩ := hc
      obtain ⟨hi, hheld⟩ := List.forall_mem_cons.1 h
      obtain ⟨delivered, kept, hr, hmem, hkept⟩ := ih hheld
      rw [release]
      split
      · obtain ⟨m, hm⟩ := getItem_nat hi
        refine ⟨m :: delivered, kept, ?_, ?_, hkept⟩
        · rw [hm, hr]
          rfl
        · exact List.forall_mem_cons.2 ⟨getItem_mem hm, hmem⟩
      · refine ⟨delivered, (i, cycles - 1) :: kept, ?_, hmem, ?_⟩
        · rw [hr]
          rfl
        · exact List.forall_mem_cons.2 ⟨hi, hkept⟩

theorem mapE_getItem {messages : List α} {held : List (Nat × Int)}
    (h : Holds messages.length held) :
    ∃ out, mapE (fun h => getItem messages (Nat.cast h.1)) held = .ok out ∧
      ∀ m ∈ out, m ∈ messages := by
  induction held with
  | nil => exact ⟨[], rfl, nofun⟩
  | cons hc held ih =>
      obtain ⟨hi, hheld⟩ := List.forall_mem_cons.1 h
      obtain ⟨out, hout, hmem⟩ := ih hheld
      obtain ⟨m, hm⟩ := getItem_nat hi
      refine ⟨m :: out, ?_, List.forall_mem_cons.2 ⟨getItem_mem hm, hmem⟩⟩
      rw [mapE, hm, hout]
      rfl

/-- The send loop returns, and delivers only messages of the list. -/
theorem send_spec (s : FaultSchedule) (messages : List α) :
    ∀ (rest : List α) (index : Nat) (held : List (Nat × Int)),
      index + rest.length = messages.length → (∀ m ∈ rest, m ∈ messages) →
      Holds messages.length held →
      ∃ out, send s messages index rest held = .ok out ∧ ∀ m ∈ out, m ∈ messages := by
  intro rest
  induction rest with
  | nil =>
      intro index held _ _ hheld
      exact mapE_getItem (holds_sorted hheld)
  | cons message rest ih =>
      intro index held hlen hrest hheld
      obtain ⟨hmessage, hrest⟩ := List.forall_mem_cons.1 hrest
      obtain ⟨delivered, kept, hr, hmem, hkept⟩ := release_spec messages (holds_sorted hheld)
      have hlen' : index + 1 + rest.length = messages.length := by
        rw [List.length_cons] at hlen
        omega
      have hand : ∀ {xs ys : List α}, (∀ m ∈ xs, m ∈ messages) → (∀ m ∈ ys, m ∈ messages) →
          ∀ m ∈ xs ++ ys, m ∈ messages := by
        intro xs ys hx hy m hm
        rcases List.mem_append.1 hm with hm | hm
        · exact hx m hm
        · exact hy m hm
      rw [send, hr]
      simp only [bind, Except.bind, pure, Except.pure]
      split
      · obtain ⟨out, hout, ho⟩ := ih (index + 1) kept hlen' hrest hkept
        rw [hout]
        exact ⟨_, rfl, hand hmem ho⟩
      · split
        · rename_i f _
          have hheld' : Holds messages.length
              (kept ++ [(index, max 1 (if f.param = 0 then 1 else f.param))]) := by
            intro h hh
            rcases List.mem_append.1 hh with hh | hh
            · exact hkept h hh
            · rw [List.mem_singleton.1 hh]
              rw [List.length_cons] at hlen
              exact (by omega : index < messages.length)
          obtain ⟨out, hout, ho⟩ := ih (index + 1) _ hlen' hrest hheld'
          rw [hout]
          exact ⟨_, rfl, hand hmem ho⟩
        · obtain ⟨out, hout, ho⟩ := ih (index + 1) kept hlen' hrest hkept
          rw [hout]
          refine ⟨_, rfl, hand hmem (hand ?_ ho)⟩
          intro m hm
          split at hm <;> simp only [List.mem_cons, List.not_mem_nil, or_false, or_self] at hm <;>
            rw [hm] <;> exact hmessage

/-! ## The channel as a whole -/

/-- The reorder faults of a schedule are in range for a number of messages. -/
def FaultSchedule.InRange (s : FaultSchedule) (n : Nat) : Prop :=
  ∀ f ∈ s.faults, f.kind = .reorder → Dsm.InRange n f.sendIndex

/-- In range the channel delivers messages it was given; out of range it raises. -/
theorem transmit_cases (s : FaultSchedule) (messages : List α) :
    (s.InRange messages.length ∧
        ∃ out, transmit s messages = .ok out ∧ ∀ m ∈ out, m ∈ messages) ∨
      ¬ s.InRange messages.length ∧ transmit s messages = .error indexError := by
  have hiff : (∀ i ∈ s.swaps, InRange messages.length i) ↔ s.InRange messages.length := by
    constructor
    · intro h f hf hk
      exact h _ (mem_swaps.2 ⟨f, hf, hk, rfl⟩)
    · intro h i hi
      obtain ⟨f, hf, hk, rfl⟩ := mem_swaps.1 hi
      exact h f hf hk
  rw [transmit, ← hiff]
  rcases swaps_cases s.swaps messages with ⟨hs, swapped, hsw, hperm⟩ | ⟨hs, herr⟩
  · obtain ⟨out, hout, hmem⟩ := send_spec s swapped swapped 0 [] (Nat.zero_add _) (fun _ h => h)
      nofun
    refine Or.inl ⟨hs, out, ?_, fun m hm => hperm.mem_iff.1 (hmem m hm)⟩
    rw [hsw]
    exact hout
  · refine Or.inr ⟨hs, ?_⟩
    rw [herr]
    rfl

theorem send_clean (messages rest : List α) (index : Nat) :
    send ⟨[]⟩ messages index rest [] = .ok rest := by
  induction rest generalizing index with
  | nil => rfl
  | cons message rest ih =>
      rw [send, sortedHeld, List.insertionSort_nil, release]
      simp only [bind, Except.bind, pure, Except.pure, ih]
      rfl

/-- A channel without faults delivers the messages as they are. -/
theorem transmit_clean (messages : List α) : transmit ⟨[]⟩ messages = .ok messages := by
  rw [transmit]
  exact send_clean messages messages 0

end Channel

end ResidualHarness.Dsm
