import Mathlib.Data.List.Basic
import Mathlib.Data.Nat.Bitwise

/-!
# Counter mode

A text xored with a stream of blocks, where a number gives a block. Blocks may be longer than what
is left of the text. Xoring the same blocks twice gives the text back (`xorStream_xorStream`).
-/

set_option autoImplicit false

namespace ResidualHarness.Python

/-- Bytes xored with a block, as far as both go. -/
def xorBytes (data block : List Nat) : List Nat := List.zipWith (· ^^^ ·) data block

/-- At most `n` blocks of the stream, from a number on, xored into a text. -/
def xorStream (block : Nat → List Nat) : Nat → Nat → List Nat → List Nat
  | 0, _, _ => []
  | _ + 1, _, [] => []
  | n + 1, i, b :: data => xorBytes (b :: data) (block i) ++
      xorStream block n (i + 1) ((b :: data).drop (block i).length)

theorem xorBytes_xorBytes (data block : List Nat) :
    xorBytes (xorBytes data block) block = data.take block.length := by
  induction data generalizing block with
  | nil => simp [xorBytes]
  | cons b data ih =>
      cases block with
      | nil => rfl
      | cons c block =>
          have hb : (b ^^^ c) ^^^ c = b := by rw [Nat.xor_assoc, Nat.xor_self, Nat.xor_zero]
          rw [List.length_cons, List.take_succ_cons, ← ih, xorBytes, xorBytes,
            List.zipWith_cons_cons, List.zipWith_cons_cons, hb]
          rfl

theorem length_xorBytes (data block : List Nat) :
    (xorBytes data block).length = min data.length block.length := List.length_zipWith

/-- Bytes after the end of a block are not used. -/
theorem xorBytes_append {data block : List Nat} (h : data.length = block.length) (rest : List Nat) :
    xorBytes (data ++ rest) block = xorBytes data block := by
  have happ : xorBytes (data ++ rest) (block ++ []) = xorBytes data block ++ xorBytes rest [] :=
    List.zipWith_append h
  rw [List.append_nil, xorBytes, xorBytes, xorBytes, List.zipWith_nil_right, List.append_nil] at happ
  exact happ

theorem xorStream_nil (block : Nat → List Nat) (n i : Nat) : xorStream block n i [] = [] := by
  cases n <;> rfl

theorem xorStream_of_ne_nil (block : Nat → List Nat) (n i : Nat) {data : List Nat} (h : data ≠ []) :
    xorStream block (n + 1) i data =
      xorBytes data (block i) ++ xorStream block n (i + 1) (data.drop (block i).length) := by
  cases data with
  | nil => exact absurd rfl h
  | cons b data => rfl

theorem length_xorStream {block : Nat → List Nat} (hblock : ∀ i, block i ≠ []) {n : Nat} (i : Nat)
    {data : List Nat} (h : data.length ≤ n) : (xorStream block n i data).length = data.length := by
  induction n generalizing i data with
  | zero => rw [List.length_eq_zero_iff.1 (Nat.le_zero.1 h), xorStream_nil]
  | succ n ih =>
      rcases eq_or_ne data [] with rfl | hne
      · rw [xorStream_nil]
      · have hpos := List.length_pos_iff.2 (hblock i)
        have hdrop : (data.drop (block i).length).length ≤ n := by
          rw [List.length_drop]
          omega
        rw [xorStream_of_ne_nil block n i hne, List.length_append, length_xorBytes,
          ih (i + 1) hdrop, List.length_drop]
        omega

theorem xorStream_xorStream {block : Nat → List Nat} (hblock : ∀ i, block i ≠ []) {n : Nat}
    (i : Nat) {data : List Nat} (h : data.length ≤ n) :
    xorStream block n i (xorStream block n i data) = data := by
  induction n generalizing i data with
  | zero => rw [List.length_eq_zero_iff.1 (Nat.le_zero.1 h), xorStream_nil, xorStream_nil]
  | succ n ih =>
      rcases eq_or_ne data [] with rfl | hne
      · rw [xorStream_nil, xorStream_nil]
      · have hpos := List.length_pos_iff.2 (hblock i)
        have hstream : xorStream block (n + 1) i data ≠ [] := by
          rw [← List.length_pos_iff, length_xorStream hblock i h]
          exact List.length_pos_iff.2 hne
        rw [xorStream_of_ne_nil block n i hstream, xorStream_of_ne_nil block n i hne]
        rcases Nat.lt_or_ge data.length (block i).length with hlt | hge
        · -- the last block, with bytes to spare
          have hshort : (xorBytes data (block i)).length ≤ (block i).length := by
            rw [length_xorBytes]
            omega
          rw [List.drop_of_length_le hlt.le, xorStream_nil, List.append_nil, xorBytes_xorBytes,
            List.take_of_length_le hlt.le, List.drop_of_length_le hshort, xorStream_nil,
            List.append_nil]
        · have hlen : (xorBytes data (block i)).length = (block i).length := by
            rw [length_xorBytes]
            omega
          have hdrop : (data.drop (block i).length).length ≤ n := by
            rw [List.length_drop]
            omega
          rw [xorBytes_append hlen, List.drop_left' hlen, xorBytes_xorBytes, ih (i + 1) hdrop,
            List.take_append_drop]

end ResidualHarness.Python
