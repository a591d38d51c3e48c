import ResidualHarness.Core.Canonical

/-!
# Equal digests

Two values with the same digest are equal up to the order of dictionary keys, unless SHA-256
collides on their canonical texts.
-/

set_option autoImplicit false

namespace ResidualHarness.Core

open Python

variable [FloatModel]

/-- The bytes whose hash is the digest of a value. -/
def digestBytes (v : Json) : List Nat := v.render.flatMap utf8Char

theorem norm_eq_of_digest {v w : Json} {d : Str} {S : Set (List Nat)} (hS : Set.InjOn sha256 S)
    (hv : v.wf = true) (hw : w.wf = true) (hvS : digestBytes v ∈ S) (hwS : digestBytes w ∈ S)
    (hdv : digest v = .ok d) (hdw : digest w = .ok d) : v.norm = w.norm := by
  obtain ⟨⟨hv', -⟩, rfl⟩ := digest_eq_ok_iff.1 hdv
  obtain ⟨⟨hw', -⟩, heq⟩ := digest_eq_ok_iff.1 hdw
  have hbytes : digestBytes v = digestBytes w := hS hvS hwS heq
  have hread := loads_render hv hv'
  rw [utf8Text_injective hbytes, loads_render hw hw'] at hread
  exact (Option.some.inj hread).symm

end ResidualHarness.Core
