import ResidualHarness.Attempts.AttemptGuard
import ResidualHarness.Factory.Integrator
import ResidualHarness.Factory.RuntimeJournal

/-!
# Three validators of a path

A path is checked when a worker asks to write it (`permits_path` of
`residual/factory/worker_contract.py`), when a receipt binds an artifact to it (`ArtifactBinding`)
and when it is integrated (`artifact_parts` of `residual/factory/m4_safety.py`). What the first
permits, the other two accept, with the parts between the slashes. The first compares with `.git` in
lower case, the last after case folding; both maps are parameters.
-/

set_option autoImplicit false

namespace ResidualHarness.Factory

open Python Core

/-! ## Case maps -/

/-- Lower case of an ASCII character. -/
def asciiLowerChar (c : CodePoint) : CodePoint :=
  if h : 0x41 ≤ c.val ∧ c.val ≤ 0x5A then ⟨c.val + 0x20, by omega⟩ else c

/-- `str.lower` or `str.casefold`: the image of a character, which may depend on what stands before
and after it. An ASCII character has its ASCII lower case; no other one becomes a text of the letters
of `.git` alone. -/
structure CaseMap where
  image : Str → CodePoint → Str → Str
  ascii : ∀ pre c post, c.val < 0x80 → image pre c post = [asciiLowerChar c]
  other : ∀ pre c post, 0x80 ≤ c.val → ∃ d ∈ image pre c post, d ∉ lit ".git"

namespace CaseMap

/-- The image of what follows a prefix. -/
def applyAfter (m : CaseMap) : Str → Str → Str
  | _, [] => []
  | pre, c :: cs => m.image pre c cs ++ m.applyAfter (pre ++ [c]) cs

/-- `s.lower()` or `s.casefold()`. -/
def apply (m : CaseMap) (s : Str) : Str := m.applyAfter [] s

variable (m : CaseMap)

/-- The letters of `.git` come from ASCII characters only. -/
theorem ascii_of_lower {c : CodePoint} (h : asciiLowerChar c ∈ lit ".git") : c.val < 0x80 := by
  rw [asciiLowerChar] at h
  split at h
  · omega
  · have hall : isAscii (lit ".git") = true := by decide
    exact of_decide_eq_true (List.all_eq_true.1 hall c h)

theorem applyAfter_eq_iff {w : Str} (hw : ∀ d ∈ w, d ∈ lit ".git") (pre s : Str) :
    m.applyAfter pre s = w ↔ s.map asciiLowerChar = w := by
  induction s generalizing pre w with
  | nil => exact Iff.rfl
  | cons c cs ih =>
      rw [applyAfter, List.map_cons]
      by_cases hc : c.val < 0x80
      · rw [m.ascii pre c cs hc]
        cases w with
        | nil => exact iff_of_false (List.cons_ne_nil _ _) (List.cons_ne_nil _ _)
        | cons d w =>
            rw [List.singleton_append, List.cons.injEq, List.cons.injEq]
            exact and_congr_right fun _ => ih (fun e he => hw e (List.mem_cons_of_mem d he)) _
      · refine iff_of_false (fun h => ?_) fun h => ?_
        · obtain ⟨d, hd, hout⟩ := m.other pre c cs (not_lt.1 hc)
          exact hout (hw d (h ▸ List.mem_append_left _ hd))
        · exact hc (ascii_of_lower (hw _ (h ▸ List.mem_cons_self)))

/-- A text becomes `.git` exactly when its ASCII lower case is `.git`. -/
theorem apply_eq_git (s : Str) : m.apply s = lit ".git" ↔ asciiLower s = lit ".git" :=
  m.applyAfter_eq_iff (fun _ h => h) [] s

end CaseMap

/-- `part.lower() == ".git"`, as `permits_path` decides it. -/
theorem isGitComponent_iff (part : Str) :
    isGitComponent part = true ↔ asciiLower part = lit ".git" := by
  have hchar : (fun c : CodePoint => if 0x41 ≤ c.val ∧ c.val ≤ 0x5A then c + 32 else c) =
      asciiLowerChar := by
    funext c
    rw [asciiLowerChar]
    split
    · apply Fin.ext
      rw [Fin.val_add]
      exact Nat.mod_eq_of_lt (by change c.val + 32 < _; omega)
    · rfl
  rw [isGitComponent, decide_eq_true_eq, hchar]
  rfl

/-! ## Permitted paths -/

section Permitted

variable [FloatModel]

/-- The contract lets the worker write the path. -/
def WorkerContract.Writes (c : WorkerContract) (path : Str) : Prop :=
  c.permitsPath (.json (.str path)) (.json (.bool true)) = .ok true

variable {c : WorkerContract} {path : Str}

omit [FloatModel] in
/-- What `_path` accepts. -/
theorem isWorkspacePath_iff : isWorkspacePath path = true ↔ path ≠ [] ∧
    (∀ d ∈ path, badPathChar d = false) ∧
    ∀ part ∈ components path, part ≠ [] ∧ part ≠ lit "." ∧ part ≠ lit ".." := by
  simp only [isWorkspacePath, Bool.and_eq_true, decide_eq_true_eq, Bool.not_eq_true',
    List.any_eq_false, List.all_eq_true, Bool.not_eq_true, and_assoc, components, slash,
    List.mem_cons, List.not_mem_nil, or_false, not_or]

/-- A path that may be written is a workspace path, and no component of it is `.git`. -/
theorem writes_valid (h : c.Writes path) : isWorkspacePath path = true ∧
    ∀ part ∈ components path, asciiLower part ≠ lit ".git" := by
  rw [WorkerContract.Writes, WorkerContract.permitsPath] at h
  by_cases hpath : isWorkspacePath path = false
  · rw [if_pos hpath] at h
    cases h
  · rw [if_neg hpath] at h
    by_cases hgit : (path.splitOn 0x2F).any isGitComponent = true
    · rw [if_pos hgit] at h
      cases h
    · refine ⟨Bool.not_eq_false _ ▸ hpath, fun part hpart hbad => hgit ?_⟩
      exact List.any_eq_true.2 ⟨part, hpart, (isGitComponent_iff part).2 hbad⟩

omit [FloatModel] in
theorem join_eq_intercalate (sep : Str) (xs : List Str) : join sep xs = sep.intercalate xs := by
  induction xs with
  | nil => rfl
  | cons x xs ih =>
      cases xs with
      | nil => simp [join, List.intercalate]
      | cons y ys => simp [join, ih, List.intercalate, List.intersperse]

omit [FloatModel] in
theorem join_components (path : Str) : join [slash] (components path) = path := by
  rw [join_eq_intercalate]
  exact List.intercalate_splitOn slash

omit [FloatModel] in
/-- A path that starts with a slash has an empty first component. -/
theorem nil_mem_components (h : path.head? = some slash) : [] ∈ components path := by
  obtain ⟨rest, rfl⟩ : ∃ rest, path = slash :: rest := by
    cases path with
    | nil => cases h
    | cons d rest => exact ⟨rest, by rw [Option.some.inj h]⟩
  rw [components, List.splitOn_cons_eq_if_modifyHead, if_pos (by decide)]
  exact List.mem_cons_self

omit [FloatModel] in
/-- A workspace path has no leading slash, no NUL and no backslash, and nothing in it is dropped. -/
theorem workspacePath_plain (h : isWorkspacePath path = true) : path ≠ [] ∧ 0 ∉ path ∧
    backslash ∉ path ∧ path.head? ≠ some slash ∧
    (components path).filter (fun p => p ≠ [] ∧ p ≠ lit ".") = components path := by
  obtain ⟨hne, hchars, hparts⟩ := isWorkspacePath_iff.1 h
  refine ⟨hne, fun h0 => ?_, fun hb => ?_, fun hs => ?_, ?_⟩
  · exact absurd (hchars 0 h0) (by decide)
  · exact absurd (hchars backslash hb) (by decide)
  · exact (hparts [] (nil_mem_components hs)).1 rfl
  · rw [List.filter_eq_self]
    exact fun part hpart => decide_eq_true ⟨(hparts part hpart).1, (hparts part hpart).2.1⟩

/-- `artifact_parts` gives the components of a path that may be written. -/
theorem artifactParts_of_writes (h : c.Writes path) :
    artifactParts path = .ok (components path) := by
  obtain ⟨hpath, hgit⟩ := writes_valid h
  obtain ⟨hne, hnul, hback, hhead, hfilter⟩ := workspacePath_plain hpath
  obtain ⟨-, -, hparts⟩ := isWorkspacePath_iff.1 hpath
  have hclean : ∀ p ∈ components path, p ≠ lit "." ∧ p ≠ lit ".." ∧ asciiLower p ≠ lit ".git" :=
    fun p hp => ⟨(hparts p hp).2.1, (hparts p hp).2.2, hgit p hp⟩
  have hjoin : path.head? ≠ some slash ∧ components path ≠ [] ∧
      join [slash] (components path) = path :=
    ⟨hhead, List.splitOn_ne_nil slash path, join_components path⟩
  rw [artifactParts, hfilter]
  refine bind_eq_ok.2 ⟨(), require_eq_ok.2 ⟨hne, hnul, hback⟩, ?_⟩
  exact bind_eq_ok.2 ⟨(), require_eq_ok.2 hjoin, bind_eq_ok.2 ⟨(), require_eq_ok.2 hclean, rfl⟩⟩

theorem binding_of_writes (h : c.Writes path) : path ≠ [] ∧ path.head? ≠ some slash ∧
    lit ".." ∉ components path := by
  obtain ⟨hpath, -⟩ := writes_valid h
  obtain ⟨hne, -, -, hhead, -⟩ := workspacePath_plain hpath
  exact ⟨hne, hhead, fun hup => ((isWorkspacePath_iff.1 hpath).2.2 _ hup).2.2 rfl⟩

end Permitted

/-! ## Joining to a root -/

/-- Where the parts of a path lead from a directory, by name: an empty part and `.` stay, `..` goes
up. -/
def descend (dir : List Str) : List Str → List Str
  | [] => dir
  | part :: parts =>
      if part = [] ∨ part = lit "." then descend dir parts
      else if part = lit ".." then descend dir.dropLast parts
      else descend (dir ++ [part]) parts

theorem descend_eq_append {dir parts : List Str}
    (h : ∀ part ∈ parts, part ≠ [] ∧ part ≠ lit "." ∧ part ≠ lit "..") :
    descend dir parts = dir ++ parts := by
  induction parts generalizing dir with
  | nil => exact (List.append_nil dir).symm
  | cons part parts ih =>
      obtain ⟨hne, hdot, hup⟩ := h part List.mem_cons_self
      rw [descend, if_neg (not_or.2 ⟨hne, hdot⟩), if_neg hup,
        ih fun p hp => h p (List.mem_cons_of_mem part hp), List.append_assoc]
      rfl

/-! ## Agreement -/

/-- What a contract lets a worker write, a binding accepts as its path, as it does the plain path `a`,
and `artifact_parts` splits at its slashes. No part is empty, `.`, `..` or a spelling of `.git`, in lower case or folded. From any
root the path never leaves it, and two permitted paths with the same parts are the same. -/
theorem permitted_path_agrees [FloatModel] (lower fold : CaseMap) (c : WorkerContract) (path : Str)
    (h : c.Writes path) :
    (∀ sha256 sizeBytes deleted, (ArtifactBinding.mk path sha256 sizeBytes deleted).postInit =
      (ArtifactBinding.mk (lit "a") sha256 sizeBytes deleted).postInit) ∧
    artifactParts path = .ok (path.splitOn slash) ∧
    (∀ part ∈ path.splitOn slash, part ≠ [] ∧ part ≠ lit "." ∧ part ≠ lit ".." ∧
      lower.apply part ≠ lit ".git" ∧ fold.apply part ≠ lit ".git") ∧
    (∀ root pre, pre <+: path.splitOn slash → descend root pre = root ++ pre) ∧
    ∀ (d : WorkerContract) (other : Str), d.Writes other →
      artifactParts other = artifactParts path → other = path := by
  obtain ⟨hpath, hgit⟩ := writes_valid h
  obtain ⟨-, -, hparts⟩ := isWorkspacePath_iff.1 hpath
  have hbinding := binding_of_writes h
  refine ⟨fun sha256 sizeBytes deleted => ?_, artifactParts_of_writes h, fun part hpart => ?_,
    fun root pre hpre => ?_, fun d other hd hsame => ?_⟩
  · have hplain : lit "a" ≠ [] ∧ (lit "a").head? ≠ some slash ∧
        lit ".." ∉ components (lit "a") := by decide
    rw [ArtifactBinding.postInit, ArtifactBinding.postInit, (require_eq_ok (u := ())).2 hbinding,
      (require_eq_ok (u := ())).2 hplain]
  · obtain ⟨hne, hdot, hup⟩ := hparts part hpart
    exact ⟨hne, hdot, hup, fun hl => hgit part hpart ((lower.apply_eq_git part).1 hl),
      fun hf => hgit part hpart ((fold.apply_eq_git part).1 hf)⟩
  · exact descend_eq_append fun part hpart => hparts part (hpre.subset hpart)
  · rw [artifactParts_of_writes hd, artifactParts_of_writes h, Except.ok.injEq] at hsame
    rw [← join_components other, hsame, join_components]

section Concrete

attribute [local instance] wholeFloats

/-- The case map that knows ASCII only. -/
def plainCase : CaseMap where
  image := fun _ c _ => [asciiLowerChar c]
  ascii := fun _ _ _ _ => rfl
  other := fun _ c _ hc => ⟨asciiLowerChar c, List.mem_cons_self, fun hmem =>
    absurd (CaseMap.ascii_of_lower hmem) (not_lt.2 hc)⟩

/-- The sample contract lets its worker write `out/.gitkeep`. -/
theorem permitted_sample :
    artifactParts (lit "out/.gitkeep") = .ok [lit "out", lit ".gitkeep"] ∧
      descend [lit "w"] [lit "out", lit ".gitkeep"] = [lit "w", lit "out", lit ".gitkeep"] := by
  obtain ⟨-, hparts, -, hinside, -⟩ := permitted_path_agrees plainCase plainCase sampleContract
    (lit "out/.gitkeep") (by rw [WorkerContract.Writes]; decide)
  exact ⟨hparts, hinside [lit "w"] [lit "out", lit ".gitkeep"] (by decide)⟩

end Concrete

end ResidualHarness.Factory
