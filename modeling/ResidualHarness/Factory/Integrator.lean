import ResidualHarness.Factory.EvidenceReceipts
import ResidualHarness.Graph.Topological
import ResidualHarness.Python.Decode
import ResidualHarness.Python.Difflib
import ResidualHarness.Python.WholeFloats

/-!
# Overlapping edits of an integration

`DeterministicIntegrator._ancestors`, `_git_blob`, `_normalized_edits`, `_artifact_bytes` and
`_classify_overlaps` of `residual/factory/m4_integrator.py`. Git, the evidence bus and the matcher of
`difflib` are parameters (`Sources`).

For receipts in topological order the ancestors are the transitive closure of `parent_receipts`
(`ancestors_spec`), edit sets determine the resulting bytes (`normalizedEdits_injective`), and a path
without a conflict has a winner that no update of the path is lost against (`classifyPath_winner`).
-/

set_option autoImplicit false

namespace ResidualHarness.Factory

open Python Core Graph

/-- `M4IntegrationError`. -/
def m4IntegrationError (msg : String) : PyExn := .userError "M4IntegrationError" msg

/-- `M4SafetyError`. -/
def m4SafetyError (msg : String) : PyExn := .userError "M4SafetyError" msg

/-- `GitBlobEvidence`: only `PRESENT` carries bytes. -/
inductive GitBlobEvidence where
  | present (data : Bytes)
  | absent
  | unknown (detail : String)
  | error (detail : String)

/-- What the integrator reads from outside: `git rev-parse`, `read_base_blob`, the evidence bus, and
`get_matching_blocks` of a `SequenceMatcher` without junk. -/
structure Sources where
  revParse : Str → Except PyExn Str
  readBaseBlob : Str → Str → GitBlobEvidence
  artifact : Str → Str → Except PyExn Bytes
  matchingBlocks : List Str → List Str → List Block

/-! ## Reading -/

theorem lower_lt {c : CodePoint} (h : 0x41 ≤ c.val ∧ c.val ≤ 0x5A) : c.val + 0x20 < 0x110000 := by
  omega

/-- ASCII lower case, which decides `p.casefold() == '.git'`. -/
def asciiLower (s : Str) : Str :=
  s.map fun c => if h : 0x41 ≤ c.val ∧ c.val ≤ 0x5A then ⟨c.val + 0x20, lower_lt h⟩ else c

/-- `artifact_parts(relative)`. -/
def artifactParts (relative : Str) : Except PyExn (List Str) := do
  require (relative ≠ [] ∧ 0 ∉ relative ∧ backslash ∉ relative)
    (m4SafetyError "invalid integration artifact path")
  let parts := (components relative).filter fun p => p ≠ [] ∧ p ≠ lit "."
  require (relative.head? ≠ some slash ∧ parts ≠ [] ∧ join [slash] parts = relative)
    (m4SafetyError "noncanonical integration artifact path")
  require (∀ p ∈ parts, p ≠ lit "." ∧ p ≠ lit ".." ∧ asciiLower p ≠ lit ".git")
    (m4SafetyError "reserved or traversing integration artifact path")
  return parts

/-- `_validated_commit(commit)`. -/
def validatedCommit (src : Sources) (commit : Str) : Except PyExn Str := do
  require (commit.length = 40 ∧ commit.all isHexDigit = true)
    (m4IntegrationError "exact SHA-1 Git commit required")
  let resolved ← src.revParse commit
  require (resolved = commit) (m4IntegrationError "input commit does not resolve exactly")
  return resolved

/-- `_git_blob(commit, path)`: only a proven absence is `None`. -/
def gitBlob (src : Sources) (commit path : Str) : Except PyExn (Option Bytes) := do
  let _ ← artifactParts path
  let _ ← validatedCommit src commit
  match src.readBaseBlob commit path with
  | .absent => return none
  | .present data => return some data
  | .unknown detail =>
      throw (m4IntegrationError ("Git base evidence unavailable (UNKNOWN: " ++ detail ++ ")"))
  | .error detail =>
      throw (m4IntegrationError ("Git base evidence unavailable (ERROR: " ++ detail ++ ")"))

section Model

variable [FloatModel]

/-- `_artifact_bytes(receipt, path)`. -/
def artifactBytes (src : Sources) (receipt : WorkerReceipt) (path : Str) :
    Except PyExn (Option Bytes) :=
  match receipt.artifacts.find? fun a => a.path = path with
  | none => .error (m4IntegrationError "planned overlap path absent from receipt")
  | some binding =>
      if binding.deleted then .ok none
      else do return some (← src.artifact receipt.hash path)

/-! ## Edit sets -/

/-- A member of a normalized edit set. -/
inductive Edit where
  | existence (before after : Bool)
  | binary (left right : Str)
  | lines (edit : LineEdit Str)
deriving DecidableEq

omit [FloatModel] in
/-- The hash of a line of a decoded text: such a line can be encoded. -/
def lineHash (line : Str) : Str := sha256 (line.flatMap utf8Char)

omit [FloatModel] in
/-- The edits between two texts, with hashes for the new lines. -/
def lineEdits (src : Sources) (left right : List Str) : List (LineEdit Str) :=
  (editsOf right (getOpcodes (src.matchingBlocks left right))).map (LineEdit.map lineHash)

omit [FloatModel] in
/-- `_normalized_edits(before, after)`. -/
def normalizedEdits (src : Sources) (before after : Option Bytes) : Finset Edit :=
  let existence := Edit.existence before.isSome after.isSome
  let left := before.getD []
  let right := after.getD []
  match utf8Decode left, utf8Decode right with
  | some l, some r =>
      (existence :: (lineEdits src (splitLines true l) (splitLines true r)).map Edit.lines).toFinset
  | _, _ => {existence, Edit.binary (sha256 left) (sha256 right)}

/-! ## Ancestors -/

omit [FloatModel] in
/-- `visit(value)`, with the memo passed along. A receipt that is its own ancestor recurses until
`RecursionError`. -/
def visit (parents : Dict Str (List Str)) :
    Nat → Dict Str (List Str) → Str → Except PyExn (List Str × Dict Str (List Str))
  | 0, _, _ => .error (.runtimeError "RecursionError" "maximum recursion depth exceeded")
  | fuel + 1, result, value =>
      match result.get? value with
      | some found => .ok (found, result)
      | none => do
          let (found, result) ← ((parents.get? value).getD []).foldlM
            (fun (found, result) parent => do
              require (parent ∈ parents.keys)
                (m4IntegrationError "receipt parent absent from integration set")
              let (more, result) ← visit parents fuel result parent
              return (found.insert parent ∪ more, result)) ([], result)
          return (found, result.set value found)

/-- `_ancestors(receipts)`. The hashes are computed first; a receipt without one raises there. -/
def ancestors (receipts : List WorkerReceipt) : Except PyExn (Dict Str (List Str)) := do
  let hashes ← mapE WorkerReceipt.receiptHash receipts
  let parents := Dict.ofPairs (hashes.zip (receipts.map fun r => r.parentReceipts))
  parents.keys.foldlM
    (fun result value => do return (← visit parents (receipts.length + 1) result value).2) []

/-! ## Classification -/

/-- `IntegrationConflict`. -/
structure IntegrationConflict where
  path : Str
  receiptHashes : List Str
  artifactHashes : List (Option Str)
deriving DecidableEq

omit [FloatModel] in
/-- The receipt has an artifact at the path. -/
def Touches (path : Str) (r : WorkerReceipt) : Prop := path ∈ r.artifacts.map ArtifactBinding.path

instance (path : Str) : DecidablePred (Touches path) :=
  fun r => inferInstanceAs (Decidable (path ∈ r.artifacts.map ArtifactBinding.path))

/-- The receipts of `values` that are no ancestors of one of them. -/
def incomparable (anc : Dict Str (List Str)) (values : List WorkerReceipt) : List WorkerReceipt :=
  values.filter fun r => !values.any fun o => decide (r.hash ∈ (anc.get? o.hash).getD [])

/-- The base state and the edit set of a receipt at a path. -/
def editSet (src : Sources) (path : Str) (r : WorkerReceipt) : Except PyExn (Finset Edit) := do
  let after ← artifactBytes src r path
  let before ← gitBlob src r.inputCommit path
  return normalizedEdits src before after

/-- `max(candidates, key=lambda value: (value[0], value[1]))`. -/
def maxCandidate : List (Nat × Str) → Option (Nat × Str)
  | [] => none
  | c :: cs => some (cs.foldl (fun m d => if m.1 < d.1 ∨ m.1 = d.1 ∧ m.2 < d.2 then d else m) c)

/-- One turn of the loop over the paths: the winner or the conflict. -/
def classifyPath (src : Sources) (anc : Dict Str (List Str)) (values : List WorkerReceipt)
    (path : Str) : Except PyExn (Str ⊕ IntegrationConflict) := do
  if values.length = 1 then return .inl ((values.map WorkerReceipt.hash).getLastD [])
  let inc := incomparable anc values
  if inc.length ≤ 1 then return .inl ((values.map WorkerReceipt.hash).getLastD [])
  let baseValues ← mapE (fun r : WorkerReceipt => gitBlob src r.inputCommit path) inc
  require (∀ v ∈ baseValues.tail, v = baseValues.headD none)
    (m4IntegrationError "incomparable edits have different base file states")
  let edits ← mapE (editSet src path) inc
  let editSets := inc.zip edits
  let candidates := (editSets.filter fun e => editSets.all fun o => decide (o.2 ⊆ e.2)).map
    fun e => (e.2.card, e.1.hash)
  match maxCandidate candidates with
  | some winner => return .inl winner.2
  | none => return .inr {
      path := path
      receiptHashes := inc.map WorkerReceipt.hash
      artifactHashes := inc.map fun r =>
        (r.artifacts.find? fun a => a.path = path).bind ArtifactBinding.sha256 }

/-- The paths of the receipts, sorted. -/
def touchedPaths (receipts : List WorkerReceipt) : List Str :=
  (receipts.flatMap fun r => r.artifacts.map ArtifactBinding.path).dedup.insertionSort (· ≤ ·)

/-- `_classify_overlaps(receipts)`. A receipt has at most one artifact at a path, so the receipts of
a path are those that touch it, in their order. -/
def classifyOverlaps (src : Sources) (receipts : List WorkerReceipt) :
    Except PyExn (Dict Str Str × List IntegrationConflict) := do
  let anc ← ancestors receipts
  let outcomes ← mapE (fun path => do
    return (path, ← classifyPath src anc (receipts.filter (Touches path)) path))
    (touchedPaths receipts)
  return (outcomes.filterMap fun o => o.2.getLeft?.map fun w => (o.1, w),
    outcomes.filterMap fun o => o.2.getRight?)

/-! ## Edit sets determine the result -/

omit [FloatModel] in
/-- The byte strings hashed for a resulting file: its bytes and its lines. -/
def hashedBytes (after : Option Bytes) : Set Bytes :=
  {x | x = after.getD [] ∨ ∃ text, utf8Decode (after.getD []) = some text ∧
    ∃ l ∈ splitLines true text, x = l.flatMap utf8Char}

omit [FloatModel] in
theorem existence_mem_normalizedEdits (src : Sources) (before after : Option Bytes) (x y : Bool) :
    Edit.existence x y ∈ normalizedEdits src before after ↔
      x = before.isSome ∧ y = after.isSome := by
  simp only [normalizedEdits]
  split <;> simp

omit [FloatModel] in
theorem normalizedEdits_text {src : Sources} {before after : Option Bytes} {l r : Str}
    (hl : utf8Decode (before.getD []) = some l) (hr : utf8Decode (after.getD []) = some r)
    (e : Edit) : e ∈ normalizedEdits src before after ↔
      e = .existence before.isSome after.isSome ∨
        ∃ d ∈ lineEdits src (splitLines true l) (splitLines true r), e = .lines d := by
  rw [normalizedEdits, hl, hr]
  simp only [List.mem_toFinset, List.mem_cons, List.mem_map]
  constructor
  · rintro (h | ⟨d, hd, rfl⟩)
    · exact Or.inl h
    · exact Or.inr ⟨d, hd, rfl⟩
  · rintro (h | ⟨d, hd, rfl⟩)
    · exact Or.inl h
    · exact Or.inr ⟨d, hd, rfl⟩

omit [FloatModel] in
theorem normalizedEdits_binary {src : Sources} {before after : Option Bytes}
    (h : utf8Decode (before.getD []) = none ∨ utf8Decode (after.getD []) = none) :
    normalizedEdits src before after =
      {.existence before.isSome after.isSome,
        .binary (sha256 (before.getD [])) (sha256 (after.getD []))} := by
  rw [normalizedEdits]
  split
  · rename_i hl hr
    rcases h with h | h
    · rw [h] at hl
      cases hl
    · rw [h] at hr
      cases hr
  · rfl

omit [FloatModel] in
/-- A text and a file that is no text have different edit sets. -/
theorem normalizedEdits_text_ne_binary {src : Sources} {before a b : Option Bytes}
    (ha : utf8Decode (a.getD []) ≠ none)
    (hb : utf8Decode (b.getD []) = none) (hbefore : utf8Decode (before.getD []) ≠ none) :
    normalizedEdits src before a ≠ normalizedEdits src before b := by
  obtain ⟨l, hl⟩ := Option.ne_none_iff_exists'.1 hbefore
  obtain ⟨r, hr⟩ := Option.ne_none_iff_exists'.1 ha
  intro h
  have hmem : Edit.binary (sha256 (before.getD [])) (sha256 (b.getD [])) ∈
      normalizedEdits src before a := by
    rw [h, normalizedEdits_binary (Or.inr hb)]
    simp
  rcases (normalizedEdits_text hl hr _).1 hmem with h | ⟨d, -, h⟩ <;> cases h

omit [FloatModel] in
/-- Texts with the same lines up to hashes are equal where SHA-256 does not collide. -/
theorem bytes_eq_of_lineHash {a b : Option Bytes} {S : Set Bytes} (hS : Set.InjOn sha256 S)
    (ha : hashedBytes a ⊆ S) (hb : hashedBytes b ⊆ S) {r r' : Str}
    (hr : utf8Decode (a.getD []) = some r) (hr' : utf8Decode (b.getD []) = some r')
    (h : (splitLines true r).map lineHash = (splitLines true r').map lineHash) :
    a.getD [] = b.getD [] := by
  have hlines : splitLines true r = splitLines true r' := by
    apply eq_of_map_eq h
    intro x hx y hy hxy
    apply utf8Text_injective
    exact hS (ha (Or.inr ⟨r, hr, x, hx, rfl⟩)) (hb (Or.inr ⟨r', hr', y, hy, rfl⟩)) hxy
  have htext : r = r' := by rw [← flatten_splitLines r, hlines, flatten_splitLines]
  rw [htext] at hr
  exact utf8Decode_injective hr hr'

omit [FloatModel] in
/-- Relative to one base, the edit set determines the resulting file. -/
theorem normalizedEdits_injective {src : Sources} (hm : MatchingBlocks src.matchingBlocks)
    {before a b : Option Bytes} {S : Set Bytes} (hS : Set.InjOn sha256 S)
    (ha : hashedBytes a ⊆ S) (hb : hashedBytes b ⊆ S)
    (h : normalizedEdits src before a = normalizedEdits src before b) : a = b := by
  have hsome : a.isSome = b.isSome := by
    have hmem := (existence_mem_normalizedEdits src before a _ _).2 ⟨rfl, rfl⟩
    rw [h] at hmem
    exact ((existence_mem_normalizedEdits src before b _ _).1 hmem).2
  have hbytes : a.getD [] = b.getD [] := by
    have hbin : (utf8Decode (before.getD []) = none ∨ utf8Decode (a.getD []) = none) →
        (utf8Decode (before.getD []) = none ∨ utf8Decode (b.getD []) = none) →
        a.getD [] = b.getD [] := by
      intro h1 h2
      rw [normalizedEdits_binary h1, normalizedEdits_binary h2] at h
      have hmem : Edit.binary (sha256 (before.getD [])) (sha256 (a.getD [])) ∈
          ({.existence before.isSome b.isSome,
            .binary (sha256 (before.getD [])) (sha256 (b.getD []))} : Finset Edit) := by
        rw [← h]
        simp
      simp only [Finset.mem_insert, Finset.mem_singleton, reduceCtorEq, false_or,
        Edit.binary.injEq, true_and] at hmem
      exact hS (ha (Or.inl rfl)) (hb (Or.inl rfl)) hmem
    cases hl : utf8Decode (before.getD []) with
    | none => exact hbin (Or.inl hl) (Or.inl hl)
    | some l =>
        have hl' : utf8Decode (before.getD []) ≠ none := by simp [hl]
        cases hr : utf8Decode (a.getD []) with
        | none =>
            cases hr' : utf8Decode (b.getD []) with
            | none => exact hbin (Or.inr hr) (Or.inr hr')
            | some r' =>
                exact absurd h.symm (normalizedEdits_text_ne_binary (by simp [hr']) hr hl')
        | some r =>
            cases hr' : utf8Decode (b.getD []) with
            | none => exact absurd h (normalizedEdits_text_ne_binary (by simp [hr]) hr' hl')
            | some r' =>
                apply bytes_eq_of_lineHash hS ha hb hr hr'
                apply map_eq_of_edits lineHash (hm _ _) (hm _ _)
                intro d
                have hd := Finset.ext_iff.1 h (Edit.lines d)
                rw [normalizedEdits_text hl hr, normalizedEdits_text hl hr'] at hd
                simpa [lineEdits] using hd
  cases a with
  | none =>
      cases b with
      | none => rfl
      | some y => cases hsome
  | some x =>
      cases b with
      | none => cases hsome
      | some y =>
          rw [Option.getD_some, Option.getD_some] at hbytes
          rw [hbytes]

/-! ## Ancestors are the transitive closure -/

/-- Receipts in topological order: distinct hashes, parents before children. -/
abbrev InOrder (receipts : List WorkerReceipt) : Prop :=
  Topological WorkerReceipt.hash (fun r => r.parentReceipts) receipts

/-- `a` is an ancestor of `b` through `parent_receipts`. -/
abbrev IsAncestor (receipts : List WorkerReceipt) (a b : Str) : Prop :=
  Ancestor WorkerReceipt.hash (fun r => r.parentReceipts) receipts a b

theorem isAncestor_iff {receipts : List WorkerReceipt} (ht : InOrder receipts)
    {r : WorkerReceipt} (hr : r ∈ receipts) (x : Str) :
    IsAncestor receipts x r.hash ↔
      ∃ p ∈ r.parentReceipts, x = p ∨ IsAncestor receipts x p := by
  constructor
  · intro h
    obtain ⟨p, hxp, q, hq, hqr, hp⟩ := Relation.TransGen.tail'_iff.1 h
    rw [ht.eq_of_key hq hr hqr] at hp
    refine ⟨p, hp, ?_⟩
    rcases Relation.reflTransGen_iff_eq_or_transGen.1 hxp with heq | htr
    · exact Or.inl heq.symm
    · exact Or.inr htr
  · rintro ⟨p, hp, rfl | h⟩
    · exact Relation.TransGen.single ⟨r, hr, rfl, hp⟩
    · exact Relation.TransGen.tail h ⟨r, hr, rfl, hp⟩

/-- The memo holds the ancestors of its keys. -/
def MemoSound (receipts : List WorkerReceipt) (result : Dict Str (List Str)) : Prop :=
  ∀ k found, result.get? k = some found → ∀ x, x ∈ found ↔ IsAncestor receipts x k

omit [FloatModel] in
theorem visit_memo {parents result result' : Dict Str (List Str)} {fuel : Nat} {value : Str}
    {found : List Str} (h : visit parents fuel result value = .ok (found, result'))
    {memo : List Str} (hmemo : result.get? value = some memo) : found = memo ∧ result' = result := by
  cases fuel with
  | zero => cases h
  | succ fuel =>
      rw [visit, hmemo] at h
      cases h
      exact ⟨rfl, rfl⟩

/-- A visit of a receipt whose parents have been visited adds its ancestors to the memo. -/
theorem visit_spec {receipts : List WorkerReceipt} (ht : InOrder receipts)
    {parents result result' : Dict Str (List Str)} {fuel : Nat} {r : WorkerReceipt}
    (hr : r ∈ receipts) (hparents : parents.get? r.hash = some r.parentReceipts)
    (hsound : MemoSound receipts result) (hseen : ∀ p ∈ r.parentReceipts, p ∈ result.keys)
    {found : List Str} (h : visit parents fuel result r.hash = .ok (found, result')) :
    MemoSound receipts result' ∧ r.hash ∈ result'.keys ∧ ∀ k ∈ result.keys, k ∈ result'.keys := by
  cases hmemo : result.get? r.hash with
  | some memo =>
      obtain ⟨-, rfl⟩ := visit_memo h hmemo
      exact ⟨hsound, Dict.mem_keys_of_get? hmemo, fun k hk => hk⟩
  | none =>
      cases fuel with
      | zero => cases h
      | succ fuel =>
          rw [visit, hmemo, hparents] at h
          obtain ⟨⟨out, memo⟩, hfold, h⟩ := bind_eq_ok.1 h
          cases h
          -- the loop over the parents only reads the memo
          have hinv := foldlM_invariant
            (P := fun pre (s : List Str × Dict Str (List Str)) => s.2 = result ∧
              ∀ x, x ∈ s.1 ↔ ∃ p ∈ pre, x = p ∨ IsAncestor receipts x p)
            hfold ⟨rfl, by simp⟩ (by
              rintro pre p post ⟨s1, s2⟩ ⟨t1, t2⟩ hsplit ⟨rfl, hs⟩ hstep
              obtain ⟨-, -, hstep⟩ := bind_eq_ok.1 hstep
              obtain ⟨⟨more, memo'⟩, hvisit, hstep⟩ := bind_eq_ok.1 hstep
              cases hstep
              have hp : p ∈ r.parentReceipts := by
                have : p ∈ pre ++ p :: post := by simp
                rw [← hsplit] at this
                exact this
              obtain ⟨known, hknown⟩ := Dict.mem_keys_iff.1 (hseen p hp)
              obtain ⟨rfl, rfl⟩ := visit_memo hvisit hknown
              refine ⟨rfl, ?_⟩
              intro x
              simp only [List.mem_union_iff, List.mem_insert_iff, hs, hsound p _ hknown,
                List.mem_append, List.mem_singleton]
              constructor
              · rintro ((rfl | ⟨q, hq, hx⟩) | hx)
                · exact ⟨_, Or.inr rfl, Or.inl rfl⟩
                · exact ⟨q, Or.inl hq, hx⟩
                · exact ⟨p, Or.inr rfl, Or.inr hx⟩
              · rintro ⟨q, hq | rfl, hx⟩
                · exact Or.inl (Or.inr ⟨q, hq, hx⟩)
                · rcases hx with rfl | hx
                  · exact Or.inl (Or.inl rfl)
                  · exact Or.inr hx)
          obtain ⟨hres, hfound⟩ := hinv
          simp only at hres hfound
          subst hres
          refine ⟨?_, by simp, ?_⟩
          · intro k f hk x
            rw [Dict.get?_set] at hk
            split at hk
            · rename_i hkr
              cases hk
              rw [hkr, isAncestor_iff ht hr x]
              exact hfound x
            · exact hsound k f hk x
          · intro k hk
            exact Dict.mem_keys_set.2 (Or.inr hk)

theorem hashes_of_mapE {receipts : List WorkerReceipt} {hashes : List Str}
    (h : mapE WorkerReceipt.receiptHash receipts = .ok hashes) :
    hashes = receipts.map WorkerReceipt.hash := by
  apply eq_map_of_forall₂
  refine (List.Forall₂.flip (mapE_eq_ok h)).imp ?_
  intro a r har
  exact WorkerReceipt.hash_of_receiptHash har

/-- For receipts in topological order, `_ancestors` is the transitive closure of the parents. -/
theorem ancestors_spec {receipts : List WorkerReceipt} (ht : InOrder receipts)
    {anc : Dict Str (List Str)} (h : ancestors receipts = .ok anc) :
    ∀ r ∈ receipts, ∃ found, anc.get? r.hash = some found ∧
      ∀ x, x ∈ found ↔ IsAncestor receipts x r.hash := by
  rw [ancestors] at h
  obtain ⟨hashes, hh, h⟩ := bind_eq_ok.1 h
  have hpairs : hashes.zip (receipts.map fun r => r.parentReceipts) =
      receipts.map fun r => (r.hash, r.parentReceipts) := by
    rw [hashes_of_mapE hh, List.zip_map']
  have hkeys : (receipts.map fun r => (r.hash, r.parentReceipts)).map Prod.fst =
      receipts.map WorkerReceipt.hash := by
    rw [List.map_map]
    rfl
  have hnd : ((receipts.map fun r => (r.hash, r.parentReceipts)).map Prod.fst).Nodup := by
    rw [hkeys]
    exact ht.nodup
  rw [hpairs, Dict.ofPairs_of_nodup hnd] at h
  dsimp only at h
  rw [show Dict.keys (receipts.map fun r => (r.hash, r.parentReceipts)) =
    receipts.map WorkerReceipt.hash from hkeys] at h
  have hinv := foldlM_invariant
    (P := fun pre result => MemoSound receipts result ∧ ∀ k ∈ pre, k ∈ Dict.keys result)
    h ⟨nofun, nofun⟩ (by
      rintro pre k post result result' hsplit ⟨hsound, hseen⟩ hstep
      obtain ⟨⟨found, memo⟩, hvisit, hstep⟩ := bind_eq_ok.1 hstep
      cases hstep
      -- the key belongs to a receipt whose parents stand before it
      obtain ⟨rs, qs, hrs, rfl, hqs⟩ := List.map_eq_append_iff.1 hsplit
      obtain ⟨r, ps, rfl, rfl, rfl⟩ := List.map_eq_cons_iff.1 hqs
      have hr : r ∈ receipts := by simp [hrs]
      have hparents : Dict.get? (receipts.map fun r => (r.hash, r.parentReceipts)) r.hash =
          some r.parentReceipts :=
        Dict.get?_of_mem hnd (List.mem_map.2 ⟨r, hr, rfl⟩)
      have hbefore : ∀ p ∈ r.parentReceipts, p ∈ Dict.keys result := by
        intro p hp
        exact hseen p (ht.parent_before hrs ⟨r, hr, rfl, hp⟩)
      obtain ⟨h1, h2, h3⟩ := visit_spec ht hr hparents hsound hbefore hvisit
      refine ⟨h1, ?_⟩
      intro k hk
      rcases List.mem_append.1 hk with hk | hk
      · exact h3 k (hseen k hk)
      · rw [List.mem_singleton.1 hk]
        exact h2)
  intro r hr
  obtain ⟨found, hfound⟩ := Dict.mem_keys_iff.1 (hinv.2 r.hash (List.mem_map_of_mem hr))
  exact ⟨found, hfound, hinv.1 _ _ hfound⟩

/-! ## No update is lost -/

/-- A receipt that touches the path and is no ancestor of another such receipt. -/
abbrev MaximalAt (receipts : List WorkerReceipt) (path : Str) (m : WorkerReceipt) : Prop :=
  MaximalIn WorkerReceipt.hash (fun r => r.parentReceipts) receipts (Touches path) m

/-- Both receipts start from one base state of the path, and the edits of the first are among the
edits of the second. -/
def EditsWithin (src : Sources) (path : Str) (m w : WorkerReceipt) : Prop :=
  ∃ base am aw, gitBlob src m.inputCommit path = .ok base ∧
    gitBlob src w.inputCommit path = .ok base ∧ artifactBytes src m path = .ok am ∧
    artifactBytes src w path = .ok aw ∧
    normalizedEdits src base am ⊆ normalizedEdits src base aw

/-- A maximal receipt whose edits contain those of all the maximal receipts of the path. -/
def Qualifies (src : Sources) (receipts : List WorkerReceipt) (path : Str) (c : WorkerReceipt) :
    Prop :=
  MaximalAt receipts path c ∧ ∀ m, MaximalAt receipts path m → m = c ∨ EditsWithin src path m c

/-- The byte strings hashed for the artifacts of the path. -/
def pathBytes (src : Sources) (receipts : List WorkerReceipt) (path : Str) : Set Bytes :=
  {x | ∃ r ∈ receipts, Touches path r ∧ ∃ after, artifactBytes src r path = .ok after ∧
    x ∈ hashedBytes after}

theorem mem_incomparable_iff {receipts : List WorkerReceipt} (ht : InOrder receipts)
    {anc : Dict Str (List Str)} (h : ancestors receipts = .ok anc) (path : Str)
    (r : WorkerReceipt) :
    r ∈ incomparable anc (receipts.filter (Touches path)) ↔ MaximalAt receipts path r := by
  have hanc : ∀ o ∈ receipts, r.hash ∈ (anc.get? o.hash).getD [] ↔
      IsAncestor receipts r.hash o.hash := by
    intro o ho
    obtain ⟨found, hfound, hmem⟩ := ancestors_spec ht h o ho
    rw [hfound, Option.getD_some]
    exact hmem r.hash
  simp only [incomparable, List.mem_filter, decide_eq_true_eq, Bool.not_eq_true',
    List.any_eq_false]
  constructor
  · rintro ⟨⟨hr, htouch⟩, htop⟩
    refine ⟨hr, htouch, ?_⟩
    intro o ho hto ha
    exact htop o ⟨ho, hto⟩ ((hanc o ho).2 ha)
  · rintro ⟨hr, htouch, htop⟩
    refine ⟨⟨hr, htouch⟩, ?_⟩
    rintro o ⟨ho, hto⟩ ha
    exact htop o ho hto ((hanc o ho).1 ha)

/-- Edit sets within each other, from one base, leave the same file. -/
theorem artifactBytes_eq_of_within {src : Sources} (hm : MatchingBlocks src.matchingBlocks)
    {receipts : List WorkerReceipt} {path : Str}
    (hS : Set.InjOn sha256 (pathBytes src receipts path)) {c w : WorkerReceipt}
    (hc : c ∈ receipts) (hw : w ∈ receipts) (htc : Touches path c) (htw : Touches path w)
    (hcw : EditsWithin src path c w) (hwc : EditsWithin src path w c) :
    artifactBytes src c path = artifactBytes src w path := by
  obtain ⟨base, ac, aw, hbc, -, hac, haw, hsub⟩ := hcw
  obtain ⟨base', aw', ac', -, hbc', haw', hac', hsub'⟩ := hwc
  rw [hbc] at hbc'
  rw [haw] at haw'
  rw [hac] at hac'
  cases hbc'
  cases haw'
  cases hac'
  have heq : ac = aw := by
    apply normalizedEdits_injective hm hS _ _ (Finset.Subset.antisymm hsub hsub')
    · intro x hx
      exact ⟨c, hc, htc, ac, hac, hx⟩
    · intro x hx
      exact ⟨w, hw, htw, aw, haw, hx⟩
  rw [hac, haw, heq]

omit [FloatModel] in
theorem maxCandidate_mem {cs : List (Nat × Str)} {m : Nat × Str} (h : maxCandidate cs = some m) :
    m ∈ cs := by
  cases cs with
  | nil => cases h
  | cons c cs =>
      cases h
      have hgen : ∀ (l : List (Nat × Str)) (d : Nat × Str),
          l.foldl (fun m d => if m.1 < d.1 ∨ m.1 = d.1 ∧ m.2 < d.2 then d else m) d ∈ d :: l := by
        intro l
        induction l with
        | nil =>
            intro d
            exact List.mem_cons_self
        | cons e l ih =>
            intro d
            rw [List.foldl_cons]
            split
            · exact List.mem_cons_of_mem _ (ih e)
            · rcases List.mem_cons.1 (ih d) with h | h
              · rw [h]
                exact List.mem_cons_self
              · exact List.mem_cons_of_mem _ (List.mem_cons_of_mem _ h)
      exact hgen cs c

theorem classifyPath_cases {src : Sources} {anc : Dict Str (List Str)}
    {values : List WorkerReceipt} {path winner : Str}
    (h : classifyPath src anc values path = .ok (.inl winner)) :
    (values.length = 1 ∨ (incomparable anc values).length ≤ 1) ∧
        winner = (values.map WorkerReceipt.hash).getLastD [] ∨
      ∃ bases edits, mapE (fun r : WorkerReceipt => gitBlob src r.inputCommit path)
          (incomparable anc values) = .ok bases ∧
        (∀ v ∈ bases.tail, v = bases.headD none) ∧
        mapE (editSet src path) (incomparable anc values) = .ok edits ∧
        ∃ e ∈ (incomparable anc values).zip edits, e.1.hash = winner ∧
          ∀ o ∈ (incomparable anc values).zip edits, o.2 ⊆ e.2 := by
  simp only [classifyPath] at h
  split at h
  · rename_i h1
    cases h
    exact Or.inl ⟨Or.inl h1, rfl⟩
  · split at h
    · rename_i h2
      cases h
      exact Or.inl ⟨Or.inr h2, rfl⟩
    · obtain ⟨bases, hbases, h⟩ := bind_eq_ok.1 h
      obtain ⟨u, hu, h⟩ := bind_eq_ok.1 h
      obtain ⟨edits, hedits, h⟩ := bind_eq_ok.1 h
      refine Or.inr ⟨bases, edits, hbases, require_eq_ok.1 hu, hedits, ?_⟩
      split at h
      · rename_i w hw
        cases h
        obtain ⟨e, he, rfl⟩ := List.mem_map.1 (maxCandidate_mem hw)
        obtain ⟨hmem, hall⟩ := List.mem_filter.1 he
        rw [List.all_eq_true] at hall
        exact ⟨e, hmem, rfl, fun o ho => of_decide_eq_true (hall o ho)⟩
      · cases h

omit [FloatModel] in
/-- The base state that the receipts share. -/
theorem gitBlob_of_bases {src : Sources} {path : Str} {inc : List WorkerReceipt}
    {bases : List (Option Bytes)}
    (hbases : mapE (fun r : WorkerReceipt => gitBlob src r.inputCommit path) inc = .ok bases)
    (hsame : ∀ v ∈ bases.tail, v = bases.headD none) {r : WorkerReceipt} (hr : r ∈ inc) :
    gitBlob src r.inputCommit path = .ok (bases.headD none) := by
  obtain ⟨v, hv, hrv⟩ := forall₂_mem_left (mapE_eq_ok hbases) hr
  have hhead : v = bases.headD none := by
    cases bases with
    | nil => cases hv
    | cons b bases =>
        rcases List.mem_cons.1 hv with rfl | hv
        · rfl
        · exact hsame v hv
  rw [← hhead]
  exact hrv

theorem editsWithin_of_subset {src : Sources} {path : Str} {inc : List WorkerReceipt}
    {bases : List (Option Bytes)} {m w : WorkerReceipt} {em ew : Finset Edit}
    (hbases : mapE (fun r : WorkerReceipt => gitBlob src r.inputCommit path) inc = .ok bases)
    (hsame : ∀ v ∈ bases.tail, v = bases.headD none) (hm : m ∈ inc) (hw : w ∈ inc)
    (hem : editSet src path m = .ok em) (hew : editSet src path w = .ok ew) (hsub : em ⊆ ew) :
    EditsWithin src path m w := by
  have hbase := fun (r : WorkerReceipt) (hr : r ∈ inc) => gitBlob_of_bases hbases hsame hr
  obtain ⟨am, ham, hem⟩ := bind_eq_ok.1 hem
  obtain ⟨bm, hbm, hem⟩ := bind_eq_ok.1 hem
  obtain ⟨aw, haw, hew⟩ := bind_eq_ok.1 hew
  obtain ⟨bw, hbw, hew⟩ := bind_eq_ok.1 hew
  rw [hbase m hm] at hbm
  rw [hbase w hw] at hbw
  cases hbm
  cases hbw
  cases hem
  cases hew
  exact ⟨_, am, aw, hbase m hm, hbase w hw, ham, haw, hsub⟩

/-- The winner of a path that is classified without a conflict: it is a maximal receipt, and the
edits of every other maximal receipt are among its edits. -/
theorem classifyPath_winner {src : Sources} {receipts : List WorkerReceipt} (ht : InOrder receipts)
    {anc : Dict Str (List Str)} (hanc : ancestors receipts = .ok anc) {path winner : Str}
    (htouched : ∃ r ∈ receipts, Touches path r)
    (h : classifyPath src anc (receipts.filter (Touches path)) path = .ok (.inl winner)) :
    ∃ w, w.hash = winner ∧ Qualifies src receipts path w := by
  have hinc := mem_incomparable_iff ht hanc path
  rcases classifyPath_cases h with ⟨hfew, rfl⟩ | ⟨bases, edits, hbases, hsame, hedits, hwin⟩
  · -- the last receipt is the only maximal one
    obtain ⟨r, hr, htr⟩ := htouched
    have hne : receipts.filter (Touches path) ≠ [] :=
      List.ne_nil_of_mem (List.mem_filter.2 ⟨hr, decide_eq_true htr⟩)
    obtain ⟨pre, w, hw⟩ : ∃ pre w, receipts.filter (Touches path) = pre ++ [w] :=
      ⟨_, _, (List.dropLast_append_getLast hne).symm⟩
    have hmax : MaximalAt receipts path w := ht.getLast_maximal hw
    refine ⟨w, by rw [hw]; simp, hmax, ?_⟩
    intro m hm
    left
    rcases hfew with hone | hone
    · have hmem : m ∈ receipts.filter (Touches path) :=
        List.mem_filter.2 ⟨hm.mem, decide_eq_true hm.has⟩
      obtain ⟨v, hv⟩ := List.length_eq_one_iff.1 hone
      rw [hv] at hw hmem
      rw [List.mem_singleton.1 hmem]
      have hwv : w ∈ [v] := by simp [hw]
      exact (List.mem_singleton.1 hwv).symm
    · have h1 := (hinc m).2 hm
      have h2 := (hinc w).2 hmax
      match hl : incomparable anc (receipts.filter (Touches path)), hone, h1, h2 with
      | [v], _, h1, h2 => rw [List.mem_singleton.1 h1, List.mem_singleton.1 h2]
  · obtain ⟨⟨w, ew⟩, he, rfl, hall⟩ := hwin
    obtain ⟨hw, hew⟩ := of_mem_zip_mapE hedits he
    refine ⟨w, rfl, (hinc w).1 hw, ?_⟩
    intro m hm
    right
    have hmi := (hinc m).2 hm
    obtain ⟨em, hem, hme⟩ := mem_zip_of_mapE hedits hmi
    exact editsWithin_of_subset hbases hsame hmi hw hme hew (hall _ hem)

omit [FloatModel] in
theorem mem_touchedPaths {receipts : List WorkerReceipt} {path : Str} :
    path ∈ touchedPaths receipts ↔ ∃ r ∈ receipts, Touches path r := by
  simp only [touchedPaths, List.mem_insertionSort, List.mem_dedup, List.mem_flatMap, Touches]

omit [FloatModel] in
theorem touchedPaths_nodup (receipts : List WorkerReceipt) : (touchedPaths receipts).Nodup :=
  (List.perm_insertionSort _ _).nodup_iff.2 (List.nodup_dedup _)

/-- A path without a reported conflict has a winner, and it was classified. -/
theorem classifyOverlaps_winner {src : Sources} {receipts : List WorkerReceipt}
    {winners : Dict Str Str} {conflicts : List IntegrationConflict}
    (h : classifyOverlaps src receipts = .ok (winners, conflicts)) {path : Str}
    (hpath : path ∈ touchedPaths receipts) (hfree : ∀ c ∈ conflicts, c.path ≠ path) :
    ∃ anc winner, ancestors receipts = .ok anc ∧
      classifyPath src anc (receipts.filter (Touches path)) path = .ok (.inl winner) ∧
      winners.get? path = some winner := by
  obtain ⟨anc, hanc, h⟩ := bind_eq_ok.1 h
  obtain ⟨outcomes, hout, h⟩ := bind_eq_ok.1 h
  cases h
  have hall := mapE_eq_ok hout
  have hfst : touchedPaths receipts = outcomes.map Prod.fst := by
    apply eq_map_of_forall₂
    refine hall.imp ?_
    intro p out hp
    obtain ⟨o, -, hp⟩ := bind_eq_ok.1 hp
    cases hp
    rfl
  obtain ⟨out, hmem, hclass⟩ := forall₂_mem_left hall hpath
  obtain ⟨o, ho, heq⟩ := bind_eq_ok.1 hclass
  cases heq
  cases o with
  | inr c =>
      -- a conflict of the path carries the path
      have hc : c.path = path := by
        simp only [classifyPath] at ho
        split at ho
        · cases ho
        · split at ho
          · cases ho
          · obtain ⟨bases, -, ho⟩ := bind_eq_ok.1 ho
            obtain ⟨u, -, ho⟩ := bind_eq_ok.1 ho
            obtain ⟨edits, -, ho⟩ := bind_eq_ok.1 ho
            split at ho
            · cases ho
            · cases ho
              rfl
      exact absurd hc (hfree c (List.mem_filterMap.2 ⟨_, hmem, rfl⟩))
  | inl winner =>
      refine ⟨anc, winner, hanc, ho, ?_⟩
      have hnd : (outcomes.map Prod.fst).Nodup := by
        rw [← hfst]
        exact touchedPaths_nodup receipts
      apply Dict.get?_of_mem ((Dict.keys_filterMap_sublist Sum.getLeft? outcomes).nodup hnd)
      exact List.mem_filterMap.2 ⟨_, hmem, rfl⟩

/-- No update is lost. A path that is touched and has no conflict has a winner among the receipts
that touch it. Every receipt that touches the path is the winner, or is (an ancestor of) a maximal
receipt that is the winner or whose edits, relative to the common base, are among the winner's. All
receipts that qualify as winner leave the same bytes. -/
theorem overlaps_lose_no_update {src : Sources} (hm : MatchingBlocks src.matchingBlocks)
    {receipts : List WorkerReceipt} (ht : InOrder receipts) {winners : Dict Str Str}
    {conflicts : List IntegrationConflict}
    (h : classifyOverlaps src receipts = .ok (winners, conflicts)) {path : Str}
    (htouched : ∃ r ∈ receipts, Touches path r) (hfree : ∀ c ∈ conflicts, c.path ≠ path)
    (hS : Set.InjOn sha256 (pathBytes src receipts path)) :
    ∃ w ∈ receipts, Touches path w ∧ winners.get? path = some w.hash ∧
      Qualifies src receipts path w ∧
      (∀ r ∈ receipts, Touches path r → r = w ∨ ∃ m, MaximalAt receipts path m ∧
        (r = m ∨ IsAncestor receipts r.hash m.hash) ∧ (m = w ∨ EditsWithin src path m w)) ∧
      ∀ c, Qualifies src receipts path c →
        artifactBytes src c path = artifactBytes src w path := by
  obtain ⟨anc, winner, hanc, hclass, hwin⟩ :=
    classifyOverlaps_winner h (mem_touchedPaths.2 htouched) hfree
  obtain ⟨w, rfl, hw⟩ := classifyPath_winner ht hanc htouched hclass
  refine ⟨w, hw.1.mem, hw.1.has, hwin, hw, ?_, ?_⟩
  · intro r hr htr
    obtain ⟨m, hmax, hrm⟩ := ht.exists_maximal (Touches path) hr htr
    exact Or.inr ⟨m, hmax, hrm, hw.2 m hmax⟩
  · intro c hc
    rcases hw.2 c hc.1 with rfl | hcw
    · rfl
    · rcases hc.2 w hw.1 with rfl | hwc
      · rfl
      · exact artifactBytes_eq_of_within hm hS hc.1.mem hw.1.mem hc.1.has hw.1.has hcw hwc

end Model

/-! ## Two receipts for one file -/

section Concrete

attribute [local instance] wholeFloats

/-- A receipt of a task that writes the file `a`. -/
def rawReceipt (task : String) : ReceiptData where
  receiptId := lit "r"
  executionPlanHash := List.replicate 64 0x30
  taskId := lit task
  workerId := lit "w"
  swarmId := lit "s"
  attemptId := lit "1"
  engineName := lit "e"
  engineVersion := lit "1"
  inputCommit := List.replicate 40 0x30
  outputCommit := lit "c"
  contractHash := List.replicate 64 0x30
  artifacts := [⟨lit "a", some (List.replicate 64 0x30), 4, false⟩]
  requirementsMet := []
  verificationResults := []
  overallVerdict := lit "pass"
  verifierIdentity := lit "v"
  verifierRevision := List.replicate 64 0x30
  parentReceipts := []
  supersedes := none
  issuedAtNs := 1
  stationKeyId := lit "k"
  stationSignature := lit "g"
  schemaVersion := receiptSchema

/-- The receipt of the first task. -/
def leftReceipt : WorkerReceipt where
  toReceiptData := rawReceipt "1"
  made := ⟨rawReceipt "1", by decide, by rfl⟩

/-- The receipt of the second task. -/
def rightReceipt : WorkerReceipt where
  toReceiptData := rawReceipt "2"
  made := ⟨rawReceipt "2", by decide, by rfl⟩

/-- The block of the first line of `a` in `b`, and the end: what `get_matching_blocks` returns for a
file of one line that occurs once. -/
def firstLineBlocks (a b : List Str) : List Block :=
  match a with
  | [] => [(0, b.length, 0)]
  | x :: xs =>
      if x ∈ b then [(0, b.idxOf x, 1), (xs.length + 1, b.length, 0)]
      else [(xs.length + 1, b.length, 0)]

theorem firstLineBlocks_matching : MatchingBlocks firstLineBlocks := by
  intro a b
  cases a with
  | nil => exact ⟨rfl, rfl, rfl, le_refl 0, Nat.zero_le _⟩
  | cons x xs =>
      rw [firstLineBlocks]
      split
      · rename_i hx
        have hlt : b.idxOf x < b.length := List.idxOf_lt_length_iff.2 hx
        refine ⟨Nat.one_pos, le_refl 0, Nat.zero_le _, by simp, hlt, ?_,
          rfl, rfl, rfl, by simp, hlt⟩
        rw [slice, slice, Nat.add_sub_cancel_left, Nat.add_sub_cancel_left, List.drop_zero,
          List.drop_eq_getElem_cons hlt, List.getElem_idxOf hlt]
        rfl
      · exact ⟨rfl, rfl, rfl, Nat.zero_le _, Nat.zero_le _⟩

/-- The file `a` holds the line `x`; the first task adds `y` after it, the second one also `z`
before it. -/
def overlapSources : Sources where
  revParse := .ok
  readBaseBlob := fun _ _ => .present [0x78, 0x0A]
  artifact := fun hash _ =>
    if hash = leftReceipt.hash then .ok [0x78, 0x0A, 0x79, 0x0A]
    else .ok [0x7A, 0x0A, 0x78, 0x0A, 0x79, 0x0A]
  matchingBlocks := firstLineBlocks

theorem overlap_hash_ne : leftReceipt.hash ≠ rightReceipt.hash := by decide +kernel

theorem overlap_inOrder : InOrder [leftReceipt, rightReceipt] := by
  refine ⟨?_, ?_⟩
  · simp [overlap_hash_ne]
  · exact ⟨nofun, nofun, trivial⟩

theorem overlap_classified : classifyOverlaps overlapSources [leftReceipt, rightReceipt] =
    .ok ([(lit "a", rightReceipt.hash)], []) := by
  decide +kernel

/-- The byte strings hashed for the two receipts. -/
def overlapBytes : List Bytes :=
  [[0x78, 0x0A, 0x79, 0x0A], [0x7A, 0x0A, 0x78, 0x0A, 0x79, 0x0A], [0x78, 0x0A], [0x79, 0x0A],
    [0x7A, 0x0A]]

theorem overlap_find (task : String) : (rawReceipt task).artifacts.find? (fun a => a.path = lit "a") =
    some ⟨lit "a", some (List.replicate 64 0x30), 4, false⟩ := by
  rw [rawReceipt, List.find?_cons_of_pos (by simp)]

theorem overlap_bytes_left : artifactBytes overlapSources leftReceipt (lit "a") =
    .ok (some [0x78, 0x0A, 0x79, 0x0A]) := by
  rw [artifactBytes, show leftReceipt.artifacts = (rawReceipt "1").artifacts from rfl, overlap_find]
  simp only [overlapSources, if_true, Bool.false_eq_true, if_false]
  rfl

theorem overlap_bytes_right : artifactBytes overlapSources rightReceipt (lit "a") =
    .ok (some [0x7A, 0x0A, 0x78, 0x0A, 0x79, 0x0A]) := by
  rw [artifactBytes, show rightReceipt.artifacts = (rawReceipt "2").artifacts from rfl, overlap_find]
  simp only [overlapSources, if_neg overlap_hash_ne.symm, Bool.false_eq_true, if_false]
  rfl

theorem overlap_hashedBytes : ∀ after ∈ [[0x78, 0x0A, 0x79, 0x0A],
    [0x7A, 0x0A, 0x78, 0x0A, 0x79, 0x0A]], hashedBytes (some after) ⊆ {x | x ∈ overlapBytes} := by
  have hlines : ∀ after ∈ [[0x78, 0x0A, 0x79, 0x0A], [0x7A, 0x0A, 0x78, 0x0A, 0x79, 0x0A]],
      after ∈ overlapBytes ∧ ∀ l ∈ splitLines true ((utf8Decode after).getD []),
        l.flatMap utf8Char ∈ overlapBytes := by
    decide
  intro after hafter x hx
  rcases hx with hx | ⟨text, htext, l, hl, rfl⟩
  · rw [hx]
    exact (hlines after hafter).1
  · apply (hlines after hafter).2 l
    rw [Option.getD_some] at htext
    rw [htext]
    exact hl

theorem overlap_pathBytes :
    pathBytes overlapSources [leftReceipt, rightReceipt] (lit "a") ⊆ {x | x ∈ overlapBytes} := by
  rintro x ⟨r, hr, -, after, hafter, hx⟩
  rcases List.mem_cons.1 hr with rfl | hr
  · rw [overlap_bytes_left] at hafter
    cases hafter
    exact overlap_hashedBytes _ (by simp) hx
  · rw [List.mem_singleton.1 hr, overlap_bytes_right] at hafter
    cases hafter
    exact overlap_hashedBytes _ (by simp) hx

theorem overlap_collisionFree :
    Set.InjOn sha256 (pathBytes overlapSources [leftReceipt, rightReceipt] (lit "a")) := by
  have hall : ∀ x ∈ overlapBytes, ∀ y ∈ overlapBytes, sha256 x = sha256 y → x = y := by
    decide +kernel
  intro x hx y hy h
  exact hall x (overlap_pathBytes hx) y (overlap_pathBytes hy) h

/-- The second receipt contains the edit of the first one and wins. -/
theorem overlap_second_wins :
    ∃ w ∈ [leftReceipt, rightReceipt], Touches (lit "a") w ∧
      Dict.get? [(lit "a", rightReceipt.hash)] (lit "a") = some w.hash ∧
      Qualifies overlapSources [leftReceipt, rightReceipt] (lit "a") w ∧
      (∀ r ∈ [leftReceipt, rightReceipt], Touches (lit "a") r → r = w ∨
        ∃ m, MaximalAt [leftReceipt, rightReceipt] (lit "a") m ∧
          (r = m ∨ IsAncestor [leftReceipt, rightReceipt] r.hash m.hash) ∧
          (m = w ∨ EditsWithin overlapSources (lit "a") m w)) ∧
      ∀ c, Qualifies overlapSources [leftReceipt, rightReceipt] (lit "a") c →
        artifactBytes overlapSources c (lit "a") = artifactBytes overlapSources w (lit "a") :=
  overlaps_lose_no_update firstLineBlocks_matching overlap_inOrder overlap_classified
    ⟨leftReceipt, by simp, by decide⟩ nofun overlap_collisionFree

end Concrete

end ResidualHarness.Factory
