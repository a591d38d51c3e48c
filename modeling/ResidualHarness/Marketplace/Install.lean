import ResidualHarness.Python.Dict
import ResidualHarness.Python.Program
import ResidualHarness.Python.Text

/-!
# Installation of modules

`ModuleInstaller.install` of `residual/marketplace/install.py` with `ModuleRegistry.admit`. An installation
is a program over the module directory and the registry index; it may fail at one of its steps, and the
process may die after any of its writes. It is atomic as long as the old version can be moved away, a
crash has not left it behind in the hidden backup only, and no other module has the same paths
(`install_atomic`).
-/

set_option autoImplicit false

namespace ResidualHarness.Marketplace

open Python

/-- A name and a version, as validation reports them. -/
structure Module where
  name : Str
  version : Str
deriving DecidableEq

/-- A directory: its tree, and whether it is a whole one (this is history, nothing reads it). -/
structure Copy (Tree : Type) where
  tree : Tree
  whole : Bool
deriving DecidableEq

/-- A record of the registry index. -/
structure Record (Report : Type) where
  module : Module
  sha256 : Str
  publicKey : Str
  signature : Str
  distributionUrl : Str
  validation : Report

/-- The file of the registry index. -/
inductive IndexFile (Report : Type) where
  | missing
  | invalid
  | index (packages : Dict Str (Record Report))

/-- `_read`: the packages of the index. -/
def IndexFile.read {Report : Type} : IndexFile Report → Except PyExn (Dict Str (Record Report))
  | .missing => .ok []
  | .invalid => .error (.userError "RegistryError" "invalid module registry index")
  | .index packages => .ok packages

/-- The module directory, the registry index, and the tree that was admitted last for each destination
(this is history, nothing reads it). -/
structure Site (Tree Report : Type) where
  dir : Str → Option (Copy Tree)
  registry : IndexFile Report
  admitted : Str → Option Tree

/-- The step of an installation that raises. -/
inductive Fault where
  | copytree
  | replaceOld
  | replaceNew
  | admission
deriving DecidableEq

/-- A call of `install`: whether the package could be verified, staged and validated, its record, the
staged tree, what is left of a tree that is being copied or removed, and the step that raises. -/
structure Call (Tree Report : Type) where
  staging : Except PyExn Unit
  record : Record Report
  staged : Tree
  torn : Tree
  fault : Option Fault

variable {Tree Report : Type}

namespace Site

/-- The site with an entry of its directory changed. -/
def put (s : Site Tree Report) (path : Str) (x : Option (Copy Tree)) : Site Tree Report :=
  { s with dir := Function.update s.dir path x }

@[simp]
theorem put_registry (s : Site Tree Report) (path : Str) (x : Option (Copy Tree)) :
    (s.put path x).registry = s.registry := rfl

@[simp]
theorem put_admitted (s : Site Tree Report) (path : Str) (x : Option (Copy Tree)) :
    (s.put path x).admitted = s.admitted := rfl

@[simp]
theorem put_dir (s : Site Tree Report) (path : Str) (x : Option (Copy Tree)) (q : Str) :
    (s.put path x).dir q = if q = path then x else s.dir q :=
  Function.update_apply _ _ _ _

@[simp]
theorem put_put (s : Site Tree Report) (path : Str) (x y : Option (Copy Tree)) :
    (s.put path x).put path y = s.put path y := by
  rw [put, put, put, Function.update_idem]

theorem put_none {s : Site Tree Report} {path : Str} (h : s.dir path = none) : s.put path none = s := by
  rw [put, ← h, Function.update_eq_self]

end Site

/-! ## Paths -/

/-- The entries of a module: the one that an installation publishes, and the hidden ones that the
staged tree is copied to and the old version is moved to. -/
structure Paths where
  dest : Str
  pending : Str
  backup : Str
  pending_ne_dest : pending ≠ dest
  backup_ne_dest : backup ≠ dest
  pending_ne_backup : pending ≠ backup

/-- The entries as a list. -/
def Paths.all (p : Paths) : List Str := [p.dest, p.pending, p.backup]

section Names

variable (isalnum : CodePoint → Bool) (m : Module)

/-- The characters of a name or version that go into a path. -/
def safe (s : Str) : Str := s.filter fun c => isalnum c || decide (c ∈ lit "._-")

/-- `f"{safe_name}-{safe_version}"`. -/
def Module.dest : Str := safe isalnum m.name ++ lit "-" ++ safe isalnum m.version

theorem hidden_ne (s t : Str) : lit "." ++ s ++ t ≠ s := by
  intro h
  have hlen := congrArg List.length h
  rw [List.length_append, List.length_append] at hlen
  have hdot : (lit ".").length = 1 := by decide
  omega

/-- `dest`, `pending` and `backup`. -/
def Module.paths : Paths where
  dest := m.dest isalnum
  pending := lit "." ++ m.dest isalnum ++ lit ".installing"
  backup := lit "." ++ m.dest isalnum ++ lit ".previous"
  pending_ne_dest := hidden_ne _ _
  backup_ne_dest := hidden_ne _ _
  pending_ne_backup h := absurd (List.append_cancel_left h) (by decide)

end Names

/-! ## The program -/

/-- `shutil.rmtree`: an entry is removed piece by piece. -/
def rmtree (path : Str) (torn : Tree) : Prog (Site Tree Report) PyExn Unit := do
  Prog.write fun s => s.put path (some ⟨torn, false⟩)
  Prog.write fun s => s.put path none

/-- `if path.exists(): shutil.rmtree(path)`. -/
def clear (path : Str) (torn : Tree) : Prog (Site Tree Report) PyExn Unit := do
  let s ← Prog.read
  if (s.dir path).isSome then rmtree path torn else pure ()

/-- `shutil.copytree`, which may stop after a part of the tree. -/
def copytree (staged : Tree) (path : Str) (torn : Tree) (fails : Bool) :
    Prog (Site Tree Report) PyExn Unit := do
  Prog.write fun s => s.put path (some ⟨torn, false⟩)
  if fails then Prog.raise (.runtimeError "OSError" "copytree")
  else Prog.write fun s => s.put path (some ⟨staged, true⟩)

/-- `os.replace` of a directory by a name that is free. -/
def replace (src dst : Str) (fails : Bool) : Prog (Site Tree Report) PyExn Unit := do
  if fails then Prog.raise (.runtimeError "OSError" "replace")
  else Prog.write fun s => (s.put dst (s.dir src)).put src none

/-- `f"{name}=={version}"`. -/
def Module.key (m : Module) : Str := m.name ++ lit "==" ++ m.version

/-- The site with a record added to the packages of its index. -/
def Site.enter (s : Site Tree Report) (dest : Str) (c : Call Tree Report)
    (packages : Dict Str (Record Report)) : Site Tree Report :=
  { s with registry := .index (packages.set c.record.module.key c.record),
           admitted := Function.update s.admitted dest (some c.staged) }

theorem Site.enter_admitted (s : Site Tree Report) (dest : Str) (c : Call Tree Report)
    (packages : Dict Str (Record Report)) (path : Str) :
    (s.enter dest c packages).admitted path = if path = dest then some c.staged else s.admitted path :=
  Function.update_apply _ _ _ _

/-- `admit`: the index is read and replaced by one with the record; nothing is written otherwise. -/
def admitModule (c : Call Tree Report) (dest : Str) : Prog (Site Tree Report) PyExn Unit := do
  if c.fault = some .admission then
    Prog.raise (.userError "RegistryError" "registry admission failed")
  else do
    let s ← Prog.read
    let packages ← Prog.eval s.registry.read
    Prog.write fun s => s.enter dest c packages

section Publication

variable (p : Paths)

/-- The staged tree is renamed to the destination, and the package is admitted. -/
def publish (c : Call Tree Report) : Prog (Site Tree Report) PyExn Unit := do
  replace p.pending p.dest (c.fault = some .replaceNew)
  admitModule c p.dest

/-- `except Exception` of `install`. -/
def rollback (c : Call Tree Report) (movedOld : Bool) : Prog (Site Tree Report) PyExn Unit := do
  clear p.dest c.torn
  let s ← Prog.read
  if movedOld && (s.dir p.backup).isSome then
    replace p.backup p.dest false
  else pure ()
  clear p.pending c.torn

/-- What follows the body of `try` in `install`. -/
def settle (c : Call Tree Report) (movedOld : Bool) :
    Except PyExn Unit → Prog (Site Tree Report) PyExn Str
  | .ok () => do
      clear p.backup c.torn
      return p.dest
  | .error e => do
      rollback p c movedOld
      Prog.raise e

/-- The body of `try` in `install` and what follows it. -/
def exchange (c : Call Tree Report) : Prog (Site Tree Report) PyExn Str := do
  let s ← Prog.read
  let found := (s.dir p.dest).isSome
  let moved ← Prog.attempt (if found then
      replace p.dest p.backup (c.fault = some .replaceOld) else pure ())
  let published ← match moved with
    | .error e => pure (.error e)
    | .ok () => Prog.attempt (publish p c)
  settle p c (found && moved.toBool) published

end Publication

variable (isalnum : CodePoint → Bool)

/-- `install`, from the staged package on. -/
def install (c : Call Tree Report) : Prog (Site Tree Report) PyExn Str := do
  Prog.eval c.staging
  let m := c.record.module
  if safe isalnum m.name = [] ∨ safe isalnum m.version = [] then
    Prog.raise (.runtimeError "RuntimeError" "module name/version cannot map to an install path")
  else do
    let p := m.paths isalnum
    clear p.pending c.torn
    clear p.backup c.torn
    copytree c.staged p.pending c.torn (c.fault = some .copytree)
    exchange p c

/-! ## Atomicity -/

/-- What an installation promises where it returns: the staged tree is at the destination, and the
registry has the record. -/
def Published (p : Paths) (c : Call Tree Report) (path : Str) (t : Site Tree Report) : Prop :=
  path = p.dest ∧ t.dir p.dest = some ⟨c.staged, true⟩ ∧
    ∃ packages, t.registry = .index packages ∧ packages.get? c.record.module.key = some c.record

/-- What an installation promises where it raises: the destination and the registry are as before. -/
def Unchanged (p : Paths) (s t : Site Tree Report) : Prop :=
  t.dir p.dest = s.dir p.dest ∧ t.registry = s.registry

/-- One installation holds its promises, and leaves no part of a tree at the destination if it
raises. -/
def Atomic (s : Site Tree Report) (c : Call Tree Report) : Prop :=
  let p := c.record.module.paths isalnum
  let o := install isalnum c s
  (∀ path, o.result = .ok path → Published p c path o.state) ∧
    ∀ e, o.result = .error e →
      Unchanged p s o.state ∧ ∀ x, o.state.dir p.dest = some x → x.whole = true

/-- The last version of every module that was admitted is at its destination or in its backup. -/
def Saved (known : List Module) (s : Site Tree Report) : Prop :=
  ∀ m ∈ known, ∀ tree, s.admitted (m.paths isalnum).dest = some tree →
    s.dir (m.paths isalnum).dest = some ⟨tree, true⟩ ∨
      s.dir (m.paths isalnum).backup = some ⟨tree, true⟩

/-- The sites after installations, each of them allowed, that returned, raised or died after a write,
with the modules that they were about. -/
inductive Reach (allowed : List Module → Site Tree Report → Call Tree Report → Prop) :
    List Module → Site Tree Report → Prop
  | start (registry : IndexFile Report) : Reach allowed [] ⟨fun _ => none, registry, fun _ => none⟩
  | run {known : List Module} {s : Site Tree Report} {c : Call Tree Report} :
      Reach allowed known s → allowed known s c →
        Reach allowed (c.record.module :: known) (install isalnum c s).state
  | crash {known : List Module} {s p : Site Tree Report} {c : Call Tree Report} :
      Reach allowed known s → allowed known s c → p ∈ (install isalnum c s).points →
        Reach allowed (c.record.module :: known) p

/-- Installation is atomic in all runs of allowed calls: each call is, none loses a version that was
admitted, and no two modules of a run share a destination. -/
def InstallAtomic (allowed : List Module → Site Tree Report → Call Tree Report → Prop) : Prop :=
  ∀ known s, Reach isalnum allowed known s →
    (∀ m ∈ known, ∀ m' ∈ known, m.dest isalnum = m'.dest isalnum → m = m') ∧
    Saved isalnum known s ∧ ∀ c, allowed known s c → Atomic isalnum s c

/-- When an installation keeps its promise: the move of the old version away does not fail, the version
that was admitted last is at the destination, where no part of a tree has been left, and no other
module has an entry of the same name. -/
structure Sound (known : List Module) (s : Site Tree Report) (c : Call Tree Report) : Prop where
  moves : c.fault = some .replaceOld → s.dir (c.record.module.paths isalnum).dest = none
  current : ∀ tree, s.admitted (c.record.module.paths isalnum).dest = some tree →
    s.dir (c.record.module.paths isalnum).dest = some ⟨tree, true⟩
  whole : ∀ x, s.dir (c.record.module.paths isalnum).dest = some x → x.whole = true
  apart : ∀ m ∈ known, m ≠ c.record.module →
    ∀ path ∈ (m.paths isalnum).all, path ∉ (c.record.module.paths isalnum).all

/-! ## One installation -/

/-- What an installation leaves alone at every moment: the entries and versions of other modules, and
the version that was admitted last. -/
structure Keeps (p : Paths) (s t : Site Tree Report) : Prop where
  others : ∀ path ∉ p.all, t.dir path = s.dir path
  versions : ∀ path, path ≠ p.dest → t.admitted path = s.admitted path
  saved : ∀ tree, t.admitted p.dest = some tree →
    t.dir p.dest = some ⟨tree, true⟩ ∨ t.dir p.backup = some ⟨tree, true⟩

namespace Keeps

variable {p : Paths} {s t : Site Tree Report} {x : Option (Copy Tree)}

theorem put (h : Keeps p s t) {path : Str} (hpath : path ∈ p.all)
    (hsaved : ∀ tree, t.admitted p.dest = some tree →
      (t.put path x).dir p.dest = some ⟨tree, true⟩ ∨
        (t.put path x).dir p.backup = some ⟨tree, true⟩) :
    Keeps p s (t.put path x) where
  others q hq := by
    rw [Site.put_dir, if_neg]
    · exact h.others q hq
    · rintro rfl
      exact hq hpath
  versions := h.versions
  saved := hsaved

theorem put_pending (h : Keeps p s t) :
    Keeps p s (t.put p.pending x) := by
  refine h.put (by simp [Paths.all]) ?_
  intro tree htree
  rw [Site.put_dir, Site.put_dir, if_neg p.pending_ne_dest.symm, if_neg p.pending_ne_backup.symm]
  exact h.saved tree htree

/-- The backup may change while the destination has the version that was admitted last. -/
theorem put_backup (h : Keeps p s t)
    (hdest : ∀ tree, t.admitted p.dest = some tree →
      t.dir p.dest = some ⟨tree, true⟩) :
    Keeps p s (t.put p.backup x) := by
  refine h.put (by simp [Paths.all]) ?_
  intro tree htree
  left
  rw [Site.put_dir, if_neg p.backup_ne_dest.symm]
  exact hdest tree htree

/-- The destination may change while the backup has the version that was admitted last. -/
theorem put_dest (h : Keeps p s t)
    (hbackup : ∀ tree, t.admitted p.dest = some tree →
      t.dir p.backup = some ⟨tree, true⟩) :
    Keeps p s (t.put p.dest x) := by
  refine h.put (by simp [Paths.all]) ?_
  intro tree htree
  right
  rw [Site.put_dir, if_neg p.backup_ne_dest]
  exact hbackup tree htree

end Keeps

/-! ## The steps -/

section Steps

variable {K : Site Tree Report → Prop} {s : Site Tree Report}
  {err : PyExn → Site Tree Report → Prop}

theorem runs_clear {path : Str} {torn : Tree} (hpart : K (s.put path (some ⟨torn, false⟩)))
    (hgone : K (s.put path none)) :
    Runs (fun _ t => K t) (clear path torn) s (fun _ t => t = s.put path none) err := by
  apply runs_bind (runs_read _)
  split
  · apply runs_bind (runs_write hpart _)
    apply runs_write
    · rw [Site.put_put]
      exact hgone
    · exact Site.put_put _ _ _ _
  · rename_i hnone
    apply runs_pure
    exact (Site.put_none (by simpa using hnone)).symm

theorem runs_copytree {staged : Tree} {path : Str} {torn : Tree} {fails : Bool}
    (hpart : K (s.put path (some ⟨torn, false⟩))) (hall : K (s.put path (some ⟨staged, true⟩))) :
    Runs (fun _ t => K t) (copytree staged path torn fails) s
      (fun _ t => t = s.put path (some ⟨staged, true⟩))
      (fun _ t => t = s.put path (some ⟨torn, false⟩)) := by
  apply runs_bind (runs_write hpart _)
  split
  · exact runs_raise rfl
  · apply runs_write
    · rw [Site.put_put]
      exact hall
    · exact Site.put_put _ _ _ _

theorem runs_replace {src dst : Str} {fails : Bool}
    (hmoved : fails = false → K ((s.put dst (s.dir src)).put src none)) :
    Runs (fun _ t => K t) (replace src dst fails) s
      (fun _ t => t = (s.put dst (s.dir src)).put src none) (fun _ t => fails = true ∧ t = s) := by
  unfold replace
  split
  · rename_i hfails
    exact runs_raise ⟨hfails, rfl⟩
  · rename_i hfails
    exact runs_write (hmoved (by simpa using hfails)) rfl

end Steps

/-! ## One installation -/

section Installation

variable {isalnum}
variable {p : Paths} {c : Call Tree Report} {s t : Site Tree Report}

/-- The version that was admitted last is at the destination. -/
def Current (p : Paths) (t : Site Tree Report) : Prop :=
  ∀ tree, t.admitted p.dest = some tree → t.dir p.dest = some ⟨tree, true⟩

/-- The version that was admitted last is in the backup. -/
def BackedUp (p : Paths) (t : Site Tree Report) : Prop :=
  ∀ tree, t.admitted p.dest = some tree → t.dir p.backup = some ⟨tree, true⟩

theorem runs_publish (hk : Keeps p s t) (hback : BackedUp p t)
    (hpending : t.dir p.pending = some ⟨c.staged, true⟩) :
    Runs (fun _ u => Keeps p s u) (publish p c) t
      (fun _ u => Keeps p s u ∧ u.dir p.dest = some ⟨c.staged, true⟩ ∧
        u.admitted p.dest = some c.staged ∧ ∃ packages, u.registry = .index packages ∧
          packages.get? c.record.module.key = some c.record)
      (fun _ u => Keeps p s u ∧ BackedUp p u ∧ u.registry = t.registry ∧
        u.dir p.backup = t.dir p.backup) := by
  have hmoved := (hk.put_dest (x := t.dir p.pending) hback).put_pending (x := none)
  have hbackup : ((t.put p.dest (t.dir p.pending)).put p.pending none).dir p.backup =
      t.dir p.backup := by
    rw [Site.put_dir, Site.put_dir, if_neg p.pending_ne_backup.symm, if_neg p.backup_ne_dest]
  apply runs_bind
  apply (runs_replace fun _ => hmoved).conseq
  · rintro _ u - rfl
    have hbacked : BackedUp p _ := fun tree htree =>
      hbackup.trans (hback tree htree)
    unfold admitModule
    split
    · exact runs_raise ⟨hmoved, hbacked, rfl, hbackup⟩
    · apply runs_bind (runs_read _)
      apply runs_bind
      refine runs_eval (fun packages _ => ?_) fun e _ => ⟨hmoved, hbacked, rfl, hbackup⟩
      have hdest : ((t.put p.dest (t.dir p.pending)).put p.pending none).dir p.dest =
          some ⟨c.staged, true⟩ := by
        rw [Site.put_dir, Site.put_dir, if_neg p.pending_ne_dest.symm, if_pos rfl, hpending]
      -- The new version becomes the admitted one in the write of the index.
      have hkeeps : Keeps p s
          (((t.put p.dest (t.dir p.pending)).put p.pending none).enter p.dest c packages) := by
        refine ⟨hmoved.others, ?_, ?_⟩
        · intro path hpath
          rw [Site.enter_admitted, if_neg hpath]
          exact hk.versions path hpath
        · intro tree htree
          rw [Site.enter_admitted, if_pos rfl] at htree
          cases htree
          exact Or.inl hdest
      refine runs_write hkeeps ⟨hkeeps, hdest, ?_, _, rfl, ?_⟩
      · rw [Site.enter_admitted, if_pos rfl]
      · rw [Dict.get?_set, if_pos rfl]
  · rintro e u - ⟨-, rfl⟩
    exact ⟨hk, hback, rfl, rfl⟩

theorem runs_rollback {movedOld : Bool} {err : PyExn → Site Tree Report → Prop}
    (hk : Keeps p s t) (hback : BackedUp p t)
    (hnone : movedOld = false → s.dir p.dest = none)
    (hsome : movedOld = true → t.dir p.backup = s.dir p.dest) :
    Runs (fun _ u => Keeps p s u) (rollback p c movedOld) t
      (fun _ u => u.registry = t.registry ∧ u.dir p.dest = s.dir p.dest) err := by
  have hclear := hk.put_dest (x := none) hback
  have hbackup : (t.put p.dest none).dir p.backup = t.dir p.backup := by
    rw [Site.put_dir, if_neg p.backup_ne_dest]
  have hlast : ∀ u : Site Tree Report, Keeps p s u → u.registry = t.registry →
      u.dir p.dest = s.dir p.dest → Runs (fun _ u => Keeps p s u) (clear p.pending c.torn) u
        (fun _ u => u.registry = t.registry ∧ u.dir p.dest = s.dir p.dest) err := by
    intro u hu hregistry hdest
    apply (runs_clear hu.put_pending hu.put_pending).conseq
    · rintro _ v - rfl
      refine ⟨hregistry, ?_⟩
      rw [Site.put_dir, if_neg p.pending_ne_dest.symm]
      exact hdest
    · exact fun _ _ _ h => h
  apply runs_bind
  apply (runs_clear (hk.put_dest hback) hclear).conseq
  · rintro _ u - rfl
    apply runs_bind (runs_read _)
    split
    · rename_i hcond
      obtain ⟨rfl, -⟩ := Bool.and_eq_true_iff.1 hcond
      have hmoved : Keeps p s
          (((t.put p.dest none).put p.dest ((t.put p.dest none).dir p.backup)).put p.backup none) := by
        rw [Site.put_put, hbackup]
        refine (hk.put_dest hback).put_backup ?_
        intro tree htree
        rw [Site.put_dir, if_pos rfl]
        exact hback tree htree
      apply runs_bind
      apply (runs_replace fun _ => hmoved).conseq
      · rintro _ u - rfl
        refine hlast _ hmoved rfl ?_
        rw [Site.put_dir, if_neg p.backup_ne_dest.symm, Site.put_dir, if_pos rfl, hbackup]
        exact hsome rfl
      · rintro e u - ⟨hfails, -⟩
        cases hfails
    · rename_i hcond
      refine hlast _ hclear rfl ?_
      rw [Site.put_dir, if_pos rfl]
      cases movedOld with
      | false => exact (hnone rfl).symm
      | true =>
          rw [← hsome rfl, ← hbackup]
          exact (Option.not_isSome_iff_eq_none.1 (by simpa using hcond)).symm
  · exact fun _ _ _ h => h

/-- From where the old version is away: it comes back if the new one cannot be published. -/
theorem runs_settle {movedOld : Bool} (hk : Keeps p s t) (hback : BackedUp p t)
    (hregistry : t.registry = s.registry)
    (hpending : t.dir p.pending = some ⟨c.staged, true⟩)
    (hnone : movedOld = false → s.dir p.dest = none)
    (hsome : movedOld = true → t.dir p.backup = s.dir p.dest) :
    Runs (fun _ u => Keeps p s u)
      (Prog.attempt (publish p c) >>= settle p c movedOld) t
      (Published p c) (fun _ u => Unchanged p s u) := by
  apply runs_bind
  apply runs_attempt
  apply (runs_publish hk hback hpending).conseq
  · rintro _ u - ⟨hu, hdest, hadmitted, hrecord⟩
    have hcleared : ∀ x, Keeps p s (u.put p.backup x) := by
      intro x
      refine hu.put_backup ?_
      intro tree htree
      cases hadmitted.symm.trans htree
      exact hdest
    apply runs_bind
    apply (runs_clear (hcleared _) (hcleared _)).conseq
    · rintro _ v - rfl
      refine runs_pure ⟨rfl, ?_, hrecord⟩
      rw [Site.put_dir, if_neg p.backup_ne_dest.symm]
      exact hdest
    · exact fun _ _ _ h => h
  · rintro e u - ⟨hu, hbacked, hregistry', hbackup⟩
    apply runs_bind
    apply (runs_rollback hu hbacked hnone fun hmoved => hbackup.trans (hsome hmoved)).conseq
    · rintro _ v - ⟨hv, hdest⟩
      exact runs_raise ⟨hdest, hv.trans (hregistry'.trans hregistry)⟩
    · exact fun _ _ _ h => h

theorem runs_exchange (hmoves : c.fault = some .replaceOld → s.dir p.dest = none)
    (hs : Current p s) (hk : Keeps p s t) (hdest : t.dir p.dest = s.dir p.dest)
    (hadmitted : t.admitted p.dest = s.admitted p.dest)
    (hregistry : t.registry = s.registry)
    (hpending : t.dir p.pending = some ⟨c.staged, true⟩) :
    Runs (fun _ u => Keeps p s u) (exchange p c) t
      (Published p c) (fun _ u => Unchanged p s u) := by
  apply runs_bind (runs_read _)
  apply runs_bind
  apply runs_attempt
  by_cases hfound : (t.dir p.dest).isSome = true
  · -- The old version is moved to the backup, which by assumption does not fail.
    have hcurrent : BackedUp p (t.put p.backup (t.dir p.dest)) := by
      intro tree htree
      rw [Site.put_dir, if_pos rfl, hdest]
      exact hs tree (hadmitted.symm.trans htree)
    have hbackup := hk.put_backup (x := t.dir p.dest) fun tree htree =>
      hdest.trans (hs tree (hadmitted.symm.trans htree))
    have hmoved := hbackup.put_dest (x := none) hcurrent
    simp only [hfound, if_true]
    apply (runs_replace fun _ => hmoved).conseq
    · rintro _ u - rfl
      refine runs_settle hmoved ?_ hregistry ?_ nofun fun _ => ?_
      · intro tree htree
        rw [Site.put_dir, if_neg p.backup_ne_dest]
        exact hcurrent tree htree
      · rw [Site.put_dir, if_neg p.pending_ne_dest, Site.put_dir, if_neg p.pending_ne_backup]
        exact hpending
      · rw [Site.put_dir, if_neg p.backup_ne_dest, Site.put_dir, if_pos rfl, hdest]
    · rintro e u - ⟨hfails, rfl⟩
      have hnone := hmoves (of_decide_eq_true hfails)
      rw [hdest, hnone] at hfound
      cases hfound
  · have hnone : s.dir p.dest = none := by
      rw [← hdest]
      simpa using hfound
    simp only [hfound]
    refine runs_pure (runs_settle hk ?_ hregistry hpending (fun _ => hnone) nofun)
    intro tree htree
    have hsome := hs tree (hadmitted.symm.trans htree)
    rw [hnone] at hsome
    cases hsome

theorem Current.keeps (hs : Current p s) : Keeps p s s :=
  ⟨fun _ _ => rfl, fun _ _ => rfl, fun tree htree => Or.inl (hs tree htree)⟩

theorem keeps_of_reach (hs : Current p s)
    (h : Relation.ReflTransGen (fun _ u => Keeps p s u) s t) : Keeps p s t :=
  reach_invariant (I := Keeps p s) (fun _ _ h _ => h) h hs.keeps

/-- An installation that is allowed keeps what belongs to others and the last version of its own
module at every moment, and holds its promises at its end. -/
theorem runs_install (hp : c.record.module.paths isalnum = p)
    (hmoves : c.fault = some .replaceOld → s.dir p.dest = none) (hs : Current p s) :
    Runs (fun _ u => Keeps p s u) (install isalnum c) s (Published p c)
      (fun _ u => Unchanged p s u) := by
  have hstart := hs.keeps
  apply runs_bind
  refine runs_eval (fun _ _ => ?_) fun _ _ => ⟨rfl, rfl⟩
  dsimp only
  rw [hp]
  split
  · exact runs_raise ⟨rfl, rfl⟩
  · apply runs_bind
    apply (runs_clear hstart.put_pending hstart.put_pending).conseq _ fun _ _ _ h => h
    rintro _ t₁ - rfl
    have hbackup : ∀ x, Keeps p s ((s.put p.pending none).put p.backup x) := by
      intro x
      refine hstart.put_pending.put_backup ?_
      intro tree htree
      rw [Site.put_dir, if_neg p.pending_ne_dest.symm]
      exact hs tree htree
    apply runs_bind
    apply (runs_clear (hbackup _) (hbackup _)).conseq _ fun _ _ _ h => h
    rintro _ t₂ - rfl
    have hdest : ∀ x, (((s.put p.pending none).put p.backup none).put p.pending x).dir p.dest =
        s.dir p.dest := by
      intro x
      rw [Site.put_dir, if_neg p.pending_ne_dest.symm, Site.put_dir,
        if_neg p.backup_ne_dest.symm, Site.put_dir, if_neg p.pending_ne_dest.symm]
    apply runs_bind
    apply (runs_copytree (hbackup none).put_pending (hbackup none).put_pending).conseq
    · rintro _ t₃ - rfl
      refine runs_exchange hmoves hs (hbackup none).put_pending (hdest _) rfl rfl ?_
      rw [Site.put_dir, if_pos rfl]
    · rintro e t₃ - rfl
      exact ⟨hdest _, rfl⟩

end Installation

/-! ## Runs of installations -/

section Runs

variable {isalnum}
variable {known : List Module} {s t : Site Tree Report} {c : Call Tree Report}

/-- What an installation leaves alone includes the last versions of all other modules. -/
theorem Keeps.all_saved (h : Keeps (c.record.module.paths isalnum) s t)
    (hs : Sound isalnum known s c) (hsaved : Saved isalnum known s) :
    Saved isalnum (c.record.module :: known) t := by
  intro m hm tree htree
  by_cases hown : m = c.record.module
  · rw [hown] at htree ⊢
    exact h.saved tree htree
  · have hm := (List.mem_cons.1 hm).resolve_left hown
    have hapart := hs.apart m hm hown
    have hdest := hapart (m.paths isalnum).dest (by simp [Paths.all])
    have hne : (m.paths isalnum).dest ≠ (c.record.module.paths isalnum).dest := by
      intro he
      exact hdest (by simp [Paths.all, he])
    rw [h.versions _ hne] at htree
    rw [h.others _ hdest, h.others (m.paths isalnum).backup (hapart _ (by simp [Paths.all]))]
    exact hsaved m hm tree htree

theorem Sound.apart_cons (hs : Sound isalnum known s c)
    (h : ∀ m ∈ known, ∀ m' ∈ known, m.dest isalnum = m'.dest isalnum → m = m') :
    ∀ m ∈ c.record.module :: known, ∀ m' ∈ c.record.module :: known,
      m.dest isalnum = m'.dest isalnum → m = m' := by
  have hown : ∀ m ∈ known, m.dest isalnum = c.record.module.dest isalnum → m = c.record.module := by
    intro m hm hdest
    by_contra hne
    refine hs.apart m hm hne (m.paths isalnum).dest (by simp [Paths.all]) ?_
    have hsame : (m.paths isalnum).dest = (c.record.module.paths isalnum).dest := hdest
    simp [Paths.all, hsame]
  intro m hm m' hm' hdest
  rcases List.mem_cons.1 hm with rfl | hm <;> rcases List.mem_cons.1 hm' with rfl | hm'
  · rfl
  · exact (hown m' hm' hdest.symm).symm
  · exact hown m hm hdest
  · exact h m hm m' hm' hdest

theorem Reach.invariant (h : Reach isalnum (Sound isalnum) known s) :
    (∀ m ∈ known, ∀ m' ∈ known, m.dest isalnum = m'.dest isalnum → m = m') ∧
      Saved isalnum known s := by
  induction h with
  | start registry => exact ⟨nofun, nofun⟩
  | run _ hs ih =>
      have hruns := runs_install rfl hs.moves hs.current
      exact ⟨hs.apart_cons ih.1, (keeps_of_reach hs.current hruns.reach).all_saved hs ih.2⟩
  | crash _ hs hp ih =>
      have hruns := runs_install rfl hs.moves hs.current
      exact ⟨hs.apart_cons ih.1,
        (keeps_of_reach hs.current (hruns.steps.reach_point hp)).all_saved hs ih.2⟩

theorem Sound.atomic (hs : Sound isalnum known s c) : Atomic isalnum s c := by
  obtain ⟨-, hok, herr⟩ := runs_install rfl hs.moves hs.current
  refine ⟨hok, fun e he => ?_⟩
  obtain ⟨hdest, hregistry⟩ := herr e he
  exact ⟨⟨hdest, hregistry⟩, fun x hx => hs.whole x (hdest.symm.trans hx)⟩

end Runs

/-- When two modules have the same destination: their names and versions have the same characters left,
or a part of the name of one of them is, after a dash, the beginning of the version of the other. -/
def Module.Shares (isalnum : CodePoint → Bool) (m m' : Module) : Prop :=
  (safe isalnum m.name = safe isalnum m'.name ∧ safe isalnum m.version = safe isalnum m'.version) ∨
  (∃ part, safe isalnum m'.name = safe isalnum m.name ++ lit "-" ++ part ∧
    safe isalnum m.version = part ++ lit "-" ++ safe isalnum m'.version) ∨
  ∃ part, safe isalnum m.name = safe isalnum m'.name ++ lit "-" ++ part ∧
    safe isalnum m'.version = part ++ lit "-" ++ safe isalnum m.version

/-- Two texts around a dash are the same, or one of the dashes is in a part of the other text. -/
theorem dash_eq_iff {a b c d : Str} : a ++ lit "-" ++ b = c ++ lit "-" ++ d ↔
    (a = c ∧ b = d) ∨ (∃ part, c = a ++ lit "-" ++ part ∧ b = part ++ lit "-" ++ d) ∨
      ∃ part, a = c ++ lit "-" ++ part ∧ d = part ++ lit "-" ++ b := by
  have hdash : ∃ x : CodePoint, lit "-" = [x] := ⟨_, rfl⟩
  obtain ⟨x, hx⟩ := hdash
  rw [hx]
  constructor
  · intro h
    simp only [List.append_assoc, List.singleton_append] at h
    rcases List.append_eq_append_iff.1 h with ⟨e, rfl, he⟩ | ⟨e, rfl, he⟩
    · cases e with
      | nil => exact Or.inl ⟨(List.append_nil _).symm, (List.cons.inj he).2⟩
      | cons y part =>
          obtain ⟨rfl, rfl⟩ := List.cons.inj he
          exact Or.inr (Or.inl ⟨part, by simp, by simp⟩)
    · cases e with
      | nil => exact Or.inl ⟨List.append_nil _, (List.cons.inj he).2.symm⟩
      | cons y part =>
          obtain ⟨rfl, rfl⟩ := List.cons.inj he
          exact Or.inr (Or.inr ⟨part, by simp, by simp⟩)
  · rintro (⟨rfl, rfl⟩ | ⟨part, rfl, rfl⟩ | ⟨part, rfl, rfl⟩)
    · rfl
    · simp
    · simp

/-- Installation is atomic in all runs whose calls find the version that was admitted last at its
destination, can move it away, and share no path with another module; and two modules share a
destination exactly when a dash or a dropped character lets them. -/
theorem install_atomic (isalnum : CodePoint → Bool) :
    (∀ m m' : Module, m.dest isalnum = m'.dest isalnum ↔ m.Shares isalnum m') ∧
      InstallAtomic isalnum (Sound isalnum : _ → Site Tree Report → _ → Prop) := by
  refine ⟨fun m m' => dash_eq_iff, ?_⟩
  intro known s hreach
  exact ⟨hreach.invariant.1, hreach.invariant.2, fun c hs => hs.atomic⟩

/-! ## A failed move -/

/-- `str.isalnum` on ASCII. -/
def asciiAlnum (c : CodePoint) : Bool :=
  isDigit c || decide (0x41 ≤ c.val ∧ c.val ≤ 0x5A) || decide (0x61 ≤ c.val ∧ c.val ≤ 0x7A)

/-- A call for version 1 of a module. -/
def sampleCall (staged : Nat) (fault : Option Fault) : Call Nat Unit where
  staging := .ok ()
  record := ⟨⟨lit "m", lit "1"⟩, [], [], [], [], ()⟩
  staged := staged
  torn := 0
  fault := fault

/-- The site after the first version of the module. -/
def sampleSite : Site Nat Unit :=
  (install asciiAlnum (sampleCall 1 none) ⟨fun _ => none, .missing, fun _ => none⟩).state

/-- If the old version cannot be moved away, it is removed. -/
theorem failed_move_removes :
    ¬ InstallAtomic asciiAlnum fun _ (_ : Site Nat Unit) _ => True := by
  intro h
  have hatomic := (h _ _ (Reach.run (c := sampleCall 1 none) (Reach.start .missing) trivial)).2.2
    (sampleCall 2 (some .replaceOld)) trivial
  have hraises : (install asciiAlnum (sampleCall 2 (some .replaceOld)) sampleSite).result.toBool =
      false := by decide +kernel
  have hgone : (install asciiAlnum (sampleCall 2 (some .replaceOld)) sampleSite).state.dir
      ((sampleCall 2 none).record.module.dest asciiAlnum) = none := by decide +kernel
  have hthere : sampleSite.dir ((sampleCall 2 none).record.module.dest asciiAlnum) =
      some ⟨1, true⟩ := by decide +kernel
  cases hr : (install asciiAlnum (sampleCall 2 (some .replaceOld)) sampleSite).result with
  | ok path =>
      rw [hr] at hraises
      cases hraises
  | error e =>
      have hsame := (hatomic.2 e hr).1.1
      cases hgone.symm.trans (hsame.trans hthere)

end ResidualHarness.Marketplace
