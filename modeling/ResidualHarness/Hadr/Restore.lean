import ResidualHarness.Hadr.Backup
import ResidualHarness.Hadr.Failover
import ResidualHarness.Iam.Abac

/-!
# Restore drills

`residual/hadr/restore.py`: a backup is decrypted, its receipt chain verified again and its log
counted. What a snapshot holds is any JSON value, and a chain of such receipts is verified with
Python's comparisons.
-/

set_option autoImplicit false

namespace ResidualHarness.Hadr

open Python Core
open Iam (toInt)

section

variable [FloatModel]

/-! ## Restored chains -/

/-- A `ChainReceipt` with what a snapshot gives. -/
structure RestoredReceipt where
  receiptId : Json
  sequence : Int
  taskId : Json
  payload : Json
  prevHash : Json

/-- `_receipt_hash(sequence, task_id, payload, prev_hash)` of such a receipt. -/
def RestoredReceipt.hash (r : RestoredReceipt) : Except PyExn Str := do
  let text ← canonical (.obj [(lit "sequence", .int r.sequence), (lit "task_id", r.taskId),
    (lit "payload", r.payload), (lit "prev_hash", r.prevHash)])
  let data ← utf8 (chainSchema ++ lf :: text)
  return sha256 data

/-- The loop of `ReceiptChain.verify()` over such receipts. -/
def verifyRestored : Int → Json → List RestoredReceipt → Except PyExn Bool
  | _, _, [] => .ok true
  | index, prev, r :: rest =>
      if r.sequence ≠ index ∨ ¬ r.prevHash.Same prev then .ok false
      else do
        if r.receiptId.Same (.str (← r.hash)) then verifyRestored (index + 1) r.receiptId rest
        else return false

/-- The receipt of an entry; `intText` is what `int` reads from a string. -/
def readReceipt (intText : Str → Option Int) (entry : Json) : Except PyExn RestoredReceipt := do
  let receiptId ← entry.item (lit "receipt_id")
  let sequence ← toInt intText (← entry.item (lit "sequence"))
  let taskId ← entry.item (lit "task_id")
  let payload ← entry.item (lit "payload")
  let prevHash ← entry.item (lit "prev_hash")
  return ⟨receiptId, sequence, taskId, payload, prevHash⟩

/-- The objects of a loop over an object. -/
def iterated : Json → Except PyExn (List Json)
  | .arr xs => .ok xs
  | .str s => .ok (s.map fun c => .str [c])
  | .obj d => .ok (d.map fun kv => .str kv.1)
  | _ => .error .typeError

/-- `len(v)`. -/
def lengthOf : Json → Except PyExn Nat
  | .arr xs => .ok xs.length
  | .str s => .ok s.length
  | .obj d => .ok d.length
  | _ => .error .typeError

/-! ## Drills -/

/-- `RestorationReport`. -/
structure RestorationReport where
  backupId : Str
  testedAt : FloatModel.F
  restored : Bool
  chainIntact : Bool
  observationLogComplete : Bool
  componentsPresent : List Str
  ok : Bool
  notes : List Str

/-- What a drill has found of a backup. -/
structure Findings where
  restored : Bool
  chainIntact : Bool
  logComplete : Bool
  components : List Str
  notes : List Str

/-- The check of the observation log. -/
def logComplete (log : Json) : Option Int → Except PyExn Bool
  | some n => do return decide (n ≤ (← lengthOf log))
  | none =>
      match log with
      | .arr _ => .ok true
      | _ => .ok false

/-- A note, if there is something to say. -/
def noteIf (b : Bool) (text : Str) : List Str := if b then [text] else []

/-- The checks of a snapshot. Nothing here raises a `ContractError`. -/
def inspect (intText : Str → Option Int) (expected : Option Int) : Json → Except PyExn Findings
  | .obj (snapshot : Fields) => do
      let missing := requiredComponents.filter fun c => (snapshot.get? c).isNone
      let entries ← iterated ((snapshot.get? (lit "receipt_chain")).getD (.arr []))
      let chain ← mapE (readReceipt intText) entries
      let intact ← verifyRestored 0 (.str genesis) chain
      let complete ← logComplete ((snapshot.get? (lit "observation_log")).getD (.arr [])) expected
      return {
        restored := true
        chainIntact := intact
        logComplete := complete
        components := requiredComponents.filter fun c => (snapshot.get? c).isSome
        notes := noteIf (!missing.isEmpty)
              (lit "missing components: " ++ (lit ", ").intercalate missing) ++
            noteIf (!intact) (lit "receipt chain integrity check failed") ++
              noteIf (!complete) (lit "observation log incomplete") }
  -- `in` looks into lists and strings, which have no `get`
  | .arr _ => .error .attributeError
  | .str _ => .error .attributeError
  | _ => .error .typeError

/-- The findings of a drill; a `ContractError` of the decryption is noted. -/
def findings (intText : Str → Option Int) (backup : BackupRecord) (keyManager : KeyManager)
    (expected : Option Int) : Except PyExn Findings :=
  match decryptBackup backup keyManager with
  | .ok snapshot => inspect intText expected snapshot
  | .error (.userError "ContractError" msg) =>
      .ok ⟨false, false, false, [], [lit "restore failed: " ++ lit msg]⟩
  | .error x => .error x

/-- The report of some findings. -/
def Findings.report (f : Findings) (backup : BackupRecord) (testedAt : FloatModel.F) :
    RestorationReport where
  backupId := backup.backupId
  testedAt := testedAt
  restored := f.restored
  chainIntact := f.chainIntact
  observationLogComplete := f.logComplete
  componentsPresent := f.components
  ok := f.restored && f.chainIntact && f.logComplete &&
    !f.notes.any fun n => decide (lit "missing components" <+: n)
  notes := f.notes

/-- The details of the event of a drill. -/
def RestorationReport.details (r : RestorationReport) : Fields :=
  [(lit "backup_id", .str r.backupId), (lit "ok", .bool r.ok),
    (lit "chain_intact", .bool r.chainIntact),
    (lit "observation_log_complete", .bool r.observationLogComplete),
    (lit "notes", strings r.notes)]

/-- `RestoreDrill`. -/
structure RestoreDrill where
  keyManager : KeyManager
  reports : List RestorationReport
  journal : List EventReceipt

/-- `run(backup, expected_observations)`, with the readings of the clock for the report and for its
event. -/
def RestoreDrill.run (intText : Str → Option Int) (d : RestoreDrill) (backup : BackupRecord)
    (expected : Option Int) (testedAt recorded : FloatModel.F) :
    RestoreDrill × Except PyExn RestorationReport :=
  match findings intText backup d.keyManager expected with
  | .error x => (d, .error x)
  | .ok f =>
      let report := f.report backup testedAt
      let d := { d with reports := d.reports ++ [report] }
      match record d.journal .restoreTest report.details recorded with
      | .error x => (d, .error x)
      | .ok journal => ({ d with journal := journal }, .ok report)

/-! ## A chain read back -/

/-- The receipt as a snapshot gives it. -/
def ChainReceipt.restored (r : ChainReceipt) : RestoredReceipt where
  receiptId := .str r.receiptId
  sequence := r.sequence
  taskId := .str r.taskId
  payload := .str r.payload
  prevHash := .str r.prevHash

theorem same_str_iff {s t : Str} : (Json.str s).Same (.str t) ↔ s = t := by
  show Json.str s = .str t ↔ s = t
  rw [Json.str.injEq]

theorem readReceipt_dict (intText : Str → Option Int) (r : ChainReceipt) :
    readReceipt intText (Json.obj r.dict).norm = .ok r.restored := by
  have hnd : (r.dict.map Prod.fst).Nodup := by
    show ([lit "receipt_id", lit "sequence", lit "task_id", lit "payload", lit "prev_hash"] :
      List Str).Nodup
    decide
  have hitem : ∀ {key : Str} {v : Json}, (key, v) ∈ r.dict →
      (Json.obj r.dict).norm.item key = .ok v.norm := by
    intro key v hmem
    rw [Fields.obj_norm]
    apply Fields.get_of_get?
    rw [Fields.get?_norm hnd, Fields.get?_of_mem hnd hmem]
    rfl
  have hid := hitem List.mem_cons_self
  have hsequence := hitem (.tail _ List.mem_cons_self)
  have htask := hitem (.tail _ (.tail _ List.mem_cons_self))
  have hpayload := hitem (.tail _ (.tail _ (.tail _ List.mem_cons_self)))
  have hprev := hitem (.tail _ (.tail _ (.tail _ (.tail _ List.mem_cons_self))))
  exact bind_eq_ok.2 ⟨_, hid, bind_eq_ok.2 ⟨_, hsequence, bind_eq_ok.2 ⟨_, rfl,
    bind_eq_ok.2 ⟨_, htask, bind_eq_ok.2 ⟨_, hpayload, bind_eq_ok.2 ⟨_, hprev, rfl⟩⟩⟩⟩⟩⟩

/-- On the receipts of a chain both verifications agree. -/
theorem verifyRestored_map (c : ReceiptChain) (index : Nat) (prev : Str) :
    verifyRestored index (.str prev) (c.map ChainReceipt.restored) = verifyFrom index prev c := by
  induction c generalizing index prev with
  | nil => rfl
  | cons r rest ih =>
      have hhead : (r.restored.sequence ≠ (index : Int) ∨ ¬ r.restored.prevHash.Same (.str prev)) ↔
          (r.sequence ≠ index ∨ r.prevHash ≠ prev) := by
        simp only [ChainReceipt.restored, same_str_iff, ne_eq, Nat.cast_inj]
      rw [List.map_cons, verifyRestored, verifyFrom]
      simp only [hhead]
      split
      · rfl
      · rw [ChainReceipt.verify]
        have hhash : r.restored.hash = receiptHash r.sequence r.taskId r.payload r.prevHash := rfl
        rw [hhash]
        cases receiptHash r.sequence r.taskId r.payload r.prevHash with
        | error x => rfl
        | ok h =>
            have hid : r.restored.receiptId.Same (.str h) ↔ r.receiptId = h := same_str_iff
            simp only [bind, Except.bind, pure, Except.pure, hid, decide_eq_true_eq]
            rw [← ih (index + 1) r.receiptId]
            rfl

/-! ## Drills on backups -/

theorem nodup_buildSnapshot (c : Components) (now : FloatModel.F) :
    ((buildSnapshot c now).map Prod.fst).Nodup := by
  have hwf := wf_buildSnapshot c now
  rw [Json.wf, Bool.and_eq_true, decide_eq_true_eq] at hwf
  exact hwf.1

/-- What a snapshot that was read back has under a key. -/
theorem get?_buildSnapshot (c : Components) (now : FloatModel.F) {key : Str} {v : Json}
    (h : (key, v) ∈ buildSnapshot c now) : (buildSnapshot c now).norm.get? key = some v.norm := by
  have hnd := nodup_buildSnapshot c now
  rw [Fields.get?_norm hnd, Fields.get?_of_mem hnd h]
  rfl

theorem isSome_buildSnapshot (c : Components) (now : FloatModel.F) :
    ∀ key ∈ requiredComponents, ((buildSnapshot c now).norm.get? key).isSome = true := by
  intro key hkey
  have hmem : key ∈ (buildSnapshot c now).map Prod.fst := .tail _ (.tail _ hkey)
  obtain ⟨kv, hkv, rfl⟩ := List.mem_map.1 hmem
  rw [get?_buildSnapshot c now hkv]
  rfl

/-- The observation log has the expected length. -/
def LongEnough (c : Components) (expected : Option Int) : Prop :=
  ∀ n, expected = some n → n ≤ c.observationLog.length

/-- A snapshot of a chain that verifies is found to be complete. -/
theorem inspect_buildSnapshot (intText : Str → Option Int) {c : Components} {now : FloatModel.F}
    {expected : Option Int} (hchain : c.receiptChain.verify = .ok true)
    (hlog : LongEnough c expected) :
    inspect intText expected (.obj (buildSnapshot c now).norm) =
      .ok ⟨true, true, true, requiredComponents, []⟩ := by
  have hpresent := isSome_buildSnapshot c now
  have hmissing : (requiredComponents.filter fun key =>
      ((buildSnapshot c now).norm.get? key).isNone) = [] := by
    rw [List.filter_eq_nil_iff]
    intro key hkey hnone
    have hsome := hpresent key hkey
    rw [Option.isNone_iff_eq_none.1 hnone] at hsome
    cases hsome
  have hentries : (Json.arr (c.receiptChain.map fun r => .obj r.dict)).norm =
      .arr (c.receiptChain.map fun r => (Json.obj r.dict).norm) := by
    rw [Json.norm_arr, List.map_map]
    rfl
  have hverify : verifyRestored 0 (.str genesis) (c.receiptChain.map ChainReceipt.restored) =
      .ok true := (verifyRestored_map c.receiptChain 0 genesis).trans hchain
  have hcomplete : logComplete (Json.arr c.observationLog).norm expected = .ok true := by
    rw [Json.norm_arr]
    cases expected with
    | none => rfl
    | some n =>
        have hn : n ≤ ((c.observationLog.map Json.norm).length : Int) := by
          rw [List.length_map]
          exact hlog n rfl
        rw [logComplete, lengthOf]
        exact congrArg Except.ok (decide_eq_true hn)
  have hchainKey := get?_buildSnapshot c now
    (.tail _ (.tail _ List.mem_cons_self))
  have hlogKey := get?_buildSnapshot c now
    (.tail _ (.tail _ (.tail _ List.mem_cons_self)))
  dsimp only [inspect]
  rw [hchainKey, hlogKey, hmissing, List.filter_eq_self.2 hpresent, Option.getD_some,
    Option.getD_some, hentries]
  exact bind_eq_ok.2 ⟨_, rfl, bind_eq_ok.2 ⟨_, mapE_map fun r _ => readReceipt_dict intText r,
    bind_eq_ok.2 ⟨true, hverify, bind_eq_ok.2 ⟨true, hcomplete, rfl⟩⟩⟩⟩

/-- A backup that is kept has been made, whether its event could be recorded or not. -/
theorem takeBackup_backups {m : BackupManager} {c : Components} {times : BackupTimes}
    {r : BackupRecord} :
    (m.takeBackup c times).1.backups = m.backups ++ [r] ↔ makeRecord m c times = .ok r := by
  rw [BackupManager.takeBackup]
  cases hmade : makeRecord m c times with
  | error x =>
      simp
  | ok q =>
      have hiff : m.backups ++ [q] = m.backups ++ [r] ↔
          (Except.ok q : Except PyExn BackupRecord) = .ok r := by
        simp
      dsimp only
      cases record m.journal .backup q.details times.journal with
      | error x => exact hiff
      | ok journal => exact hiff

/-- What a drill does with a backup of a snapshot that is complete. -/
theorem run_taken {m : BackupManager} {c : Components} {times : BackupTimes} {r : BackupRecord}
    (hmade : makeRecord m c times = .ok r) (intText : Str → Option Int) {d : RestoreDrill}
    (hkey : d.keyManager.getKey r.keyId = m.keyManager.getKey r.keyId) {expected : Option Int}
    (hchain : c.receiptChain.verify = .ok true) (hlog : LongEnough c expected)
    (testedAt recorded : FloatModel.F) :
    ∃ report, report.ok = true ∧
      (d.run intText r expected testedAt recorded).1.reports = d.reports ++ [report] ∧
      (FloatModel.isFinite recorded = true →
        (d.run intText r expected testedAt recorded).2 = .ok report) := by
  have hfound : findings intText r d.keyManager expected =
      .ok ⟨true, true, true, requiredComponents, []⟩ := by
    rw [findings, decryptBackup_makeRecord hmade hkey]
    exact inspect_buildSnapshot intText hchain hlog
  have hid : encodable r.backupId = true := by
    rw [backupId_of_makeRecord hmade]
    exact sha256_encodable _
  let report := Findings.report ⟨true, true, true, requiredComponents, []⟩ r testedAt
  refine ⟨report, rfl, ?_⟩
  rw [RestoreDrill.run, hfound]
  dsimp only
  have hdetails : ∀ kv ∈ report.details, encodable kv.1 = true ∧ Digestible kv.2 := by
    simp only [report, RestorationReport.details, Findings.report, List.forall_mem_cons,
      encodable_lit, digestible_str, digestible_bool, digestible_strings, hid, true_and]
    exact ⟨fun _ h => (by cases h), fun _ h => by cases h⟩
  cases hrec : record d.journal .restoreTest report.details recorded with
  | ok journal => exact ⟨rfl, fun _ => rfl⟩
  | error x =>
      refine ⟨rfl, fun hfinite => ?_⟩
      obtain ⟨j, hj⟩ := (record_iff d.journal .restoreTest report.details recorded).2
        ⟨hfinite, hdetails⟩
      rw [hrec] at hj
      cases hj

/-- A ciphertext opens to its plaintext. With its tag, other parts of the same message are accepted
too, and parts of another message, which the HMAC tells apart, are not. -/
structure Bound (masterKey nonce plaintext aad : Bytes) : Prop where
  opens : decryptAead masterKey nonce (encryptAead masterKey nonce plaintext aad).1 aad
    (encryptAead masterKey nonce plaintext aad).2 = .ok plaintext
  bound : ∀ nonce' ciphertext' aad',
    let message := nonce ++ aad ++ (encryptAead masterKey nonce plaintext aad).1
    Separates masterKey message (nonce' ++ aad' ++ ciphertext') →
      decryptAead masterKey nonce' ciphertext' aad' (encryptAead masterKey nonce plaintext aad).2 =
        if nonce' ++ aad' ++ ciphertext' = message then
          .ok (keystreamXor (encKey masterKey) nonce' ciphertext')
        else .error (contractError "backup authentication failed")

/-- A backup decrypts to its snapshot, and a drill on it reports that all is well when its chain
verifies, for any key manager that still has its key. -/
structure Restored (m : BackupManager) (c : Components) (times : BackupTimes) (r : BackupRecord) :
    Prop where
  decrypts : ∀ keyManager : KeyManager, keyManager.getKey r.keyId = m.keyManager.getKey r.keyId →
    decryptBackup r keyManager = .ok (.obj (buildSnapshot c times.snapshot).norm)
  drilled : ∀ (intText : Str → Option Int) (d : RestoreDrill) (expected : Option Int),
    d.keyManager.getKey r.keyId = m.keyManager.getKey r.keyId → c.receiptChain.verify = .ok true →
      LongEnough c expected → ∀ testedAt recorded, ∃ report : RestorationReport, report.ok = true ∧
        (d.run intText r expected testedAt recorded).1.reports = d.reports ++ [report] ∧
        (FloatModel.isFinite recorded = true →
          (d.run intText r expected testedAt recorded).2 = .ok report)

/-- A tag binds the message, and every backup that is kept can be restored. -/
theorem bound_restored (masterKey nonce plaintext aad : Bytes) (m : BackupManager) (c : Components)
    (times : BackupTimes) :
    Bound masterKey nonce plaintext aad ∧ ∀ r,
      (m.takeBackup c times).1.backups = m.backups ++ [r] → Restored m c times r := by
  refine ⟨⟨decryptAead_encryptAead masterKey nonce plaintext aad, ?_⟩, fun r hr => ?_⟩
  · intro nonce' ciphertext' aad' message hmac
    exact decryptAead_tagOf hmac
  · have hmade := takeBackup_backups.1 hr
    exact ⟨fun _ hkey => decryptBackup_makeRecord hmade hkey,
      fun intText _ _ hkey hchain hlog => run_taken hmade intText hkey hchain hlog⟩

end

/-- The nonce is moved into the additional data: another triple, with the same tag. -/
theorem moved_nonce_accepted : ¬ ∀ masterKey nonce plaintext aad nonce' ciphertext' aad' : Bytes,
    let sealed := encryptAead masterKey nonce plaintext aad
    Separates masterKey (nonce ++ aad ++ sealed.1) (nonce' ++ aad' ++ ciphertext') →
      (nonce', aad', ciphertext') ≠ (nonce, aad, sealed.1) →
        ∃ x, decryptAead masterKey nonce' ciphertext' aad' sealed.2 = .error x := by
  intro h
  obtain ⟨x, hx⟩ := h [] [1] [] [] [] [] [1] (fun _ => rfl) (by decide)
  have hsame : tagOf [] [] [1] [] = (encryptAead [] [1] [] []).2 := by
    rw [encryptAead, tagOf, tagOf]
    exact congrArg (hmacSha256Digest (macKey [])) rfl
  rw [decryptAead, if_pos hsame] at hx
  cases hx

section Concrete

attribute [local instance] wholeFloats

/-- A manager of one key, with no backup yet. -/
def oneKey : BackupManager where
  keyManager := ⟨.ok (lit "k"), fun _ => .ok [1, 2, 3]⟩
  backups := []
  journal := []

/-- A chain with a receipt, and nothing else. -/
def oneReceiptChain (id : Str) : Components where
  receiptChain := [⟨id, 0, lit "t", lit "p", genesis⟩]
  observationLog := []
  stationState := []
  tenantConfigs := []
  moduleRegistry := []
  wf := by decide

/-- Noon. -/
def noonTimes : BackupTimes := ⟨some 12, some 12, some 12, some 12⟩

theorem digestible_oneReceipt {id : Str} (hid : isHash id = true) :
    Digestible (.obj (buildSnapshot (oneReceiptChain id) (some 12 : Option Nat))) := by
  have henc := encodable_of_isAscii (isAscii_of_isHash hid)
  rw [digestible_obj]
  simp only [buildSnapshot, oneReceiptChain, ChainReceipt.dict, List.map_cons, List.map_nil,
    List.forall_mem_cons, digestible_str, digestible_float, digestible_arr, digestible_obj,
    digestible_int, henc, encodable_lit, true_and]
  decide

/-- The HMACs of a ciphertext and of another one differ. -/
theorem separates_other :
    Separates [1] ([2] ++ [4] ++ (encryptAead [1] [2] [3] [4]).1) ([2] ++ [4] ++ [9]) := by
  intro h
  exact absurd h (by decide +kernel)

theorem bound_restored_oneKey :
    decryptAead [1] [2] [9] [4] (encryptAead [1] [2] [3] [4]).2 =
        .error (contractError "backup authentication failed") ∧
      decryptAead [1] [] (encryptAead [1] [2] [3] [4]).1 [2, 4] (encryptAead [1] [2] [3] [4]).2 =
        .ok (keystreamXor (encKey [1]) [] (encryptAead [1] [2] [3] [4]).1) ∧
      ∃ id r, (oneKey.takeBackup (oneReceiptChain id) noonTimes).1.backups = [r] ∧
        decryptBackup r oneKey.keyManager =
          .ok (.obj (buildSnapshot (oneReceiptChain id) noonTimes.snapshot).norm) ∧
        ∃ report : RestorationReport, report.ok = true ∧
          (RestoreDrill.run (fun _ => none) ⟨oneKey.keyManager, [], []⟩ r none (some 12)
            (some 12)).2 = .ok report := by
  obtain ⟨id, hid⟩ := receiptHash_iff.2 (show intPrintable (0 : Nat) = true ∧
    encodable (lit "t") = true ∧ encodable (lit "p") = true ∧ encodable genesis = true by decide)
  have hlinked : Linked 0 genesis (oneReceiptChain id).receiptChain := ⟨rfl, rfl, hid, trivial⟩
  obtain ⟨hdump, hstr⟩ := digestible_oneReceipt (hlinked.isHash _ List.mem_cons_self)
  have hmade : ∃ r, makeRecord oneKey (oneReceiptChain id) noonTimes = .ok r :=
    ⟨_, bind_eq_ok.2 ⟨_, canonical_of_dumpable hdump, bind_eq_ok.2 ⟨_,
      utf8_of_encodable ((encodable_render hdump).trans hstr), bind_eq_ok.2 ⟨_, rfl,
        bind_eq_ok.2 ⟨_, utf8_of_encodable (by decide), bind_eq_ok.2 ⟨_, rfl, rfl⟩⟩⟩⟩⟩⟩
  obtain ⟨r, hmade⟩ := hmade
  obtain ⟨hbound, hrestored⟩ := bound_restored [1] [2] [3] [4] oneKey (oneReceiptChain id) noonTimes
  have hr := takeBackup_backups.2 hmade
  have hbackup := hrestored r hr
  refine ⟨?_, ?_, id, r, hr, hbackup.decrypts _ rfl, ?_⟩
  · rw [hbound.bound [2] [9] [4] separates_other]
    exact if_neg (by decide +kernel)
  · rw [hbound.bound [] _ [2, 4] fun _ => rfl]
    exact if_pos rfl
  · obtain ⟨report, hok, -, hreturned⟩ := hbackup.drilled (fun _ => none)
      ⟨oneKey.keyManager, [], []⟩ none rfl (verifyFrom_of_linked hlinked)
      (fun _ h => by cases h) (some 12) (some 12)
    exact ⟨report, hok, hreturned rfl⟩

end Concrete

end ResidualHarness.Hadr
