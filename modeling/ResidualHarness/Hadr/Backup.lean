import ResidualHarness.Hadr.Events
import ResidualHarness.Hadr.Replication
import ResidualHarness.Python.Decode
import ResidualHarness.Python.Hmac
import ResidualHarness.Python.KeyStream

/-!
# Encrypted backups

`residual/hadr/backup.py`: encryption from a stream of hashes, then a MAC over nonce, additional
data and ciphertext one after the other; snapshots of the station, and their backups. Where the
three parts are cut is not under the tag (`decryptAead_tagOf`). Every backup that is kept decrypts
to the snapshot it was taken of (`decryptBackup_makeRecord`).
-/

set_option autoImplicit false

namespace ResidualHarness.Hadr

open Python Core

/-! ## Authenticated encryption -/

/-- `text.encode("utf-8")` of a literal. -/
def encoded (text : String) : Bytes := (lit text).flatMap utf8Char

/-- `_kdf(master, label)`. -/
def kdf (master label : Bytes) : Bytes := hmacSha256Digest master label

/-- The key of the stream. -/
def encKey (masterKey : Bytes) : Bytes := kdf masterKey (encoded "residual.hadr.enc")

/-- The key of the MAC. -/
def macKey (masterKey : Bytes) : Bytes := kdf masterKey (encoded "residual.hadr.mac")

/-- The block of the key stream with a number. No `bytes` object is so long that a number does not
fit in the eight bytes. -/
def streamBlock (key nonce : Bytes) (counter : Nat) : Bytes :=
  sha256Digest (key ++ nonce ++ Sha256.bytesOfNat 8 counter)

/-- `_keystream_xor(key, nonce, data)`. -/
def keystreamXor (key nonce data : Bytes) : Bytes :=
  xorStream (streamBlock key nonce) data.length 0 data

/-- The MAC of a nonce, additional data and a ciphertext. -/
def tagOf (masterKey nonce aad ciphertext : Bytes) : Bytes :=
  hmacSha256Digest (macKey masterKey) (nonce ++ aad ++ ciphertext)

/-- `encrypt_aead(master_key, nonce, plaintext, aad)`. -/
def encryptAead (masterKey nonce plaintext aad : Bytes) : Bytes × Bytes :=
  let ciphertext := keystreamXor (encKey masterKey) nonce plaintext
  (ciphertext, tagOf masterKey nonce aad ciphertext)

/-- `decrypt_aead(master_key, nonce, ciphertext, aad, tag)`. -/
def decryptAead (masterKey nonce ciphertext aad tag : Bytes) : Except PyExn Bytes :=
  if tagOf masterKey nonce aad ciphertext = tag then
    .ok (keystreamXor (encKey masterKey) nonce ciphertext)
  else .error (contractError "backup authentication failed")

theorem streamBlock_ne_nil (key nonce : Bytes) (counter : Nat) :
    streamBlock key nonce counter ≠ [] := by
  rw [streamBlock, sha256Digest, Sha256.digestWords, List.flatMap_cons]
  exact List.append_ne_nil_of_left_ne_nil (by simp [Sha256.bytesOfNat]) _

/-- The stream twice gives the data back, with a partial last block or without. -/
theorem keystreamXor_keystreamXor (key nonce data : Bytes) :
    keystreamXor key nonce (keystreamXor key nonce data) = data := by
  have hblock := streamBlock_ne_nil key nonce
  rw [keystreamXor, keystreamXor, length_xorStream hblock 0 (le_refl _),
    xorStream_xorStream hblock 0 (le_refl _)]

theorem decryptAead_encryptAead (masterKey nonce plaintext aad : Bytes) :
    decryptAead masterKey nonce (encryptAead masterKey nonce plaintext aad).1 aad
      (encryptAead masterKey nonce plaintext aad).2 = .ok plaintext := by
  rw [decryptAead, encryptAead, if_pos rfl, keystreamXor_keystreamXor]

/-- The HMAC under the key of a MAC tells two messages apart. -/
def Separates (masterKey message message' : Bytes) : Prop :=
  hmacSha256Digest (macKey masterKey) message' = hmacSha256Digest (macKey masterKey) message →
    message' = message

/-- A tag is accepted with the parts of its message, wherever they are cut, and with no others that
the HMAC tells apart. -/
theorem decryptAead_tagOf {masterKey nonce aad ciphertext nonce' aad' ciphertext' : Bytes}
    (hmac : Separates masterKey (nonce ++ aad ++ ciphertext) (nonce' ++ aad' ++ ciphertext')) :
    decryptAead masterKey nonce' ciphertext' aad' (tagOf masterKey nonce aad ciphertext) =
      if nonce' ++ aad' ++ ciphertext' = nonce ++ aad ++ ciphertext then
        .ok (keystreamXor (encKey masterKey) nonce' ciphertext')
      else .error (contractError "backup authentication failed") := by
  rw [decryptAead]
  have hiff : tagOf masterKey nonce' aad' ciphertext' = tagOf masterKey nonce aad ciphertext ↔
      nonce' ++ aad' ++ ciphertext' = nonce ++ aad ++ ciphertext :=
    ⟨hmac, fun h => by rw [tagOf, tagOf, h]⟩
  simp only [hiff]

/-! ## Keys -/

/-- `KeyManager`: what its two methods return. -/
structure KeyManager where
  currentKeyId : Except PyExn Str
  getKey : Str → Except PyExn Bytes

/-- `LocalKeyManager`. -/
structure LocalKeyManager where
  seed : Bytes
  keys : Dict Str Bytes

/-- `digest.hex()`. -/
def hexOf (digest : Bytes) : Str := digest.flatMap fun b => [hexChar (b / 16), hexChar (b % 16)]

/-- The key of an id. -/
def LocalKeyManager.material (m : LocalKeyManager) (keyId : Str) : Bytes :=
  hmacSha256Digest m.seed (encoded "key-material-" ++ keyId.flatMap utf8Char)

/-- The id of the next key. -/
def LocalKeyManager.nextKeyId (m : LocalKeyManager) : Str :=
  (hexOf (hmacSha256Digest m.seed
    (encoded "key-id-" ++ (natRepr m.keys.length).flatMap utf8Char))).take 16

/-- `rotate()`. -/
def LocalKeyManager.rotate (m : LocalKeyManager) : LocalKeyManager :=
  { m with keys := m.keys.set m.nextKeyId (m.material m.nextKeyId) }

/-- `LocalKeyManager(seed, keys)`. -/
def LocalKeyManager.make (seed : Bytes) (keys : Dict Str Bytes) : LocalKeyManager :=
  if keys = [] then LocalKeyManager.rotate ⟨seed, []⟩ else ⟨seed, keys⟩

/-- The methods of a local key manager. -/
def LocalKeyManager.manager (m : LocalKeyManager) : KeyManager where
  currentKeyId :=
    match m.keys.keys.getLast? with
    | some id => .ok id
    | none => .error (.runtimeError "IndexError" "list index out of range")
  getKey keyId :=
    match m.keys.get? keyId with
    | some key => .ok key
    | none => .error (contractError "unknown backup key")

/-- Every key is the one of its id. -/
def LocalKeyManager.Derived (m : LocalKeyManager) : Prop :=
  ∀ id key, m.keys.get? id = some key → key = m.material id

theorem LocalKeyManager.Derived.rotate {m : LocalKeyManager} (h : m.Derived) :
    m.rotate.Derived := by
  intro id key hkey
  rw [LocalKeyManager.rotate, Dict.get?_set] at hkey
  split at hkey
  · rename_i hid
    cases hkey
    rw [hid]
    rfl
  · exact h id key hkey

theorem LocalKeyManager.getKey_iff {m : LocalKeyManager} {id : Str} {key : Bytes} :
    m.manager.getKey id = .ok key ↔ m.keys.get? id = some key := by
  simp only [LocalKeyManager.manager]
  cases m.keys.get? id with
  | none => exact ⟨fun h => (by cases h), fun h => by cases h⟩
  | some k => rw [Except.ok.injEq, Option.some.injEq]

/-- A rotation loses no key, not even one whose id comes again. -/
theorem LocalKeyManager.Derived.getKey_rotate {m : LocalKeyManager} (h : m.Derived) {id : Str}
    {key : Bytes} (hkey : m.manager.getKey id = .ok key) :
    m.rotate.manager.getKey id = .ok key := by
  rw [LocalKeyManager.getKey_iff] at hkey ⊢
  rw [LocalKeyManager.rotate, Dict.get?_set]
  split
  · rename_i hid
    rw [h id key hkey, hid]
  · exact hkey

/-- A new key manager after a number of rotations. -/
def LocalKeyManager.rotated (seed : Bytes) (n : Nat) : LocalKeyManager :=
  LocalKeyManager.rotate^[n] (LocalKeyManager.make seed [])

theorem LocalKeyManager.derived_rotated (seed : Bytes) (n : Nat) :
    (LocalKeyManager.rotated seed n).Derived := by
  induction n with
  | zero =>
      have hempty : (⟨seed, []⟩ : LocalKeyManager).Derived := nofun
      exact hempty.rotate
  | succ n ih =>
      rw [LocalKeyManager.rotated, Function.iterate_succ_apply']
      exact ih.rotate

theorem LocalKeyManager.getKey_rotated {seed : Bytes} {i : Nat} (j : Nat) {id : Str} {key : Bytes}
    (hkey : (LocalKeyManager.rotated seed i).manager.getKey id = .ok key) :
    (LocalKeyManager.rotated seed (i + j)).manager.getKey id = .ok key := by
  induction j with
  | zero => exact hkey
  | succ j ih =>
      rw [← Nat.add_assoc, LocalKeyManager.rotated, Function.iterate_succ_apply']
      exact (LocalKeyManager.derived_rotated seed (i + j)).getKey_rotate ih

/-! ## Backups -/

section Backups

variable [FloatModel]

/-- `BACKUP_SCHEMA`. -/
def backupSchema : String := "residual.hadr.backup.v1"

/-- `REQUIRED_COMPONENTS`. -/
def requiredComponents : List Str :=
  [lit "receipt_chain", lit "observation_log", lit "station_state", lit "tenant_configs",
    lit "module_registry"]

/-- What a backup is taken of. A dictionary has distinct keys. -/
structure Components where
  receiptChain : ReceiptChain
  observationLog : List Json
  stationState : Fields
  tenantConfigs : Fields
  moduleRegistry : Fields
  wf : ∀ v ∈ [Json.arr observationLog, .obj stationState, .obj tenantConfigs, .obj moduleRegistry],
    v.wf = true

/-- A receipt in a snapshot. -/
def ChainReceipt.dict (r : ChainReceipt) : Fields :=
  [(lit "receipt_id", .str r.receiptId), (lit "sequence", .int r.sequence),
    (lit "task_id", .str r.taskId), (lit "payload", .str r.payload),
    (lit "prev_hash", .str r.prevHash)]

/-- `build_snapshot(...)` at a time. -/
def buildSnapshot (c : Components) (now : FloatModel.F) : Fields :=
  [(lit "schema", .str (lit backupSchema)), (lit "created_at", .float now),
    (lit "receipt_chain", .arr (c.receiptChain.map fun r => .obj r.dict)),
    (lit "observation_log", .arr c.observationLog), (lit "station_state", .obj c.stationState),
    (lit "tenant_configs", .obj c.tenantConfigs), (lit "module_registry", .obj c.moduleRegistry)]

/-- `BackupRecord`. -/
structure BackupRecord where
  backupId : Str
  createdAt : FloatModel.F
  keyId : Str
  nonce : Bytes
  ciphertext : Bytes
  tag : Bytes
  components : List Str
  plaintextHash : Str

/-- `BackupManager`. -/
structure BackupManager where
  keyManager : KeyManager
  backups : List BackupRecord
  journal : List EventReceipt

/-- The readings of the clock in `take_backup`, in order. -/
structure BackupTimes where
  snapshot : FloatModel.F
  nonce : FloatModel.F
  created : FloatModel.F
  journal : FloatModel.F

/-- The record of `take_backup`. -/
def makeRecord (m : BackupManager) (c : Components) (times : BackupTimes) :
    Except PyExn BackupRecord := do
  let text ← canonical (.obj (buildSnapshot c times.snapshot))
  let plaintext ← utf8 text
  let keyId ← m.keyManager.currentKeyId
  let seed ← utf8 (lit "nonce:" ++ natRepr m.backups.length ++ lit ":" ++
    FloatModel.repr times.nonce)
  let nonce := (sha256Digest seed).take 16
  let key ← m.keyManager.getKey keyId
  let (ciphertext, tag) := encryptAead key nonce plaintext (encoded backupSchema)
  return {
    backupId := sha256 (nonce ++ ciphertext)
    createdAt := times.created
    keyId := keyId
    nonce := nonce
    ciphertext := ciphertext
    tag := tag
    components := requiredComponents
    plaintextHash := sha256 plaintext }

/-- The details of the event of a backup. -/
def BackupRecord.details (r : BackupRecord) : Fields :=
  [(lit "backup_id", .str r.backupId), (lit "created_at", .float r.createdAt),
    (lit "key_id", .str r.keyId), (lit "components", strings r.components)]

/-- `take_backup(...)`. -/
def BackupManager.takeBackup (m : BackupManager) (c : Components) (times : BackupTimes) :
    BackupManager × Except PyExn BackupRecord :=
  match makeRecord m c times with
  | .error x => (m, .error x)
  | .ok r =>
      let m := { m with backups := m.backups ++ [r] }
      match record m.journal .backup r.details times.journal with
      | .error x => (m, .error x)
      | .ok journal => ({ m with journal := journal }, .ok r)

/-- `decrypt_backup(record, key_manager)`. The plaintext is a canonical text. -/
def decryptBackup (r : BackupRecord) (keyManager : KeyManager) : Except PyExn Json := do
  let key ← keyManager.getKey r.keyId
  let plaintext ← decryptAead key r.nonce r.ciphertext (encoded backupSchema) r.tag
  match utf8Decode plaintext with
  | none => throw (.valueError "invalid utf-8")
  | some text =>
      match loads text with
      | none => throw (.valueError "invalid JSON")
      | some snapshot =>
          if sha256 plaintext = r.plaintextHash then return snapshot
          else throw (contractError "backup plaintext hash mismatch")

theorem wf_buildSnapshot (c : Components) (now : FloatModel.F) :
    (Json.obj (buildSnapshot c now)).wf = true := by
  have hreceipts : (Json.arr (c.receiptChain.map fun r => .obj r.dict)).wf = true := by
    rw [Json.wf, Json.wfElems_iff]
    intro v hv
    obtain ⟨r, -, rfl⟩ := List.mem_map.1 hv
    rfl
  have hparts := c.wf
  simp only [List.forall_mem_cons] at hparts
  obtain ⟨hlog, hstation, htenants, hmodules, -⟩ := hparts
  rw [Json.wf, Bool.and_eq_true, decide_eq_true_eq, Json.wfFields_iff]
  constructor
  · show ([lit "schema", lit "created_at", lit "receipt_chain", lit "observation_log",
      lit "station_state", lit "tenant_configs", lit "module_registry"] : List Str).Nodup
    decide
  · simp only [buildSnapshot, List.forall_mem_cons]
    exact ⟨rfl, rfl, hreceipts, hlog, hstation, htenants, hmodules, nofun⟩

/-- With the key it was made with, a record decrypts to its snapshot, the keys sorted. -/
theorem decryptBackup_makeRecord {m : BackupManager} {c : Components} {times : BackupTimes}
    {r : BackupRecord} (h : makeRecord m c times = .ok r) {keyManager : KeyManager}
    (hkey : keyManager.getKey r.keyId = m.keyManager.getKey r.keyId) :
    decryptBackup r keyManager = .ok (.obj (buildSnapshot c times.snapshot).norm) := by
  obtain ⟨text, htext, h⟩ := bind_eq_ok.1 h
  obtain ⟨plaintext, hplain, h⟩ := bind_eq_ok.1 h
  obtain ⟨keyId, -, h⟩ := bind_eq_ok.1 h
  obtain ⟨seed, -, h⟩ := bind_eq_ok.1 h
  obtain ⟨key, hgiven, h⟩ := bind_eq_ok.1 h
  cases h
  obtain ⟨hdump, rfl⟩ := dumpable_of_canonical htext
  refine bind_eq_ok.2 ⟨key, hkey.trans hgiven, bind_eq_ok.2 ⟨plaintext,
    decryptAead_encryptAead key _ plaintext _, ?_⟩⟩
  rw [utf8Decode_of_utf8 hplain]
  dsimp only
  rw [loads_render (wf_buildSnapshot c _) hdump]
  dsimp only
  rw [if_pos rfl, Fields.obj_norm]
  rfl

/-- Rotations lose no key: a backup that was made after some of them is restored, the keys of its
snapshot sorted, after any further ones. -/
theorem rotated_restores (seed : Bytes) (i j : Nat) :
    (∀ id key, (LocalKeyManager.rotated seed i).manager.getKey id = .ok key →
      (LocalKeyManager.rotated seed (i + j)).manager.getKey id = .ok key) ∧
    ∀ (m : BackupManager) (c : Components) (times : BackupTimes) (r : BackupRecord),
      m.keyManager = (LocalKeyManager.rotated seed i).manager → makeRecord m c times = .ok r →
        decryptBackup r (LocalKeyManager.rotated seed (i + j)).manager =
          .ok (.obj (buildSnapshot c times.snapshot).norm) := by
  refine ⟨fun id key => LocalKeyManager.getKey_rotated j, fun m c times r hm h => ?_⟩
  have hgiven : ∃ key, m.keyManager.getKey r.keyId = .ok key := by
    obtain ⟨text, -, h⟩ := bind_eq_ok.1 h
    obtain ⟨plaintext, -, h⟩ := bind_eq_ok.1 h
    obtain ⟨keyId, -, h⟩ := bind_eq_ok.1 h
    obtain ⟨nonce, -, h⟩ := bind_eq_ok.1 h
    obtain ⟨key, hkey, h⟩ := bind_eq_ok.1 h
    cases h
    exact ⟨key, hkey⟩
  obtain ⟨key, hkey⟩ := hgiven
  refine decryptBackup_makeRecord h ?_
  rw [hkey]
  rw [hm] at hkey
  exact LocalKeyManager.getKey_rotated j hkey

theorem backupId_of_makeRecord {m : BackupManager} {c : Components} {times : BackupTimes}
    {r : BackupRecord} (h : makeRecord m c times = .ok r) :
    r.backupId = sha256 (r.nonce ++ r.ciphertext) := by
  obtain ⟨text, -, h⟩ := bind_eq_ok.1 h
  obtain ⟨plaintext, -, h⟩ := bind_eq_ok.1 h
  obtain ⟨keyId, -, h⟩ := bind_eq_ok.1 h
  obtain ⟨seed, -, h⟩ := bind_eq_ok.1 h
  obtain ⟨key, -, h⟩ := bind_eq_ok.1 h
  cases h
  rfl

end Backups

end ResidualHarness.Hadr
