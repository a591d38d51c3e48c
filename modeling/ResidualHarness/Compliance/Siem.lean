import ResidualHarness.Compliance.Log
import ResidualHarness.Python.JsonStyles

/-!
# SIEM forwarding

`residual/compliance/siem.py`: the CEF text of an event, the spool of undelivered messages and the
forwarder that drains it. A call goes on in atomic steps and may crash between any two of them; the
spool file is replaced atomically. A delivered record is acknowledged by its event id, which removes
every record of that id, so a message is lost when the spool holds another one under the id
(`acknowledge_loses`).
-/

set_option autoImplicit false

namespace ResidualHarness.Compliance

open Python Core

/-! ## CEF texts -/

/-- `value.replace(c, s)` for a character. -/
def replaceChar (c : CodePoint) (s value : Str) : Str :=
  value.flatMap fun d => if d = c then s else [d]

/-- The characters that are escaped. -/
def pipe : CodePoint := 0x7C

/-- `=`. -/
def equalsSign : CodePoint := 0x3D

/-- `_esc(value)`. -/
def esc (value : Str) : Str :=
  replaceChar equalsSign [backslash, equalsSign]
    (replaceChar pipe [backslash, pipe] (replaceChar backslash [backslash, backslash] value))

/-- `VERSION`. -/
def cefVersion : Str := lit "CEF:0|Residual|Station|1.0"

/-- The severity of a kind. -/
def severity (kind : Str) : Nat :=
  if kind = lit "contract_violation" then 8
  else if kind = lit "legal_hold" ∨ kind = lit "erasure" ∨ kind = lit "transfer" then 6
  else if kind = lit "sensitive_access" then 7
  else 4

/-- The CEF text of these fields. -/
def cefText (kind actor taskId region : Str) (time : Int) (chainHash : Str) : Str :=
  cefVersion ++ pipe :: (esc kind ++ pipe :: (esc kind ++ pipe :: (natRepr (severity kind) ++
    pipe :: (lit "rt=" ++ (intRepr time ++ (lit " suser=" ++ (esc actor ++ (lit " cs1=" ++
      (esc taskId ++ (lit " cs1Label=TaskId cs2=" ++ (esc region ++
        (lit " cs2Label=Region cs3=" ++ (chainHash ++ lit " cs3Label=ChainHash")))))))))))))

section Events

variable [FloatModel] [Clocks]

/-- `int(timestamp)`. -/
def intOf (f : FloatModel.F) : Except PyExn Int :=
  if FloatModel.isFinite f = true then
    .ok ((FloatModel.value f).num.tdiv (FloatModel.value f).den)
  else if Clocks.isNan f = true then .error (.valueError "cannot convert float NaN to integer")
  else .error .overflowError

/-- `CefFormatter.format(event)`. -/
def cefFormat (event : ObservationEvent) : Except PyExn Str := do
  return cefText event.kind event.actor event.taskId event.region (← intOf event.timestamp)
    event.chainHash

end Events

/-- The text of a character. -/
def escChar (c : CodePoint) : Str :=
  if c = backslash ∨ c = pipe ∨ c = equalsSign then [backslash, c] else [c]

theorem esc_eq (value : Str) : esc value = value.flatMap escChar := by
  have hchar : ∀ c, esc [c] = escChar c := by
    intro c
    unfold escChar
    by_cases h1 : c = backslash
    · subst h1
      decide
    by_cases h2 : c = pipe
    · subst h2
      decide
    by_cases h3 : c = equalsSign
    · subst h3
      decide
    simp [esc, replaceChar, h1, h2, h3]
  have happend : ∀ s t : Str, esc (s ++ t) = esc s ++ esc t := by
    intro s t
    simp [esc, replaceChar]
  induction value with
  | nil => rfl
  | cons c value ih =>
      have h := happend [c] value
      rw [List.singleton_append, hchar, ih] at h
      rw [h, List.flatMap_cons]

theorem esc_append (s t : Str) : esc (s ++ t) = esc s ++ esc t := by
  rw [esc_eq, esc_eq, esc_eq, List.flatMap_append]

/-- Characters that are written as they are. -/
def isOpen (c : CodePoint) : Bool := decide (c ≠ backslash ∧ c ≠ pipe ∧ c ≠ equalsSign)

theorem esc_of_open {s : Str} (h : s.all isOpen = true) : esc s = s := by
  rw [esc_eq]
  induction s with
  | nil => rfl
  | cons c s ih =>
      rw [List.all_cons, Bool.and_eq_true] at h
      obtain ⟨h1, h2, h3⟩ := of_decide_eq_true h.1
      rw [List.flatMap_cons, ih h.2, escChar, if_neg (by simp [h1, h2, h3])]
      rfl

/-- What is escaped ends at the first delimiter that is not. -/
theorem esc_delimited {d : CodePoint} (hd : d = pipe ∨ d = equalsSign) {s t : Str} {r r' : Str}
    (h : esc s ++ d :: r = esc t ++ d :: r') : s = t ∧ r = r' := by
  rw [esc_eq, esc_eq] at h
  have hback : d ≠ backslash := by rcases hd with rfl | rfl <;> decide
  have hspecial : escChar d = [backslash, d] := by
    rw [escChar, if_pos (Or.inr hd)]
  -- the first character of an escaped character is not the delimiter
  have hhead : ∀ c : CodePoint, ∃ e u, escChar c = e :: u ∧ e ≠ d := by
    intro c
    unfold escChar
    by_cases hc : c = backslash ∨ c = pipe ∨ c = equalsSign
    · rw [if_pos hc]
      exact ⟨_, _, rfl, hback.symm⟩
    · rw [if_neg hc]
      refine ⟨_, _, rfl, ?_⟩
      rintro rfl
      exact hc (.inr hd)
  induction s generalizing t with
  | nil =>
      cases t with
      | nil => exact ⟨rfl, (List.cons.inj h).2⟩
      | cons c t =>
          obtain ⟨e, u, hcu, hne⟩ := hhead c
          rw [List.flatMap_cons, hcu] at h
          exact absurd (List.cons.inj h).1.symm hne
  | cons c s ih =>
      cases t with
      | nil =>
          obtain ⟨e, u, hcu, hne⟩ := hhead c
          rw [List.flatMap_cons, hcu] at h
          exact absurd (List.cons.inj h).1 hne
      | cons c' t =>
          have hchar : c = c' ∧ s.flatMap escChar ++ d :: r = t.flatMap escChar ++ d :: r' := by
            rw [List.flatMap_cons, List.flatMap_cons, escChar, escChar] at h
            by_cases hc : c = backslash ∨ c = pipe ∨ c = equalsSign <;>
              by_cases hc' : c' = backslash ∨ c' = pipe ∨ c' = equalsSign
            · rw [if_pos hc, if_pos hc'] at h
              simpa using h
            · rw [if_pos hc, if_neg hc'] at h
              exact absurd (.inl (List.cons.inj h).1.symm) hc'
            · rw [if_neg hc, if_pos hc'] at h
              exact absurd (.inl (List.cons.inj h).1) hc
            · rw [if_neg hc, if_neg hc'] at h
              simpa using h
          obtain ⟨hst, hr⟩ := ih hchar.2
          exact ⟨by rw [hchar.1, hst], hr⟩

/-- The same, with text in between that needs no escape. -/
theorem esc_before {d : CodePoint} (hd : d = pipe ∨ d = equalsSign) {u : Str}
    (hu : u.all isOpen = true) {s t r r' : Str}
    (h : esc s ++ (u ++ d :: r) = esc t ++ (u ++ d :: r')) : s = t ∧ r = r' := by
  have hesc := esc_of_open hu
  rw [← List.append_assoc, ← List.append_assoc, ← hesc, ← esc_append, ← esc_append] at h
  obtain ⟨hst, hr⟩ := esc_delimited hd h
  exact ⟨List.append_cancel_right hst, hr⟩

theorem natRepr_injective {m n : Nat} (h : natRepr m = natRepr n) : m = n := by
  rw [← natOfDigits_natRepr m, h, natOfDigits_natRepr]

theorem intRepr_injective {i j : Int} (h : intRepr i = intRepr j) : i = j := by
  have hsign : ∀ n : Nat, ∀ s : Str, natRepr n ≠ 0x2D :: s := by
    intro n s hn
    have := natRepr_isDigit n 0x2D (by rw [hn]; exact List.mem_cons_self)
    revert this
    decide
  unfold intRepr at h
  split at h <;> split at h
  · have := natRepr_injective (List.cons.inj h).2
    omega
  · exact absurd h.symm (hsign _ _)
  · exact absurd h (hsign _ _)
  · have := natRepr_injective h
    omega

theorem intRepr_open (i : Int) : (intRepr i).all isOpen = true := by
  have hdigits : ∀ n, (natRepr n).all isOpen = true := by
    intro n
    rw [List.all_eq_true]
    intro c hc
    have hd : 0x30 ≤ c.val ∧ c.val ≤ 0x39 := of_decide_eq_true (natRepr_isDigit n c hc)
    refine decide_eq_true ⟨?_, ?_, ?_⟩ <;> rintro rfl <;> revert hd <;> decide
  unfold intRepr
  split
  · rw [List.all_cons, hdigits]
    rfl
  · exact hdigits _

theorem cefText_injective {k a t r h k' a' t' r' h' : Str} {i i' : Int}
    (heq : cefText k a t r i h = cefText k' a' t' r' i' h') :
    k = k' ∧ a = a' ∧ t = t' ∧ r = r' ∧ i = i' ∧ h = h' := by
  have hpipe : pipe = pipe ∨ pipe = equalsSign := .inl rfl
  have hequals : equalsSign = pipe ∨ equalsSign = equalsSign := .inr rfl
  unfold cefText at heq
  have h1 := (List.cons.inj (List.append_cancel_left heq)).2
  obtain ⟨rfl, h2⟩ := esc_delimited hpipe h1
  have h3 := List.append_cancel_left h2
  have h4 := List.append_cancel_left (List.cons.inj (List.append_cancel_left (List.cons.inj h3).2)).2
  -- the time, and the fields up to the next sign that is not escaped
  have htime : ∀ x : Str, lit " suser=" ++ x = lit " suser" ++ equalsSign :: x := fun x => rfl
  have hactor : ∀ x : Str, lit " cs1=" ++ x = lit " cs1" ++ equalsSign :: x := fun x => rfl
  have htask : ∀ x : Str, lit " cs1Label=TaskId cs2=" ++ x =
      lit " cs1Label" ++ equalsSign :: (lit "TaskId cs2=" ++ x) := fun x => rfl
  have hregion : ∀ x : Str, lit " cs2Label=Region cs3=" ++ x =
      lit " cs2Label" ++ equalsSign :: (lit "Region cs3=" ++ x) := fun x => rfl
  rw [htime, htime, ← esc_of_open (intRepr_open i), ← esc_of_open (intRepr_open i')] at h4
  obtain ⟨hi, h5⟩ := esc_before hequals (by decide) h4
  rw [hactor, hactor] at h5
  obtain ⟨ha, h6⟩ := esc_before hequals (by decide) h5
  rw [htask, htask] at h6
  obtain ⟨ht, h7⟩ := esc_before hequals (by decide) h6
  have h8 := List.append_cancel_left h7
  rw [hregion, hregion] at h8
  obtain ⟨hr, h9⟩ := esc_before hequals (by decide) h8
  exact ⟨rfl, ha, ht, hr, intRepr_injective hi,
    List.append_cancel_right (List.append_cancel_left h9)⟩

/-! ## The spool -/

/-- `json.dumps(value, sort_keys=True)`, with the strings that are read back as they were: a surrogate
pair is read back as the character it stands for. -/
def spoolStyle : JsonStyle where
  afterComma := [0x20]
  afterColon := [0x20]
  sort := true
  escape := escapeAscii
  readable := fun s => decide (joinUnits (s.flatMap asciiUnits) = s)
  afterComma_space := blank_space
  afterColon_space := blank_space
  reads := by
    intro s rest hs
    rw [parseString, scanString_ascii, Option.map_some, of_decide_eq_true hs]

/-- `SpoolRecord`. -/
structure SpoolRecord where
  eventId : Int
  message : Str
  attempts : Int
deriving DecidableEq

section Spool

variable [FloatModel]

/-- The dictionary that is written of a record. -/
def SpoolRecord.toDict (r : SpoolRecord) : Fields :=
  [(lit "event_id", .int r.eventId), (lit "message", .str r.message),
    (lit "attempts", .int r.attempts)]

/-- The line of a record. -/
def SpoolRecord.line (r : SpoolRecord) : Except PyExn Str := do
  require ((Json.obj r.toDict).dumpable = true) (.valueError "integer string conversion")
  return (Json.obj r.toDict).renderIn spoolStyle

/-- The text that `_store(records)` leaves in the file. -/
def storeText (records : List SpoolRecord) : Except PyExn Str := do
  return unlines (← mapE SpoolRecord.line records)

/-- A record from the value of its line; the file holds only what was stored. -/
def readRecord : Json → Except PyExn SpoolRecord
  | .obj d =>
      match Fields.get? d (lit "event_id"), Fields.get? d (lit "message"),
          Fields.get? d (lit "attempts") with
      | some (.int eventId), some (.str message), some (.int attempts) =>
          .ok ⟨eventId, message, attempts⟩
      | _, _, _ => .error .keyError
  | _ => .error .typeError

/-- A line of `_load()`. -/
def loadRecord (line : Str) : Except PyExn SpoolRecord :=
  match loads line with
  | some v => readRecord v
  | none => .error (.valueError "invalid JSON")

/-- `_load()`. -/
def loadText (text : Str) : Except PyExn (List SpoolRecord) :=
  mapE loadRecord ((splitLines false (universalNewlines text)).filter fun line => !isBlank line)

/-- The message of the record is read back as it was. -/
def SpoolRecord.Readable (r : SpoolRecord) : Prop := spoolStyle.readable r.message = true

theorem line_ok {r : SpoolRecord} {l : Str} (h : r.line = .ok l) :
    (Json.obj r.toDict).dumpable = true ∧ l = (Json.obj r.toDict).renderIn spoolStyle := by
  obtain ⟨_, hd, h⟩ := bind_eq_ok.1 h
  exact ⟨require_eq_ok.1 hd, (Except.ok.inj h).symm⟩

theorem toDict_keys (r : SpoolRecord) : (r.toDict.map Prod.fst).Nodup := by
  show [lit "event_id", lit "message", lit "attempts"].Nodup
  decide

theorem line_spec {r : SpoolRecord} (hr : r.Readable) {l : Str} (h : r.line = .ok l) :
    l.all isPlain = true ∧ isBlank l = false ∧ loadRecord l = .ok r := by
  obtain ⟨hd, rfl⟩ := line_ok h
  have hread : (Json.obj r.toDict).Readable spoolStyle := by
    refine ⟨?_, hd, ?_⟩
    · rw [Json.wf, Bool.and_eq_true, decide_eq_true_eq, Json.wfFields_iff]
      exact ⟨toDict_keys r, by simp [SpoolRecord.toDict, Json.wf]⟩
    · rw [Json.allStr, Json.allStrFields_iff]
      intro kv hkv
      simp only [SpoolRecord.toDict, List.mem_cons, List.not_mem_nil, or_false] at hkv
      rcases hkv with rfl | rfl | rfl
      · exact ⟨(by decide : spoolStyle.readable (lit "event_id") = true), rfl⟩
      · exact ⟨(by decide : spoolStyle.readable (lit "message") = true), hr⟩
      · exact ⟨(by decide : spoolStyle.readable (lit "attempts") = true), rfl⟩
  have hloads := loads_renderIn hread
  rw [Json.normIn, if_pos (by rfl : spoolStyle.sort = true), Fields.obj_norm] at hloads
  have hget (key : Str) := Fields.get?_norm (toDict_keys r) key
  refine ⟨all_renderIn (fun _ hc => hc) (by decide) (by decide) escapeAscii_plain hd, ?_, ?_⟩
  · rw [Json.renderIn_obj, isBlank, List.cons_append, List.all_cons]
    rfl
  · unfold loadRecord
    rw [hloads]
    simp only [readRecord, hget]
    rfl

theorem load_store {rs : List SpoolRecord} (hr : ∀ r ∈ rs, r.Readable) {text : Str}
    (h : storeText rs = .ok text) : loadText text = .ok rs := by
  obtain ⟨ls, hls, htext⟩ := bind_eq_ok.1 h
  cases Except.ok.inj htext
  have hlines : ∀ l ∈ ls, l.all isPlain = true ∧ isBlank l = false := by
    intro l hl
    obtain ⟨r, hmem, hline⟩ := of_mem_mapE hls hl
    obtain ⟨hplain, hblank, -⟩ := line_spec (hr r hmem) hline
    exact ⟨hplain, hblank⟩
  have hplain : ∀ l ∈ ls, ∀ c ∈ l, 0x20 ≤ c.val ∧ c.val < 0x7F := fun l hl c hc =>
    of_decide_eq_true (List.all_eq_true.1 (hlines l hl).1 c hc)
  have hcr : cr ∉ unlines ls := by
    intro hmem
    obtain ⟨l, hl, hmem⟩ := List.mem_flatMap.1 hmem
    rcases List.mem_append.1 hmem with hmem | hmem
    · have := hplain l hl cr hmem
      revert this
      decide
    · exact absurd (List.mem_singleton.1 hmem) (by decide)
  have hbreak : ∀ l ∈ ls, ∀ c ∈ l, isLineBreak c = false := by
    intro l hl c hc
    have := hplain l hl c hc
    rw [isLineBreak, List.contains_eq_mem, decide_eq_false_iff_not]
    simp only [List.mem_cons, List.not_mem_nil, or_false]
    omega
  have hfilter : ls.filter (fun line => !isBlank line) = ls :=
    List.filter_eq_self.2 fun l hl => by simp [(hlines l hl).2]
  rw [loadText, universalNewlines_eq_self _ hcr, splitLines_unlines ls hbreak, hfilter]
  clear hfilter hbreak hcr hplain hlines htext h
  induction rs generalizing ls with
  | nil =>
      cases hls
      rfl
  | cons r rs ih =>
      obtain ⟨l, hl, hls⟩ := bind_eq_ok.1 hls
      obtain ⟨rest, hrest, hls⟩ := bind_eq_ok.1 hls
      cases Except.ok.inj hls
      have hr' := hr r List.mem_cons_self
      exact bind_eq_ok.2 ⟨r, (line_spec hr' hl).2.2, bind_eq_ok.2
        ⟨rs, ih (fun q hq => hr q (List.mem_cons_of_mem _ hq)) rest hrest, rfl⟩⟩

/-! ## The forwarder -/

/-- Where a flush is. -/
inductive Phase where
  | start
  | sending
  | acknowledging (record : SpoolRecord)
  | retrying (record : SpoolRecord)

/-- A flush: the rounds that are left, and the records of this round that are left. -/
structure Flush where
  rounds : Nat
  pending : List SpoolRecord
  phase : Phase

/-- The spool file, the messages that were sent and those that were spooled by `forward`, and the
flush that is going on. -/
structure SiemWorld where
  file : Str
  sent : List Str
  forwarded : List Str
  active : Option Flush

/-- A new spool. -/
def SiemWorld.new : SiemWorld := ⟨[], [], [], none⟩

/-- What a call returns in a step; most steps return nothing yet. -/
abbrev Returned := Option (Except PyExn Bool)

/-- A change of the whole spool: `_store(change(_load()))`. An error leaves the file. -/
def respool (change : List SpoolRecord → List SpoolRecord) (file : Str) : Except PyExn Str := do
  storeText (change (← loadText file))

/-- `acknowledge(event_id)`. -/
def acknowledge (eventId : Int) : Str → Except PyExn Str :=
  respool fun rs => rs.filter fun r => r.eventId ≠ eventId

/-- `retry(event_id)`. -/
def retry (eventId : Int) : Str → Except PyExn Str :=
  respool fun rs => rs.map fun r =>
    if r.eventId = eventId then { r with attempts := r.attempts + 1 } else r

/-- `enqueue(record)`. -/
def enqueue (record : SpoolRecord) : Str → Except PyExn Str := respool fun rs => rs ++ [record]

/-- The spool is replaced, and the round goes on; an error ends the call. -/
def SiemWorld.replace (w : SiemWorld) (f : Flush) (file : Except PyExn Str) : SiemWorld × Returned :=
  match file with
  | .ok file => ({ w with file := file, active := some { f with phase := .sending } }, none)
  | .error e => ({ w with active := none }, some (.error e))

/-- One step of `flush`. -/
def SiemWorld.advance (w : SiemWorld) (f : Flush) (sendOk : Bool) : SiemWorld × Returned :=
  match f.phase with
  | .start =>
      match loadText w.file, f.rounds with
      | .error e, _ => ({ w with active := none }, some (.error e))
      | .ok rs, 0 => ({ w with active := none }, some (.ok rs.isEmpty))
      | .ok [], _ + 1 => ({ w with active := none }, some (.ok true))
      | .ok (r :: rs), n + 1 => ({ w with active := some ⟨n, r :: rs, .sending⟩ }, none)
  | .sending =>
      match f.pending with
      | [] => ({ w with active := some { f with phase := .start } }, none)
      | r :: rest =>
          if sendOk = true then
            ({ w with
              sent := w.sent ++ [r.message]
              active := some { f with pending := rest, phase := .acknowledging r } }, none)
          else ({ w with active := some { f with pending := rest, phase := .retrying r } }, none)
  | .acknowledging r => w.replace f (acknowledge r.eventId w.file)
  | .retrying r => w.replace f (retry r.eventId w.file)

/-- What happens next: a call begins, the call goes on, with what its transport does, or it crashes
and the spool is opened again. -/
inductive SiemAction where
  | forward (event : ObservationEvent)
  | flush (maxAttempts : Int)
  | advance (sendOk : Bool)
  | crash

variable [Clocks]

/-- The world after an action, and what a call returns in it. Calls follow one another. -/
def SiemWorld.step (w : SiemWorld) : SiemAction → SiemWorld × Returned
  | .forward event =>
      match w.active with
      | some _ => (w, none)
      | none =>
          match cefFormat event with
          | .error e => (w, some (.error e))
          | .ok message =>
              match enqueue ⟨event.id, message, 0⟩ w.file with
              | .error e => (w, some (.error e))
              | .ok file =>
                  ({ w with
                    file := file
                    forwarded := w.forwarded ++ [message]
                    active := some ⟨3, [], .start⟩ }, none)
  | .flush maxAttempts =>
      match w.active with
      | some _ => (w, none)
      | none =>
          if maxAttempts < 1 then (w, some (.error (contractError "max_attempts must be positive")))
          else ({ w with active := some ⟨maxAttempts.toNat, [], .start⟩ }, none)
  | .advance sendOk =>
      match w.active with
      | some f => w.advance f sendOk
      | none => (w, none)
  | .crash => ({ w with active := none }, none)

/-- The world after a sequence of actions. -/
def SiemWorld.run (w : SiemWorld) (actions : List SiemAction) : SiemWorld :=
  actions.foldl (fun w a => (w.step a).1) w

/-! ## At least once -/

/-- The records in the spool. -/
def Spooled (w : SiemWorld) (rs : List SpoolRecord) : Prop :=
  storeText rs = .ok w.file ∧ ∀ r ∈ rs, r.Readable

omit [Clocks] in
theorem Spooled.load {w : SiemWorld} {rs : List SpoolRecord} (h : Spooled w rs) :
    loadText w.file = .ok rs := load_store h.2 h.1

/-- The step does not take the branches that go wrong: what is forwarded is read back as it was, and
what is acknowledged shares its id with no other message of the spool. -/
def SiemWorld.Clean (w : SiemWorld) (a : SiemAction) : Prop :=
  (∀ event message, a = .forward event → w.active = none → cefFormat event = .ok message →
    spoolStyle.readable message = true) ∧
  (∀ ok f r rs, a = .advance ok → w.active = some f → f.phase = .acknowledging r →
    loadText w.file = .ok rs → ∀ q ∈ rs, q.eventId = r.eventId → q.message = r.message)

/-- The messages that a flush holds. -/
structure Flush.Holds (f : Flush) (w : SiemWorld) : Prop where
  pending : ∀ r ∈ f.pending, r.message ∈ w.forwarded
  sent : ∀ r, f.phase = .acknowledging r → r.message ∈ w.sent

/-- The invariant: every message is in the spool or was sent, and nothing else is in it, is about to
be sent or was sent. -/
structure Spooling (w : SiemWorld) (rs : List SpoolRecord) : Prop where
  spooled : Spooled w rs
  kept : ∀ m ∈ w.forwarded, (∃ r ∈ rs, r.message = m) ∨ m ∈ w.sent
  genuine : ∀ r ∈ rs, r.message ∈ w.forwarded
  sent : ∀ m ∈ w.sent, m ∈ w.forwarded
  active : ∀ f, w.active = some f → f.Holds w

omit [Clocks] in
/-- A change of the spool fails, or the changed records are in the file. -/
theorem respool_cases {w : SiemWorld} {rs : List SpoolRecord} (h : Spooled w rs)
    {change : List SpoolRecord → List SpoolRecord} (hc : ∀ r ∈ change rs, r.Readable)
    {result : Except PyExn Str} (hr : respool change w.file = result) :
    (∃ e, result = .error e) ∨ ∃ file, result = .ok file ∧ Spooled { w with file := file } (change rs) := by
  rw [respool, h.load] at hr
  cases hs : storeText (change rs) with
  | error e => exact .inl ⟨e, by rw [← hr]; exact hs⟩
  | ok file => exact .inr ⟨file, by rw [← hr]; exact hs, hs, hc⟩

omit [Clocks] in
theorem Spooling.idle {w : SiemWorld} {rs : List SpoolRecord} (h : Spooling w rs) :
    Spooling { w with active := none } rs :=
  ⟨h.spooled, h.kept, h.genuine, h.sent, nofun⟩

omit [Clocks] in
/-- A spool with other records that hold the same messages but for those that were sent. -/
theorem Spooling.replaced {w : SiemWorld} {rs rs' : List SpoolRecord} (h : Spooling w rs) {file : Str}
    (hs : Spooled { w with file := file } rs') (hkept : ∀ r ∈ rs, r.message ∉ w.sent →
      ∃ r' ∈ rs', r'.message = r.message)
    (hgenuine : ∀ r' ∈ rs', ∃ r ∈ rs, r.message = r'.message) {f : Flush}
    (hf : ∀ r ∈ f.pending, r.message ∈ w.forwarded) :
    Spooling { w with file := file, active := some { f with phase := .sending } } rs' := by
  refine ⟨hs, fun m hm => ?_, fun r' hr' => ?_, h.sent, ?_⟩
  · by_cases hsent : m ∈ w.sent
    · exact .inr hsent
    · rcases h.kept m hm with ⟨r, hr, rfl⟩ | hsent'
      · exact .inl (hkept r hr hsent)
      · exact absurd hsent' hsent
  · obtain ⟨r, hr, heq⟩ := hgenuine r' hr'
    exact heq ▸ h.genuine r hr
  · rintro g ⟨⟩
    exact ⟨hf, nofun⟩

theorem advance_kept {w : SiemWorld} {rs : List SpoolRecord} (h : Spooling w rs) {f : Flush} {ok : Bool}
    (hactive : w.active = some f) (hclean : w.Clean (.advance ok)) :
    ∃ rs', Spooling (w.advance f ok).1 rs' := by
  have hholds := h.active f hactive
  obtain ⟨rounds, pending, phase⟩ := f
  cases phase with
  | start =>
      simp only [SiemWorld.advance, h.spooled.load]
      cases rounds with
      | zero => exact ⟨rs, h.idle⟩
      | succ n =>
          cases rs with
          | nil => exact ⟨[], h.idle⟩
          | cons r rest =>
              refine ⟨_, h.spooled, h.kept, h.genuine, h.sent, ?_⟩
              rintro g ⟨⟩
              exact ⟨h.genuine, nofun⟩
  | sending =>
      cases pending with
      | nil =>
          refine ⟨rs, h.spooled, h.kept, h.genuine, h.sent, ?_⟩
          rintro g ⟨⟩
          exact ⟨nofun, nofun⟩
      | cons r rest =>
          have hrest : ∀ q ∈ rest, q.message ∈ w.forwarded := fun q hq =>
            hholds.pending q (List.mem_cons_of_mem _ hq)
          have hmem := hholds.pending r List.mem_cons_self
          cases ok with
          | true =>
              refine ⟨rs, h.spooled, fun m hm => (h.kept m hm).imp_right (List.mem_append_left _),
                h.genuine, ?_, ?_⟩
              · intro m hm
                rcases List.mem_append.1 hm with hm | hm
                · exact h.sent m hm
                · exact List.mem_singleton.1 hm ▸ hmem
              · rintro g ⟨⟩
                refine ⟨hrest, ?_⟩
                rintro q ⟨⟩
                exact List.mem_append_right _ List.mem_cons_self
          | false =>
              refine ⟨rs, h.spooled, h.kept, h.genuine, h.sent, ?_⟩
              rintro g ⟨⟩
              exact ⟨hrest, nofun⟩
  | acknowledging r =>
      have hsame := hclean.2 ok _ r rs rfl hactive rfl h.spooled.load
      simp only [SiemWorld.advance, SiemWorld.replace]
      rcases respool_cases h.spooled (fun q hq => h.spooled.2 q (List.mem_of_mem_filter hq))
        (rfl : acknowledge r.eventId w.file = _) with ⟨e, he⟩ | ⟨file, hfile, hs⟩
      · rw [he]
        exact ⟨rs, h.idle⟩
      · rw [hfile]
        refine ⟨_, h.replaced hs (fun q hq hnot => ⟨q, ?_, rfl⟩)
          (fun q hq => ⟨q, List.mem_of_mem_filter hq, rfl⟩) hholds.pending⟩
        -- a record under the id has the message that was sent
        refine List.mem_filter.2 ⟨hq, decide_eq_true fun hid => hnot ?_⟩
        rw [hsame q hq hid]
        exact hholds.sent r rfl
  | retrying r =>
      simp only [SiemWorld.advance, SiemWorld.replace]
      have hmsg : ∀ q : SpoolRecord, (if q.eventId = r.eventId then
          { q with attempts := q.attempts + 1 } else q).message = q.message := by
        intro q
        split <;> rfl
      rcases respool_cases h.spooled (fun q hq => by
          obtain ⟨p, hp, rfl⟩ := List.mem_map.1 hq
          have hp' := h.spooled.2 p hp
          rwa [SpoolRecord.Readable, hmsg])
        (rfl : retry r.eventId w.file = _) with ⟨e, he⟩ | ⟨file, hfile, hs⟩
      · rw [he]
        exact ⟨rs, h.idle⟩
      · rw [hfile]
        refine ⟨_, h.replaced hs (fun q hq _ => ⟨_, List.mem_map.2 ⟨q, hq, rfl⟩, hmsg q⟩)
          (fun q hq => ?_) hholds.pending⟩
        obtain ⟨p, hp, rfl⟩ := List.mem_map.1 hq
        exact ⟨p, hp, (hmsg p).symm⟩

theorem step_spooling {w : SiemWorld} {rs : List SpoolRecord} (h : Spooling w rs) {a : SiemAction}
    (hclean : w.Clean a) : ∃ rs', Spooling (w.step a).1 rs' := by
  cases a with
  | forward event =>
      simp only [SiemWorld.step]
      cases hactive : w.active with
      | some f => exact ⟨rs, h⟩
      | none =>
          cases hformat : cefFormat event with
          | error e => exact ⟨rs, h⟩
          | ok message =>
              simp only
              have hreadable := hclean.1 event message rfl hactive hformat
              rcases respool_cases h.spooled (fun q hq => by
                  rcases List.mem_append.1 hq with hq | hq
                  · exact h.spooled.2 q hq
                  · rw [List.mem_singleton.1 hq]
                    exact hreadable)
                (rfl : enqueue ⟨event.id, message, 0⟩ w.file = _) with ⟨e, he⟩ | ⟨file, hfile, hs⟩
              · rw [he]
                exact ⟨rs, h⟩
              · rw [hfile]
                refine ⟨_, hs, fun m hm => ?_, fun q hq => ?_, fun m hm =>
                  List.mem_append_left _ (h.sent m hm), ?_⟩
                · rcases List.mem_append.1 hm with hm | hm
                  · exact (h.kept m hm).imp_left fun ⟨r, hr, hrm⟩ =>
                      ⟨r, List.mem_append_left _ hr, hrm⟩
                  · exact .inl ⟨_, List.mem_append_right _ List.mem_cons_self,
                      (List.mem_singleton.1 hm).symm⟩
                · rcases List.mem_append.1 hq with hq | hq
                  · exact List.mem_append_left _ (h.genuine q hq)
                  · rw [List.mem_singleton.1 hq]
                    exact List.mem_append_right _ List.mem_cons_self
                · rintro g ⟨⟩
                  exact ⟨nofun, nofun⟩
  | flush maxAttempts =>
      simp only [SiemWorld.step]
      cases hactive : w.active with
      | some f => exact ⟨rs, h⟩
      | none =>
          by_cases hlt : maxAttempts < 1
          · simp only [if_pos hlt]
            exact ⟨rs, h⟩
          · simp only [if_neg hlt]
            refine ⟨rs, h.spooled, h.kept, h.genuine, h.sent, ?_⟩
            rintro g ⟨⟩
            exact ⟨nofun, nofun⟩
  | advance ok =>
      simp only [SiemWorld.step]
      cases hactive : w.active with
      | none => exact ⟨rs, h⟩
      | some f => exact advance_kept h hactive hclean
  | crash => exact ⟨rs, h.idle⟩

/-- A flush returns `True` exactly when the spool is empty. -/
theorem step_returns {w : SiemWorld} {rs : List SpoolRecord} (h : Spooling w rs) {a : SiemAction}
    {b : Bool} (hb : (w.step a).2 = some (.ok b)) :
    b = true ↔ loadText (w.step a).1.file = .ok [] := by
  have hreplace : ∀ f file, (w.replace f file).2 ≠ some (.ok b) := by
    intro f file
    cases file <;> simp [SiemWorld.replace]
  cases a with
  | forward event =>
      simp only [SiemWorld.step] at hb
      split at hb
      · cases hb
      · split at hb
        · cases hb
        · split at hb <;> cases hb
  | flush maxAttempts =>
      simp only [SiemWorld.step] at hb
      split at hb
      · cases hb
      · split at hb <;> cases hb
  | crash => cases hb
  | advance ok =>
      simp only [SiemWorld.step] at hb ⊢
      cases hactive : w.active with
      | none =>
          rw [hactive] at hb
          cases hb
      | some f =>
          rw [hactive] at hb
          simp only at hb ⊢
          obtain ⟨rounds, pending, phase⟩ := f
          cases phase with
          | start =>
              simp only [SiemWorld.advance, h.spooled.load] at hb ⊢
              cases rounds with
              | zero =>
                  cases hb
                  rw [List.isEmpty_iff, h.spooled.load]
                  exact ⟨fun he => by rw [he], fun he => Except.ok.inj he⟩
              | succ n =>
                  cases rs with
                  | nil =>
                      cases hb
                      simp only [h.spooled.load]
                  | cons r rest => cases hb
          | sending =>
              cases pending with
              | nil => cases hb
              | cons r rest => cases ok <;> cases hb
          | acknowledging r => exact absurd hb (hreplace _ _)
          | retrying r => exact absurd hb (hreplace _ _)

theorem run_append (w : SiemWorld) (as bs : List SiemAction) :
    w.run (as ++ bs) = (w.run as).run bs := List.foldl_append

/-- Every step of the run is clean. -/
def CleanRun (actions : List SiemAction) : Prop :=
  ∀ before a after, actions = before ++ a :: after → (SiemWorld.new.run before).Clean a

theorem run_kept {actions : List SiemAction} (h : CleanRun actions) :
    ∃ rs, Spooling (SiemWorld.new.run actions) rs := by
  induction actions using List.reverseRecOn with
  | nil => exact ⟨[], ⟨rfl, nofun⟩, nofun, nofun, nofun, nofun⟩
  | append_singleton actions a ih =>
      obtain ⟨rs, hkept⟩ := ih fun before b after hb => h before b (after ++ [a]) (by simp [hb])
      rw [run_append]
      exact step_spooling hkept (h actions a [] rfl)

/-- What forwarding promises after a sequence of actions. -/
structure Forwarding (actions : List SiemAction) : Prop where
  kept : ∀ m ∈ (SiemWorld.new.run actions).forwarded,
    (∃ rs, loadText (SiemWorld.new.run actions).file = .ok rs ∧ ∃ r ∈ rs, r.message = m) ∨
      m ∈ (SiemWorld.new.run actions).sent
  genuine : ∀ m ∈ (SiemWorld.new.run actions).sent, m ∈ (SiemWorld.new.run actions).forwarded
  flushed : ∀ a b, ((SiemWorld.new.run actions).step a).2 = some (.ok b) →
    (b = true ↔ loadText ((SiemWorld.new.run actions).step a).1.file = .ok [])
  injective : ∀ (e e' : ObservationEvent) text, cefFormat e = .ok text → cefFormat e' = .ok text →
    e.kind = e'.kind ∧ e.actor = e'.actor ∧ e.taskId = e'.taskId ∧ e.region = e'.region ∧
      intOf e.timestamp = intOf e'.timestamp ∧ e.chainHash = e'.chainHash

theorem cefFormat_injective {e e' : ObservationEvent} {text : Str} (h : cefFormat e = .ok text)
    (h' : cefFormat e' = .ok text) :
    e.kind = e'.kind ∧ e.actor = e'.actor ∧ e.taskId = e'.taskId ∧ e.region = e'.region ∧
      intOf e.timestamp = intOf e'.timestamp ∧ e.chainHash = e'.chainHash := by
  obtain ⟨i, hi, h⟩ := bind_eq_ok.1 h
  obtain ⟨i', hi', h'⟩ := bind_eq_ok.1 h'
  obtain ⟨hk, ha, ht, hr, hii, hc⟩ := cefText_injective (Except.ok.inj (h.trans h'.symm))
  exact ⟨hk, ha, ht, hr, by rw [hi, hi', hii], hc⟩

theorem at_least_once (actions : List SiemAction) (h : CleanRun actions) : Forwarding actions := by
  obtain ⟨rs, hkept⟩ := run_kept h
  refine ⟨fun m hm => ?_, hkept.sent, fun _ _ hb => step_returns hkept hb,
    fun _ _ _ he he' => cefFormat_injective he he'⟩
  exact (hkept.kept m hm).imp_left fun hr => ⟨rs, hkept.spooled.load, hr⟩

end Spool

section Concrete

attribute [local instance] wholeFloats wholeClocks

/-- An event of the actor. -/
def eventOf (actor : String) : ObservationEvent :=
  ⟨1, lit "erasure", some 0, lit actor, lit "t", lit "operational", lit "r", [], [], []⟩

/-- The event is forwarded, and the forwarder crashes at once. -/
theorem at_least_once_crash : Forwarding [.forward (eventOf "a"), .crash] := by
  refine at_least_once _ ?_
  intro before a after h
  rcases before with _ | ⟨b, _ | ⟨b', before⟩⟩
  · obtain ⟨rfl, -⟩ := List.cons.inj h
    refine ⟨?_, nofun⟩
    rintro event message ⟨⟩ - hm
    cases hm
    decide
  · obtain ⟨-, h⟩ := List.cons.inj h
    obtain ⟨rfl, -⟩ := List.cons.inj h
    exact ⟨nofun, nofun⟩
  · simp at h

/-- Two events under one id are spooled; the first message is sent and acknowledged. -/
def collision : List SiemAction :=
  [.forward (eventOf "a"), .crash, .forward (eventOf "b"), .advance true, .advance true, .advance true]

/-- The acknowledgement of the first message loses the second. -/
theorem acknowledge_loses : ¬ Forwarding collision := by
  have hrun : (SiemWorld.new.run collision).file = [] ∧
      (SiemWorld.new.run collision).sent.length < 2 ∧
      (SiemWorld.new.run collision).forwarded.Nodup ∧
      2 ≤ (SiemWorld.new.run collision).forwarded.length := by decide +kernel
  obtain ⟨hfile, hsent, hnodup, hforwarded⟩ := hrun
  intro h
  -- nothing is in the spool, and fewer messages were sent than forwarded
  have hsub : (SiemWorld.new.run collision).forwarded ⊆ (SiemWorld.new.run collision).sent := by
    intro m hm
    rcases h.kept m hm with ⟨rs, hload, r, hr, -⟩ | hsent
    · rw [hfile] at hload
      cases Except.ok.inj hload
      cases hr
    · exact hsent
  have := (hnodup.subperm hsub).length_le
  omega

end Concrete

end ResidualHarness.Compliance
