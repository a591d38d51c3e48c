import ResidualHarness.Hadr.Events
import ResidualHarness.Python.WholeFloats

/-!
# Takeovers

`StationRegistry.tick` of `residual/hadr/cluster.py`. The stations are looked at in the order of their
ids, and a successor is chosen among the stations that are active at that moment: one that has timed
out as well, and whose turn comes later, is among them. A tick is sound exactly when no such station
is chosen and the journal takes every takeover but the last (`soundTick_iff`).
-/

set_option autoImplicit false

namespace ResidualHarness.Hadr

open Python Core

section

variable [FloatModel]

/-! ## Stations -/

/-- `Station`, as its constructor leaves it. -/
structure Station where
  stationId : Str
  region : Str
  workers : List Str
  alive : Bool
  active : Bool
  lastHeartbeat : FloatModel.F
  named : isBlank stationId = false
  regional : isBlank region = false
  staffed : workers ≠ []
  workersNamed : ∀ w ∈ workers, isBlank w = false

/-- `fail()`. -/
def Station.fail (s : Station) : Station := { s with alive := false, active := false }

/-- The stations with these ids have failed. -/
def failAll (ids : List Str) (stations : List Station) : List Station :=
  stations.map fun s => if s.stationId ∈ ids then s.fail else s

/-- `sorted(stations, key=lambda s: s.station_id)`. -/
def byId (stations : List Station) : List Station :=
  stations.insertionSort fun s t => s.stationId ≤ t.stationId

/-- `_successor_for(failed)`; the pool is empty only when there are no candidates. -/
def successorFor (stations : List Station) (failed : Station) : Except PyExn Station :=
  let candidates := stations.filter fun s => s.active && decide (s.stationId ≠ failed.stationId)
  let sameRegion := candidates.filter fun s => decide (s.region = failed.region)
  let pool := if sameRegion.isEmpty then candidates else sameRegion
  match byId pool with
  | [] => .error (contractError "no active station available for takeover")
  | s :: _ => .ok s

theorem byId_perm (stations : List Station) : (byId stations).Perm stations :=
  List.perm_insertionSort _ stations

theorem failAll_ids (ids : List Str) (stations : List Station) :
    (failAll ids stations).map Station.stationId = stations.map Station.stationId := by
  rw [failAll, List.map_map]
  refine List.map_congr_left fun s _ => ?_
  rw [Function.comp_apply]
  split <;> rfl

theorem mem_failAll {ids : List Str} {stations : List Station} {s : Station} :
    s ∈ failAll ids stations ↔
      (s ∈ stations ∧ s.stationId ∉ ids) ∨ ∃ u ∈ stations, u.stationId ∈ ids ∧ s = u.fail := by
  rw [failAll, List.mem_map]
  constructor
  · rintro ⟨u, hu, rfl⟩
    by_cases h : u.stationId ∈ ids
    · exact .inr ⟨u, hu, h, if_pos h⟩
    · rw [if_neg h]
      exact .inl ⟨hu, h⟩
  · rintro (⟨hs, h⟩ | ⟨u, hu, h, rfl⟩)
    · exact ⟨s, hs, if_neg h⟩
    · exact ⟨u, hu, if_pos h⟩

theorem failAll_cons (id : Str) (ids : List Str) (stations : List Station) :
    failAll ids (failAll [id] stations) = failAll (id :: ids) stations := by
  rw [failAll, failAll, failAll, List.map_map]
  refine List.map_congr_left fun s _ => ?_
  by_cases hid : s.stationId = id <;> by_cases hids : s.stationId ∈ ids <;>
    simp [hid, hids, Station.fail]

theorem failAll_nil (stations : List Station) : failAll [] stations = stations := by
  simp [failAll]

theorem successorFor_ok {stations : List Station} {failed t : Station}
    (h : successorFor stations failed = .ok t) :
    t ∈ stations ∧ t.active = true ∧ t.stationId ≠ failed.stationId := by
  rw [successorFor] at h
  split at h
  · cases h
  · rename_i hpool
    cases h
    have hmem := (byId_perm _).mem_iff.1 (hpool ▸ List.mem_cons_self)
    have hcandidate : t ∈ stations.filter fun s =>
        s.active && decide (s.stationId ≠ failed.stationId) := by
      split at hmem
      · exact hmem
      · exact List.mem_of_mem_filter hmem
    simpa using List.mem_filter.1 hcandidate

theorem successorFor_error {stations : List Station} {failed : Station} {x : PyExn}
    (h : successorFor stations failed = .error x) :
    ∀ s ∈ stations, s.active = true → s.stationId = failed.stationId := by
  rw [successorFor] at h
  split at h
  · rename_i hpool
    intro s hs hactive
    by_contra hne
    have hcandidate : s ∈ stations.filter fun s =>
        s.active && decide (s.stationId ≠ failed.stationId) :=
      List.mem_filter.2 ⟨hs, by simp [hactive, hne]⟩
    have hnil := ((byId_perm _).symm.trans (List.Perm.of_eq hpool)).eq_nil
    split at hnil
    · rw [hnil] at hcandidate
      cases hcandidate
    · rename_i hsome
      exact hsome (List.isEmpty_iff.2 hnil)
  · cases h

/-! ## The registry -/

/-- `Takeover`. -/
structure Takeover where
  failedStation : Str
  successorStation : Str
  detectedAt : FloatModel.F
  completedAt : FloatModel.F
deriving DecidableEq

/-- `StationRegistry`: its stations in the order of registration, each under its own id. -/
structure StationRegistry where
  heartbeatTimeout : FloatModel.F
  stations : List Station
  takeovers : List Takeover
  journal : List EventReceipt
  distinct : (stations.map Station.stationId).Nodup

/-- The station with this id fails. -/
def StationRegistry.failStation (r : StationRegistry) (id : Str) : StationRegistry :=
  { r with
    stations := failAll [id] r.stations
    distinct := by
      rw [failAll_ids]
      exact r.distinct }

/-- The registry after a takeover. -/
def StationRegistry.tookOver (r : StationRegistry) (t : Takeover) (journal : List EventReceipt) :
    StationRegistry :=
  { r.failStation t.failedStation with takeovers := r.takeovers ++ [t], journal := journal }

/-- What a loop over stations with these ids should have done to a registry. -/
structure Sound (r : StationRegistry) (ids : List Str)
    (out : StationRegistry × Except PyExn (List Takeover)) : Prop where
  named : ∀ t ∈ out.1.takeovers.drop r.takeovers.length, ∃ s ∈ out.1.stations,
    s.stationId = t.successorStation ∧ s.alive = true ∧ s.active = true
  survived : (∃ s ∈ out.1.stations, s.active = true) →
    (out.1.takeovers.drop r.takeovers.length).map Takeover.failedStation = ids ∧
      out.1.stations = failAll ids r.stations
  raised : out.2 = .error (contractError "no active station available for takeover") →
    out.1.stations = failAll ids r.stations ∧
      ∀ t ∈ out.1.takeovers.drop r.takeovers.length, ∀ s ∈ out.1.stations,
        s.stationId = t.successorStation → s.alive = true

/-! ## Loops that stop -/

variable {r : StationRegistry} {s : Station}

theorem mem_failed {u : Station} (hu : u ∈ r.stations) (hne : u.stationId ≠ s.stationId) :
    u ∈ failAll [s.stationId] r.stations :=
  mem_failAll.2 (.inl ⟨hu, by simpa using hne⟩)

/-- When all of these have failed, none that was alive is left alive. -/
theorem not_all_failed {ids : List Str} {u : Station} (hu : u ∈ failAll ids r.stations)
    (halive : u.alive = true) : u.stationId ∉ ids := by
  rcases mem_failAll.1 hu with ⟨-, hout⟩ | ⟨v, -, -, rfl⟩
  · exact hout
  · cases halive

/-- A loop that has stopped at a station with no successor has failed all of them when that station is
the last one. -/
theorem sound_stop_iff {rest : List Station} {x : PyExn}
    (hrest : ∀ u ∈ rest, u ∈ r.stations ∧ u.alive = true)
    (hnd : ((s :: rest).map Station.stationId).Nodup)
    (hsucc : successorFor (failAll [s.stationId] r.stations) s = .error x) :
    Sound r ((s :: rest).map Station.stationId) (r.failStation s.stationId, .error x) ↔ rest = [] := by
  constructor
  · intro h
    have hx : x = contractError "no active station available for takeover" := by
      rw [successorFor] at hsucc
      split at hsucc
      · cases hsucc
        rfl
      · cases hsucc
    have hall : failAll [s.stationId] r.stations = _ := (h.raised (by rw [hx])).1
    by_contra hsome
    obtain ⟨u, rest, rfl⟩ := List.exists_cons_of_ne_nil hsome
    obtain ⟨hu, halive⟩ := hrest u List.mem_cons_self
    have hne : u.stationId ≠ s.stationId := fun h => (List.nodup_cons.1 hnd).1 (by simp [h])
    have hkept := mem_failed hu hne
    rw [hall] at hkept
    exact not_all_failed hkept halive (by simp)
  · rintro rfl
    have hinactive : ∀ u ∈ failAll [s.stationId] r.stations, ¬ u.active = true := by
      intro u hu hactive
      have hid := successorFor_error hsucc u hu hactive
      rcases mem_failAll.1 hu with ⟨-, hne⟩ | ⟨v, -, -, rfl⟩
      · exact hne (List.mem_singleton.2 hid)
      · cases hactive
    have hnew : ∀ t, t ∉ (r.failStation s.stationId).takeovers.drop r.takeovers.length := by
      simp [StationRegistry.failStation]
    exact ⟨fun t ht => absurd ht (hnew t), fun ⟨u, hu, hactive⟩ => absurd hactive (hinactive u hu),
      fun _ => ⟨rfl, fun t ht => absurd ht (hnew t)⟩⟩

/-- A loop that has stopped because the journal does not take an event is sound when that takeover was
the last one and its successor is alive. -/
theorem sound_unrecorded_iff {rest : List Station} {t : Station} {x : PyExn}
    {detected completed : FloatModel.F}
    (hrest : ∀ u ∈ rest, u ∈ r.stations ∧ u.alive = true)
    (hnd : ((s :: rest).map Station.stationId).Nodup)
    (hsucc : successorFor (failAll [s.stationId] r.stations) s = .ok t) :
    Sound r ((s :: rest).map Station.stationId)
        (r.tookOver ⟨s.stationId, t.stationId, detected, completed⟩ r.journal, .error x) ↔
      t.alive = true ∧ rest = [] := by
  obtain ⟨ht, hactive, -⟩ := successorFor_ok hsucc
  have hnew : (r.tookOver ⟨s.stationId, t.stationId, detected, completed⟩
      r.journal).takeovers.drop r.takeovers.length =
        [⟨s.stationId, t.stationId, detected, completed⟩] := List.drop_left
  have hdistinct : ((failAll [s.stationId] r.stations).map Station.stationId).Nodup := by
    rw [failAll_ids]
    exact r.distinct
  have hsame : ∀ u ∈ failAll [s.stationId] r.stations, u.stationId = t.stationId → u = t :=
    fun u hu h => List.inj_on_of_nodup_map hdistinct hu ht h
  constructor
  · intro h
    have hids := (h.survived ⟨t, ht, hactive⟩).1
    rw [hnew] at hids
    obtain ⟨u, hu, hid, halive, -⟩ := h.named _ (by rw [hnew]; exact List.mem_cons_self)
    rw [hsame u hu hid] at halive
    exact ⟨halive, by simpa using hids⟩
  · rintro ⟨halive, rfl⟩
    refine ⟨fun t' ht' => ?_, fun _ => ⟨by rw [hnew]; rfl, rfl⟩, fun _ => ⟨rfl, fun t' ht' u hu hid => ?_⟩⟩
    · rw [hnew, List.mem_singleton] at ht'
      exact ⟨t, ht, ht' ▸ rfl, halive, hactive⟩
    · rw [hnew, List.mem_singleton] at ht'
      rw [hsame u hu (hid.trans (ht' ▸ rfl))]
      exact halive

/-- A loop that goes on after a takeover is sound when its rest is and the successor is alive and not
among those that fail later. -/
theorem sound_cons_iff {ids : List Str} {t : Station} {detected completed : FloatModel.F}
    {j : List EventReceipt} {out : StationRegistry × Except PyExn (List Takeover)}
    (hsucc : successorFor (failAll [s.stationId] r.stations) s = .ok t)
    (hkeeps : (r.tookOver ⟨s.stationId, t.stationId, detected, completed⟩ j).takeovers <+:
        out.1.takeovers ∧
      ∀ u ∈ failAll [s.stationId] r.stations, u.stationId ∉ ids → u ∈ out.1.stations) :
    Sound r (s.stationId :: ids) out ↔ t.alive = true ∧ t.stationId ∉ ids ∧
      Sound (r.tookOver ⟨s.stationId, t.stationId, detected, completed⟩ j) ids out := by
  obtain ⟨ht, hactive, -⟩ := successorFor_ok hsucc
  obtain ⟨⟨new, hnew⟩, hstays⟩ := hkeeps
  have hdrop' : out.1.takeovers.drop
      (r.tookOver ⟨s.stationId, t.stationId, detected, completed⟩ j).takeovers.length = new := by
    rw [← hnew, List.drop_left]
  have hdrop : out.1.takeovers.drop r.takeovers.length =
      ⟨s.stationId, t.stationId, detected, completed⟩ :: new := by
    rw [← hnew, StationRegistry.tookOver, List.append_assoc, List.drop_left, List.singleton_append]
  have hfail : failAll (s.stationId :: ids) r.stations =
      failAll ids (failAll [s.stationId] r.stations) := (failAll_cons _ _ _).symm
  have hdistinct : ((failAll [s.stationId] r.stations).map Station.stationId).Nodup := by
    rw [failAll_ids]
    exact r.distinct
  constructor
  · intro h
    obtain ⟨u, hu, hid, halive, hu'⟩ := h.named _ (by rw [hdrop]; exact List.mem_cons_self)
    obtain ⟨hids, hall⟩ := h.survived ⟨u, hu, hu'⟩
    rw [hdrop, List.map_cons, List.cons.injEq] at hids
    rw [hall] at hu
    have hout := not_all_failed hu halive
    rw [hid] at hout
    refine ⟨?_, List.not_mem_of_not_mem_cons hout, ⟨fun t' ht' => ?_, fun _ => ?_, fun hx => ?_⟩⟩
    · rw [hfail] at hu
      rcases mem_failAll.1 hu with ⟨hu, -⟩ | ⟨v, -, -, rfl⟩
      · rwa [← List.inj_on_of_nodup_map hdistinct hu ht hid]
      · cases halive
    · rw [hdrop'] at ht'
      exact h.named t' (by rw [hdrop]; exact List.mem_cons_of_mem _ ht')
    · rw [hdrop']
      exact ⟨hids.2, hall.trans hfail⟩
    · refine ⟨hall.trans hfail, fun t' ht' => (h.raised hx).2 t' ?_⟩
      rw [hdrop'] at ht'
      rw [hdrop]
      exact List.mem_cons_of_mem _ ht'
  · rintro ⟨halive, hout, h⟩
    have hkept := hstays t ht hout
    refine ⟨fun t' ht' => ?_, fun hsome => ?_, fun hx => ⟨?_, fun t' ht' u hu hid => ?_⟩⟩
    · rw [hdrop] at ht'
      rcases List.mem_cons.1 ht' with rfl | ht'
      · exact ⟨t, hkept, rfl, halive, hactive⟩
      · exact h.named t' (by rw [hdrop']; exact ht')
    · obtain ⟨hids, hall⟩ := h.survived hsome
      rw [hdrop'] at hids
      rw [hdrop, List.map_cons, hids]
      exact ⟨rfl, hall.trans hfail.symm⟩
    · exact (h.raised hx).1.trans hfail.symm
    · rw [hdrop] at ht'
      rcases List.mem_cons.1 ht' with rfl | ht'
      · rw [List.inj_on_of_nodup_map out.1.distinct hu hkept hid]
        exact halive
      · exact (h.raised hx).2 t' (by rw [hdrop']; exact ht') u hu hid

/-! ## Ticks -/

variable [Readings]

/-- `rto_seconds`. -/
def Takeover.rtoSeconds (t : Takeover) : FloatModel.F := Readings.sub t.completedAt t.detectedAt

/-- The details of a takeover in the journal. -/
def takeoverDetails (failed : Station) (t : Takeover) : Fields :=
  [(lit "failed_station", .str failed.stationId), (lit "successor_station", .str t.successorStation),
    (lit "region", .str failed.region), (lit "rto_seconds", .float t.rtoSeconds)]

/-- `_take_over(failed, detected_at)`, with the next two readings of the clock. -/
def StationRegistry.takeOver (r : StationRegistry) (failed : Station)
    (detectedAt completed recorded : FloatModel.F) : StationRegistry × Except PyExn Takeover :=
  match successorFor r.stations failed with
  | .error x => (r, .error x)
  | .ok successor =>
      let takeover := ⟨failed.stationId, successor.stationId, detectedAt, completed⟩
      let r := { r with takeovers := r.takeovers ++ [takeover] }
      match record r.journal .takeover (takeoverDetails failed takeover) recorded with
      | .error x => (r, .error x)
      | .ok journal => ({ r with journal := journal }, .ok takeover)

/-- The station is alive and its last heartbeat is too old. -/
def timedOut (timeout now : FloatModel.F) (s : Station) : Bool :=
  s.alive && Readings.lt timeout (Readings.sub now s.lastHeartbeat)

/-- The loop of `tick` after `k` takeovers. A station changes only in its own turn, so that each one is
still as it was when the loop began. -/
def tickLoop (clock : Nat → FloatModel.F) : Nat → List Station → List Takeover → StationRegistry →
    StationRegistry × Except PyExn (List Takeover)
  | _, [], newTakeovers, r => (r, .ok newTakeovers)
  | k, s :: rest, newTakeovers, r =>
      if timedOut r.heartbeatTimeout (clock 0) s = true then
        match (r.failStation s.stationId).takeOver s (clock 0) (clock (2 * k + 1)) (clock (2 * k + 2)) with
        | (r, .error x) => (r, .error x)
        | (r, .ok t) => tickLoop clock (k + 1) rest (newTakeovers ++ [t]) r
      else tickLoop clock k rest newTakeovers r

/-- `tick()`, with the readings of the clock. -/
def StationRegistry.tick (r : StationRegistry) (clock : Nat → FloatModel.F) :
    StationRegistry × Except PyExn (List Takeover) :=
  tickLoop clock 0 (byId r.stations) [] r

/-- The stations that a tick finds alive and timed out, in its order. -/
def StationRegistry.overdue (r : StationRegistry) (now : FloatModel.F) : List Station :=
  (byId r.stations).filter (timedOut r.heartbeatTimeout now)

/-- A tick names successors that are alive and active after it, fails every station that had timed out
and takes it over once when some station survives, and has failed all of them when it raises because
none does. -/
def SoundTick (r : StationRegistry) (clock : Nat → FloatModel.F) : Prop :=
  Sound r ((r.overdue (clock 0)).map Station.stationId) (r.tick clock)

/-- Each of these stations in turn finds no active station and is the last, or finds one that is alive
and not among those that follow; and the journal takes the takeover, unless it is the last. -/
def Orderly (clock : Nat → FloatModel.F) : Nat → List Station → List Station → Prop
  | _, [], _ => True
  | k, s :: rest, stations =>
      match successorFor (failAll [s.stationId] stations) s with
      | .error _ => rest = []
      | .ok t =>
          t.alive = true ∧ t.stationId ∉ rest.map Station.stationId ∧ (rest = [] ∨
            (Recordable (takeoverDetails s ⟨s.stationId, t.stationId, clock 0, clock (2 * k + 1)⟩)
                (clock (2 * k + 2)) ∧
              Orderly clock (k + 1) rest (failAll [s.stationId] stations)))

/-! ## One turn -/

variable {clock : Nat → FloatModel.F}

/-- The turn of a station that has timed out: it finds no successor, or it is taken over, and the journal
takes the takeover or not. -/
theorem tickLoop_cases (k : Nat) (rest : List Station) (news : List Takeover)
    (hs : timedOut r.heartbeatTimeout (clock 0) s = true) :
    (∃ x, successorFor (failAll [s.stationId] r.stations) s = .error x ∧
        tickLoop clock k (s :: rest) news r = (r.failStation s.stationId, .error x)) ∨
      ∃ t, successorFor (failAll [s.stationId] r.stations) s = .ok t ∧
        let takeover := ⟨s.stationId, t.stationId, clock 0, clock (2 * k + 1)⟩
        ((∃ x, ¬ Recordable (takeoverDetails s takeover) (clock (2 * k + 2)) ∧
            tickLoop clock k (s :: rest) news r = (r.tookOver takeover r.journal, .error x)) ∨
          ∃ j, Recordable (takeoverDetails s takeover) (clock (2 * k + 2)) ∧
            tickLoop clock k (s :: rest) news r =
              tickLoop clock (k + 1) rest (news ++ [takeover]) (r.tookOver takeover j)) := by
  rw [tickLoop, if_pos hs, StationRegistry.takeOver]
  cases hsucc : successorFor (failAll [s.stationId] r.stations) s with
  | error x =>
      refine .inl ⟨x, rfl, ?_⟩
      simp only [StationRegistry.failStation, hsucc]
  | ok t =>
      refine .inr ⟨t, rfl, ?_⟩
      intro takeover
      have hiff := record_iff r.journal .takeover (takeoverDetails s takeover) (clock (2 * k + 2))
      cases hrec : record r.journal .takeover (takeoverDetails s takeover) (clock (2 * k + 2)) with
      | error x =>
          refine .inl ⟨x, fun hbad => ?_, ?_⟩
          · obtain ⟨j, hj⟩ := hiff.2 hbad
            rw [hrec] at hj
            cases hj
          · simp only [StationRegistry.failStation, hsucc, hrec, takeover, StationRegistry.tookOver]
      | ok j =>
          refine .inr ⟨j, hiff.1 ⟨j, hrec⟩, ?_⟩
          simp only [StationRegistry.failStation, hsucc, hrec, takeover, StationRegistry.tookOver]

/-! ## The loop -/

/-- The loop adds takeovers, and leaves the stations that have not timed out. -/
theorem tickLoop_keeps (clock : Nat → FloatModel.F) (ss : List Station) (k : Nat)
    (news : List Takeover) (r : StationRegistry) :
    r.takeovers <+: (tickLoop clock k ss news r).1.takeovers ∧
      ∀ u ∈ r.stations,
        u.stationId ∉ (ss.filter (timedOut r.heartbeatTimeout (clock 0))).map Station.stationId →
          u ∈ (tickLoop clock k ss news r).1.stations := by
  induction ss generalizing k news r with
  | nil => exact ⟨List.prefix_rfl, fun u hu _ => hu⟩
  | cons s rest ih =>
      by_cases hs : timedOut r.heartbeatTimeout (clock 0) s = true
      · rw [List.filter_cons_of_pos hs, List.map_cons]
        rcases tickLoop_cases k rest news hs with ⟨x, -, heq⟩ | ⟨t, -, ⟨x, -, heq⟩ | ⟨j, -, heq⟩⟩
        · rw [heq]
          exact ⟨List.prefix_rfl, fun u hu hout => mem_failed hu (List.ne_of_not_mem_cons hout)⟩
        · rw [heq]
          exact ⟨List.prefix_append _ _, fun u hu hout => mem_failed hu (List.ne_of_not_mem_cons hout)⟩
        · rw [heq]
          obtain ⟨htake, hstations⟩ := ih (k + 1) (news ++ [_]) (r.tookOver _ j)
          refine ⟨(List.prefix_append _ _).trans htake, fun u hu hout => ?_⟩
          exact hstations u (mem_failed hu (List.ne_of_not_mem_cons hout))
            (List.not_mem_of_not_mem_cons hout)
      · rw [tickLoop, if_neg hs, List.filter_cons_of_neg hs]
        exact ih k news r


/-- A loop over the stations of a registry is sound exactly when their takeovers are orderly. -/
theorem sound_loop_iff (clock : Nat → FloatModel.F) (ss : List Station) (k : Nat)
    (news : List Takeover) (r : StationRegistry) (hmem : ∀ s ∈ ss, s ∈ r.stations)
    (hnd : (ss.map Station.stationId).Nodup) :
    Sound r ((ss.filter (timedOut r.heartbeatTimeout (clock 0))).map Station.stationId)
        (tickLoop clock k ss news r) ↔
      Orderly clock k (ss.filter (timedOut r.heartbeatTimeout (clock 0))) r.stations := by
  induction ss generalizing k news r with
  | nil =>
      have hnew : ∀ t, t ∉ r.takeovers.drop r.takeovers.length := by simp
      refine ⟨fun _ => trivial, fun _ => ⟨fun t ht => absurd ht (hnew t), fun _ => ⟨?_, ?_⟩,
        fun h => nomatch h⟩⟩
      · exact congrArg _ List.drop_length
      · exact (failAll_nil r.stations).symm
  | cons s rest ih =>
      have hrest := List.forall_mem_cons.1 hmem
      have hnd' := List.nodup_cons.1 hnd
      by_cases hs : timedOut r.heartbeatTimeout (clock 0) s = true
      · rw [List.filter_cons_of_pos hs]
        have hsub := (List.filter_sublist (p := timedOut r.heartbeatTimeout (clock 0)) (l := rest))
        have hover : ∀ u ∈ rest.filter (timedOut r.heartbeatTimeout (clock 0)),
            u ∈ r.stations ∧ u.alive = true := by
          intro u hu
          obtain ⟨hu, hlate⟩ := List.mem_filter.1 hu
          exact ⟨hrest.2 u hu, (Bool.and_eq_true_iff.1 hlate).1⟩
        have hnodup := hnd.sublist ((hsub.cons_cons s).map Station.stationId)
        rw [Orderly]
        rcases tickLoop_cases k rest news hs with ⟨x, hsucc, heq⟩ | ⟨t, hsucc, ⟨x, hbad, heq⟩ | ⟨j, hrec, heq⟩⟩
        · rw [heq, hsucc]
          exact sound_stop_iff hover hnodup hsucc
        · rw [heq, hsucc, sound_unrecorded_iff hover hnodup hsucc]
          constructor
          · rintro ⟨halive, hlast⟩
            exact ⟨halive, by simp [hlast], .inl hlast⟩
          · rintro ⟨halive, -, hlast | ⟨hrec, -⟩⟩
            · exact ⟨halive, hlast⟩
            · exact absurd hrec hbad
        · rw [heq, hsucc, List.map_cons]
          have hkept : ∀ u ∈ rest, u ∈ failAll [s.stationId] r.stations := fun u hu =>
            mem_failed (hrest.2 u hu) fun h => hnd'.1 (h ▸ List.mem_map_of_mem hu)
          have hloop := ih (k + 1) (news ++ [⟨s.stationId, t.stationId, clock 0, clock (2 * k + 1)⟩])
            (r.tookOver ⟨s.stationId, t.stationId, clock 0, clock (2 * k + 1)⟩ j) hkept hnd'.2
          refine (sound_cons_iff hsucc (tickLoop_keeps clock rest (k + 1) _ (r.tookOver _ j))).trans ?_
          refine (and_congr_right fun _ => and_congr_right fun _ => hloop).trans ?_
          constructor
          · rintro ⟨halive, hout, horder⟩
            exact ⟨halive, hout, .inr ⟨hrec, horder⟩⟩
          · rintro ⟨halive, hout, hlast | ⟨-, horder⟩⟩
            · exact ⟨halive, hout, hlast ▸ trivial⟩
            · exact ⟨halive, hout, horder⟩
      · rw [tickLoop, if_neg hs, List.filter_cons_of_neg hs]
        exact ih k news r hrest.2 hnd'.2

/-- A tick is sound exactly when its takeovers are orderly. -/
theorem soundTick_iff (r : StationRegistry) (clock : Nat → FloatModel.F) :
    SoundTick r clock ↔ Orderly clock 0 (r.overdue (clock 0)) r.stations :=
  sound_loop_iff clock (byId r.stations) 0 [] r (fun _ hs => (byId_perm _).mem_iff.1 hs)
    (((byId_perm r.stations).map _).nodup_iff.2 r.distinct)

end

section Concrete

attribute [local instance] wholeFloats

/-- Differences and order of whole floats. -/
@[reducible]
def wholeReadings : Readings where
  sub := fun a b => a.bind fun x => b.map (x - ·)
  lt := fun a b => match a, b with
    | some x, some y => decide (x < y)
    | some _, none => true
    | none, _ => false

attribute [local instance] wholeReadings

/-- A station of one region with one worker. -/
def stationAt (stationId : String) (h : isBlank (lit stationId) = false) (heartbeat : Nat) : Station where
  stationId := lit stationId
  region := lit "eu"
  workers := [lit "w"]
  alive := true
  active := true
  lastHeartbeat := some heartbeat
  named := h
  regional := by decide
  staffed := by decide
  workersNamed := by decide

/-- The heartbeats of two of three stations are old. -/
def twoOverdue : StationRegistry where
  heartbeatTimeout := some 15
  stations := [stationAt "a" (by decide) 0, stationAt "b" (by decide) 0, stationAt "c" (by decide) 100]
  takeovers := []
  journal := []
  distinct := by decide

/-- The first of two stations that have timed out is taken over by the second, which then fails. -/
theorem correlated_timeouts : ¬ ∀ (r : StationRegistry) (clock : Nat → Option Nat), SoundTick r clock := by
  intro h
  obtain ⟨s, hs, hid, halive, -⟩ := (h twoOverdue fun _ => some 100).named
    ⟨lit "a", lit "b", some 100, some 100⟩ (by decide +kernel)
  have hfailed : ∀ s ∈ (twoOverdue.tick fun _ => some 100).1.stations,
      s.stationId = lit "b" → s.alive = false := by decide +kernel
  rw [hfailed s hs hid] at halive
  cases halive

end Concrete

end ResidualHarness.Hadr
