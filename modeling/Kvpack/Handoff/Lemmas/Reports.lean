import Kvpack.Handoff.Lemmas.Ownership

/-!
# Reports of layers

A report is made for the last plane of a layer, so the reports follow the order of the stream. A key that waits for its
value is the newest plane, or will never be completed.
-/

namespace Kvpack.Handoff

open Base Kvpack.Core IncrementalVerifierV1

variable {C : Crypto} {m : BeginManifestV1} {limits : ValidationLimits} {planes : List VerifiedPlaneV1}
  {p : VerifiedPlaneV1} {e : LayerReadyV1}
variable {v : IncrementalVerifierV1 m} {permit : Option LayerPermitV1}
  {r : EStateM.Result HandoffError (StreamingCoordinatorV1 m) (Option LayerReadyV1)}

/-- The planes of a report are the verified planes at its place. -/
structure ReportOk (m : BeginManifestV1) (limits : ValidationLimits) (planes : List VerifiedPlaneV1)
    (e : LayerReadyV1) : Prop where
  layer : e.pair.layer = e.pair.key.header.layer
  key : planes[e.pair.key.header.sequence.toNat]? = some e.pair.key
  role : e.pair.key.header.role = .key
  single : e.pair.value = none → (initial m limits).isSingleRoleFrame e.pair.key.header.sequence = true
  value : ∀ v, e.pair.value = some v → planes[e.pair.key.header.sequence.toNat + 1]? = some v ∧
    v.header.layer = e.pair.layer ∧ v.header.role = .value

/-- A key that waits is a verified plane of a layer with two. -/
structure WaitingOk (m : BeginManifestV1) (limits : ValidationLimits) (planes : List VerifiedPlaneV1)
    (key : VerifiedPlaneV1) : Prop where
  place : planes[key.header.sequence.toNat]? = some key
  role : key.header.role = .key
  paired : (initial m limits).isSingleRoleFrame key.header.sequence = false

theorem getElem?_append_of_some {i : Nat} {q : VerifiedPlaneV1} (h : planes[i]? = some q) :
    (planes ++ [p])[i]? = some q := by
  rw [List.getElem?_append_left (List.getElem?_eq_some_iff.mp h).1, h]

theorem ReportOk.append (h : ReportOk m limits planes e) : ReportOk m limits (planes ++ [p]) e := by
  refine ⟨h.layer, getElem?_append_of_some h.key, h.role, h.single, fun v hv => ?_⟩
  obtain ⟨hplane, hlayer, hrole⟩ := h.value v hv
  exact ⟨getElem?_append_of_some hplane, hlayer, hrole⟩

theorem WaitingOk.append {key : VerifiedPlaneV1} (h : WaitingOk m limits planes key) :
    WaitingOk m limits (planes ++ [p]) key := ⟨getElem?_append_of_some h.place, h.role, h.paired⟩

/-- A report is made once all planes of the layer have been verified. -/
theorem ReportOk.complete (ha : m.Accepted limits) (hv : Verified C limits planes v)
    (h : ReportOk m limits planes e) {i : Nat} {spec : PlaneSpec} (hspec : m.planes[i]? = some spec)
    (hlayer : spec.layer = e.pair.layer) : ∃ p ∈ e.pair.planes, planes[i]? = some p := by
  obtain ⟨kspec, hkspec, hklayer, hkrole, -⟩ := hv.place ha h.key
  have hsame : spec.layer = kspec.layer := hlayer.trans (h.layer.trans hklayer)
  cases hrole : spec.role with
  | key =>
    have hplace := BeginManifestV1.place_unique ha hspec hkspec hsame (by rw [hrole, ← hkrole, h.role])
    exact ⟨e.pair.key, List.mem_cons_self, hplace ▸ h.key⟩
  | value =>
    cases hvalue : e.pair.value with
    | none =>
      have hkey := role_of_single ha (h.single hvalue) hkspec (List.mem_of_getElem? hspec) hsame
      rw [hrole] at hkey
      cases hkey
    | some q =>
      obtain ⟨hq, hqlayer, hqrole⟩ := h.value q hvalue
      obtain ⟨qspec, hqspec, hql, hqr, -⟩ := hv.place ha hq
      have hplace := BeginManifestV1.place_unique ha hspec hqspec (by rw [hlayer, ← hqlayer, hql])
        (by rw [hrole, ← hqr, hqrole])
      refine ⟨q, ?_, hplace ▸ hq⟩
      rw [VerifiedLayerPairV1.planes, hvalue]
      exact List.mem_cons_of_mem _ (List.mem_singleton_self q)

theorem ReportOk.sequence_eq (ha : m.Accepted limits) (hv : Verified C limits planes v)
    {e' : LayerReadyV1} (h : ReportOk m limits planes e) (h' : ReportOk m limits planes e')
    (hlayer : e.pair.layer = e'.pair.layer) : e.pair.key.header.sequence = e'.pair.key.header.sequence := by
  obtain ⟨spec, hspec, hl, hr, -⟩ := hv.place ha h.key
  obtain ⟨spec', hspec', hl', hr', -⟩ := hv.place ha h'.key
  rw [← UInt32.toNat_inj]
  refine BeginManifestV1.place_unique ha hspec hspec' ?_ ?_
  · rw [← hl, ← h.layer, hlayer, h'.layer, hl']
  · rw [← hr, h.role, ← hr', h'.role]

/-! ## One plane -/

/-- What has been reported so far, with the key that waits. -/
structure Reports (m : BeginManifestV1) (limits : ValidationLimits) (planes : List VerifiedPlaneV1)
    (log : List LayerReadyV1) (pending : Option PendingKey) : Prop where
  event : ∀ e ∈ log, ReportOk m limits planes e
  ordered : log.Pairwise fun e e' => e.pair.key.header.sequence < e'.pair.key.header.sequence
  pending : ∀ key, pending = some key → WaitingOk m limits planes key.plane

variable {log : List LayerReadyV1} {pending pending' : Option PendingKey}

theorem Reports.append (h : Reports m limits planes log pending) : Reports m limits (planes ++ [p]) log pending :=
  ⟨fun e he => (h.event e he).append, h.ordered, fun key hkey => (h.pending key hkey).append⟩

theorem Reports.forget (h : Reports m limits planes log pending) (hpending : pending' = pending ∨ pending' = none) :
    Reports m limits planes log pending' := by
  refine ⟨h.event, h.ordered, fun key hkey => ?_⟩
  rcases hpending with rfl | rfl
  · exact h.pending key hkey
  · cases hkey

/-- One more report, about a plane later than all that were reported. -/
theorem Reports.report (h : Reports m limits planes log pending) (he : ReportOk m limits planes e)
    (hlate : ∀ e' ∈ log, e'.pair.key.header.sequence < e.pair.key.header.sequence)
    (hpending : pending' = pending ∨ pending' = none) : Reports m limits planes (log ++ [e]) pending' := by
  refine ⟨fun e' he' => ?_, ?_, (h.forget hpending).pending⟩
  · rcases List.mem_append.mp he' with hold | hnew
    · exact h.event e' hold
    · exact List.mem_singleton.mp hnew ▸ he
  · rw [List.pairwise_append]
    refine ⟨h.ordered, List.pairwise_singleton _ _, fun e' he' e'' he'' => ?_⟩
    exact List.mem_singleton.mp he'' ▸ hlate e' he'

theorem StreamingCoordinatorV1.Completed.stager {s : StreamingCoordinatorV1 m}
    (h : StreamingCoordinatorV1.Completed s p permit r) : (finalState r).stager = s.stager := by
  cases h with
  | failed hstager _ => exact hstager
  | waiting hstager _ _ _ _ _ => exact hstager
  | single hstager _ _ _ _ => exact hstager
  | pair hstager _ _ _ _ _ => exact hstager

theorem Reports.completed {s : StreamingCoordinatorV1 m} (ha : m.Accepted limits)
    (h : Reports m limits planes log s.pendingKey) (hv : Verified C limits (planes ++ [p]) v)
    (hsingle : s.stager.verifier.isSingleRoleFrame p.header.sequence =
      (initial m limits).isSingleRoleFrame p.header.sequence)
    (hr : StreamingCoordinatorV1.Completed s p permit r) :
    Reports m limits (planes ++ [p]) (log ++ Session.reported r) (finalState r).pendingKey := by
  have hlast : (planes ++ [p])[planes.length]? = some p := List.getElem?_concat_length
  obtain ⟨-, hspec, -, -, hsequence⟩ := hv.place ha hlast
  have hself : (planes ++ [p])[p.header.sequence.toNat]? = some p := hsequence ▸ hlast
  cases hr with
  | failed _ hpending =>
    rw [Session.reported, List.append_nil]
    exact h.append.forget hpending
  | waiting _ _ hrole hpaired hnone hpending =>
    rw [Session.reported, Option.toList_none, List.append_nil, finalState_ok, hpending]
    refine ⟨h.append.event, h.ordered, fun key hkey => ?_⟩
    cases hkey
    exact ⟨hself, hrole, hsingle ▸ hpaired⟩
  | single _ _ hrole hone hpending =>
    refine h.append.report ⟨rfl, hself, hrole, fun _ => hsingle ▸ hone, fun _ hv => by cases hv⟩ (fun e' he' => ?_)
      (Or.inl hpending)
    rw [UInt32.lt_iff_toNat_lt, hsequence]
    exact (List.getElem?_eq_some_iff.mp (h.event e' he').key).1
  | @pair key _ _ hkey hlayer hrole hnext hpending =>
    have hwaiting := h.pending _ hkey
    have hbound : planes.length + 1 < 2 ^ 32 := by
      have hlength := hv.length
      rw [List.length_append, List.length_singleton, BeginManifestV1.length_planes ha] at hlength
      exact lt_of_le_of_lt hlength (UInt32.toNat_lt _)
    rw [hsequence] at hnext
    have hadjacent : key.plane.header.sequence.toNat + 1 = planes.length := by omega
    have hvalue : (planes ++ [p])[key.plane.header.sequence.toNat + 1]? = some p := hadjacent ▸ hlast
    refine h.append.report ⟨rfl, getElem?_append_of_some hwaiting.place, hwaiting.role, fun hn => (by cases hn),
      fun v hv => ?_⟩
      (fun e' he' => ?_) (Or.inr hpending)
    · cases hv
      exact ⟨hvalue, hlayer.symm, hrole⟩
    · -- a report with this very key would be of a single plane, or its value would be here already
      have hok := h.event e' he'
      have hlt := (List.getElem?_eq_some_iff.mp hok.key).1
      have hle : e'.pair.key.header.sequence.toNat ≤ key.plane.header.sequence.toNat := by omega
      rw [UInt32.lt_iff_toNat_lt]
      refine lt_of_le_of_ne hle fun heq => ?_
      cases hvalue' : e'.pair.value with
      | none =>
        have hone := hok.single hvalue'
        rw [UInt32.toNat_inj.mp heq] at hone
        exact absurd (hwaiting.paired.symm.trans hone) Bool.false_ne_true
      | some q =>
        have hbeyond := (List.getElem?_eq_some_iff.mp (hok.value q hvalue').1).1
        rw [heq] at hbeyond
        exact absurd hadjacent (Nat.ne_of_lt hbeyond)

theorem Reports.ingested {s : StreamingCoordinatorV1 m} {permit : Option LayerPermitV1}
    {r : EStateM.Result HandoffError (StreamingCoordinatorV1 m) (Option LayerReadyV1)} (ha : m.Accepted limits)
    (h : Reports m limits planes log s.pendingKey) (hv : Verified C limits planes s.stager.verifier)
    (hr : StreamingCoordinatorV1.Ingested C s p permit r) :
    Reports m limits (BundleStager.recordPlane s.stager (finalState r).stager (some p) planes)
      (log ++ Session.reported r) (finalState r).pendingKey := by
  have hrecord {n : UInt64} {stager : BundleStager m}
      (hverifier : stager.verifier = s.stager.verifier.advance p.header p.bytes n) :
      BundleStager.recordPlane s.stager stager (some p) planes = planes ++ [p] := by
    rw [BundleStager.recordPlane, hverifier, if_pos (by simp [IncrementalVerifierV1.advance])]
    rfl
  cases hr with
  | refused =>
    rw [finalState_error, BundleStager.recordPlane, if_neg (lt_irrefl _), Session.reported, List.append_nil]
    exact h
  | unstaged hcheck hverifier =>
    rw [finalState_error, hrecord hverifier, Session.reported, List.append_nil]
    exact h.append
  | @staged n stager _ hcheck hverifier hopen hrest =>
    have hnext := hv.plane ha hcheck
    rw [hrecord ((congrArg BundleStager.verifier hrest.stager).trans hverifier)]
    refine Reports.completed (s := { s with stager }) ha h hnext ?_ hrest
    rw [hverifier]
    exact hnext.after.isSingleRoleFrame _

/-! ## Sessions -/

namespace Session

variable {w : Session m} {c : SessionCall} {s : StreamingCoordinatorV1 m}

/-- The reports of a session fit the planes that its verifier has accepted. -/
structure Consistent (C : Crypto) (limits : ValidationLimits) (w : Session m) : Prop where
  verified : ∃ v : IncrementalVerifierV1 m, Verified C limits w.planes v
  tracked : ∀ s, w.coordinator = some s → BundleStager.Tracked C limits ⟨s.stager, w.planes⟩
  reports : Reports m limits w.planes w.log w.pending

theorem tracked_called (ha : m.Accepted limits) (ht : BundleStager.Tracked C limits ⟨s.stager, w.planes⟩)
    (c : StreamingCoordinatorV1.Call) :
    BundleStager.Tracked C limits
      ⟨(finalState (StreamingCoordinatorV1.perform C c s)).stager, (w.called C s c).planes⟩ := by
  have hstep := @StreamingCoordinatorV1.onStager_step C m ⟨s, w.planes⟩ c
  have hself : (StreamingCoordinatorV1.History.step C ⟨s, w.planes⟩ c).onStager =
      ⟨(finalState (StreamingCoordinatorV1.perform C c s)).stager, (w.called C s c).planes⟩ := rfl
  rw [← hself, hstep]
  split
  · exact BundleStager.Tracked.step ha ht
  · exact ht

/-- A call that brings no plane leaves the planes and the reports as they are. -/
theorem Consistent.quiet (h : w.Consistent C limits) (hs : w.coordinator = some s) {c : StreamingCoordinatorV1.Call}
    (hplane : c.plane = none) :
    Reports m limits (w.called C s c).planes (w.called C s c).log (w.called C s c).pending := by
  obtain ⟨hreported, hpending⟩ := @StreamingCoordinatorV1.perform_quiet C m s c hplane
  have hplanes : (w.called C s c).planes = w.planes := by
    simp only [called, BundleStager.recordPlane, hplane, Option.toList_none, List.append_nil, ite_self]
  have hlog : (w.called C s c).log = w.log := by simp only [called, hreported, List.append_nil]
  have hbefore : w.pending = s.pendingKey := by rw [pending, hs, Option.bind_some]
  rw [hplanes, hlog]
  exact h.reports.forget (hbefore ▸ hpending)

theorem Consistent.ingest (ha : m.Accepted limits) (h : w.Consistent C limits) (hs : w.coordinator = some s)
    (header : LayerHeaderV1) (payload : Bytes) (permit : Option LayerPermitV1) (writes : PlaneWrites) :
    Reports m limits (w.called C s (.ingestPlane header payload permit writes)).planes
      (w.called C s (.ingestPlane header payload permit writes)).log
      (w.called C s (.ingestPlane header payload permit writes)).pending := by
  have hbefore : w.pending = s.pendingKey := by rw [pending, hs, Option.bind_some]
  have hreports := h.reports
  rw [hbefore] at hreports
  exact hreports.ingested ha (h.tracked s hs).verified StreamingCoordinatorV1.ingested

theorem Consistent.of_eq (h : w.Consistent C limits) {w' : Session m} (hplanes : w'.planes = w.planes)
    (hlog : w'.log = w.log) (hcoordinator : w'.coordinator = w.coordinator) : w'.Consistent C limits := by
  have hpending : w'.pending = w.pending := by rw [pending, hcoordinator, pending]
  refine ⟨?_, ?_, ?_⟩
  · rw [hplanes]
    exact h.verified
  · rw [hplanes, hcoordinator]
    exact h.tracked
  · rw [hplanes, hlog, hpending]
    exact h.reports

theorem Consistent.call (ha : m.Accepted limits) (h : w.Consistent C limits) (c : StreamingCoordinatorV1.Call) :
    (w.onCoordinator C c).Consistent C limits := by
  rcases @onCoordinator_cases C m w c with heq | ⟨s, hs, -, heq⟩
  · rw [heq]
    exact h
  · rw [heq]
    have htracked := tracked_called ha (h.tracked s hs) c
    refine ⟨⟨_, htracked.verified⟩, fun s' hs' => ?_, ?_⟩
    · cases hs'
      exact htracked
    · cases c with
      | ingestPlane header payload permit writes => exact h.ingest ha hs header payload permit writes
      | verifyAndPrepareSeal _ _ | publish _ | abort _ => exact h.quiet hs rfl

theorem Consistent.move (ha : m.Accepted limits) (h : w.Consistent C limits) (c : SessionCall) :
    (w.move C c).Consistent C limits := by
  cases c with
  | acquire =>
    rw [Session.move]
    cases w.pool.tryAcquire with
    | none => exact h
    | some pool => exact h.of_eq rfl rfl rfl
  | release permit => exact h.of_eq rfl rfl rfl
  | call c => exact h.call ha c
  | dropCoordinator => exact ⟨h.verified, fun s hs => (by cases hs), h.reports.forget (Or.inr rfl)⟩
  | dropEvent i => exact h.of_eq rfl rfl rfl
  | intoParts i =>
    rw [Session.move]
    cases w.events[i]? with
    | none => exact h
    | some event => exact h.of_eq rfl rfl rfl

theorem Consistent.step (ha : m.Accepted limits) (h : w.Consistent C limits) : (w.step C c).Consistent C limits :=
  (h.move ha c).of_eq rfl rfl rfl

/-! ## Ends -/

/-- No key waits, and none will. -/
def Ended (w : Session m) : Prop := w.pending = none ∧ ∀ s, w.coordinator = some s → s.stager.Closed

theorem Ended.call (h : w.Ended) (ha : m.Accepted limits) (hc : w.Consistent C limits)
    (c : StreamingCoordinatorV1.Call) : (w.onCoordinator C c).Ended := by
  rcases @onCoordinator_cases C m w c with heq | ⟨s, hs, -, heq⟩
  · rw [heq]
    exact h
  · rw [heq]
    have hclosed := h.2 s hs
    have hnone : s.pendingKey = none := by
      have hpending := h.1
      rwa [pending, hs, Option.bind_some] at hpending
    refine ⟨?_, fun s' hs' => ?_⟩
    · rw [pending, called, Option.bind_some]
      cases hplane : c.plane with
      | none => exact (StreamingCoordinatorV1.perform_quiet hplane).2.elim (fun hsame => hsame.trans hnone) id
      | some plane =>
        cases c with
        | ingestPlane header payload permit writes =>
          have hchange := @StreamingCoordinatorV1.ingested C m s header payload permit writes
          rw [StreamingCoordinatorV1.perform]
          generalize StreamingCoordinatorV1.ingestPlane C header payload permit writes s = r at hchange
          cases hchange with
          | refused | unstaged _ _ => exact hnone
          | staged hcheck hverifier hopen hrest => exact absurd hclosed hopen
        | verifyAndPrepareSeal _ _ | publish _ | abort _ => cases hplane
    · cases hs'
      have hstager := @StreamingCoordinatorV1.stager_perform C m s c
      rw [hstager]
      split
      · exact hclosed.step ha (hc.tracked s hs)
      · exact hclosed

theorem Ended.of_eq (h : w.Ended) {w' : Session m} (hcoordinator : w'.coordinator = w.coordinator) : w'.Ended := by
  rw [Ended, pending, hcoordinator]
  exact h

theorem Ended.step (h : w.Ended) (ha : m.Accepted limits) (hc : w.Consistent C limits) : (w.step C c).Ended := by
  have hmove : (w.move C c).Ended := by
    cases c with
    | acquire =>
      rw [move]
      cases w.pool.tryAcquire with
      | none => exact h
      | some pool => exact h.of_eq rfl
    | release permit => exact h.of_eq rfl
    | call c => exact h.call ha hc c
    | dropCoordinator => exact ⟨rfl, fun s hs => by cases hs⟩
    | dropEvent i => exact h.of_eq rfl
    | intoParts i =>
      rw [move]
      cases w.events[i]? with
      | none => exact h
      | some event => exact h.of_eq rfl
  exact hmove.of_eq rfl

theorem Accounted.inUse_eq_zero (h : w.Accounted) (hpending : w.pending = none) (hheld : w.held = [])
    (hevents : w.events = []) : w.pool.inUse = 0 := by
  rw [h.inUse, owned, hpending, hheld, hevents]
  rfl

end Session

end Kvpack.Handoff
