import Kvpack.Handoff.Lemmas.Coordinator

/-!
# What a plane does to a coordinator
-/

namespace Kvpack.Handoff

open Base Kvpack.Core IncrementalVerifierV1

namespace BundleStager

variable {C : Crypto} {m : BeginManifestV1} {limits : ValidationLimits} {s : BundleStager m} {h : History m} {c : Call}

/-- A stager that writes no more planes. -/
def Closed (s : BundleStager m) : Prop := s.aborted = true ∨ s.committed = true ∨ s.staging = none

theorem verifier_writeVerified {p : VerifiedPlaneV1} {w : PlaneWrites} :
    (finalState (writeVerified p w s)).verifier = s.verifier := by
  have hwrite (path : BundlePath) (bytes : Bytes) (o : WriteOutcome) :
      Keeps (fun s' => s'.verifier = s.verifier) (writeNewSync (m := m) path bytes o) := by
    intro s' hs'
    unfold writeNewSync
    split
    · exact hs'
    · split
      · exact hs'
      · split
        · exact hs'
        · cases o <;> exact hs'
  have hkeeps : Keeps (fun s' => s'.verifier = s.verifier) (writeVerified (m := m) p w) := by
    refine Keeps.bind (fun _ hs' => hs') fun s' => ?_
    refine Keeps.bind (keeps_outcome _) fun _ => ?_
    exact Keeps.bind (hwrite _ _ _) fun _ => hwrite _ _ _
  exact hkeeps s rfl

theorem not_closed_of_writeVerified {p : VerifiedPlaneV1} {w : PlaneWrites} {s' : BundleStager m}
    (hok : writeVerified p w s = .ok () s') : ¬ s.Closed := by
  rw [writeVerified, get_bind_apply, bind_apply] at hok
  rintro (haborted | hcommitted | hstaging)
  · rw [rejectIf, if_pos (Or.inr (Or.inr haborted))] at hok
    cases hok
  · rw [rejectIf, if_pos (Or.inl hcommitted)] at hok
    cases hok
  · by_cases hstate : s.committed = true ∨ s.prepared.isSome = true ∨ s.aborted = true
    · rw [rejectIf, if_pos hstate] at hok
      cases hok
    · rw [rejectIf, if_neg hstate] at hok
      simp only [outcome_ok, bind_apply, writeNewSync, hstaging] at hok
      cases hok

theorem Tracked.step (ha : m.Accepted limits) (ht : Tracked C limits h) : Tracked C limits (h.step C c) := by
  rcases c.kinds with ⟨p, w, hc⟩ | ⟨o, rfl⟩ | ⟨hplane, habort⟩
  · exact (step_plane ha ht hc).tracked ha ht
  · rw [step_other rfl]
    exact abort_change.tracked ht
  · exact (step_frame ht hplane habort).2

theorem Closed.step (hclosed : s.Closed) (ha : m.Accepted limits) {planes : List VerifiedPlaneV1}
    (ht : Tracked C limits ⟨s, planes⟩) : (finalState (perform C c s)).Closed := by
  rcases c.kinds with ⟨p, w, hc⟩ | ⟨o, rfl⟩ | ⟨hplane, habort⟩
  · have hchange := step_plane ha ht hc
    have hself : (History.step C ⟨s, planes⟩ c).stager = finalState (perform C c s) := rfl
    rw [← hself]
    generalize History.step C ⟨s, planes⟩ c = h' at hchange
    cases hchange with
    | refused _ | unwritten _ _ => exact hclosed
    | written hcheck haborted hstaging hheader hpayload =>
      rcases hclosed with htrue | hcommitted | hnone
      · exact Or.inl htrue
      · exact Or.inr (Or.inl hcommitted)
      · exact absurd (hnone.symm.trans hstaging) nofun
  · have hchange := @abort_change m s o
    rw [perform]
    generalize finalState (abort o s) = s' at hchange
    cases hchange with
    | refused hrefused => exact hclosed
    | removed => exact Or.inl rfl
    | partly hcommitted haborted hstaging =>
      rcases hclosed with htrue | htrue | hnone
      · exact absurd (haborted.symm.trans htrue) Bool.false_ne_true
      · exact absurd (hcommitted.symm.trans htrue) Bool.false_ne_true
      · exact absurd (hnone.symm.trans hstaging) nofun
  · obtain ⟨s₁, b, hprepared, hpublish, -⟩ := @perform_other C m s c hplane habort
    have hfirst : s₁.Closed := by
      cases hprepared with
      | refused => exact hclosed
      | accepted hcheck hchange =>
        cases hchange with
        | none_ => exact hclosed
        | file hstaging habsent =>
          exact hclosed.imp_right fun h => h.imp_right fun hnone => absurd (hnone.symm.trans hstaging) nofun
        | prepared hstaging habsent =>
          exact hclosed.imp_right fun h => h.imp_right fun hnone => absurd (hnone.symm.trans hstaging) nofun
    generalize finalState (perform C c s) = s' at hpublish
    cases hpublish with
    | none_ => exact hfirst
    | marker hstaging habsent =>
      exact hfirst.imp_right fun h => h.imp_right fun hnone => absurd (hnone.symm.trans hstaging) nofun
    | renamed _ haborted hmanifest hstaging hlayers habsent => exact Or.inr (Or.inr rfl)

theorem closed_of_abort {o : RemoveOutcome} (hok : succeeded (abort o s) = true) : (finalState (abort o s)).Closed := by
  unfold abort at hok ⊢
  by_cases hstate : s.committed = true ∨ s.aborted = true
  · rw [if_pos hstate]
    exact hstate.elim (fun h => Or.inr (Or.inl h)) Or.inl
  · rw [if_neg hstate] at hok ⊢
    cases hstaging : s.staging with
    | none => exact Or.inr (Or.inr hstaging)
    | some dir =>
      rw [hstaging] at hok
      cases o with
      | done => exact Or.inl rfl
      | failed keep layers => cases hok

end BundleStager

namespace StreamingCoordinatorV1

variable {C : Crypto} {m : BeginManifestV1} {s : StreamingCoordinatorV1 m} {header : LayerHeaderV1} {payload : Bytes}
  {permit : Option LayerPermitV1} {writes : PlaneWrites}
variable {plane : VerifiedPlaneV1}

theorem checkReadyCursor_cases (s : StreamingCoordinatorV1 m) (layer sequence : UInt32) :
    (∃ readyLayers, checkReadyCursor layer sequence s = .ok () { s with readyLayers }) ∨
      ∃ e, checkReadyCursor layer sequence s = .error e s := by
  rw [checkReadyCursor, get_bind_apply, bind_apply]
  cases s.expectedReady sequence with
  | error e => exact Or.inr ⟨e, rfl⟩
  | ok expected =>
    simp only [outcome_ok, bind_apply]
    by_cases hlayer : layer = expected
    · rw [rejectIf, if_neg (not_not.mpr hlayer)]
      simp only [outcome_ok]
      cases u32TryFrom (s.readyLayers.toNat + 1) with
      | none => exact Or.inr ⟨_, rfl⟩
      | some readyLayers => exact Or.inl ⟨readyLayers, rfl⟩
    · rw [rejectIf, if_pos hlayer]
      exact Or.inr ⟨_, rfl⟩

inductive Completed (s : StreamingCoordinatorV1 m) (plane : VerifiedPlaneV1) (permit : Option LayerPermitV1) :
    EStateM.Result HandoffError (StreamingCoordinatorV1 m) (Option LayerReadyV1) → Prop where
  | failed {e : HandoffError} {s' : StreamingCoordinatorV1 m} (hstager : s'.stager = s.stager)
      (hpending : s'.pendingKey = s.pendingKey ∨ s'.pendingKey = none) : Completed s plane permit (.error e s')
  | waiting {p : LayerPermitV1} {s' : StreamingCoordinatorV1 m} (hstager : s'.stager = s.stager)
      (hpermit : permit = some p) (hrole : plane.header.role = .key)
      (hsingle : s.stager.verifier.isSingleRoleFrame plane.header.sequence = false) (hnone : s.pendingKey = none)
      (hpending : s'.pendingKey = some ⟨plane, p⟩) : Completed s plane permit (.ok none s')
  | single {p : LayerPermitV1} {s' : StreamingCoordinatorV1 m} (hstager : s'.stager = s.stager)
      (hpermit : permit = some p) (hrole : plane.header.role = .key)
      (hsingle : s.stager.verifier.isSingleRoleFrame plane.header.sequence = true)
      (hpending : s'.pendingKey = s.pendingKey) :
      Completed s plane permit (.ok (some ⟨⟨plane.header.layer, plane, none⟩, p⟩) s')
  | pair {key : PendingKey} {s' : StreamingCoordinatorV1 m} (hstager : s'.stager = s.stager)
      (hkey : s.pendingKey = some key) (hlayer : key.plane.header.layer = plane.header.layer)
      (hrole : plane.header.role = .value)
      (hsequence : plane.header.sequence.toNat = min (key.plane.header.sequence.toNat + 1) (2 ^ 32 - 1))
      (hpending : s'.pendingKey = none) :
      Completed s plane permit (.ok (some ⟨⟨key.plane.header.layer, key.plane, some plane⟩, key.permit⟩) s')

theorem newSingle_of_key (hrole : plane.header.role = .key) :
    VerifiedLayerPairV1.newSingle plane = .ok ⟨plane.header.layer, plane, none⟩ := by
  rw [VerifiedLayerPairV1.newSingle, rejectIf, if_neg (not_not.mpr hrole)]
  rfl

theorem new_cases (key value : VerifiedPlaneV1) :
    (VerifiedLayerPairV1.new key value = .ok ⟨key.header.layer, key, some value⟩ ∧
      key.header.layer = value.header.layer ∧ value.header.role = .value ∧
      value.header.sequence.toNat = min (key.header.sequence.toNat + 1) (2 ^ 32 - 1)) ∨
      ∃ e, VerifiedLayerPairV1.new key value = .error e := by
  unfold VerifiedLayerPairV1.new rejectIf
  split
  · exact Or.inr ⟨_, rfl⟩
  · rename_i hpair
    simp only [not_or, ne_eq, not_not] at hpair
    exact Or.inl ⟨rfl, hpair.1, hpair.2.2.1, hpair.2.2.2⟩

theorem completed_key {p : LayerPermitV1} (hrole : plane.header.role = .key) :
    Completed s plane (some p) (completeKey plane p s) := by
  rw [completeKey, get_bind_apply]
  cases hsingle : s.stager.verifier.isSingleRoleFrame plane.header.sequence with
  | true =>
    rw [if_pos rfl, newSingle_of_key hrole, bind_apply]
    simp only [outcome_ok]
    rcases checkReadyCursor_cases s plane.header.layer plane.header.sequence with ⟨r, hr⟩ | ⟨e, he⟩
    · rw [bind_of_ok hr]
      exact .single rfl rfl hrole hsingle rfl
    · rw [bind_of_error he]
      exact .failed rfl (Or.inl rfl)
  | false =>
    rw [if_neg Bool.false_ne_true, bind_apply]
    cases hpending : s.pendingKey with
    | some key => exact .failed rfl (Or.inl rfl)
    | none => exact .waiting rfl rfl hrole hsingle hpending rfl

theorem completed_value : Completed s plane permit (completeValue plane s) := by
  have hmodify : completeValue plane s =
      (outcome (okOr s.pendingKey (.validation "received V without a pending K plane")) >>= fun key =>
        outcome (VerifiedLayerPairV1.new key.plane plane) >>= fun pair =>
          checkReadyCursor pair.layer pair.key.header.sequence >>= fun _ =>
            (pure (some ⟨pair, key.permit⟩) : Action m (Option LayerReadyV1))) { s with pendingKey := none } := rfl
  rw [hmodify, bind_apply]
  cases hkey : s.pendingKey with
  | none => exact .failed rfl (Or.inr rfl)
  | some key =>
    rw [okOr_some]
    simp only [outcome_ok, bind_apply]
    rcases new_cases key.plane plane with ⟨hnew, hlayer, hrole, hsequence⟩ | ⟨e, he⟩
    · rw [hnew]
      simp only [outcome_ok]
      rcases checkReadyCursor_cases { s with pendingKey := none } key.plane.header.layer key.plane.header.sequence with
        ⟨r, hr⟩ | ⟨e, he⟩
      · rw [hr]
        exact .pair rfl hkey hlayer hrole hsequence rfl
      · rw [he]
        exact .failed rfl (Or.inr rfl)
    · rw [he]
      exact .failed rfl (Or.inr rfl)

theorem completed (plane : VerifiedPlaneV1) : Completed s plane permit (complete plane permit s) := by
  cases hrole : plane.header.role with
  | value =>
    simp only [complete, hrole]
    exact completed_value
  | key =>
    cases permit with
    | none =>
      simp only [complete, hrole]
      exact completed_value
    | some p =>
      simp only [complete, hrole]
      exact completed_key hrole

/-- A plane does nothing to a coordinator, or the verifier has moved on and the rest is as far as it came. -/
inductive Ingested (C : Crypto) (s : StreamingCoordinatorV1 m) (plane : VerifiedPlaneV1)
    (permit : Option LayerPermitV1) :
    EStateM.Result HandoffError (StreamingCoordinatorV1 m) (Option LayerReadyV1) → Prop where
  | refused {e : HandoffError} : Ingested C s plane permit (.error e s)
  | unstaged {e : HandoffError} {n : UInt64} {stager : BundleStager m}
      (hcheck : s.stager.verifier.checkPlane C plane.header plane.bytes = .ok n)
      (hverifier : stager.verifier = s.stager.verifier.advance plane.header plane.bytes n) :
      Ingested C s plane permit (.error e { s with stager })
  | staged {n : UInt64} {stager : BundleStager m}
      {r : EStateM.Result HandoffError (StreamingCoordinatorV1 m) (Option LayerReadyV1)}
      (hcheck : s.stager.verifier.checkPlane C plane.header plane.bytes = .ok n)
      (hverifier : stager.verifier = s.stager.verifier.advance plane.header plane.bytes n)
      (hopen : ¬ s.stager.Closed) (hrest : Completed { s with stager } plane permit r) : Ingested C s plane permit r

theorem ingested : Ingested C s ⟨header, payload⟩ permit (ingestPlane C header payload permit writes s) := by
  by_cases hreached : s.terminalPrepared = false ∧ (checkPermit header permit).isOk = true
  · rw [ingestPlane_of_reached hreached.1 hreached.2]
    cases hcheck : s.stager.verifier.checkPlane C header payload with
    | error e => exact .refused
    | ok n =>
      simp only []
      have hverifier := @BundleStager.verifier_writeVerified m
        { s.stager with verifier := s.stager.verifier.advance header payload n } ⟨header, payload⟩ writes
      cases hwrite : BundleStager.writeVerified ⟨header, payload⟩ writes
          { s.stager with verifier := s.stager.verifier.advance header payload n } with
      | error e stager =>
        rw [hwrite] at hverifier
        exact .unstaged hcheck hverifier
      | ok _ stager =>
        rw [hwrite] at hverifier
        exact .staged hcheck hverifier (fun hclosed => BundleStager.not_closed_of_writeVerified hwrite hclosed)
          (completed _)
  · obtain ⟨e, he⟩ := @ingestPlane_of_refused C m s header payload permit writes hreached
    rw [he]
    exact .refused

end StreamingCoordinatorV1

end Kvpack.Handoff
