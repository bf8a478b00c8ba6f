import Kvpack.Handoff.Coordinator
import Kvpack.Handoff.Lemmas.Staged

/-!
# The coordinator and its stager

Each call on a coordinator is a call on its stager, or does not reach it.
-/

namespace Kvpack.Handoff.StreamingCoordinatorV1

open Base Kvpack.Core

variable {C : Crypto} {m : BeginManifestV1} {limits : ValidationLimits} {s s' : StreamingCoordinatorV1 m}
  {h : History m} {c : Call}
variable {plane : VerifiedPlaneV1} {o : PublishOutcome}

/-- A computation that leaves the stager alone. -/
def LeavesStager {α : Type} (x : Action m α) : Prop := ∀ s, (finalState (x s)).stager = s.stager

theorem leavesStager_bind {α β : Type} {x : Action m α} {f : α → Action m β} (hx : LeavesStager x)
    (hf : ∀ a, LeavesStager (f a)) : LeavesStager (x >>= f) := by
  intro s
  have hfirst := hx s
  cases h : x s with
  | ok a s' =>
    rw [h, finalState_ok] at hfirst
    rw [bind_of_ok h, hf a s', hfirst]
  | error e s' =>
    rw [h, finalState_error] at hfirst
    rw [bind_of_error h, finalState_error, hfirst]

theorem leavesStager_outcome {α : Type} (o : Except HandoffError α) : LeavesStager (outcome o : Action m α) := by
  intro s
  cases o <;> rfl

theorem leavesStager_checkReadyCursor {layer sequence : UInt32} :
    LeavesStager (checkReadyCursor layer sequence : Action m Unit) := by
  refine leavesStager_bind (fun _ => rfl) fun s => ?_
  refine leavesStager_bind (leavesStager_outcome _) fun _ => ?_
  refine leavesStager_bind (leavesStager_outcome _) fun _ => ?_
  exact leavesStager_bind (leavesStager_outcome _) fun _ _ => rfl

theorem leavesStager_completeKey {permit : LayerPermitV1} :
    LeavesStager (completeKey plane permit : Action m (Option LayerReadyV1)) := by
  refine leavesStager_bind (fun _ => rfl) fun s => ?_
  split
  · refine leavesStager_bind (leavesStager_outcome _) fun pair => ?_
    exact leavesStager_bind leavesStager_checkReadyCursor fun _ _ => rfl
  · refine leavesStager_bind (leavesStager_outcome _) fun _ => ?_
    exact leavesStager_bind (fun _ => rfl) fun _ _ => rfl

theorem leavesStager_completeValue :
    LeavesStager (completeValue plane : Action m (Option LayerReadyV1)) := by
  refine leavesStager_bind (fun _ => rfl) fun s => ?_
  refine leavesStager_bind (fun _ => rfl) fun _ => ?_
  refine leavesStager_bind (leavesStager_outcome _) fun key => ?_
  refine leavesStager_bind (leavesStager_outcome _) fun pair => ?_
  exact leavesStager_bind leavesStager_checkReadyCursor fun _ _ => rfl

/-! ## What reaches the stager -/

theorem finalState_onStager {α : Type} {x : BundleStager.Action m α} :
    finalState (onStager x s) = { s with stager := finalState (x s.stager) } := finalState_onPart

theorem onStager_of_ok {α : Type} {x : BundleStager.Action m α} {a : α} {stager : BundleStager m}
    (h : x s.stager = .ok a stager) : onStager x s = .ok a { s with stager } := onPart_of_ok h

theorem onStager_of_error {α : Type} {x : BundleStager.Action m α} {e : HandoffError} {stager : BundleStager m}
    (h : x s.stager = .error e stager) : onStager x s = .error e { s with stager } := onPart_of_error h

theorem leavesStager_complete {permit : Option LayerPermitV1} :
    LeavesStager (complete plane permit : Action m (Option LayerReadyV1)) := by
  unfold complete
  split
  · exact leavesStager_completeKey
  · exact leavesStager_completeValue

variable {header : LayerHeaderV1} {payload : Bytes} {permit : Option LayerPermitV1} {writes : PlaneWrites}
  {manifest : SealManifestV1} {n : UInt64}

theorem ingestPlane_of_refused (h : ¬ (s.terminalPrepared = false ∧ (checkPermit header permit).isOk = true)) :
    ∃ e, ingestPlane C header payload permit writes s = .error e s := by
  rw [ingestPlane, get_bind_apply, bind_apply]
  cases hterminal : s.terminalPrepared with
  | true => exact ⟨_, rfl⟩
  | false =>
    rw [rejectIf, if_neg Bool.false_ne_true]
    simp only [outcome_ok, bind_apply]
    cases hpermit : checkPermit header permit with
    | ok _ => exact absurd ⟨hterminal, by rw [hpermit]; rfl⟩ h
    | error e => exact ⟨e, rfl⟩

theorem ingestPlane_of_reached (hterminal : s.terminalPrepared = false)
    (hpermit : (checkPermit header permit).isOk = true) :
    ingestPlane C header payload permit writes s =
      match s.stager.verifier.checkPlane C header payload with
      | .error e => .error e s
      | .ok n =>
        match BundleStager.writeVerified ⟨header, payload⟩ writes
          { s.stager with verifier := s.stager.verifier.advance header payload n } with
        | .error e stager => .error e { s with stager }
        | .ok _ stager => complete ⟨header, payload⟩ permit { s with stager } := by
  obtain ⟨_, hok⟩ : ∃ u, checkPermit header permit = .ok u := by
    cases h : checkPermit header permit with
    | ok u => exact ⟨u, rfl⟩
    | error e =>
      rw [h] at hpermit
      cases hpermit
  rw [ingestPlane, get_bind_apply, bind_apply, rejectIf, if_neg (by simp [hterminal])]
  simp only [outcome_ok]
  rw [hok, bind_apply]
  simp only [outcome_ok]
  have hverify := @BundleStager.onVerifier_verifyPlane C m s.stager header payload
  cases hcheck : s.stager.verifier.checkPlane C header payload with
  | error e =>
    rw [hcheck] at hverify
    rw [bind_of_error (onStager_of_error hverify)]
  | ok n =>
    rw [hcheck] at hverify
    rw [bind_of_ok (onStager_of_ok hverify)]
    simp only [BundleStager.stageSharedVerified]
    cases hwrite : BundleStager.writeVerified ⟨header, payload⟩ writes
        { s.stager with verifier := s.stager.verifier.advance header payload n } with
    | ok _ stager => rw [bind_of_ok (onStager_of_ok hwrite)]
    | error e stager => rw [bind_of_error (onStager_of_error hwrite)]

theorem stager_perform (c : Call) :
    (finalState (perform C c s)).stager =
      match s.stagerCall c with
      | some c' => finalState (BundleStager.perform C c' s.stager)
      | none => s.stager := by
  cases c with
  | ingestPlane header payload permit writes =>
    rw [perform, stagerCall]
    by_cases hreached : s.terminalPrepared = false ∧ (checkPermit header permit).isOk = true
    · rw [if_pos hreached, ingestPlane_of_reached hreached.1 hreached.2]
      have hfinal := @BundleStager.finalState_plane C m s.stager (.ingest header payload writes) _ _ rfl
      simp only [hfinal]
      cases s.stager.verifier.checkPlane C header payload with
      | error e => rfl
      | ok n =>
        simp only []
        cases BundleStager.writeVerified ⟨header, payload⟩ writes
            { s.stager with verifier := s.stager.verifier.advance header payload n } with
        | ok _ stager => exact leavesStager_complete _
        | error e stager => rfl
    · obtain ⟨e, he⟩ := @ingestPlane_of_refused C m s header payload permit writes hreached
      rw [if_neg hreached, he]
      rfl
  | verifyAndPrepareSeal manifest o =>
    rw [perform, stagerCall, finalState_bind_pure, verifyAndPrepareSeal, get_bind_apply, bind_apply]
    cases hpending : s.pendingKey with
    | some key => rfl
    | none =>
      rw [rejectIf, if_neg (by simp), if_pos rfl]
      simp only [outcome_ok]
      rw [BundleStager.perform, finalState_bind_pure]
      cases hseal : BundleStager.sharedSeal C manifest o s.stager with
      | ok verified stager =>
        rw [bind_of_ok (onStager_of_ok hseal)]
        rfl
      | error e stager =>
        rw [bind_of_error (onStager_of_error hseal)]
        rfl
  | publish o =>
    rw [perform, stagerCall, finalState_bind_pure, publish, get_bind_apply, bind_apply]
    cases hterminal : s.terminalPrepared with
    | false => rfl
    | true =>
      rw [rejectIf, if_neg (by simp), if_pos rfl]
      simp only [outcome_ok, finalState_onStager]
      rfl
  | abort o =>
    rw [perform, stagerCall, finalState_bind_pure, abort]
    have hfinal := @finalState_onStager m { s with pendingKey := none } Unit (BundleStager.abort o)
    exact congrArg StreamingCoordinatorV1.stager hfinal

theorem planes_stagerCall (c : Call) {c' : BundleStager.Call} (hc : s.stagerCall c = some c') :
    c'.plane.map (·.1) = c.plane := by
  cases c with
  | ingestPlane _ _ _ _ | verifyAndPrepareSeal _ _ | publish _ =>
    rw [stagerCall, Option.ite_none_right_eq_some] at hc
    obtain ⟨-, hc⟩ := hc
    cases hc
    rfl
  | abort o =>
    cases hc
    rfl

theorem onStager_step (c : Call) :
    (h.step C c).onStager =
      match h.coordinator.stagerCall c with
      | some c' => h.onStager.step C c'
      | none => h.onStager := by
  have hstager := @stager_perform C m h.coordinator c
  rw [History.step, History.onStager]
  simp only [hstager]
  cases hc : h.coordinator.stagerCall c with
  | none =>
    simp only [BundleStager.recordPlane, lt_irrefl, ↓reduceIte]
    rfl
  | some c' =>
    rw [← planes_stagerCall c hc]
    rfl

theorem publish_succeeded (hok : succeeded (perform C (.publish o) s) = true) :
    s.stagerCall (.publish o) = some (.publish o) ∧
      succeeded (BundleStager.perform C (.publish o) s.stager) = true := by
  rw [perform, publish, bind_assoc, get_bind_apply, bind_assoc, bind_apply] at hok
  cases hterminal : s.terminalPrepared with
  | false =>
    rw [hterminal] at hok
    cases hok
  | true =>
    refine ⟨by rw [stagerCall, if_pos hterminal], ?_⟩
    rw [hterminal, rejectIf, if_neg (by simp)] at hok
    simp only [outcome_ok] at hok
    cases hpublish : BundleStager.publish o s.stager with
    | error e stager =>
      rw [bind_of_error (onStager_of_error hpublish)] at hok
      cases hok
    | ok _ stager =>
      rw [BundleStager.perform, hpublish]
      rfl

/-- The same of a coordinator, which reaches the directory through its stager. -/
theorem published_iff {calls : List Call} (ha : m.Accepted limits)
    (hs : BundleStager.Sound C limits h.onStager)
    (hok : succeeded (perform C (.publish o) (run (History.step C) h calls).coordinator) = true) :
    (run (History.step C) h (calls ++ [.publish o])).onStager.Published ↔
      Along (History.step C) (LosesNothing C) h (calls ++ [.publish o]) := by
  have hstep {P : BundleStager.History m → Prop} (h : History m) (c : Call) (hnone : P h.onStager)
      (hsome : ∀ c', h.coordinator.stagerCall c = some c' → P (h.onStager.step C c')) : P (h.step C c).onStager := by
    rw [onStager_step]
    cases hc : h.coordinator.stagerCall c with
    | none => exact hnone
    | some c' => exact hsome c' hc
  have hlose (h : History m) (c : Call) (hgood : BundleStager.Sound C limits h.onStager)
      (hlost : ¬ LosesNothing C h c) : BundleStager.Unsound C limits (h.step C c).onStager := by
    simp only [LosesNothing, not_forall] at hlost
    obtain ⟨c', hc, hlost⟩ := hlost
    rw [onStager_step, Option.mem_def.mp hc]
    exact hgood.lost ha hlost
  have hrun : (Along (History.step C) (LosesNothing C) h calls ∧
        BundleStager.Sound C limits (run (History.step C) h calls).onStager) ∨
      (¬ Along (History.step C) (LosesNothing C) h calls ∧
        BundleStager.Unsound C limits (run (History.step C) h calls).onStager) :=
    run_dichotomy (P := fun h => BundleStager.Sound C limits h.onStager)
      (Q := fun h => BundleStager.Unsound C limits h.onStager)
      (fun h c hgood hok => hstep h c hgood fun c' hc => hgood.step ha (hok c' hc)) hlose
      (fun h c hbad => hstep h c hbad fun c' hc => hbad.step ha) hs
  obtain ⟨hcall, hok⟩ := publish_succeeded hok
  rw [run_append, along_append]
  have hlast : (run (History.step C) (run (History.step C) h calls) [.publish o]).onStager =
      (run (History.step C) h calls).onStager.step C (.publish o) := by
    rw [run_cons, run_nil, onStager_step, hcall]
  rw [hlast]
  rcases hrun with ⟨halong, hgood⟩ | ⟨halong, hbad⟩
  · refine iff_of_true (hgood.published ha rfl hok) ⟨halong, fun c' hc => ?_, trivial⟩
    cases hcall.symm.trans hc
    trivial
  · exact iff_of_false (hbad.not_published ha rfl hok) fun h => halong h.1

end Kvpack.Handoff.StreamingCoordinatorV1
