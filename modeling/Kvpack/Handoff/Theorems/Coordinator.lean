import Kvpack.Handoff.Lemmas.Reports
import Kvpack.Handoff.Theorems.Bundle
import Kvpack.Handoff.Theorems.Manifest

/-!
# The coordinator reports each layer once and loses no permit
-/

namespace Kvpack.Handoff.Session

open Base Kvpack.Core BeginManifestV1 IncrementalVerifierV1

variable {C : Crypto} {m : BeginManifestV1} {limits : ValidationLimits} {w : Session m} {s : StreamingCoordinatorV1 m}
  {pool : LayerPermitPoolV1}

theorem verifyAndPrepareSeal_checked {manifest : SealManifestV1} {o : SealWrites}
    (hok : succeeded (StreamingCoordinatorV1.verifyAndPrepareSeal C manifest o s) = true) :
    ∃ verified, s.stager.verifier.checkSeal C manifest = .ok verified := by
  cases hcheck : s.stager.verifier.checkSeal C manifest with
  | ok verified => exact ⟨verified, rfl⟩
  | error e =>
    have hverify := @BundleStager.onVerifier_verifySeal C m s.stager manifest
    rw [hcheck] at hverify
    have hshared : BundleStager.sharedSeal C manifest o s.stager = .error e s.stager := bind_of_error hverify
    rw [StreamingCoordinatorV1.verifyAndPrepareSeal, get_bind_apply, bind_apply] at hok
    by_cases hpending : s.pendingKey.isSome = true
    · rw [rejectIf, if_pos hpending] at hok
      cases hok
    · rw [rejectIf, if_neg hpending] at hok
      simp only [outcome_ok] at hok
      rw [bind_of_error (StreamingCoordinatorV1.onStager_of_error hshared)] at hok
      cases hok

theorem places_eq {planes : List VerifiedPlaneV1} {v : IncrementalVerifierV1 m} (ha : m.Accepted limits)
    (hv : Verified C limits planes v) (hlength : planes.length = m.planes.length) :
    planes.map (fun p => (p.header.layer, p.header.role)) = m.planes.map fun p => (p.layer, p.role) := by
  refine List.ext_getElem? fun i => ?_
  rw [List.getElem?_map, List.getElem?_map]
  cases hp : planes[i]? with
  | none =>
    have hnone : m.planes[i]? = none := by
      rw [List.getElem?_eq_none_iff] at hp ⊢
      omega
    rw [hnone]
    rfl
  | some p =>
    obtain ⟨spec, hspec, hlayer, hrole, -⟩ := hv.place ha hp
    rw [hspec, Option.map_some, Option.map_some, hlayer, hrole]

theorem Consistent.exact (ha : m.Accepted limits) (h : w.Consistent C limits) (hacc : w.Accounted) : w.Exact C := by
  obtain ⟨v, hv⟩ := h.verified
  refine ⟨?_, h.reports.ordered, fun e he i spec hspec hlayer => ?_, hv.rules, fun s manifest o hs hok => ?_,
    hacc.inUse, ?_⟩
  · refine List.pairwise_map.mpr (h.reports.ordered.imp_of_mem fun he he' hlt hlayer => ?_)
    have hsame := (h.reports.event _ he).sequence_eq ha hv (h.reports.event _ he') hlayer
    rw [hsame] at hlt
    exact absurd hlt (UInt32.lt_irrefl _)
  · exact (h.reports.event e he).complete ha hv hspec hlayer
  · obtain ⟨verified, hcheck⟩ := verifyAndPrepareSeal_checked hok
    have hseal := ((h.tracked s hs).verified.seal_ok hcheck).2.1
    exact ⟨⟨hv.rules, hseal⟩, places_eq ha hv (length_of_sealRules ha hseal)⟩
  · have htotal := hacc.total
    omega

theorem start_sound {capacity : Nat} (hpool : LayerPermitPoolV1.new capacity = .ok pool)
    (hcreate : StreamingCoordinatorV1.create m limits = .ok s) :
    m.Accepted limits ∧ (start pool s).Consistent C limits ∧ (start pool s).Accounted := by
  simp only [LayerPermitPoolV1.new, bind_eq_ok, exists_unit, pure_eq_ok] at hpool
  obtain ⟨-, rfl⟩ := hpool
  simp only [StreamingCoordinatorV1.create, bind_eq_ok, pure_eq_ok] at hcreate
  obtain ⟨stager, hstager, rfl⟩ := hcreate
  obtain ⟨ha, hs⟩ := @BundleStager.create_eq_ok C m limits stager hstager
  refine ⟨ha, ⟨⟨_, hs.1.verified⟩, fun s' hs' => ?_, ⟨fun _ he => (by cases he), .nil, fun _ hk => by cases hk⟩⟩,
    ⟨rfl, Nat.add_zero _, List.nodup_nil, fun _ hp => by cases hp⟩⟩
  cases hs'
  exact hs.1

/-- What holds at every time of every run. -/
theorem run_sound {calls : List SessionCall} (ha : m.Accepted limits)
    (h : w.Consistent C limits ∧ w.Accounted) :
    (run (step C) w calls).Consistent C limits ∧ (run (step C) w calls).Accounted :=
  run_invariant (P := fun w : Session m => w.Consistent C limits ∧ w.Accounted)
    (fun _ _ h => ⟨h.1.step ha, h.2.step⟩) h

theorem run_ended {calls : List SessionCall} (ha : m.Accepted limits) (hc : w.Consistent C limits) (h : w.Ended) :
    (run (step C) w calls).Ended :=
  (run_invariant (P := fun w : Session m => w.Consistent C limits ∧ w.Ended)
    (fun _ _ h => ⟨h.1.step ha, h.2.step ha h.1⟩) ⟨hc, h⟩).2

theorem ended_of_none (h : w.coordinator = none) : w.Ended := by
  rw [Ended, pending, h]
  exact ⟨rfl, fun s hs => by cases hs⟩

/-- The pending key is given up by an end, for good when it succeeds. -/
theorem ended_of_abort {o : RemoveOutcome} :
    (w.step C (.call (.abort o))).pending = none ∧
      ((∀ s, w.coordinator = some s → succeeded (StreamingCoordinatorV1.perform C (.abort o) s) = true) →
        (w.step C (.call (.abort o))).Ended) := by
  have hcalled : w.onCoordinator C (.abort o) =
      w.coordinator.elim w fun s => w.called C s (.abort o) := by
    unfold onCoordinator
    cases w.coordinator with
    | none => rfl
    | some s => exact if_pos fun _ hp => by cases hp
  have hstep : (w.step C (.call (.abort o))).coordinator = (w.onCoordinator C (.abort o)).coordinator := rfl
  cases hs : w.coordinator with
  | none =>
    rw [hs] at hcalled
    have hafter : (w.step C (.call (.abort o))).coordinator = none := by rw [hstep, hcalled, Option.elim_none, hs]
    exact ⟨(ended_of_none hafter).1, fun _ => ended_of_none hafter⟩
  | some s =>
    rw [hs] at hcalled
    have hafter : (w.step C (.call (.abort o))).coordinator =
        some (finalState (StreamingCoordinatorV1.perform C (.abort o) s)) := by
      rw [hstep, hcalled]
      rfl
    have hnone : (w.step C (.call (.abort o))).pending = none := by
      rw [pending, hafter, Option.bind_some, StreamingCoordinatorV1.perform, finalState_bind_pure,
        StreamingCoordinatorV1.pendingKey_abort]
    refine ⟨hnone, fun hok => ⟨hnone, fun s' hs' => ?_⟩⟩
    rw [hafter] at hs'
    cases hs'
    have hstager := @StreamingCoordinatorV1.stager_perform C m s (.abort o)
    rw [hstager]
    refine BundleStager.closed_of_abort ?_
    have hsucceeded := hok s rfl
    cases habort : BundleStager.abort o s.stager with
    | ok _ stager => rfl
    | error e stager =>
      have herror : StreamingCoordinatorV1.abort o s = .error e { s with stager := stager, pendingKey := none } :=
        StreamingCoordinatorV1.onStager_of_error (s := { s with pendingKey := none }) habort
      rw [StreamingCoordinatorV1.perform, bind_of_error herror] at hsucceeded
      cases hsucceeded

/-- Every run of calls reports each layer at most once, in order and complete, and keeps the permits with their
owners; after an end only those of the caller are left. -/
theorem coordinator_exact {capacity : Nat} (hpool : LayerPermitPoolV1.new capacity = .ok pool)
    (hcreate : StreamingCoordinatorV1.create m limits = .ok s) :
    (∀ calls, (run (step C) (start pool s) calls).Exact C) ∧
      (∀ calls calls', (run (step C) (start pool s) (calls ++ .dropCoordinator :: calls')).held = [] →
        (run (step C) (start pool s) (calls ++ .dropCoordinator :: calls')).events = [] →
        (run (step C) (start pool s) (calls ++ .dropCoordinator :: calls')).pool.inUse = 0) ∧
      ∀ calls o calls',
        (calls' = [] ∨ ∀ s', (run (step C) (start pool s) calls).coordinator = some s' →
          succeeded (StreamingCoordinatorV1.perform C (.abort o) s') = true) →
        (run (step C) (start pool s) (calls ++ .call (.abort o) :: calls')).held = [] →
        (run (step C) (start pool s) (calls ++ .call (.abort o) :: calls')).events = [] →
        (run (step C) (start pool s) (calls ++ .call (.abort o) :: calls')).pool.inUse = 0 := by
  obtain ⟨ha, hstart⟩ := @start_sound C m limits s pool capacity hpool hcreate
  have hsound (calls : List SessionCall) := @run_sound C m limits (start pool s) calls ha hstart
  refine ⟨fun calls => (hsound calls).1.exact ha (hsound calls).2, fun calls calls' hheld hevents => ?_,
    fun calls o calls' hend hheld hevents => ?_⟩
  · refine (hsound _).2.inUse_eq_zero ?_ hheld hevents
    rw [run_append, run_cons]
    exact (run_ended ha ((hsound calls).1.step ha) (ended_of_none rfl)).1
  · refine (hsound _).2.inUse_eq_zero ?_ hheld hevents
    rw [run_append, run_cons]
    obtain ⟨hnone, hended⟩ := @ended_of_abort C m (run (step C) (start pool s) calls) o
    rcases hend with rfl | hok
    · exact hnone
    · exact (run_ended ha ((hsound calls).1.step ha) (hended hok)).1

/-- A transfer of three layers. -/
theorem windowed_exact :
    ∃ s, LayerPermitPoolV1.new 2 = .ok .experimentV2 ∧ StreamingCoordinatorV1.create windowed preropeLimits = .ok s ∧
      ∀ calls, (run (step checksumCrypto) (start .experimentV2 s) calls).Exact checksumCrypto := by
  have hvalid : windowed.validate preropeLimits = .ok () := by decide
  have hcreate : (StreamingCoordinatorV1.create windowed preropeLimits).isOk := by
    rw [StreamingCoordinatorV1.create, BundleStager.create, hvalid, IncrementalVerifierV1.new, hvalid]
    rfl
  obtain ⟨s, hcreate⟩ := exists_ok_of_isOk hcreate
  have hpool : LayerPermitPoolV1.new 2 = .ok .experimentV2 := rfl
  exact ⟨s, hpool, hcreate, (coordinator_exact hpool hcreate).1⟩

end Kvpack.Handoff.Session
