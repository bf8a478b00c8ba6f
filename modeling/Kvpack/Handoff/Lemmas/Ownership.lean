import Kvpack.Handoff.Lemmas.Ingest
import Kvpack.Handoff.Ownership

/-!
# Permits and reports over a whole session
-/

namespace Kvpack.Handoff

open Base Kvpack.Core IncrementalVerifierV1

variable {C : Crypto} {m : BeginManifestV1} {limits : ValidationLimits}

/-! ## Permits -/

namespace LayerPermitPoolV1

theorem foldl_release {α : Type} (dropped : List α) {pool : LayerPermitPoolV1}
    (htotal : pool.available + pool.inUse = pool.capacity) (hle : dropped.length ≤ pool.inUse) :
    (dropped.foldl (fun pool _ => pool.release) pool).inUse = pool.inUse - dropped.length ∧
      (dropped.foldl (fun pool _ => pool.release) pool).available +
        (dropped.foldl (fun pool _ => pool.release) pool).inUse =
        (dropped.foldl (fun pool _ => pool.release) pool).capacity := by
  induction dropped generalizing pool with
  | nil => exact ⟨rfl, htotal⟩
  | cons _ dropped ih =>
    rw [List.length_cons] at hle
    have hnext : pool.release.available + pool.release.inUse = pool.release.capacity := by
      simp only [release]
      omega
    obtain ⟨hinUse, hrest⟩ := ih hnext (by simp only [release]; omega)
    rw [List.foldl_cons]
    refine ⟨?_, hrest⟩
    rw [hinUse, List.length_cons]
    simp only [release]
    omega

end LayerPermitPoolV1

namespace StreamingCoordinatorV1

variable {s : StreamingCoordinatorV1 m} {c : Call}

def waitingPermit (pending : Option PendingKey) : List LayerPermitV1 := pending.toList.map (·.permit)

theorem Completed.permits {plane : VerifiedPlaneV1} {permit : Option LayerPermitV1}
    {r : EStateM.Result HandoffError (StreamingCoordinatorV1 m) (Option LayerReadyV1)}
    (h : Completed s plane permit r) :
    List.Subperm (waitingPermit (finalState r).pendingKey ++ (Session.reported r).map (·.permit))
      (permit.toList ++ waitingPermit s.pendingKey) := by
  cases h with
  | failed _ hpending =>
    rw [finalState_error, Session.reported, List.map_nil, List.append_nil]
    rcases hpending with heq | hnone
    · rw [heq]
      exact (List.sublist_append_right _ _).subperm
    · rw [hnone]
      exact List.nil_subperm
  | waiting _ hpermit _ _ hnone hpending =>
    rw [finalState_ok, hpending, hpermit, hnone]
    exact List.Subperm.refl _
  | single _ hpermit _ _ hpending =>
    rw [finalState_ok, hpending, hpermit]
    exact List.perm_append_comm.subperm
  | pair _ hkey _ _ _ hpending =>
    rw [finalState_ok, hpending, hkey]
    exact (List.sublist_append_right _ _).subperm

theorem keeps_pendingKey_onStager {α : Type} {pending : Option PendingKey} (x : BundleStager.Action m α) :
    Keeps (fun s => s.pendingKey = pending) (onStager x) := by
  intro s hs
  rw [finalState_onStager]
  exact hs

theorem pendingKey_verifyAndPrepareSeal {manifest : SealManifestV1} {o : SealWrites} :
    (finalState (verifyAndPrepareSeal C manifest o s)).pendingKey = s.pendingKey := by
  have hkeeps : Keeps (fun s' => s'.pendingKey = s.pendingKey) (verifyAndPrepareSeal (m := m) C manifest o) := by
    refine Keeps.bind (fun _ hs' => hs') fun _ => Keeps.bind (keeps_outcome _) fun _ => ?_
    exact Keeps.bind (keeps_pendingKey_onStager _) fun _ => Keeps.bind (fun _ hs' => hs') fun _ _ hs' => hs'
  exact hkeeps s rfl

theorem pendingKey_publish {o : PublishOutcome} : (finalState (publish o s)).pendingKey = s.pendingKey := by
  have hkeeps : Keeps (fun s' => s'.pendingKey = s.pendingKey) (publish (m := m) o) := by
    refine Keeps.bind (fun _ hs' => hs') fun _ => Keeps.bind (keeps_outcome _) fun _ => ?_
    exact keeps_pendingKey_onStager _
  exact hkeeps s rfl

theorem pendingKey_abort {o : RemoveOutcome} : (finalState (abort o s)).pendingKey = none := by
  have hfinal := @finalState_onStager m { s with pendingKey := none } Unit (BundleStager.abort o)
  exact congrArg StreamingCoordinatorV1.pendingKey hfinal

theorem perform_quiet (hplane : c.plane = none) :
    Session.reported (perform C c s) = [] ∧
      ((finalState (perform C c s)).pendingKey = s.pendingKey ∨ (finalState (perform C c s)).pendingKey = none) := by
  have hreported {α : Type} (x : Action m α) : Session.reported ((x >>= fun _ => pure none) s) = [] := by
    cases h : x s with
    | ok a s' => rw [bind_of_ok h]; rfl
    | error e s' => rw [bind_of_error h]; rfl
  cases c with
  | ingestPlane header payload permit writes => cases hplane
  | verifyAndPrepareSeal manifest o =>
    rw [perform, finalState_bind_pure, pendingKey_verifyAndPrepareSeal]
    exact ⟨hreported _, Or.inl rfl⟩
  | publish o =>
    rw [perform, finalState_bind_pure, pendingKey_publish]
    exact ⟨hreported _, Or.inl rfl⟩
  | abort o =>
    rw [perform, finalState_bind_pure, pendingKey_abort]
    exact ⟨hreported _, Or.inr rfl⟩

theorem perform_permits (c : Call) :
    List.Subperm
      (waitingPermit (finalState (perform C c s)).pendingKey ++ (Session.reported (perform C c s)).map (·.permit))
      ((Session.passed c).toList ++ waitingPermit s.pendingKey) := by
  cases hplane : c.plane with
  | none =>
    obtain ⟨hreported, hpending⟩ := @perform_quiet C m s c hplane
    rw [hreported, List.map_nil, List.append_nil]
    rcases hpending with heq | hnone
    · rw [heq]
      exact (List.sublist_append_right _ _).subperm
    · rw [hnone]
      exact List.nil_subperm
  | some plane =>
    cases c with
    | ingestPlane header payload permit writes =>
      have hchange := @ingested C m s header payload permit writes
      rw [perform, Session.passed]
      generalize ingestPlane C header payload permit writes s = r at hchange
      cases hchange with
      | refused | unstaged _ _ =>
        rw [finalState_error, Session.reported, List.map_nil, List.append_nil]
        exact (List.sublist_append_right _ _).subperm
      | staged hcheck hverifier hopen hrest => exact hrest.permits
    | verifyAndPrepareSeal _ _ | publish _ | abort _ => cases hplane

end StreamingCoordinatorV1

namespace Session

variable {w : Session m} {c : SessionCall}

/-- The pool and the owners agree. -/
structure Accounted (w : Session m) : Prop where
  inUse : w.pool.inUse = w.owned.length
  total : w.pool.available + w.pool.inUse = w.pool.capacity
  nodup : w.owned.Nodup
  issued : ∀ permit ∈ w.owned, permit.id < w.issued

theorem onCoordinator_cases (w : Session m) (c : StreamingCoordinatorV1.Call) :
    w.onCoordinator C c = w ∨
      ∃ s, w.coordinator = some s ∧ (∀ permit ∈ passed c, permit ∈ w.held) ∧ w.onCoordinator C c = w.called C s c := by
  unfold onCoordinator
  cases w.coordinator with
  | none => exact Or.inl rfl
  | some s =>
    by_cases hheld : ∀ permit ∈ passed c, permit ∈ w.held
    · exact Or.inr ⟨s, rfl, hheld, if_pos hheld⟩
    · exact Or.inl (if_neg hheld)

theorem owned_called {s : StreamingCoordinatorV1 m} {c : StreamingCoordinatorV1.Call} (hs : w.coordinator = some s)
    (hheld : ∀ permit ∈ passed c, permit ∈ w.held) : List.Subperm (w.called C s c).owned w.owned := by
  have hpermits := @StreamingCoordinatorV1.perform_permits C m s c
  have hback : List.Perm (w.held.diff (passed c).toList ++ (passed c).toList) w.held := by
    cases hpassed : passed c with
    | none => exact List.Perm.of_eq (List.append_nil _)
    | some permit =>
      rw [Option.toList_some, List.diff_cons, List.diff_nil]
      exact List.perm_append_comm.trans (List.perm_cons_erase (hheld permit hpassed)).symm
  have hpending : w.pending = s.pendingKey := by rw [pending, hs, Option.bind_some]
  have hrest := (List.subperm_append_right (w.events.map (·.permit))).mpr
    ((List.subperm_append_left (w.held.diff (passed c).toList)).mpr hpermits)
  have hbefore : List.Perm (w.held.diff (passed c).toList ++ ((passed c).toList ++
      StreamingCoordinatorV1.waitingPermit s.pendingKey) ++ w.events.map (·.permit)) w.owned := by
    rw [owned, hpending, ← List.append_assoc, ← List.append_assoc]
    exact (hback.append_right _).append_right _
  have hafter : List.Perm (w.called C s c).owned (w.held.diff (passed c).toList ++
      (StreamingCoordinatorV1.waitingPermit (finalState (StreamingCoordinatorV1.perform C c s)).pendingKey ++
        (reported (StreamingCoordinatorV1.perform C c s)).map (·.permit)) ++ w.events.map (·.permit)) := by
    simp only [owned, called, pending, Option.bind_some, List.map_append, List.append_assoc]
    exact List.Perm.append_left _ (List.Perm.append_left _ List.perm_append_comm)
  exact hafter.subperm.trans (hrest.trans hbefore.subperm)

/-- Every call but `acquire` only moves permits or gives some up. -/
theorem owned_move (hc : c ≠ .acquire) :
    List.Subperm (w.move C c).owned w.owned ∧ (w.move C c).pool = w.pool ∧ (w.move C c).issued = w.issued := by
  cases c with
  | acquire => exact absurd rfl hc
  | release permit => exact ⟨(List.Sublist.append_right (List.erase_sublist) _).subperm, rfl, rfl⟩
  | call c =>
    rw [move]
    rcases @onCoordinator_cases C m w c with heq | ⟨s, hs, hheld, heq⟩
    · rw [heq]
      exact ⟨List.Subperm.refl _, rfl, rfl⟩
    · rw [heq]
      exact ⟨owned_called hs hheld, rfl, rfl⟩
  | dropCoordinator => exact ⟨(List.Sublist.append_left (List.sublist_append_right _ _) _).subperm, rfl, rfl⟩
  | dropEvent i =>
    refine ⟨List.Sublist.subperm ?_, rfl, rfl⟩
    exact List.Sublist.append_left (List.Sublist.append_left ((List.eraseIdx_sublist _ _).map _) _) _
  | intoParts i =>
    rw [move]
    cases hevent : w.events[i]? with
    | none => exact ⟨List.Subperm.refl _, rfl, rfl⟩
    | some event =>
      refine ⟨List.Perm.subperm ?_, rfl, rfl⟩
      obtain ⟨hlt, rfl⟩ := List.getElem?_eq_some_iff.mp hevent
      have hevents := (List.getElem_cons_eraseIdx_perm hlt).map LayerReadyV1.permit
      rw [List.map_cons] at hevents
      simp only [owned, List.append_assoc, List.singleton_append]
      refine List.Perm.append_left _ ?_
      exact List.perm_middle.symm.trans (List.Perm.append_left _ hevents)

theorem length_diff_of_subperm {l l' : List LayerPermitV1} (h : List.Subperm l' l) :
    l'.length + (l.diff l').length = l.length := by
  have hperm := List.subperm_append_diff_self_of_count_le fun a _ => List.Subperm.count_le h a
  rw [← hperm.length_eq, List.length_append]

theorem owned_step : (w.step C c).owned = (w.move C c).owned := rfl

theorem pool_step : (w.step C c).pool =
    (w.owned.diff (w.move C c).owned).foldl (fun pool _ => pool.release) (w.move C c).pool := rfl

theorem Accounted.acquire (h : w.Accounted) : (w.step C .acquire).Accounted := by
  have hnone (w' : Session m) (hsubset : w.owned ⊆ w'.owned) : w.owned.diff w'.owned = [] := by
    rw [List.eq_nil_iff_forall_not_mem]
    intro permit hpermit
    rw [h.nodup.mem_sdiff_iff] at hpermit
    exact hpermit.2 (hsubset hpermit.1)
  by_cases havailable : w.pool.available = 0
  · have hmove : w.move C .acquire = w := by rw [move, LayerPermitPoolV1.tryAcquire, if_pos havailable]
    have hstep : w.step C .acquire = w := by rw [Session.step, hmove, hnone w (List.Subset.refl _), List.foldl_nil]
    rw [hstep]
    exact h
  · have hmove : w.move C .acquire =
        { w with
          pool := { w.pool with available := w.pool.available - 1, inUse := w.pool.inUse + 1 }
          issued := w.issued + 1
          held := w.held ++ [⟨w.issued⟩] } := by rw [move, LayerPermitPoolV1.tryAcquire, if_neg havailable]
    have howned : List.Perm (w.move C .acquire).owned (⟨w.issued⟩ :: w.owned) := by
      rw [hmove, owned, List.append_assoc]
      exact List.perm_middle
    have hnil := hnone (w.move C .acquire) fun permit hpermit => howned.symm.subset (List.mem_cons_of_mem _ hpermit)
    have hpool : (w.step C .acquire).pool = (w.move C .acquire).pool := by rw [pool_step, hnil, List.foldl_nil]
    refine ⟨?_, ?_, ?_, fun permit hpermit => ?_⟩
    · rw [hpool, owned_step, howned.length_eq, hmove, List.length_cons, h.inUse]
    · have htotal := h.total
      rw [hpool, hmove]
      simp only []
      omega
    · rw [owned_step, howned.nodup_iff, List.nodup_cons]
      exact ⟨fun hmem => absurd (h.issued _ hmem) (Nat.lt_irrefl _), h.nodup⟩
    · have hissued : (w.step C .acquire).issued = w.issued + 1 := by rw [Session.step, hmove]
      rw [hissued]
      rcases List.mem_cons.mp (howned.subset hpermit) with rfl | hold
      · exact Nat.lt_succ_self _
      · exact Nat.lt_succ_of_lt (h.issued permit hold)

theorem Accounted.step (h : w.Accounted) : (w.step C c).Accounted := by
  by_cases hc : c = .acquire
  · rw [hc]
    exact h.acquire
  · obtain ⟨hsub, hpool, hissued⟩ := @owned_move C m w c hc
    have hlength := length_diff_of_subperm hsub
    have hle : (w.owned.diff (w.move C c).owned).length ≤ w.pool.inUse := by
      rw [h.inUse]
      omega
    obtain ⟨hinUse, htotal⟩ := LayerPermitPoolV1.foldl_release (w.owned.diff (w.move C c).owned) h.total hle
    refine ⟨?_, ?_, ?_, fun permit hpermit => ?_⟩
    · rw [pool_step, owned_step, hpool, hinUse, h.inUse]
      omega
    · rw [pool_step, hpool]
      exact htotal
    · obtain ⟨l, hperm, hsublist⟩ := hsub
      exact hperm.nodup_iff.mp (hsublist.nodup h.nodup)
    · have hsame : (w.step C c).issued = w.issued := hissued
      rw [hsame]
      exact h.issued permit (hsub.subset hpermit)

end Session

end Kvpack.Handoff
