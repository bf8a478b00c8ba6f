import Kvpack.Handoff.Lemmas.Bundle

/-!
# Whether a staged directory is still good

A history is good while everything that the publication relies on is in the private directory, and spoiled once
something is missing. Only a call that loses something leads from the first to the second.
-/

namespace Kvpack.Handoff.BundleStager

open Base Kvpack.Core IncrementalVerifierV1

variable {C : Crypto} {m : BeginManifestV1} {limits : ValidationLimits} {s s' : BundleStager m} {h h' : History m}
  {c : Call} {p : VerifiedPlaneV1} {w : PlaneWrites} {manifest : SealManifestV1} {dir : StagedDir} {o : RemoveOutcome}

/-- The stager and its directory fit the planes that were accepted. -/
structure Tracked (C : Crypto) (limits : ValidationLimits) (h : History m) : Prop where
  verified : Verified C limits h.planes h.stager.verifier
  prepared : h.stager.prepared.isSome = true → h.stager.verifier.isSealed = true
  committed : h.stager.committed = true → h.stager.prepared.isSome = true
  /-- There are no files of planes that were not accepted. -/
  fresh : ∀ dir, h.stager.staging = some dir → ∀ layer role,
    (∀ p ∈ h.planes, ¬ (p.header.layer = layer ∧ p.header.role = role)) →
      dir.files.get? (.header layer role) = none ∧ dir.files.get? (.payload layer role) = none

/-- The private directory has all that is needed, while it can still be published. -/
def Good (h : History m) : Prop :=
  h.stager.aborted = false → ∀ dir, h.stager.staging = some dir → dir.layers = true →
    dir.Intact m h.planes h.stager.prepared

def Spoiled (h : History m) : Prop :=
  ∀ dir, h.stager.staging = some dir → dir.layers = true → ¬ dir.Intact m h.planes h.stager.prepared

theorem Tracked.unprepared (ht : Tracked C limits h) (hsealed : h.stager.verifier.isSealed = false) :
    h.stager.prepared = none ∧ h.stager.committed = false := by
  have hprepared : ¬ h.stager.prepared.isSome = true := fun hsome =>
    absurd (hsealed.symm.trans (ht.prepared hsome)) Bool.false_ne_true
  exact ⟨Option.not_isSome_iff_eq_none.mp hprepared, Bool.not_eq_true _ ▸ mt ht.committed hprepared⟩

theorem Tracked.restage (ht : Tracked C limits h) {s' : BundleStager m}
    (hverified : Verified C limits h.planes s'.verifier)
    (hprepared : s'.prepared.isSome = true → s'.verifier.isSealed = true)
    (hcommitted : s'.committed = true → s'.prepared.isSome = true)
    (hfiles : ∀ dir', s'.staging = some dir' → ∃ dir, h.stager.staging = some dir ∧ ∀ path, path.inLayers = true →
      dir.files.get? path = none → dir'.files.get? path = none) : Tracked C limits ⟨s', h.planes⟩ := by
  refine ⟨hverified, hprepared, hcommitted, fun dir' hdir' layer role hnew => ?_⟩
  obtain ⟨dir, hdir, hnone⟩ := hfiles dir' hdir'
  obtain ⟨hheader, hpayload⟩ := ht.fresh dir hdir layer role hnew
  exact ⟨hnone (.header layer role) rfl hheader, hnone (.payload layer role) rfl hpayload⟩

/-! ## Calls that bring no plane -/

/-- The directory is as good afterwards as it was before. -/
structure Frame (h h' : History m) : Prop where
  aborted : h'.stager.aborted = h.stager.aborted
  intact : ∀ dir', h'.stager.staging = some dir' → ∃ dir, h.stager.staging = some dir ∧ dir'.layers = dir.layers ∧
    (dir'.Intact m h'.planes h'.stager.prepared ↔ dir.Intact m h.planes h.stager.prepared)

theorem Frame.refl : Frame h h := ⟨rfl, fun dir hdir => ⟨dir, hdir, rfl, Iff.rfl⟩⟩

theorem Frame.trans {h'' : History m} (h₁ : Frame h h') (h₂ : Frame h' h'') : Frame h h'' := by
  refine ⟨h₂.aborted.trans h₁.aborted, fun dir'' hdir'' => ?_⟩
  obtain ⟨dir', hdir', hlayers', hintact'⟩ := h₂.intact dir'' hdir''
  obtain ⟨dir, hdir, hlayers, hintact⟩ := h₁.intact dir' hdir'
  exact ⟨dir, hdir, hlayers'.trans hlayers, hintact'.trans hintact⟩

theorem Frame.good (hf : Frame h h') (hg : Good h) : Good h' := by
  intro haborted dir' hdir' hlayers'
  obtain ⟨dir, hdir, hlayers, hintact⟩ := hf.intact dir' hdir'
  exact hintact.mpr (hg (hf.aborted ▸ haborted) dir hdir (hlayers ▸ hlayers'))

theorem Frame.spoiled (hf : Frame h h') (hs : Spoiled h) : Spoiled h' := by
  intro dir' hdir' hlayers' hholds
  obtain ⟨dir, hdir, hlayers, hintact⟩ := hf.intact dir' hdir'
  exact hs dir hdir (hlayers ▸ hlayers') (hintact.mp hholds)

theorem intact_afterWrite {planes : List VerifiedPlaneV1} {prepared : Option SealManifestV1} {path : BundlePath}
    {bytes : Bytes} {o : WriteOutcome} (hpath : ¬ Needed planes prepared path) :
    (dir.afterWrite path bytes o).Intact m planes prepared ↔ dir.Intact m planes prepared := by
  refine StagedDir.intact_congr fun path' hneeded => StagedDir.get?_afterWrite_of_ne ?_
  rintro rfl
  exact hpath hneeded

theorem absent_afterWrite {path path' : BundlePath} {bytes : Bytes} {o : WriteOutcome} (hpath : path.inLayers = false)
    (hpath' : path'.inLayers = true) (habsent : dir.files.get? path' = none) :
    (dir.afterWrite path bytes o).files.get? path' = none := by
  rw [StagedDir.get?_afterWrite_of_ne, habsent]
  rintro rfl
  exact absurd (hpath.symm.trans hpath') Bool.false_ne_true

theorem SealChange.frame (hchange : SealChange manifest h.stager s') (hprepared : h.stager.prepared = none) :
    Frame h ⟨s', h.planes⟩ := by
  have hneeded : ¬ Needed h.planes none .terminal := nofun
  cases hchange with
  | none_ => exact .refl
  | file hstaging habsent =>
    refine ⟨rfl, fun dir' hdir' => ⟨_, hstaging, ?_⟩⟩
    cases hdir'
    exact ⟨StagedDir.layers_afterWrite, intact_afterWrite (hprepared.symm ▸ hneeded)⟩
  | prepared hstaging habsent =>
    refine ⟨rfl, fun dir' hdir' => ⟨_, hstaging, ?_⟩⟩
    cases hdir'
    rw [hprepared]
    refine ⟨StagedDir.layers_afterWrite, ?_⟩
    rw [StagedDir.intact_prepared, intact_afterWrite hneeded, StagedDir.get?_afterWrite_self habsent]
    exact and_iff_left rfl

theorem SealChange.tracked (hchange : SealChange manifest h.stager s') (ht : Tracked C limits h)
    (hsealed : h.stager.verifier.isSealed = true) : Tracked C limits ⟨s', h.planes⟩ := by
  cases hchange with
  | none_ => exact ht
  | file hstaging habsent =>
    refine ht.restage ht.verified ht.prepared ht.committed fun dir' hdir' => ⟨_, hstaging, fun path hpath hnone => ?_⟩
    cases hdir'
    exact absent_afterWrite rfl hpath hnone
  | prepared hstaging habsent =>
    refine ht.restage ht.verified (fun _ => hsealed) (fun _ => rfl) fun dir' hdir' =>
      ⟨_, hstaging, fun path hpath hnone => ?_⟩
    cases hdir'
    exact absent_afterWrite rfl hpath hnone

theorem PublishChange.frame {b : Bool} (hchange : PublishChange h.stager b s') : Frame h ⟨s', h.planes⟩ := by
  cases hchange with
  | none_ => exact .refl
  | marker hstaging habsent =>
    refine ⟨rfl, fun dir' hdir' => ⟨_, hstaging, ?_⟩⟩
    cases hdir'
    exact ⟨StagedDir.layers_afterWrite, intact_afterWrite id⟩
  | renamed _ haborted hprepared hstaging hlayers habsent => exact ⟨rfl, nofun⟩

theorem PublishChange.tracked {b : Bool} (hchange : PublishChange h.stager b s') (ht : Tracked C limits h) :
    Tracked C limits ⟨s', h.planes⟩ := by
  cases hchange with
  | none_ => exact ht
  | marker hstaging habsent =>
    refine ht.restage ht.verified ht.prepared ht.committed fun dir' hdir' => ⟨_, hstaging, fun path hpath hnone => ?_⟩
    cases hdir'
    exact absent_afterWrite rfl hpath hnone
  | renamed _ haborted hprepared hstaging hlayers habsent =>
    exact ht.restage ht.verified ht.prepared (fun _ => hprepared ▸ rfl) nofun

/-- The verifier has accepted a seal; nothing else has happened. -/
def markSealed (s : BundleStager m) : BundleStager m := { s with verifier := { s.verifier with isSealed := true } }

theorem Tracked.terminal (ht : Tracked C limits h) {verified : VerifiedSealV1}
    (hcheck : h.stager.verifier.checkSeal C manifest = .ok verified) :
    Tracked C limits ⟨h.stager.markSealed, h.planes⟩ :=
  ht.restage (ht.verified.seal_ok hcheck).1 (fun _ => rfl) ht.committed fun dir hdir => ⟨dir, hdir, fun _ _ => id⟩

theorem onVerifier_verifySeal :
    onVerifier (verifySeal C manifest) s =
      match s.verifier.checkSeal C manifest with
      | .ok verified => .ok verified s.markSealed
      | .error e => .error e s := by
  have happly := @verifySeal_apply C m manifest s.verifier
  cases hcheck : s.verifier.checkSeal C manifest with
  | ok n =>
    rw [hcheck] at happly
    exact onPart_of_ok happly
  | error e =>
    rw [hcheck] at happly
    exact onPart_of_error happly

/-- What a call with a seal has done before it comes to a publication. -/
inductive Prepared (C : Crypto) (s : BundleStager m) : BundleStager m → Prop where
  | refused : Prepared C s s
  | accepted {manifest : SealManifestV1} {verified : VerifiedSealV1} {s' : BundleStager m}
      (hcheck : s.verifier.checkSeal C manifest = .ok verified)
      (hchange : SealChange verified.manifest s.markSealed s') : Prepared C s s'

theorem Prepared.sound (hchange : Prepared C h.stager s') (ht : Tracked C limits h) :
    Frame h ⟨s', h.planes⟩ ∧ Tracked C limits ⟨s', h.planes⟩ := by
  cases hchange with
  | refused => exact ⟨.refl, ht⟩
  | accepted hcheck hchange =>
    have hprepared := (ht.unprepared (ht.verified.seal_ok hcheck).2.2.1).1
    have hframe : Frame h ⟨h.stager.markSealed, h.planes⟩ := ⟨rfl, fun dir hdir => ⟨dir, hdir, rfl, Iff.rfl⟩⟩
    have hnext := SealChange.frame (h := ⟨h.stager.markSealed, h.planes⟩) hchange hprepared
    exact ⟨hframe.trans hnext, SealChange.tracked (h := ⟨h.stager.markSealed, h.planes⟩) hchange (ht.terminal hcheck)
      rfl⟩

theorem prepareSeal_prepared {verified : VerifiedSealV1} {o : SealWrites} :
    Prepared C s (finalState (prepareSeal C verified o s)) := by
  rw [prepareSeal, get_bind_apply, bind_apply, rejectIf]
  split_ifs
  · exact .refused
  · simp only [outcome_ok]
    rw [bind_apply, onVerifier_verifySeal]
    cases hcheck : s.verifier.checkSeal C verified.manifest with
    | error e => exact .refused
    | ok locally_ =>
      simp only [bind_apply]
      rw [rejectIf]
      split_ifs with hsame
      · exact .accepted hcheck .none_
      · cases not_not.mp hsame
        exact .accepted hcheck writePreparedSeal_change

theorem sharedSeal_prepared {o : SealWrites} : Prepared C s (finalState (sharedSeal C manifest o s)) := by
  rw [sharedSeal, bind_apply, onVerifier_verifySeal]
  cases hcheck : s.verifier.checkSeal C manifest with
  | error e => exact .refused
  | ok verified =>
    simp only [finalState_bind_pure]
    rw [prepareSharedSeal, get_bind_apply, bind_apply, rejectIf]
    split_ifs
    · exact .accepted hcheck .none_
    · exact .accepted hcheck writePreparedSeal_change

theorem sealAndPublish_prepared {o : SealWrites} {q : PublishOutcome} :
    ∃ s', Prepared C s s' ∧ PublishChange s' (succeeded (sealAndPublish C manifest o q s))
      (finalState (sealAndPublish C manifest o q s)) := by
  rw [sealAndPublish, get_bind_apply, bind_apply, rejectIf]
  split_ifs
  · exact ⟨s, .refused, .none_⟩
  · simp only [outcome_ok]
    rw [bind_apply, onVerifier_verifySeal]
    cases hcheck : s.verifier.checkSeal C manifest with
    | error e => exact ⟨s, .refused, .none_⟩
    | ok verified =>
      have hchange := @writePreparedSeal_change m s.markSealed verified.manifest o
      simp only [bind_apply]
      cases hwrite : writePreparedSeal verified.manifest o s.markSealed with
      | ok _ s' =>
        rw [hwrite] at hchange
        exact ⟨s', .accepted hcheck hchange, publish_change⟩
      | error e s' =>
        rw [hwrite] at hchange
        exact ⟨s', .accepted hcheck hchange, .none_⟩

/-- A call that is neither a plane nor an end: it prepares a seal, publishes, or both. -/
theorem perform_other (hplane : c.plane = none) (habort : ∀ o, c ≠ .abort o) :
    ∃ s' b, Prepared C s s' ∧ PublishChange s' b (finalState (perform C c s)) ∧
      (c.publishes = true → b = succeeded (perform C c s)) := by
  cases c with
  | ingest _ _ _ | stageVerified _ _ => cases hplane
  | prepareSeal verified o => exact ⟨_, false, prepareSeal_prepared, .none_, nofun⟩
  | sharedSeal manifest o =>
    refine ⟨_, false, @sharedSeal_prepared C m s manifest o, ?_, nofun⟩
    have hfinal : finalState (perform C (.sharedSeal manifest o) s) = finalState (sharedSeal C manifest o s) :=
      finalState_bind_pure
    rw [hfinal]
    exact .none_
  | sealAndPublish manifest o p =>
    obtain ⟨s', hprepared, hchange⟩ := @sealAndPublish_prepared C m s manifest o p
    exact ⟨s', _, hprepared, hchange, fun _ => rfl⟩
  | publish p => exact ⟨s, _, .refused, publish_change, fun _ => rfl⟩
  | abort o => exact absurd rfl (habort o)

theorem step_other (hplane : c.plane = none) : h.step C c = ⟨finalState (perform C c h.stager), h.planes⟩ := by
  simp only [History.step, recordPlane, hplane, Option.map_none, Option.toList_none, List.append_nil, ite_self]

/-! ## Planes -/

inductive PlaneChange (C : Crypto) (h : History m) (p : VerifiedPlaneV1) (w : PlaneWrites) : History m → Prop where
  | refused (hrefused : ∀ n, h.stager.verifier.checkPlane C p.header p.bytes ≠ .ok n) : PlaneChange C h p w h
  | unwritten {n : UInt64} (hcheck : h.stager.verifier.checkPlane C p.header p.bytes = .ok n)
      (hblocked : h.stager.aborted = true ∨ ∀ dir, h.stager.staging = some dir → dir.layers = false) :
      PlaneChange C h p w ⟨{ h.stager with verifier := h.stager.verifier.advance p.header p.bytes n }, h.planes ++ [p]⟩
  | written {n : UInt64} {dir : StagedDir} (hcheck : h.stager.verifier.checkPlane C p.header p.bytes = .ok n)
      (haborted : h.stager.aborted = false) (hstaging : h.stager.staging = some dir)
      (hheader : dir.files.get? (.header p.header.layer p.header.role) = none)
      (hpayload : dir.files.get? (.payload p.header.layer p.header.role) = none) :
      PlaneChange C h p w
        ⟨{ h.stager with
            verifier := h.stager.verifier.advance p.header p.bytes n
            staging := some (dir.afterPlane p w) }, h.planes ++ [p]⟩

theorem step_plane (ha : m.Accepted limits) (ht : Tracked C limits h) (hc : c.plane = some (p, w)) :
    PlaneChange C h p w (h.step C c) := by
  have hfinal := @finalState_plane C m h.stager c p w hc
  rw [History.step, hc, Option.map_some]
  cases hcheck : h.stager.verifier.checkPlane C p.header p.bytes with
  | error e =>
    rw [hcheck] at hfinal
    simp only [hfinal, recordPlane, lt_irrefl, ↓reduceIte]
    exact .refused fun n hn => nomatch hcheck.symm.trans hn
  | ok n =>
    rw [hcheck] at hfinal
    have hsealed := (ht.verified.after.checkPlane_eq_ok hcheck).2.2.1
    obtain ⟨hprepared, hcommitted⟩ := ht.unprepared hsealed
    have hnew := ht.verified.plane_new ha hcheck
    have hgrew : h.stager.verifier.headers.length < (h.stager.verifier.advance p.header p.bytes n).headers.length := by
      simp [IncrementalVerifierV1.advance]
    by_cases hblocked : h.stager.aborted = true ∨ ∀ dir, h.stager.staging = some dir → dir.layers = false
    · have hstate := hfinal.trans (writeVerified_of_blocked hblocked)
      simp only [hstate, recordPlane, hgrew, ↓reduceIte, Option.toList_some]
      exact .unwritten hcheck hblocked
    · simp only [not_or, Bool.not_eq_true, not_forall, Bool.not_eq_false] at hblocked
      obtain ⟨haborted, dir, hstaging, hlayers⟩ := hblocked
      obtain ⟨hheader, hpayload⟩ := ht.fresh dir hstaging _ _ hnew
      have hstate := hfinal.trans (writeVerified_final hcommitted hprepared haborted hstaging hlayers hheader hpayload)
      simp only [hstate, recordPlane, hgrew, ↓reduceIte, Option.toList_some]
      exact .written hcheck haborted hstaging hheader hpayload

theorem PlaneChange.tracked (ha : m.Accepted limits) (hchange : PlaneChange C h p w h') (ht : Tracked C limits h) :
    Tracked C limits h' := by
  cases hchange with
  | refused hrefused => exact ht
  | unwritten hcheck hblocked =>
    have hsealed := (ht.verified.after.checkPlane_eq_ok hcheck).2.2.1
    refine ⟨ht.verified.plane ha hcheck, ht.prepared, ht.committed, fun dir hdir layer role hnew => ?_⟩
    exact ht.fresh dir hdir layer role fun q hq => hnew q (List.mem_append_left _ hq)
  | written hcheck haborted hstaging hheader hpayload =>
    refine ⟨ht.verified.plane ha hcheck, ht.prepared, ht.committed, fun dir' hdir' layer role hnew => ?_⟩
    cases hdir'
    have hother := hnew p (List.mem_append_right _ (List.mem_singleton_self p))
    obtain ⟨hheader', hpayload'⟩ := ht.fresh _ hstaging layer role fun q hq => hnew q (List.mem_append_left _ hq)
    constructor
    · rw [StagedDir.get?_afterPlane_of_ne _ (by simp), hheader']
      rintro heq
      cases heq
      exact hother ⟨rfl, rfl⟩
    · rw [StagedDir.get?_afterPlane_of_ne (by simp), hpayload']
      rintro heq
      cases heq
      exact hother ⟨rfl, rfl⟩

/-- The earlier files are as they were, and the new ones whole exactly when written so. -/
theorem intact_afterPlane {prepared : Option SealManifestV1} {planes : List VerifiedPlaneV1}
    (hnew : ∀ q ∈ planes, ¬ (q.header.layer = p.header.layer ∧ q.header.role = p.header.role))
    (hheader : dir.files.get? (.header p.header.layer p.header.role) = none)
    (hpayload : dir.files.get? (.payload p.header.layer p.header.role) = none) :
    (dir.afterPlane p w).Intact m (planes ++ [p]) prepared ↔
      dir.Intact m planes prepared ∧ w.header = .done ∧ w.payload.leaves p.bytes = some p.bytes := by
  rw [StagedDir.intact_append, StagedDir.holdsPlane_afterPlane hheader hpayload]
  refine and_congr_left fun _ => StagedDir.intact_congr fun path hneeded => ?_
  refine StagedDir.get?_afterPlane_of_ne ?_ ?_
  · rintro rfl
    obtain ⟨q, hq, hsame⟩ := hneeded
    exact hnew q hq hsame
  · rintro rfl
    obtain ⟨q, hq, hsame⟩ := hneeded
    exact hnew q hq hsame

theorem PlaneChange.spoiled (ha : m.Accepted limits) (hchange : PlaneChange C h p w h') (ht : Tracked C limits h)
    (hs : Spoiled h) : Spoiled h' := by
  cases hchange with
  | refused hrefused => exact hs
  | unwritten hcheck hblocked =>
    intro dir hdir hlayers hholds
    exact hs dir hdir hlayers (StagedDir.intact_append.mp hholds).1
  | written hcheck haborted hstaging hheader hpayload =>
    intro dir' hdir' hlayers hholds
    cases hdir'
    rw [StagedDir.layers_afterPlane] at hlayers
    exact hs _ hstaging hlayers ((intact_afterPlane (ht.verified.plane_new ha hcheck) hheader hpayload).mp hholds).1

theorem not_blocked (haborted : s.aborted = false) (hstaging : s.staging = some dir) (hlayers : dir.layers = true) :
    ¬ (s.aborted = true ∨ ∀ dir, s.staging = some dir → dir.layers = false) := by
  rintro (htrue | hnone)
  · exact absurd (haborted.symm.trans htrue) Bool.false_ne_true
  · exact absurd ((hnone dir hstaging).symm.trans hlayers) Bool.false_ne_true

theorem PlaneChange.good (ha : m.Accepted limits) (hchange : PlaneChange C h p w h') (ht : Tracked C limits h)
    (hg : Good h) (hwhole : h.stager.aborted = false → (∃ n, h.stager.verifier.checkPlane C p.header p.bytes = .ok n) →
      w.header = .done ∧ w.payload.leaves p.bytes = some p.bytes) : Good h' := by
  cases hchange with
  | refused hrefused => exact hg
  | unwritten hcheck hblocked =>
    exact fun haborted dir hdir hlayers => absurd hblocked (not_blocked haborted hdir hlayers)
  | written hcheck haborted hstaging hheader hpayload =>
    intro _ dir' hdir' hlayers
    cases hdir'
    rw [StagedDir.layers_afterPlane] at hlayers
    exact (intact_afterPlane (ht.verified.plane_new ha hcheck) hheader hpayload).mpr
      ⟨hg haborted _ hstaging hlayers, hwhole haborted ⟨_, hcheck⟩⟩

theorem PlaneChange.lost (ha : m.Accepted limits) (hchange : PlaneChange C h p w h') (ht : Tracked C limits h)
    (hlost : ¬ (h.stager.aborted = false → (∃ n, h.stager.verifier.checkPlane C p.header p.bytes = .ok n) →
      w.header = .done ∧ w.payload.leaves p.bytes = some p.bytes)) : Spoiled h' := by
  simp only [Classical.not_imp] at hlost
  obtain ⟨haborted, ⟨n, hcheck⟩, hnot⟩ := hlost
  cases hchange with
  | refused hrefused => exact absurd hcheck (hrefused n)
  | unwritten hcheck' hblocked => exact fun dir hdir hlayers => absurd hblocked (not_blocked haborted hdir hlayers)
  | written hcheck' _ hstaging hheader hpayload =>
    intro dir' hdir' _ hholds
    cases hdir'
    exact hnot ((intact_afterPlane (ht.verified.plane_new ha hcheck') hheader hpayload).mp hholds).2

/-! ## Ends -/

inductive AbortChange (s : BundleStager m) : RemoveOutcome → BundleStager m → Prop where
  | refused {o : RemoveOutcome} (hrefused : s.committed = true ∨ s.aborted = true ∨ s.staging = none) :
      AbortChange s o s
  | removed : AbortChange s .done { s with staging := none, aborted := true }
  | partly {dir : StagedDir} {keep : BundlePath → Bool} {layers : Bool} (hcommitted : s.committed = false)
      (haborted : s.aborted = false) (hstaging : s.staging = some dir) :
      AbortChange s (.failed keep layers) { s with staging := dir.afterRemove (.failed keep layers) }

theorem abort_change : AbortChange s o (finalState (abort o s)) := by
  unfold abort
  by_cases hstate : s.committed = true ∨ s.aborted = true
  · rw [if_pos hstate]
    exact .refused (hstate.imp_right Or.inl)
  · rw [if_neg hstate]
    simp only [not_or, Bool.not_eq_true] at hstate
    cases hstaging : s.staging with
    | none => exact .refused (Or.inr (Or.inr hstaging))
    | some dir =>
      cases o with
      | done => exact .removed
      | failed keep layers => exact .partly hstate.1 hstate.2 hstaging

theorem get?_afterRemove {keep : BundlePath → Bool} {layers : Bool} {dir' : StagedDir} {path : BundlePath}
    (hdir' : dir.afterRemove (.failed keep layers) = some dir') :
    dir'.files.get? path = (dir.files.get? path).filter fun _ => keep path && (layers || !path.inLayers) := by
  cases hdir'
  exact Table.get?_filter

theorem AbortChange.tracked (hchange : AbortChange h.stager o s') (ht : Tracked C limits h) :
    Tracked C limits ⟨s', h.planes⟩ := by
  cases hchange with
  | refused hrefused => exact ht
  | removed => exact ht.restage ht.verified ht.prepared ht.committed nofun
  | partly hcommitted haborted hstaging =>
    refine ht.restage ht.verified ht.prepared ht.committed fun dir' hdir' => ⟨_, hstaging, fun path _ hnone => ?_⟩
    rw [get?_afterRemove hdir', hnone]
    rfl

theorem AbortChange.spoiled (hchange : AbortChange h.stager o s') (hs : Spoiled h) :
    Spoiled ⟨s', h.planes⟩ := by
  cases hchange with
  | refused hrefused => exact hs
  | removed => exact nofun
  | partly hcommitted haborted hstaging =>
    intro dir' hdir' hlayers hholds
    have hlayers' := hlayers
    cases hdir'
    rw [Bool.and_eq_true] at hlayers'
    refine hs _ hstaging hlayers'.1 (hholds.of_agree fun path hneeded => ?_)
    -- a needed file that is left was there before
    obtain ⟨bytes, hbytes⟩ := Option.isSome_iff_exists.mp (hholds.present hneeded)
    rw [hbytes]
    rw [get?_afterRemove rfl, Option.filter_eq_some_iff] at hbytes
    exact hbytes.1

theorem AbortChange.good (hchange : AbortChange h.stager o s') (hg : Good h)
    (hkept : LosesNothing C h (.abort o)) : Good ⟨s', h.planes⟩ := by
  cases hchange with
  | refused hrefused => exact hg
  | removed => exact fun htrue => nomatch htrue
  | @partly dir _ _ hcommitted haborted hstaging =>
    intro _ dir' hdir' hlayers
    have hlayers' := hlayers
    cases hdir'
    rw [Bool.and_eq_true] at hlayers'
    have hintact := hg haborted _ hstaging hlayers'.1
    refine hintact.of_agree fun path hneeded => ?_
    have hpresent := hintact.present hneeded
    rw [get?_afterRemove rfl, hkept hcommitted haborted _ hstaging path hneeded hpresent]
    cases dir.files.get? path <;> rfl

theorem AbortChange.lost (hchange : AbortChange h.stager o s')
    (hlost : ¬ LosesNothing C h (.abort o)) : Spoiled ⟨s', h.planes⟩ := by
  cases o with
  | done => exact absurd trivial hlost
  | failed keep layers =>
    simp only [LosesNothing, Classical.not_imp, not_forall] at hlost
    obtain ⟨hcommitted, haborted, dir, hstaging, path, hneeded, hpresent, hgone⟩ := hlost
    cases hchange with
    | refused hrefused =>
      rcases hrefused with htrue | htrue | hnone
      · exact absurd (hcommitted.symm.trans htrue) Bool.false_ne_true
      · exact absurd (haborted.symm.trans htrue) Bool.false_ne_true
      · cases hnone.symm.trans hstaging
    | partly _ _ hstaging' =>
      cases hstaging.symm.trans hstaging'
      intro dir' hdir' _ hholds
      have hsome := hholds.present hneeded
      rw [get?_afterRemove hdir', Bool.eq_false_of_not_eq_true hgone] at hsome
      simp at hsome

/-! ## Runs -/

/-- A stager that fits its planes and has all that is needed. -/
def Sound (C : Crypto) (limits : ValidationLimits) (h : History m) : Prop := Tracked C limits h ∧ Good h

/-- A stager that fits its planes and can no longer publish them all. -/
def Unsound (C : Crypto) (limits : ValidationLimits) (h : History m) : Prop := Tracked C limits h ∧ Spoiled h

theorem losesNothing_plane (hc : c.plane = some (p, w)) :
    LosesNothing C h c ↔ (h.stager.aborted = false →
      (∃ n, h.stager.verifier.checkPlane C p.header p.bytes = .ok n) →
        w.header = .done ∧ w.payload.leaves p.bytes = some p.bytes) := by
  cases c with
  | ingest _ _ _ | stageVerified _ _ =>
    cases hc
    exact Iff.rfl
  | prepareSeal _ _ | sharedSeal _ _ | sealAndPublish _ _ _ | publish _ | abort _ => cases hc

theorem losesNothing_other (hplane : c.plane = none) (habort : ∀ o, c ≠ .abort o) : LosesNothing C h c := by
  cases c with
  | ingest _ _ _ | stageVerified _ _ => cases hplane
  | abort o => exact absurd rfl (habort o)
  | prepareSeal _ _ | sharedSeal _ _ | sealAndPublish _ _ _ | publish _ => trivial

theorem Call.kinds (c : Call) : (∃ p w, c.plane = some (p, w)) ∨ (∃ o, c = .abort o) ∨
    (c.plane = none ∧ ∀ o, c ≠ .abort o) := by
  cases c with
  | ingest _ _ _ | stageVerified _ _ => exact Or.inl ⟨_, _, rfl⟩
  | abort o => exact Or.inr (Or.inl ⟨o, rfl⟩)
  | prepareSeal _ _ | sharedSeal _ _ | sealAndPublish _ _ _ | publish _ => exact Or.inr (Or.inr ⟨rfl, nofun⟩)

theorem Call.other_of_publishes (h : c.publishes = true) : c.plane = none ∧ ∀ o, c ≠ .abort o := by
  cases c with
  | sealAndPublish _ _ _ | publish _ => exact ⟨rfl, nofun⟩
  | ingest _ _ _ | stageVerified _ _ | prepareSeal _ _ | sharedSeal _ _ | abort _ => cases h

/-- A call that is neither a plane nor an end keeps the directory as good. -/
theorem step_frame (ht : Tracked C limits h) (hplane : c.plane = none) (habort : ∀ o, c ≠ .abort o) :
    Frame h (h.step C c) ∧ Tracked C limits (h.step C c) := by
  obtain ⟨s₁, b, hprepared, hchange, -⟩ := @perform_other C m h.stager c hplane habort
  obtain ⟨hframe, htracked⟩ := hprepared.sound ht
  rw [step_other hplane]
  exact ⟨hframe.trans (PublishChange.frame (h := ⟨s₁, h.planes⟩) hchange),
    PublishChange.tracked (h := ⟨s₁, h.planes⟩) hchange htracked⟩

theorem Sound.step (ha : m.Accepted limits) (hs : Sound C limits h) (hok : LosesNothing C h c) :
    Sound C limits (h.step C c) := by
  obtain ⟨ht, hg⟩ := hs
  rcases c.kinds with ⟨p, w, hc⟩ | ⟨o, rfl⟩ | ⟨hplane, habort⟩
  · have hchange := step_plane ha ht hc
    exact ⟨hchange.tracked ha ht, hchange.good ha ht hg ((losesNothing_plane hc).mp hok)⟩
  · rw [step_other rfl]
    exact ⟨abort_change.tracked ht, abort_change.good hg hok⟩
  · obtain ⟨hframe, htracked⟩ := step_frame ht hplane habort
    exact ⟨htracked, hframe.good hg⟩

theorem Sound.lost (ha : m.Accepted limits) (hs : Sound C limits h) (hlost : ¬ LosesNothing C h c) :
    Unsound C limits (h.step C c) := by
  obtain ⟨ht, hg⟩ := hs
  rcases c.kinds with ⟨p, w, hc⟩ | ⟨o, rfl⟩ | ⟨hplane, habort⟩
  · have hchange := step_plane ha ht hc
    exact ⟨hchange.tracked ha ht, hchange.lost ha ht (mt (losesNothing_plane hc).mpr hlost)⟩
  · rw [step_other rfl]
    exact ⟨abort_change.tracked ht, abort_change.lost hlost⟩
  · exact absurd (losesNothing_other hplane habort) hlost

theorem Unsound.step (ha : m.Accepted limits) (hs : Unsound C limits h) : Unsound C limits (h.step C c) := by
  obtain ⟨ht, hb⟩ := hs
  rcases c.kinds with ⟨p, w, hc⟩ | ⟨o, rfl⟩ | ⟨hplane, habort⟩
  · have hchange := step_plane ha ht hc
    exact ⟨hchange.tracked ha ht, hchange.spoiled ha ht hb⟩
  · rw [step_other rfl]
    exact ⟨abort_change.tracked ht, abort_change.spoiled hb⟩
  · obtain ⟨hframe, htracked⟩ := step_frame ht hplane habort
    exact ⟨htracked, hframe.spoiled hb⟩

theorem create_eq_ok (hcreate : create m limits = .ok s) : m.Accepted limits ∧ Sound C limits ⟨s, []⟩ := by
  simp only [create, IncrementalVerifierV1.new, bind_eq_ok, exists_unit, pure_eq_ok] at hcreate
  obtain ⟨hvalid, _, ⟨-, rfl⟩, rfl⟩ := hcreate
  refine ⟨BeginManifestV1.accepted_of_validate hvalid,
    ⟨Verified.initial, fun hp => (by cases hp), fun hc => (by cases hc), fun dir hdir layer role _ => ?_⟩,
    fun _ dir hdir _ => ⟨?_, fun _ hp => (by cases hp), fun _ hm => by cases hm⟩⟩
  · cases hdir
    simp only [Table.get?_put, reduceCtorEq, ↓reduceIte, Table.get?_empty, and_self]
  · cases hdir
    exact Table.get?_put_self

/-! ## Publication -/

theorem complete_iff (ha : m.Accepted limits) (ht : Tracked C limits h) (hprepared : h.stager.prepared = some manifest)
    (habsent : dir.files.get? .ready = none) :
    (dir.afterWrite .ready (utf8 (manifest.artifactSha256 ++ "\n")) .done).Complete m h.planes manifest ↔
      dir.Intact m h.planes h.stager.prepared := by
  obtain ⟨_, hseal⟩ := ht.verified.terminal (ht.prepared (hprepared ▸ rfl))
  have hlength := length_of_sealRules ha hseal
  have hready : (dir.afterWrite .ready (utf8 (manifest.artifactSha256 ++ "\n")) .done).files.get? .ready =
      some (utf8 (manifest.artifactSha256 ++ "\n")) := by
    rw [StagedDir.get?_afterWrite_self habsent]
    rfl
  have hintact : (dir.afterWrite .ready (utf8 (manifest.artifactSha256 ++ "\n")) .done).Intact m h.planes
      h.stager.prepared ↔ dir.Intact m h.planes h.stager.prepared := intact_afterWrite id
  rw [← hintact, hprepared]
  constructor
  · rintro ⟨hbegin, hterminal, -, hplanes⟩
    refine ⟨hbegin, fun p hp => ?_, fun manifest' heq => ?_⟩
    · obtain ⟨i, hi⟩ := List.mem_iff_getElem?.mp hp
      obtain ⟨spec, hspec, -⟩ := ht.verified.place ha hi
      obtain ⟨p', hp', -, -, hholds⟩ := hplanes i spec hspec
      cases hi.symm.trans hp'
      exact hholds
    · cases heq
      exact hterminal
  · rintro ⟨hbegin, hplanes, hterminal⟩
    refine ⟨hbegin, hterminal manifest rfl, hready, fun i spec hspec => ?_⟩
    have hi : i < h.planes.length := hlength ▸ (List.getElem?_eq_some_iff.mp hspec).1
    have hp := List.getElem?_eq_getElem hi
    obtain ⟨spec', hspec', hlayer, hrole, -⟩ := ht.verified.place ha hp
    cases hspec.symm.trans hspec'
    exact ⟨_, hp, hlayer, hrole, hplanes _ (List.getElem_mem hi)⟩

/-- A publication that succeeds publishes what is in the private directory. -/
theorem published_iff_intact (ha : m.Accepted limits) (ht : Tracked C limits h) (hpublishes : c.publishes = true)
    (hok : succeeded (perform C c h.stager) = true) :
    ∃ s₁ dir, Frame h ⟨s₁, h.planes⟩ ∧ s₁.aborted = false ∧ s₁.staging = some dir ∧ dir.layers = true ∧
      ((h.step C c).Published ↔ dir.Intact m h.planes s₁.prepared) := by
  obtain ⟨hplane, habort⟩ := Call.other_of_publishes hpublishes
  obtain ⟨s₁, b, hprepared, hchange, hb⟩ := @perform_other C m h.stager c hplane habort
  obtain ⟨hframe, htracked⟩ := hprepared.sound ht
  rw [hb hpublishes, hok] at hchange
  rw [step_other hplane]
  generalize finalState (perform C c h.stager) = final at hchange
  cases hchange with
  | renamed _ haborted hmanifest hstaging hlayers habsent =>
    refine ⟨s₁, _, hframe, haborted, hstaging, hlayers, ?_⟩
    rw [← complete_iff (h := ⟨s₁, h.planes⟩) ha htracked hmanifest habsent]
    constructor
    · rintro ⟨_, _, hpublished, hprepared, hcomplete⟩
      cases hpublished
      cases hmanifest.symm.trans hprepared
      exact hcomplete
    · exact fun hcomplete => ⟨_, _, rfl, hmanifest, hcomplete⟩

theorem Sound.published (ha : m.Accepted limits) (hs : Sound C limits h) (hpublishes : c.publishes = true)
    (hok : succeeded (perform C c h.stager) = true) : (h.step C c).Published := by
  obtain ⟨s₁, dir, hframe, haborted, hstaging, hlayers, hiff⟩ := published_iff_intact ha hs.1 hpublishes hok
  exact hiff.mpr (hframe.good hs.2 haborted dir hstaging hlayers)

theorem Unsound.not_published (ha : m.Accepted limits) (hs : Unsound C limits h) (hpublishes : c.publishes = true)
    (hok : succeeded (perform C c h.stager) = true) : ¬ (h.step C c).Published := by
  obtain ⟨s₁, dir, hframe, -, hstaging, hlayers, hiff⟩ := published_iff_intact ha hs.1 hpublishes hok
  exact fun hpublished => hframe.spoiled hs.2 dir hstaging hlayers (hiff.mp hpublished)

/-- A publication that succeeds is complete exactly when nothing was lost. -/
theorem published_iff {calls : List Call} (ha : m.Accepted limits) (hs : Sound C limits h)
    (hpublishes : c.publishes = true) (hok : succeeded (perform C c (run (History.step C) h calls).stager) = true) :
    (run (History.step C) h (calls ++ [c])).Published ↔ Along (History.step C) (LosesNothing C) h (calls ++ [c]) := by
  obtain ⟨hplane, habort⟩ := Call.other_of_publishes hpublishes
  have hrun : (Along (History.step C) (LosesNothing C) h calls ∧ Sound C limits (run (History.step C) h calls)) ∨
      (¬ Along (History.step C) (LosesNothing C) h calls ∧ Unsound C limits (run (History.step C) h calls)) :=
    run_dichotomy (fun _ _ hgood => hgood.step ha) (fun _ _ hgood => hgood.lost ha) (fun _ _ hbad => hbad.step ha) hs
  rw [run_append, along_append]
  rcases hrun with ⟨halong, hgood⟩ | ⟨halong, hbad⟩
  · exact iff_of_true (hgood.published ha hpublishes hok) ⟨halong, losesNothing_other hplane habort, trivial⟩
  · exact iff_of_false (hbad.not_published ha hpublishes hok) fun h => halong h.1

end Kvpack.Handoff.BundleStager
