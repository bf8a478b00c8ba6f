import Kvpack.Base.Run
import Kvpack.Handoff.Bundle
import Kvpack.Handoff.Lemmas.Walk

/-!
# What the calls on a stager leave on the disk

Each call is reduced to what it does to the private directory. The files that a publication relies on are never written
twice, so a file that is once missing or cut short stays so.
-/

namespace Kvpack.Handoff

open Base Kvpack.Core

variable {C : Crypto} {m : BeginManifestV1} {limits : ValidationLimits} {planes : List VerifiedPlaneV1}
  {prepared : Option SealManifestV1} {dir dir' : StagedDir} {path path' : BundlePath} {bytes : Bytes}

/-! ## Directories -/

namespace StagedDir

variable {o : WriteOutcome} {p : VerifiedPlaneV1} {w : PlaneWrites}

@[simp]
theorem layers_afterWrite : (dir.afterWrite path bytes o).layers = dir.layers := by
  unfold afterWrite
  split <;> rfl

theorem get?_afterWrite_of_ne (h : path' ≠ path) :
    (dir.afterWrite path bytes o).files.get? path' = dir.files.get? path' := by
  unfold afterWrite
  split
  · rw [Table.get?_put, if_neg h]
  · rfl

theorem get?_afterWrite_self (h : dir.files.get? path = none) :
    (dir.afterWrite path bytes o).files.get? path = o.leaves bytes := by
  unfold afterWrite
  cases o.leaves bytes with
  | none => exact h
  | some left => rw [Table.get?_put_self]

/-- The directory after the files of a plane: the payload comes after the header. -/
def afterPlane (dir : StagedDir) (p : VerifiedPlaneV1) (w : PlaneWrites) : StagedDir :=
  let headed := dir.afterWrite (.header p.header.layer p.header.role) p.header.toJson.canonical w.header
  match w.header with
  | .done => headed.afterWrite (.payload p.header.layer p.header.role) p.bytes w.payload
  | .failed _ => headed

@[simp]
theorem layers_afterPlane : (dir.afterPlane p w).layers = dir.layers := by
  unfold afterPlane
  split <;> simp

theorem get?_afterPlane_of_ne
    (hheader : path ≠ .header p.header.layer p.header.role) (hpayload : path ≠ .payload p.header.layer p.header.role) :
    (dir.afterPlane p w).files.get? path = dir.files.get? path := by
  unfold afterPlane
  split
  · rw [get?_afterWrite_of_ne hpayload, get?_afterWrite_of_ne hheader]
  · rw [get?_afterWrite_of_ne hheader]

/-- The files of a plane are whole exactly when both writes leave them so. -/
theorem holdsPlane_afterPlane
    (hheader : dir.files.get? (.header p.header.layer p.header.role) = none)
    (hpayload : dir.files.get? (.payload p.header.layer p.header.role) = none) :
    (dir.afterPlane p w).HoldsPlane p ↔ w.header = .done ∧ w.payload.leaves p.bytes = some p.bytes := by
  have hkept {o : WriteOutcome} : (dir.afterWrite (.header p.header.layer p.header.role) p.header.toJson.canonical
      o).files.get? (.payload p.header.layer p.header.role) = none := by
    rw [get?_afterWrite_of_ne (by simp), hpayload]
  constructor
  · rintro ⟨-, hholds⟩
    unfold afterPlane at hholds
    cases hw : w.header with
    | done =>
      rw [hw] at hholds
      rw [get?_afterWrite_self hkept] at hholds
      exact ⟨rfl, hholds⟩
    | failed left =>
      rw [hw] at hholds
      rw [hkept] at hholds
      cases hholds
  · rintro ⟨hw, hwhole⟩
    unfold afterPlane
    rw [hw]
    constructor
    · rw [get?_afterWrite_of_ne (by simp), get?_afterWrite_self hheader]
      rfl
    · rw [get?_afterWrite_self hkept, hwhole]

/-- Everything that the publication relies on is there, and whole. -/
structure Intact (m : BeginManifestV1) (planes : List VerifiedPlaneV1) (prepared : Option SealManifestV1)
    (dir : StagedDir) : Prop where
  begin_ : dir.files.get? .begin_ = some m.toJson.canonical
  plane : ∀ p ∈ planes, dir.HoldsPlane p
  terminal : ∀ manifest, prepared = some manifest → dir.files.get? .terminal = some manifest.toJson.canonical

theorem Intact.present (h : dir.Intact m planes prepared) (hneeded : Needed planes prepared path) :
    (dir.files.get? path).isSome = true := by
  cases path with
  | begin_ => rw [h.begin_, Option.isSome_some]
  | terminal =>
    obtain ⟨manifest, hmanifest⟩ := Option.isSome_iff_exists.mp hneeded
    rw [h.terminal manifest hmanifest, Option.isSome_some]
  | ready => exact absurd hneeded id
  | header layer role =>
    obtain ⟨p, hp, rfl, rfl⟩ := hneeded
    rw [(h.plane p hp).header, Option.isSome_some]
  | payload layer role =>
    obtain ⟨p, hp, rfl, rfl⟩ := hneeded
    rw [(h.plane p hp).payload, Option.isSome_some]

theorem Intact.of_agree (h : dir.Intact m planes prepared)
    (hagree : ∀ path, Needed planes prepared path → dir'.files.get? path = dir.files.get? path) :
    dir'.Intact m planes prepared := by
  refine ⟨(hagree .begin_ trivial).trans h.begin_, fun p hp => ⟨?_, ?_⟩, fun manifest hmanifest => ?_⟩
  · exact (hagree (.header _ _) ⟨p, hp, rfl, rfl⟩).trans (h.plane p hp).header
  · exact (hagree (.payload _ _) ⟨p, hp, rfl, rfl⟩).trans (h.plane p hp).payload
  · exact (hagree .terminal (hmanifest ▸ rfl)).trans (h.terminal manifest hmanifest)

theorem intact_congr (hagree : ∀ path, Needed planes prepared path → dir'.files.get? path = dir.files.get? path) :
    dir'.Intact m planes prepared ↔ dir.Intact m planes prepared :=
  ⟨fun h => h.of_agree fun path hpath => (hagree path hpath).symm, fun h => h.of_agree hagree⟩

theorem intact_append :
    dir.Intact m (planes ++ [p]) prepared ↔ dir.Intact m planes prepared ∧ dir.HoldsPlane p := by
  constructor
  · intro h
    exact ⟨⟨h.begin_, fun q hq => h.plane q (List.mem_append_left _ hq), h.terminal⟩,
      h.plane p (List.mem_append_right _ (List.mem_singleton_self p))⟩
  · rintro ⟨h, hp⟩
    refine ⟨h.begin_, fun q hq => ?_, h.terminal⟩
    rcases List.mem_append.mp hq with hq | hq
    · exact h.plane q hq
    · obtain rfl := List.mem_singleton.mp hq
      exact hp

theorem intact_prepared {manifest : SealManifestV1} :
    dir.Intact m planes (some manifest) ↔
      dir.Intact m planes none ∧ dir.files.get? .terminal = some manifest.toJson.canonical := by
  constructor
  · intro h
    exact ⟨⟨h.begin_, h.plane, nofun⟩, h.terminal manifest rfl⟩
  · rintro ⟨h, hterminal⟩
    refine ⟨h.begin_, h.plane, fun manifest' heq => ?_⟩
    cases heq
    exact hterminal

end StagedDir

namespace BundleStager

variable {s s' : BundleStager m} {manifest : SealManifestV1}
variable {p : VerifiedPlaneV1} {w : PlaneWrites}

/-! ## Writes -/

theorem writeNewSync_of_absent (bytes : Bytes) (o : WriteOutcome) (hstaging : s.staging = some dir)
    (hlayers : path.inLayers = true → dir.layers = true) (habsent : dir.files.get? path = none) :
    writeNewSync path bytes o s =
      match o with
      | .done => .ok () { s with staging := some (dir.afterWrite path bytes o) }
      | .failed _ => .error (.io "write failed") { s with staging := some (dir.afterWrite path bytes o) } := by
  have hdir : ¬ (path.inLayers = true ∧ dir.layers = false) := by
    rintro ⟨hpath, hfalse⟩
    rw [hlayers hpath] at hfalse
    cases hfalse
  unfold writeNewSync
  rw [hstaging]
  cases o with
  | done | failed _ => simp only [hdir, habsent, Option.isSome_none, Bool.false_eq_true, ↓reduceIte]

/-- A write that finds no directory, or finds the file there, does nothing. -/
theorem writeNewSync_of_blocked (bytes : Bytes) (o : WriteOutcome)
    (h : ∀ dir, s.staging = some dir →
      (path.inLayers = true ∧ dir.layers = false) ∨ (dir.files.get? path).isSome = true) :
    ∃ e, writeNewSync path bytes o s = .error e s := by
  unfold writeNewSync
  cases hstaging : s.staging with
  | none => exact ⟨_, rfl⟩
  | some dir =>
    by_cases hdir : path.inLayers = true ∧ dir.layers = false
    · exact ⟨_, if_pos hdir⟩
    · have hthere := (h dir hstaging).resolve_left hdir
      simp only [hdir, hthere, ↓reduceIte]
      exact ⟨_, rfl⟩

/-- What the write of a file outside the directory of the layers does. -/
theorem writeNewSync_cases (s : BundleStager m) (bytes : Bytes) (o : WriteOutcome) (hpath : path.inLayers = false) :
    (∃ e, writeNewSync path bytes o s = .error e s) ∨
      ∃ dir, s.staging = some dir ∧ dir.files.get? path = none ∧
        ((o = .done ∧ writeNewSync path bytes o s =
          .ok () { s with staging := some (dir.afterWrite path bytes .done) }) ∨
          ∃ e, writeNewSync path bytes o s = .error e { s with staging := some (dir.afterWrite path bytes o) }) := by
  by_cases hblocked : ∀ dir, s.staging = some dir → (dir.files.get? path).isSome = true
  · exact Or.inl (writeNewSync_of_blocked bytes o fun dir hdir => Or.inr (hblocked dir hdir))
  · simp only [not_forall, Bool.not_eq_true, Option.isSome_eq_false_iff, Option.isNone_iff_eq_none] at hblocked
    obtain ⟨dir, hdir, habsent⟩ := hblocked
    refine Or.inr ⟨dir, hdir, habsent, ?_⟩
    rw [writeNewSync_of_absent bytes o hdir (fun h => absurd (hpath.symm.trans h) Bool.false_ne_true) habsent]
    cases o with
    | done => exact Or.inl ⟨rfl, rfl⟩
    | failed left => exact Or.inr ⟨_, rfl⟩

theorem syncDirectories_cases (synced : Bool) (s : BundleStager m) (hstaging : s.staging = some dir) :
    (dir.layers = true ∧ syncDirectories synced s = .ok () s) ∨ ∃ e, syncDirectories synced s = .error e s := by
  rw [syncDirectories, get_bind_apply, hstaging, Option.any_some]
  by_cases hsync : dir.layers = false ∨ synced = false
  · rw [rejectIf, if_pos hsync]
    exact Or.inr ⟨_, rfl⟩
  · rw [rejectIf, if_neg hsync]
    simp only [not_or, Bool.not_eq_false] at hsync
    exact Or.inl ⟨hsync.1, rfl⟩

theorem writeVerified_of_blocked
    (h : s.aborted = true ∨ ∀ dir, s.staging = some dir → dir.layers = false) :
    finalState (writeVerified p w s) = s := by
  rw [writeVerified, get_bind_apply, bind_apply]
  by_cases hstate : s.committed = true ∨ s.prepared.isSome = true ∨ s.aborted = true
  · rw [rejectIf, if_pos hstate]
    rfl
  · rw [rejectIf, if_neg hstate]
    have hlayers := h.resolve_left fun haborted => hstate (Or.inr (Or.inr haborted))
    obtain ⟨e, he⟩ : ∃ e, writeNewSync (.header p.header.layer p.header.role) p.header.toJson.canonical w.header s =
        .error e s := writeNewSync_of_blocked _ _ fun dir hdir => Or.inl ⟨rfl, hlayers dir hdir⟩
    simp only [outcome_ok]
    rw [bind_of_error he, finalState_error]

theorem writeVerified_final (hcommitted : s.committed = false)
    (hprepared : s.prepared = none) (haborted : s.aborted = false) (hstaging : s.staging = some dir)
    (hlayers : dir.layers = true) (hheader : dir.files.get? (.header p.header.layer p.header.role) = none)
    (hpayload : dir.files.get? (.payload p.header.layer p.header.role) = none) :
    finalState (writeVerified p w s) = { s with staging := some (dir.afterPlane p w) } := by
  rw [writeVerified, get_bind_apply, bind_apply, rejectIf, if_neg (by simp [hcommitted, hprepared, haborted])]
  simp only [outcome_ok]
  have hfirst := writeNewSync_of_absent p.header.toJson.canonical w.header hstaging (fun _ => hlayers) hheader
  unfold StagedDir.afterPlane
  cases hw : w.header with
  | failed left =>
    rw [hw] at hfirst
    rw [bind_of_error hfirst]
    rfl
  | done =>
    rw [hw] at hfirst
    rw [bind_of_ok hfirst, writeNewSync_of_absent _ _ rfl (by simp [hlayers])
      (by rw [StagedDir.get?_afterWrite_of_ne (by simp), hpayload])]
    cases w.payload <;> rfl

/-! ## Planes -/

theorem onVerifier_verifyPlane {header : LayerHeaderV1} {payload : Bytes} :
    onVerifier (IncrementalVerifierV1.verifyPlane C header payload) s =
      match s.verifier.checkPlane C header payload with
      | .ok n => .ok ⟨header, payload⟩ { s with verifier := s.verifier.advance header payload n }
      | .error e => .error e s := by
  have happly := @IncrementalVerifierV1.verifyPlane_apply C m header payload s.verifier
  cases hcheck : s.verifier.checkPlane C header payload with
  | ok n =>
    rw [hcheck] at happly
    exact onPart_of_ok happly
  | error e =>
    rw [hcheck] at happly
    exact onPart_of_error happly

/-- A call with a plane does nothing, or the verifier moves on and the files are written. -/
theorem finalState_plane {c : Call} {p : VerifiedPlaneV1} {w : PlaneWrites} (hc : c.plane = some (p, w)) :
    finalState (perform C c s) =
      match s.verifier.checkPlane C p.header p.bytes with
      | .ok n => finalState (writeVerified p w { s with verifier := s.verifier.advance p.header p.bytes n })
      | .error _ => s := by
  have hself : (locally : VerifiedPlaneV1) → locally = p →
      (rejectIf (locally ≠ p) (HandoffError.validation "verified plane changed before internal staging")) = .ok () :=
    fun locally heq => by rw [rejectIf, if_neg (not_not.mpr heq)]
  cases c with
  | ingest header payload writes =>
    cases hc
    rw [perform, ingest, bind_apply, onVerifier_verifyPlane]
    cases s.verifier.checkPlane C header payload <;> rfl
  | stageVerified plane writes =>
    cases hc
    rw [perform, stageVerified, bind_apply, onVerifier_verifyPlane]
    cases s.verifier.checkPlane C p.header p.bytes with
    | ok n =>
      simp only [bind_apply]
      rw [hself _ rfl]
      rfl
    | error e => rfl
  | prepareSeal _ _ | sharedSeal _ _ | sealAndPublish _ _ _ | publish _ | abort _ => cases hc

/-! ## The seal -/

inductive SealChange (manifest : SealManifestV1) (s : BundleStager m) : BundleStager m → Prop where
  | none_ : SealChange manifest s s
  | file {dir : StagedDir} {o : WriteOutcome} (hstaging : s.staging = some dir)
      (habsent : dir.files.get? .terminal = none) :
      SealChange manifest s { s with staging := some (dir.afterWrite .terminal manifest.toJson.canonical o) }
  | prepared {dir : StagedDir} (hstaging : s.staging = some dir) (habsent : dir.files.get? .terminal = none) :
      SealChange manifest s
        { s with staging := some (dir.afterWrite .terminal manifest.toJson.canonical .done), prepared := some manifest }

theorem writePreparedSeal_change {o : SealWrites} :
    SealChange manifest s (finalState (writePreparedSeal manifest o s)) := by
  rw [writePreparedSeal]
  rcases @writeNewSync_cases m .terminal s manifest.toJson.canonical o.file rfl with
    ⟨e, he⟩ | ⟨dir, hdir, habsent, ⟨-, hok⟩ | ⟨e, he⟩⟩
  · rw [bind_of_error he]
    exact .none_
  · rw [bind_of_ok hok]
    rcases syncDirectories_cases o.synced
      { s with staging := some (dir.afterWrite .terminal manifest.toJson.canonical .done) }
        rfl with ⟨-, hsync⟩ | ⟨e, he⟩
    · rw [bind_of_ok hsync]
      exact .prepared hdir habsent
    · rw [bind_of_error he]
      exact .file hdir habsent
  · rw [bind_of_error he]
    exact .file hdir habsent

/-- What a publication may leave, and whether it succeeds. -/
inductive PublishChange (s : BundleStager m) : Bool → BundleStager m → Prop where
  | none_ : PublishChange s false s
  | marker {manifest : SealManifestV1} {dir : StagedDir} {o : WriteOutcome} (hstaging : s.staging = some dir)
      (habsent : dir.files.get? .ready = none) :
      PublishChange s false
        { s with staging := some (dir.afterWrite .ready (utf8 (manifest.artifactSha256 ++ "\n")) o) }
  | renamed {manifest : SealManifestV1} {dir : StagedDir} (synced : Bool) (haborted : s.aborted = false)
      (hprepared : s.prepared = some manifest) (hstaging : s.staging = some dir) (hlayers : dir.layers = true)
      (habsent : dir.files.get? .ready = none) :
      PublishChange s synced
        { s with
          staging := none
          published := some (dir.afterWrite .ready (utf8 (manifest.artifactSha256 ++ "\n")) .done)
          committed := synced }

theorem publish_change {o : PublishOutcome} :
    PublishChange s (succeeded (publish o s)) (finalState (publish o s)) := by
  rw [publish, get_bind_apply, bind_apply]
  by_cases hstate : s.committed = true ∨ s.aborted = true
  · rw [rejectIf, if_pos hstate]
    exact .none_
  · rw [rejectIf, if_neg hstate]
    simp only [not_or, Bool.not_eq_true] at hstate
    obtain ⟨hcommitted, haborted⟩ := hstate
    simp only [outcome_ok]
    cases hprepared : s.prepared with
    | none =>
      rw [bind_apply]
      exact .none_
    | some manifest =>
      rw [okOr_some, bind_apply]
      simp only [outcome_ok]
      rcases @writeNewSync_cases m .ready s (utf8 (manifest.artifactSha256 ++ "\n")) o.ready rfl with
        ⟨e, he⟩ | ⟨dir, hdir, habsent, ⟨-, hok⟩ | ⟨e, he⟩⟩
      · rw [bind_of_error he]
        exact .none_
      · rw [bind_of_ok hok]
        rcases syncDirectories_cases o.synced
          { s with staging := some (dir.afterWrite .ready (utf8 (manifest.artifactSha256 ++ "\n")) .done) }
            rfl with ⟨hlayers, hsync⟩ | ⟨e, he⟩
        · rw [bind_of_ok hsync, bind_apply]
          rw [StagedDir.layers_afterWrite] at hlayers
          by_cases hrename : o.renamed = true ∧ s.published = none
          · rw [rename]
            simp only [hrename, and_self, ↓reduceIte]
            rw [bind_apply]
            cases hparent : o.parentSynced with
            | true => exact .renamed true haborted hprepared hdir hlayers habsent
            | false =>
              have hkept : s = { s with committed := false } := by rw [← hcommitted]
              rw [hkept]
              exact .renamed false haborted hprepared hdir hlayers habsent
          · rw [rename]
            simp only [hrename, ↓reduceIte]
            exact .marker hdir habsent
        · rw [bind_of_error he]
          exact .marker hdir habsent
      · rw [bind_of_error he]
        exact .marker hdir habsent

end BundleStager

end Kvpack.Handoff
