import Kvpack.Handoff.Lemmas.Coordinator
import Kvpack.Handoff.Theorems.Verify

/-!
# A published bundle is complete when nothing was lost

The verifier counts a plane before its files are written, and the seal is checked against the verifier only, so a
plane whose files could not be written is not missed: the bundle is published without them.
-/

namespace Kvpack.Handoff.BundleStager

open Base Kvpack.Core IncrementalVerifierV1

variable {C : Crypto} {m : BeginManifestV1} {limits : ValidationLimits} {s : BundleStager m} {h : History m}
  {p : VerifiedPlaneV1} {w : PlaneWrites} {manifest : SealManifestV1} {dir : StagedDir}
variable {entries : List (VerifiedPlaneV1 × PlaneWrites)}

/-! ## Writes that fail -/

/-- A stager that takes planes and has not met anything that would stop it later. -/
structure Receiving (h : History m) : Prop where
  aborted : h.stager.aborted = false
  published : h.stager.published = none
  unsealed : h.stager.verifier.isSealed = false
  staging : ∃ dir, h.stager.staging = some dir ∧ dir.layers = true ∧ dir.files.get? .terminal = none ∧
    dir.files.get? .ready = none

/-- A plane that keeps the rules is counted, whatever becomes of its files. -/
theorem Receiving.ingest (ha : m.Accepted limits) (hr : Receiving h) (ht : Tracked C limits h)
    (hrules : PlanesRules C m (h.planes ++ [p])) (hlt : h.planes.length < m.planes.length) :
    Receiving (h.step C (.ingest p.header p.bytes w)) ∧ Tracked C limits (h.step C (.ingest p.header p.bytes w)) ∧
      (h.step C (.ingest p.header p.bytes w)).planes = h.planes ++ [p] := by
  obtain ⟨n, hcheck⟩ := ht.verified.after.checkPlane_ok ha hr.unsealed hrules hlt
  obtain ⟨dir, hstaging, hlayers, hterminal, hready⟩ := hr.staging
  have hchange : PlaneChange C h p w (h.step C (.ingest p.header p.bytes w)) := step_plane ha ht rfl
  have htracked := hchange.tracked ha ht
  generalize h.step C (.ingest p.header p.bytes w) = h' at hchange htracked
  cases hchange with
  | refused hrefused => exact absurd hcheck (hrefused n)
  | unwritten _ hblocked =>
    rcases hblocked with htrue | hnone
    · exact absurd (hr.aborted.symm.trans htrue) Bool.false_ne_true
    · exact absurd ((hnone dir hstaging).symm.trans hlayers) Bool.false_ne_true
  | written _ _ hstaging' _ _ =>
    cases hstaging.symm.trans hstaging'
    refine ⟨⟨hr.aborted, hr.published, hr.unsealed, _, rfl, ?_, ?_, ?_⟩, htracked, rfl⟩
    · rw [StagedDir.layers_afterPlane, hlayers]
    · rw [StagedDir.get?_afterPlane_of_ne (by simp) (by simp), hterminal]
    · rw [StagedDir.get?_afterPlane_of_ne (by simp) (by simp), hready]

/-- The planes of a stream in turn, each with what becomes of its files. -/
def ingestAll (entries : List (VerifiedPlaneV1 × PlaneWrites)) : List Call :=
  entries.map fun entry => .ingest entry.1.header entry.1.bytes entry.2

theorem Receiving.ingestAll (ha : m.Accepted limits)
    (hr : Receiving h) (ht : Tracked C limits h) (hrules : PlanesRules C m (h.planes ++ entries.map (·.1)))
    (hlength : (h.planes ++ entries.map (·.1)).length ≤ m.planes.length) :
    Receiving (run (History.step C) h (BundleStager.ingestAll entries)) ∧
      Tracked C limits (run (History.step C) h (BundleStager.ingestAll entries)) ∧
      (run (History.step C) h (BundleStager.ingestAll entries)).planes = h.planes ++ entries.map (·.1) := by
  induction entries generalizing h with
  | nil => exact ⟨hr, ht, (List.append_nil _).symm⟩
  | cons entry entries ih =>
    have hsplit : h.planes ++ (entry :: entries).map (·.1) = (h.planes ++ [entry.1]) ++ entries.map (·.1) := by simp
    rw [hsplit] at hrules hlength ⊢
    have hlt : h.planes.length < m.planes.length := by
      simp only [List.length_append, List.length_singleton] at hlength
      omega
    obtain ⟨hr', ht', hplanes⟩ := @Receiving.ingest C m limits h entry.1 entry.2 ha hr ht hrules.of_append hlt
    rw [← hplanes] at hrules hlength ⊢
    exact ih hr' ht' hrules hlength

def allDone : PublishOutcome := ⟨.done, true, true, true⟩

theorem writeNewSync_done {path : BundlePath} (bytes : Bytes) (hpath : path.inLayers = false)
    (hstaging : s.staging = some dir) (habsent : dir.files.get? path = none) :
    writeNewSync path bytes .done s = .ok () { s with staging := some (dir.afterWrite path bytes .done) } :=
  writeNewSync_of_absent bytes .done hstaging (fun hin => absurd (hpath.symm.trans hin) Bool.false_ne_true) habsent

theorem syncDirectories_done (s : BundleStager m) (hstaging : s.staging = some dir) (hlayers : dir.layers = true) :
    syncDirectories true s = .ok () s := by
  rw [syncDirectories, get_bind_apply, hstaging, Option.any_some, hlayers, rejectIf, if_neg (by simp)]
  rfl

theorem writePreparedSeal_succeeds (hstaging : s.staging = some dir) (hlayers : dir.layers = true)
    (hterminal : dir.files.get? .terminal = none) :
    writePreparedSeal manifest ⟨.done, true⟩ s =
      .ok () { s with
        staging := some (dir.afterWrite .terminal manifest.toJson.canonical .done)
        prepared := some manifest } := by
  have hlayers' : (dir.afterWrite .terminal manifest.toJson.canonical .done).layers = true := by
    rw [StagedDir.layers_afterWrite, hlayers]
  rw [writePreparedSeal, bind_of_ok (writeNewSync_done _ rfl hstaging hterminal),
    bind_of_ok (syncDirectories_done _ rfl hlayers')]
  rfl

theorem publish_succeeds (hcommitted : s.committed = false) (haborted : s.aborted = false)
    (hpublished : s.published = none) (hprepared : s.prepared = some manifest) (hstaging : s.staging = some dir)
    (hlayers : dir.layers = true) (hready : dir.files.get? .ready = none) : succeeded (publish allDone s) = true := by
  have hlayers' : (dir.afterWrite .ready (utf8 (manifest.artifactSha256 ++ "\n")) .done).layers = true := by
    rw [StagedDir.layers_afterWrite, hlayers]
  rw [publish, get_bind_apply, bind_apply, rejectIf, if_neg (by simp [hcommitted, haborted])]
  simp only [outcome_ok]
  rw [hprepared, okOr_some, bind_apply]
  simp only [outcome_ok, allDone]
  rw [bind_of_ok (writeNewSync_done _ rfl hstaging hready), bind_of_ok (syncDirectories_done _ rfl hlayers'),
    bind_apply, rename]
  simp only [hpublished, and_self, ↓reduceIte]
  rfl

/-- A stream that keeps the rules is published, whatever became of its files. -/
theorem Receiving.publish (hr : Receiving h) (ht : Tracked C limits h) (hseal : SealRules C m h.planes manifest) :
    succeeded (perform C (.sealAndPublish manifest ⟨.done, true⟩ allDone) h.stager) = true := by
  obtain ⟨hprepared, hcommitted⟩ := ht.unprepared hr.unsealed
  obtain ⟨dir, hstaging, hlayers, hterminal, hready⟩ := hr.staging
  have hcheck := ht.verified.after.checkSeal_eq_ok.mpr ⟨hr.unsealed, hseal, rfl⟩
  have hseal := @writePreparedSeal_succeeds m h.stager.markSealed manifest dir hstaging hlayers hterminal
  rw [perform, sealAndPublish, get_bind_apply, bind_apply, rejectIf,
    if_neg (by simp [hcommitted, hprepared, hr.aborted])]
  simp only [outcome_ok]
  rw [bind_apply, onVerifier_verifySeal, hcheck]
  simp only [bind_apply, hseal]
  refine publish_succeeds hcommitted hr.aborted hr.published rfl rfl ?_ ?_
  · rw [StagedDir.layers_afterWrite, hlayers]
  · rw [StagedDir.get?_afterWrite_of_ne (by simp), hready]

theorem receiving_of_create (hcreate : create m limits = .ok s) : Receiving ⟨s, []⟩ := by
  simp only [create, IncrementalVerifierV1.new, bind_eq_ok, exists_unit, pure_eq_ok] at hcreate
  obtain ⟨-, _, ⟨-, rfl⟩, rfl⟩ := hcreate
  refine ⟨rfl, rfl, rfl, _, rfl, rfl, ?_, ?_⟩
  · simp only [Table.get?_put, reduceCtorEq, ↓reduceIte, Table.get?_empty]
  · simp only [Table.get?_put, reduceCtorEq, ↓reduceIte, Table.get?_empty]

/-- All planes and then the seal: the stream is published, whatever became of the files. -/
theorem stream_published (hcreate : create m limits = .ok s)
    (hrules : StreamRules C m (entries.map (·.1)) manifest) :
    succeeded (perform C (.sealAndPublish manifest ⟨.done, true⟩ allDone)
      (run (History.step C) ⟨s, []⟩ (ingestAll entries)).stager) = true := by
  obtain ⟨ha, hs⟩ := @create_eq_ok C m limits s hcreate
  have hlength := length_of_sealRules ha hrules.terminal
  obtain ⟨hr, ht, hplanes⟩ := (receiving_of_create hcreate).ingestAll ha hs.1 hrules.plane hlength.le
  exact hr.publish ht (hplanes ▸ hrules.terminal)

/-! ## Completeness -/

/-- Every successful publication, of a stager or a coordinator, is complete exactly when no call lost anything. -/
theorem published_complete_iff (hcreate : create m limits = .ok s) :
    (∀ calls last, last.publishes = true →
      succeeded (perform C last (run (History.step C) ⟨s, []⟩ calls).stager) = true →
      ((run (History.step C) ⟨s, []⟩ (calls ++ [last])).Published ↔
        Along (History.step C) (LosesNothing C) ⟨s, []⟩ (calls ++ [last]))) ∧
    ∀ calls o, succeeded (StreamingCoordinatorV1.perform C (.publish o)
        (run (StreamingCoordinatorV1.History.step C) ⟨.start s, []⟩ calls).coordinator) = true →
      ((run (StreamingCoordinatorV1.History.step C) ⟨.start s, []⟩ (calls ++ [.publish o])).onStager.Published ↔
        Along (StreamingCoordinatorV1.History.step C) (StreamingCoordinatorV1.LosesNothing C) ⟨.start s, []⟩
          (calls ++ [.publish o])) := by
  obtain ⟨ha, hs⟩ := @create_eq_ok C m limits s hcreate
  refine ⟨fun calls last hpublishes hok => published_iff ha hs hpublishes hok, fun calls o hok => ?_⟩
  exact StreamingCoordinatorV1.published_iff ha hs hok

theorem prerope_create : create prerope preropeLimits =
    .ok { committed := false, prepared := none, verifier := initial prerope preropeLimits, aborted := false,
          staging := some ⟨Table.empty.put .begin_ prerope.toJson.canonical, true⟩, published := none } := by
  have hvalid : prerope.validate preropeLimits = .ok () := by decide
  rw [create, hvalid, prerope_new]
  rfl

/-- The planes of the transfer, the files of each with the same outcome. -/
def preropeCalls (w : PlaneWrites) : List Call :=
  ingestAll ((preropePlanes [0, 0, 0x80, 0x3f]).map fun p => (p, w))

def preropeLast : Call := .sealAndPublish (preropeSeal (preropePlanes [0, 0, 0x80, 0x3f])) ⟨.done, true⟩ allDone

theorem prerope_published (w : PlaneWrites) {s : BundleStager prerope}
    (hcreate : create prerope preropeLimits = .ok s) :
    succeeded (perform checksumCrypto preropeLast
      (run (History.step checksumCrypto) ⟨s, []⟩ (preropeCalls w)).stager) = true := by
  refine stream_published hcreate ?_
  rw [List.map_map]
  exact prerope_rules

theorem prerope_complete :
    ∃ s : BundleStager prerope, create prerope preropeLimits = .ok s ∧
      (run (History.step checksumCrypto) ⟨s, []⟩ (preropeCalls ⟨.done, .done⟩ ++ [preropeLast])).Published :=
  ⟨_, prerope_create, ((published_complete_iff prerope_create).1 _ _ rfl (prerope_published _ prerope_create)).mpr
    ⟨fun _ _ => ⟨rfl, rfl⟩, fun _ _ => ⟨rfl, rfl⟩, trivial, trivial⟩⟩

/-- No payload can be written, and the bundle is published all the same. -/
theorem prerope_incomplete :
    ∃ s : BundleStager prerope, create prerope preropeLimits = .ok s ∧
      succeeded (perform checksumCrypto preropeLast
        (run (History.step checksumCrypto) ⟨s, []⟩ (preropeCalls ⟨.done, .failed none⟩)).stager) = true ∧
      ¬ (run (History.step checksumCrypto) ⟨s, []⟩
        (preropeCalls ⟨.done, .failed none⟩ ++ [preropeLast])).Published := by
  have hpublished := prerope_published ⟨.done, .failed none⟩ prerope_create
  refine ⟨_, prerope_create, hpublished, ?_⟩
  obtain ⟨ha, hs⟩ := @create_eq_ok checksumCrypto prerope preropeLimits _ prerope_create
  rw [published_iff ha hs rfl hpublished]
  rintro ⟨hfirst, -⟩
  have hlt : 0 < prerope.planes.length := by decide
  have hrules : PlanesRules checksumCrypto prerope ([] ++ [(preropePlanes [0, 0, 0x80, 0x3f])[0]]) :=
    PlanesRules.append_singleton.mpr ⟨nofun, prerope_rules.plane 0 _ rfl⟩
  have hcheck := hs.1.verified.after.checkPlane_ok ha rfl hrules hlt
  exact absurd (hfirst rfl hcheck).2 nofun

end Kvpack.Handoff.BundleStager
