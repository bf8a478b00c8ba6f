import Kvpack.Base.Table
import Kvpack.Handoff.Planes
import Kvpack.Handoff.Verify

/-!
# Staged bundles

A stager writes the planes it has verified into a private directory, then the seal and a marker, and renames the
directory. Each file operation may fail, and what it leaves is part of its outcome.
-/

namespace Kvpack.Handoff

open Base Kvpack.Core

/-! ## Files -/

/-- The files of a bundle, by what they are for. -/
inductive BundlePath where
  | begin_
  | terminal
  | ready
  | header (layer : UInt32) (role : TensorRoleV1)
  | payload (layer : UInt32) (role : TensorRoleV1)
  deriving DecidableEq

/-- Whether the file lies in the directory of the layers. -/
def BundlePath.inLayers : BundlePath → Bool
  | .header _ _ => true
  | .payload _ _ => true
  | _ => false

structure StagedDir where
  files : Table BundlePath Bytes
  /-- Whether the directory of the layers exists. -/
  layers : Bool

/-- How a write ends: as asked, or with an error and possibly a part of the file. -/
inductive WriteOutcome where
  | done
  | failed (left : Option Nat)
  deriving DecidableEq

/-- What is at the path after the write of a new file. -/
def WriteOutcome.leaves (o : WriteOutcome) (bytes : Bytes) : Option Bytes :=
  match o with
  | .done => some bytes
  | .failed none => none
  | .failed (some n) => some (bytes.take n)

/-- How the removal of a directory ends: with an error, some of it may be left. -/
inductive RemoveOutcome where
  | done
  | failed (keep : BundlePath → Bool) (layers : Bool)

structure PlaneWrites where
  header : WriteOutcome
  payload : WriteOutcome

structure SealWrites where
  file : WriteOutcome
  synced : Bool

structure PublishOutcome where
  ready : WriteOutcome
  synced : Bool
  renamed : Bool
  parentSynced : Bool

/-- A stager with what is at its two paths. -/
structure BundleStager (m : BeginManifestV1) where
  committed : Bool
  prepared : Option SealManifestV1
  verifier : IncrementalVerifierV1 m
  aborted : Bool
  staging : Option StagedDir
  published : Option StagedDir

namespace StagedDir

def afterWrite (dir : StagedDir) (path : BundlePath) (bytes : Bytes) (o : WriteOutcome) : StagedDir :=
  match o.leaves bytes with
  | some left => { dir with files := dir.files.put path left }
  | none => dir

/-- A removal goes through the directory of the layers first: it is only gone with all its files. -/
def afterRemove (dir : StagedDir) : RemoveOutcome → Option StagedDir
  | .done => none
  | .failed keep layers =>
    some ⟨dir.files.filter fun path _ => keep path && (layers || !path.inLayers), dir.layers && layers⟩

end StagedDir

namespace BundleStager

variable {m : BeginManifestV1} (C : Crypto)

abbrev Action (m : BeginManifestV1) (α : Type) := EStateM HandoffError (BundleStager m) α

def create (m : BeginManifestV1) (limits : ValidationLimits) : Except HandoffError (BundleStager m) := do
  m.validate limits
  let verifier ← IncrementalVerifierV1.new m limits
  return { committed := false, prepared := none, verifier := verifier, aborted := false,
           staging := some ⟨Table.empty.put .begin_ m.toJson.canonical, true⟩, published := none }

def onVerifier {α : Type} (x : EStateM HandoffError (IncrementalVerifierV1 m) α) : Action m α :=
  onPart (·.verifier) (fun verifier s => { s with verifier }) x

/-- A write that only creates: it fails without directory or if the file exists. -/
def writeNewSync (path : BundlePath) (bytes : Bytes) (o : WriteOutcome) : Action m Unit := fun s =>
  match s.staging with
  | none => .error (.io "No such file or directory") s
  | some dir =>
    if path.inLayers ∧ dir.layers = false then .error (.io "No such file or directory") s
    else if (dir.files.get? path).isSome then .error (.io "File exists") s
    else
      let s := { s with staging := some (dir.afterWrite path bytes o) }
      match o with
      | .done => .ok () s
      | .failed _ => .error (.io "write failed") s

def syncDirectories (synced : Bool) : Action m Unit := do
  let s ← get
  outcome (rejectIf (s.staging.any (·.layers) = false ∨ synced = false) (.io "directory sync failed"))

def writeVerified (plane : VerifiedPlaneV1) (writes : PlaneWrites) : Action m Unit := do
  let s ← get
  outcome (rejectIf (s.committed = true ∨ s.prepared.isSome ∨ s.aborted = true)
    (.validation "cannot stage a plane outside the receiving state"))
  writeNewSync (.header plane.header.layer plane.header.role) plane.header.toJson.canonical writes.header
  writeNewSync (.payload plane.header.layer plane.header.role) plane.bytes writes.payload

/-- A plane that this stager's own verifier has accepted. -/
def stageSharedVerified (plane : VerifiedPlaneV1) (writes : PlaneWrites) : Action m Unit := writeVerified plane writes

def ingest (header : LayerHeaderV1) (payload : Bytes) (writes : PlaneWrites) : Action m Unit := do
  let verified ← onVerifier (IncrementalVerifierV1.verifyPlane C header payload)
  writeVerified verified writes

def stageVerified (plane : VerifiedPlaneV1) (writes : PlaneWrites) : Action m Unit := do
  let locallyVerified ← onVerifier (IncrementalVerifierV1.verifyPlane C plane.header plane.bytes)
  outcome (rejectIf (locallyVerified ≠ plane) (.validation "verified plane changed before internal staging"))
  writeVerified plane writes

def writePreparedSeal (manifest : SealManifestV1) (o : SealWrites) : Action m Unit := do
  writeNewSync .terminal manifest.toJson.canonical o.file
  syncDirectories o.synced
  modify fun s => { s with prepared := some manifest }

def cannotPrepare : HandoffError := .validation "bundle cannot prepare another terminal seal"

def prepareSeal (verified : VerifiedSealV1) (o : SealWrites) : Action m Unit := do
  let s ← get
  outcome (rejectIf (s.committed = true ∨ s.prepared.isSome ∨ s.aborted = true) cannotPrepare)
  let locallyVerified ← onVerifier (IncrementalVerifierV1.verifySeal C verified.manifest)
  outcome (rejectIf (locallyVerified ≠ verified)
    (.validation "terminal seal witness belongs to a different verified stream"))
  writePreparedSeal verified.manifest o

def prepareSharedSeal (verified : VerifiedSealV1) (o : SealWrites) : Action m Unit := do
  let s ← get
  outcome (rejectIf (s.committed = true ∨ s.prepared.isSome ∨ s.aborted = true) cannotPrepare)
  writePreparedSeal verified.manifest o

/-- The rename does not replace a directory that is there. -/
def rename (renamed : Bool) : Action m Unit := fun s =>
  match s.staging with
  | none => .error (.io "No such file or directory") s
  | some dir =>
    if renamed = true ∧ s.published = none then .ok () { s with published := some dir, staging := none }
    else .error (.io "rename failed") s

def publish (o : PublishOutcome) : Action m Unit := do
  let s ← get
  outcome (rejectIf (s.committed = true ∨ s.aborted = true)
    (.validation "bundle cannot be published in its current state"))
  let manifest ← outcome (okOr s.prepared (.validation "bundle seal was not prepared"))
  writeNewSync .ready (utf8 (manifest.artifactSha256 ++ "\n")) o.ready
  syncDirectories o.synced
  rename o.renamed
  outcome (rejectIf (o.parentSynced = false) (.io "directory sync failed"))
  modify fun s => { s with committed := true }

def sealAndPublish (manifest : SealManifestV1) (o : SealWrites) (p : PublishOutcome) : Action m Unit := do
  let s ← get
  outcome (rejectIf (s.committed = true ∨ s.prepared.isSome ∨ s.aborted = true)
    (.validation "bundle cannot be sealed in its current state"))
  let verified ← onVerifier (IncrementalVerifierV1.verifySeal C manifest)
  writePreparedSeal verified.manifest o
  publish p

def abort (o : RemoveOutcome) : Action m Unit := fun s =>
  if s.committed = true ∨ s.aborted = true then .ok () s
  else
    match s.staging with
    | none => .ok () s
    | some dir =>
      let s := { s with staging := dir.afterRemove o }
      match o with
      | .done => .ok () { s with aborted := true }
      | .failed _ _ => .error (.io "remove failed") s

/-! ## Calls -/

/-- The seal of the coordinator: verified first, the state of the stager checked afterwards. -/
def sharedSeal (manifest : SealManifestV1) (o : SealWrites) : Action m VerifiedSealV1 := do
  let verified ← onVerifier (IncrementalVerifierV1.verifySeal C manifest)
  prepareSharedSeal verified o
  return verified

inductive Call where
  | ingest (header : LayerHeaderV1) (payload : Bytes) (writes : PlaneWrites)
  | stageVerified (plane : VerifiedPlaneV1) (writes : PlaneWrites)
  | prepareSeal (verified : VerifiedSealV1) (o : SealWrites)
  | sharedSeal (manifest : SealManifestV1) (o : SealWrites)
  | sealAndPublish (manifest : SealManifestV1) (o : SealWrites) (p : PublishOutcome)
  | publish (p : PublishOutcome)
  | abort (o : RemoveOutcome)

def Call.plane : Call → Option (VerifiedPlaneV1 × PlaneWrites)
  | .ingest header payload writes => some (⟨header, payload⟩, writes)
  | .stageVerified plane writes => some (plane, writes)
  | _ => none

def perform : Call → Action m Unit
  | .ingest header payload writes => ingest C header payload writes
  | .stageVerified plane writes => stageVerified C plane writes
  | .prepareSeal verified o => prepareSeal C verified o
  | .sharedSeal manifest o => do
      let _ ← sharedSeal C manifest o
  | .sealAndPublish manifest o p => sealAndPublish C manifest o p
  | .publish p => publish p
  | .abort o => abort o

/-- A stager with the planes that it has accepted. -/
structure History (m : BeginManifestV1) where
  stager : BundleStager m
  planes : List VerifiedPlaneV1

/-- The plane of a call is accepted when the verifier has moved on. -/
def recordPlane (before after : BundleStager m) (plane : Option VerifiedPlaneV1) (planes : List VerifiedPlaneV1) :
    List VerifiedPlaneV1 :=
  if before.verifier.headers.length < after.verifier.headers.length then planes ++ plane.toList else planes

/-- What a call leaves, whether it is refused or not. -/
def History.step (h : History m) (c : Call) : History m :=
  let after := finalState (perform C c h.stager)
  ⟨after, recordPlane h.stager after (c.plane.map (·.1)) h.planes⟩

end BundleStager

/-! ## Completeness -/

/-- Both files of a plane, whole. -/
structure StagedDir.HoldsPlane (dir : StagedDir) (p : VerifiedPlaneV1) : Prop where
  header : dir.files.get? (.header p.header.layer p.header.role) = some p.header.toJson.canonical
  payload : dir.files.get? (.payload p.header.layer p.header.role) = some p.bytes

/-- A directory with the begin, the seal, the marker and both files of every plane. -/
structure StagedDir.Complete (m : BeginManifestV1) (planes : List VerifiedPlaneV1) (manifest : SealManifestV1)
    (dir : StagedDir) : Prop where
  begin_ : dir.files.get? .begin_ = some m.toJson.canonical
  terminal : dir.files.get? .terminal = some manifest.toJson.canonical
  ready : dir.files.get? .ready = some (utf8 (manifest.artifactSha256 ++ "\n"))
  plane : ∀ (i : Nat) (spec : PlaneSpec), m.planes[i]? = some spec →
    ∃ p, planes[i]? = some p ∧ p.header.layer = spec.layer ∧ p.header.role = spec.role ∧ dir.HoldsPlane p

/-- The files that the publication of a bundle relies on, apart from the marker. -/
def Needed (planes : List VerifiedPlaneV1) (prepared : Option SealManifestV1) : BundlePath → Prop
  | .begin_ => True
  | .terminal => prepared.isSome = true
  | .ready => False
  | .header layer role => ∃ p ∈ planes, p.header.layer = layer ∧ p.header.role = role
  | .payload layer role => ∃ p ∈ planes, p.header.layer = layer ∧ p.header.role = role

namespace BundleStager

variable {m : BeginManifestV1} (C : Crypto)

/-- A call that loses nothing: an accepted plane is written whole, and a failed removal leaves what the publication
needs. -/
def LosesNothing (h : History m) : Call → Prop
  | .ingest header payload writes =>
    h.stager.aborted = false → (∃ n, h.stager.verifier.checkPlane C header payload = .ok n) →
      writes.header = .done ∧ writes.payload.leaves payload = some payload
  | .stageVerified plane writes =>
    h.stager.aborted = false → (∃ n, h.stager.verifier.checkPlane C plane.header plane.bytes = .ok n) →
      writes.header = .done ∧ writes.payload.leaves plane.bytes = some plane.bytes
  | .abort (.failed keep layers) =>
    h.stager.committed = false → h.stager.aborted = false → ∀ dir, h.stager.staging = some dir →
      ∀ path, Needed h.planes h.stager.prepared path → (dir.files.get? path).isSome = true →
        (keep path && (layers || !path.inLayers)) = true
  | _ => True

/-- The directory at the final path has everything. -/
def History.Published (h : History m) : Prop :=
  ∃ dir manifest, h.stager.published = some dir ∧ h.stager.prepared = some manifest ∧ dir.Complete m h.planes manifest

def Call.publishes : Call → Bool
  | .sealAndPublish _ _ _ => true
  | .publish _ => true
  | _ => false

end BundleStager

end Kvpack.Handoff
