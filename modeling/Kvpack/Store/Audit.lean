import Kvpack.Store.Recovery

/-!
# The audit trail

The lifecycle transitions that the rows of two catalogs show, the records the outbox holds about them, and the records
that a step owes for the transitions it makes.
-/

namespace Kvpack.Store

open Base Kvpack.Core

/-! ## Transitions -/

inductive LifecycleEvent where
  | uploadReserved | uploadVerified | uploadAborted | uploadQuarantined
  | manifestPublished | manifestTombstoned | manifestCollected
  | chunkTombstoned | chunkCollected
  deriving Repr, DecidableEq

def LifecycleEvent.kind : LifecycleEvent → AuditEventKind
  | .uploadReserved => .reserved
  | .uploadVerified => .verified
  | .uploadAborted => .aborted
  | .uploadQuarantined => .quarantined
  | .manifestPublished => .published
  | .manifestTombstoned | .chunkTombstoned => .tombstoned
  | .manifestCollected | .chunkCollected => .collected

def LifecycleEvent.object : LifecycleEvent → AuditObjectKind
  | .uploadReserved | .uploadVerified | .uploadAborted | .uploadQuarantined => .upload
  | .manifestPublished | .manifestTombstoned | .manifestCollected => .manifest
  | .chunkTombstoned | .chunkCollected => .chunk

/-- The transitions of an upload between two states. A publication verifies on the way. -/
def UploadState.shows (old new : Option UploadState) : LifecycleEvent → Bool
  | .uploadReserved => decide (old ≠ some .reserved ∧ new = some .reserved)
  | .uploadVerified => decide (old ≠ some .verified ∧ old ≠ some .published ∧
      (new = some .verified ∨ new = some .published))
  | .uploadAborted => decide (old ≠ some .aborted ∧ new = some .aborted)
  | .uploadQuarantined => decide (old ≠ some .quarantined ∧ new = some .quarantined)
  | _ => false

namespace Catalog

variable (c c' : Catalog)

def uploadState (key : Id32) : Option UploadState := (c.uploads.get? key).map (·.state)

/-- The transitions of a manifest or a chunk, which is collected when its row goes while leaving. -/
def objectShows (id : Id32) : LifecycleEvent → Bool
  | .manifestPublished => (c.manifests.get? id).isNone && (c'.manifests.get? id).isSome
  | .manifestTombstoned => !c.tombstoned .manifest id && c'.tombstoned .manifest id
  | .manifestCollected => (c.manifests.get? id).isSome && (c'.manifests.get? id).isNone
  | .chunkTombstoned => !c.tombstoned .chunk id && c'.tombstoned .chunk id
  | .chunkCollected => (c.chunks.get? id).any (·.locationState.leaving) && (c'.chunks.get? id).isNone
  | _ => false

/-- Whether the rows before and after show that an object has made a transition. -/
def shows (id : Id32) (event : LifecycleEvent) : Bool :=
  UploadState.shows (c.uploadState id) (c'.uploadState id) event || c.objectShows c' id event

end Catalog

/-! ## Records -/

/-- How many records the outbox holds of a transition of one object. -/
def recordCount (outbox : AuditOutbox) (event : LifecycleEvent) (id : Id32) : Nat :=
  outbox.sum fun record _ =>
    if record.event = event.kind ∧ record.object = event.object ∧ record.objectId = id then 1 else 0

/-- Every transition has been recorded once. -/
def AuditComplete (c c' : Catalog) : Prop :=
  ∀ event id, c.shows c' id event → recordCount c'.outbox event id = recordCount c.outbox event id + 1

/-- The record of a transition, under the generation the code files it with. -/
structure LifecycleRecord where
  event : LifecycleEvent
  objectId : Id32
  generation : Nat
  deriving DecidableEq

def LifecycleRecord.key (record : LifecycleRecord) : AuditEventKey :=
  ⟨record.event.kind, record.event.object, record.objectId, record.generation⟩

/-! ## What a step owes -/

/-- The end of an upload that has not ended yet. -/
def endOwes (event : LifecycleEvent) (key : Id32) (c : Catalog) : List LifecycleRecord :=
  match c.uploads.get? key with
  | some upload => if upload.state.active then [⟨event, key, upload.generation⟩] else []
  | none => []

def publishOwes (key : Id32) (publications : List PendingManifest) (c : Catalog) : List LifecycleRecord :=
  match c.uploads.get? key with
  | none => []
  | some upload =>
    if upload.state = .published then []
    else (if upload.state = .verified then [] else [⟨.uploadVerified, key, upload.generation⟩]) ++
      (publications.filter fun p => c.manifests.get? p.id = none).map fun p =>
        ⟨.manifestPublished, p.id, upload.generation⟩

def retireOwes (config : StoreConfig) (maximumObjects : Nat) (c : Catalog) : List LifecycleRecord :=
  let manifests := retiringManifests c config.minimumReadableKeyEpoch maximumObjects
  (manifests.map fun r => ⟨.manifestTombstoned, r.1, r.2.generation⟩) ++
    (retiringChunks c config.minimumReadableKeyEpoch (maximumObjects - manifests.length)).map fun r =>
      ⟨.chunkTombstoned, r.1, r.2.keyEpoch.toNat⟩

def evictOwes (manifestId : Id32) (c : Catalog) : List LifecycleRecord :=
  match c.manifests.get? manifestId with
  | some row =>
    if c.tombstoned .manifest manifestId then [] else [⟨.manifestTombstoned, manifestId, row.generation⟩]
  | none => []

def selectOwes (keys : List Id32) (c : Catalog) : List LifecycleRecord :=
  (keys.filter fun key => !c.tombstoned .chunk key).map fun key =>
    ⟨.chunkTombstoned, key, ((c.chunks.get? key).map (·.keyEpoch.toNat)).getD 0⟩

def collectOwes (moved : List Moved) (c : Catalog) : List LifecycleRecord :=
  let removable (key : Id32) := (c.chunks.get? key).any fun row => row.locationState.leaving && row.refcount = 0
  ((moved.map (·.objectKey)).filter removable).map fun key => ⟨.chunkCollected, key, 0⟩

/-- The records for the transitions that a step makes if it commits. -/
def Event.owes (config : StoreConfig) (e : Event) (c : Catalog) : List LifecycleRecord :=
  match e with
  | .transact (.reserve key reservation) =>
    if (c.uploadState key).all (· = .aborted) then [⟨.uploadReserved, key, reservation.publicationGeneration⟩]
    else []
  | .transact (.abort key) => endOwes .uploadAborted key c
  | .transact (.quarantine key) => endOwes .uploadQuarantined key c
  | .transact (.publish key publications) => publishOwes key publications c
  | .transact (.retire maximumObjects) => retireOwes config maximumObjects c
  | .evict manifestId => evictOwes manifestId c
  | .finishEviction eviction =>
    if (c.manifests.get? eviction.manifestId).isSome then [⟨.manifestCollected, eviction.manifestId, 0⟩] else []
  | .selectVictims keys => selectOwes keys c
  | .finishCollection collection => collectOwes collection.moved c
  | _ => []

/-- The steps that record no transition: a seal, and the withdrawal of a leaving row. -/
def Event.silent (e : Event) (c : Catalog) : Bool :=
  match e with
  | .transact (.sealProvisional key _ _ _) | .transact (.sealImport key _ _) =>
    decide (c.uploadState key = some .receiving)
  | .cleanupPromotion key objectKey =>
    c.exclusive key objectKey && (c.chunks.get? objectKey).any (·.locationState.leaving)
  | _ => false

/-- The step is not silent, and the outbox holds none of the records it owes. -/
def auditStep (config : StoreConfig) (s : State) (e : Event) : Bool :=
  !e.silent s.catalog && (e.owes config s.catalog).all fun record => decide (s.catalog.outbox.get? record.key = none)

end Kvpack.Store
