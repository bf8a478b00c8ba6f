import Kvpack.Store.Objects

/-!
# Publication

A batch of manifests becomes visible in one transaction: manifest rows, chunk references with their counts, prefix
checkpoints and byte ledgers. The same batch under the same upload key is answered from the catalog.
-/

namespace Kvpack.Store

open Base Kvpack.Core

structure PendingManifest where
  encoded : EncodedPack
  manifest : CutManifest
  prefixNode : PrefixNode
  exactFinal : Bool
  deriving DecidableEq

structure PublishedArtifact where
  manifestId : Id32
  tenantNamespace : Id32
  restoredBytes : UInt64
  publicationGeneration : Nat
  deriving DecidableEq

namespace PendingManifest

variable (p : PendingManifest)

def id : Id32 := p.encoded.manifestId
def kind : ManifestKind := p.manifest.realizedSchema.kind

/-- The chunk references of the manifest with the keys of their `manifest_chunks` rows. -/
def references : List (ManifestChunkKey × ChunkRef) :=
  p.manifest.states.flatMap fun state =>
    state.chunks.zipIdx.map fun chunk => (⟨p.id, state.key, chunk.2⟩, chunk.1)

/-- The objects the manifest refers to, each once. -/
def objects : List Id32 := (p.references.map fun r => r.2.objectKey).dedup

def checkpointKey (semantic family : Id32) : CheckpointKey := ⟨p.prefixNode.id, semantic, family⟩

def checkpoint : Checkpoint := ⟨p.prefixNode.tokenCount, p.id, p.exactFinal⟩

end PendingManifest

/-! ## Checks on a batch -/

variable (C : Crypto) (config : StoreConfig)

/-- In a batch each manifest is a delta on its predecessor, or a full one at the start and after the deepest delta. -/
def chained (previous : Option PendingManifest) (p : PendingManifest) : Bool :=
  match previous, p.kind with
  | none, .full => true
  | some q, .delta parent parentCut depth =>
    decide (parent = q.id ∧ parentCut = q.manifest.inputCut ∧ depth.toNat = q.kind.depth.toNat + 1 ∧
      depth ≤ maxDeltaDepth)
  | some q, .full => decide (q.kind.depth = maxDeltaDepth)
  | none, .delta _ _ _ => false

def checkPublication (semantic family : Id32) (several : Bool) (previous : List PendingManifest) (p : PendingManifest) :
    Except StoreError Unit := do
  let disagree := StoreError.expectation "manifest batch identities, order, or exact prefix nodes disagree"
  rejectIf (p.manifest.tenantNamespace ≠ config.tenantNamespace ∨
    semanticModelId C p.manifest.semanticModel ≠ semantic) disagree
  let familyId ← liftPack (representationFamilyId C p.manifest.family)
  rejectIf (familyId ≠ family ∨ p.prefixNode.tokenCount ≠ p.manifest.inputCut.tokenCount ∨
    p.prefixNode.id ≠ p.manifest.inputCut.tokenRoot ∨
    p.manifest.inputCut.tokenCount ≤ (previous.head?.map (·.manifest.inputCut.tokenCount)).getD 0) disagree
  let canonical ← liftPack p.manifest.encodeCanonical
  rejectIf (manifestId C canonical ≠ p.id ∨ p.id ∈ previous.map (·.id)) disagree
  rejectIf (several ∧ ¬ chained previous.head? p)
    (.expectation "manifest batch is not one full plus bounded deltas and compactions")

/-- The publications in turn; `previous` are those checked, the latest first. -/
def checkPublications (semantic family : Id32) (several : Bool) :
    List PendingManifest → List PendingManifest → Except StoreError Unit
  | _, [] => .ok ()
  | previous, p :: rest => do
      checkPublication C config semantic family several previous p
      checkPublications semantic family several (p :: previous) rest

/-- The identities of the model and of the family that the whole batch shares. -/
def validateManifestBatch (publications : List PendingManifest) : Except StoreError (Id32 × Id32) :=
  match publications with
  | [] => .error (.state "manifest batch requires one final publication in last position")
  | first :: _ => do
      rejectIf (publications.getLast?.map (·.exactFinal) ≠ some true ∨
          (publications.filter (·.exactFinal)).length ≠ 1)
        (.state "manifest batch requires one final publication in last position")
      let semantic := semanticModelId C first.manifest.semanticModel
      let family ← liftPack (representationFamilyId C first.manifest.family)
      checkPublications C config semantic family (decide (1 < publications.length)) [] publications
      return (semantic, family)

/-! ## Rows of one manifest -/

def PendingManifest.row (p : PendingManifest) (semantic family : Id32) (generation : Nat) : ManifestRow where
  keyEpoch := p.manifest.keyEpoch
  fileBytes := p.encoded.bytes.length
  restoredBytes := p.manifest.realizedSchema.completeRestoredBytes
  semanticId := semantic
  familyId := family
  tokenCount := p.manifest.inputCut.tokenCount
  parentId := p.kind.parent
  parentDepth := p.kind.depth
  generation := generation

/-- Whether an existing row is of the same bytes. The generation is not compared. -/
def ManifestRow.agrees (row : ManifestRow) (p : PendingManifest) (semantic family : Id32) : Bool :=
  decide (row = p.row semantic family row.generation)

def insertReference (reference : ManifestChunkKey × ChunkRef) (c : Catalog) : Except StoreError Catalog := do
  let row ← okOr (c.chunks.get? reference.2.objectKey) noRows
  rejectIf (row.locationState ≠ .available) noRows
  rejectIf (row.chunkId ≠ reference.2.chunkId ∨ row.objectDigest ≠ reference.2.objectDigest ∨
      row.objectBytes ≠ reference.2.objectBytes.toNat)
    (.authentication "manifest references a mismatched chunk catalog row")
  rejectIf (c.manifestChunks.get? reference.1 ≠ none) (.catalog "UNIQUE constraint failed: manifest_chunks")
  return { c with manifestChunks := c.manifestChunks.put reference.1 reference.2.objectKey }

def insertReferences : List (ManifestChunkKey × ChunkRef) → Catalog → Except StoreError Catalog
  | [], c => .ok c
  | reference :: rest, c => do
      let c ← insertReference reference c
      insertReferences rest c

/-- A transaction in progress: the catalog and the manifests inserted so far. -/
structure Publishing where
  catalog : Catalog
  inserted : List PendingManifest

def publishOne (semantic family : Id32) (generation : Nat) (p : PendingManifest) (tx : Publishing) :
    Except StoreError Publishing :=
  let available (c : Catalog) := { c with locations := c.locations.put p.id .available }
  match tx.catalog.manifests.get? p.id with
  | some row => do
      rejectIf (¬ row.agrees p semantic family)
        (.authentication "existing manifest catalog row disagrees with immutable bytes")
      return { tx with catalog := available tx.catalog }
  | none => do
      let c ← insertReferences p.references tx.catalog
      let c := { c with manifests := c.manifests.put p.id (p.row semantic family generation) }
      return { catalog := available c, inserted := tx.inserted ++ [p] }

def publishEach (semantic family : Id32) (generation : Nat) :
    List PendingManifest → Publishing → Except StoreError Publishing
  | [], tx => .ok tx
  | p :: rest, tx => do
      let tx ← publishOne semantic family generation p tx
      publishEach semantic family generation rest tx

/-! ## The transaction -/

/-- How often the inserted manifests refer to an object, each counted once. -/
def refcountIncrement (inserted : List PendingManifest) (key : Id32) : Nat :=
  (inserted.filter fun p => key ∈ p.objects).length

/-- Bytes of the objects that no manifest referred to before. -/
def newChunkBytes (c : Catalog) (inserted : List PendingManifest) : Nat :=
  c.chunks.sum fun key row => if row.refcount = 0 ∧ refcountIncrement inserted key ≠ 0 then row.objectBytes else 0

def newManifestBytes (inserted : List PendingManifest) : Nat := (inserted.map fun p => p.encoded.bytes.length).sum

def addReferences (inserted : List PendingManifest) (c : Catalog) : Catalog :=
  { c with chunks := c.chunks.map fun key row =>
      { row with refcount := row.refcount + refcountIncrement inserted key } }

def putCheckpoints (semantic family : Id32) (publications : List PendingManifest) (c : Catalog) : Catalog :=
  let put (checkpoints : Table CheckpointKey Checkpoint) (p : PendingManifest) :=
    checkpoints.put (p.checkpointKey semantic family) p.checkpoint
  { c with checkpoints := publications.foldl put c.checkpoints }

def publicationEvents (key : Id32) (generation : Nat) (publications : List PendingManifest) : List AuditEventKey :=
  ⟨.verified, .upload, key, generation⟩ :: publications.map fun p => ⟨.published, .manifest, p.id, generation⟩

def publishedArtifacts (generation : Nat) (publications : List PendingManifest) : List PublishedArtifact :=
  publications.map fun p =>
    ⟨p.id, config.tenantNamespace, p.manifest.realizedSchema.completeRestoredBytes, generation⟩

/-- A published upload answers its batch again while its checkpoints are the ones it wrote. -/
def checkReplay (upload : Upload) (semantic family : Id32) (publications : List PendingManifest) (c : Catalog) :
    Except StoreError Unit := do
  rejectIf (upload.manifestId ≠ publications.getLast?.map (·.id))
    (.authentication "published idempotency result changed")
  rejectIf (∃ p ∈ publications, c.checkpoints.get? (p.checkpointKey semantic family) ≠ some p.checkpoint)
    (.authentication "published cut set no longer matches its idempotent result")

/-- The first publication of an upload, up to its audit events. -/
def commitPublication (key : Id32) (upload : Upload) (semantic family : Id32) (publications : List PendingManifest)
    (c : Catalog) : Except StoreError Catalog := do
  rejectIf (upload.state ≠ .receiving ∧ upload.state ≠ .reserved ∧ upload.state ≠ .verified)
    (.state "upload cannot enter chunk verification")
  let tx ← publishEach semantic family upload.generation publications ⟨c, []⟩
  let actual := newChunkBytes tx.catalog tx.inserted + newManifestBytes tx.inserted
  rejectIf (upload.reservedBytes < actual) (.quota "actual durable publication exceeds reservation")
  let c := putCheckpoints semantic family publications (addReferences tx.inserted tx.catalog)
  return { c.setUpload key { upload with state := .published, manifestId := publications.getLast?.map (·.id) } with
    reservedBytes := c.reservedBytes - upload.reservedBytes
    durableBytes := c.durableBytes + actual }

/-- A published upload is only compared; any other is published now. -/
def publishRows (key : Id32) (upload : Upload) (semantic family : Id32) (publications : List PendingManifest)
    (c : Catalog) : Except StoreError Catalog :=
  if upload.state = .published then do
    checkReplay upload semantic family publications c
    return c
  else commitPublication key upload semantic family publications c

def publishManifestBatch (key : Id32) (publications : List PendingManifest) (now : Nat) (c : Catalog) :
    Except StoreError (Catalog × List PublishedArtifact) := do
  let (semantic, family) ← validateManifestBatch C config publications
  let upload ← okOr (c.uploads.get? key) noRows
  let events := publicationEvents key upload.generation publications
  requireCapacity c.outbox events
  let c ← publishRows key upload semantic family publications c
  let c ← c.record events now
  return (c, publishedArtifacts config upload.generation publications)

/-! ## Resolution -/

structure PrefixHit where
  manifestId : Id32
  tokenCount : UInt64
  recomputeTokens : UInt64
  deriving DecidableEq

/-- A checkpoint is served if its manifest is there, readable, available and not tombstoned. -/
def Catalog.resolvable (c : Catalog) (minimumKeyEpoch : UInt64) (checkpoint : Checkpoint) : Bool :=
  match c.manifests.get? checkpoint.manifestId with
  | some row => decide (minimumKeyEpoch ≤ row.keyEpoch ∧ row.keyEpoch ≤ config.keyEpoch ∧
      c.locations.get? checkpoint.manifestId = some .available ∧ ¬ c.tombstoned .manifest checkpoint.manifestId)
  | none => false

/-- The deepest resolvable checkpoints among the last 900 prefix nodes. -/
def resolvePrefixCandidates (nodes : List PrefixNode) (semantic family : Id32) (candidateBound : Nat)
    (minimumKeyEpoch : UInt64) (c : Catalog) : List PrefixHit :=
  match nodes.getLast? with
  | none => []
  | some requested =>
    let candidates := (nodes.drop (nodes.length - 900)).map (·.id)
    let rows := c.checkpoints.rows.filter fun r =>
      decide (r.1.semanticId = semantic ∧ r.1.familyId = family ∧ r.1.prefixId ∈ candidates) &&
        c.resolvable config minimumKeyEpoch r.2
    ((rows.insertionSort fun a b => b.2.tokenCount ≤ a.2.tokenCount).take (min candidateBound 64)).map fun r =>
      ⟨r.2.manifestId, r.2.tokenCount,
        if requested.tokenCount < r.2.tokenCount then 0 else requested.tokenCount - r.2.tokenCount⟩

end Kvpack.Store
