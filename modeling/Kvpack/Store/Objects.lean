import Kvpack.Store.Uploads

/-!
# Chunk rows, pins and source leases

Looking up and cataloguing chunk objects, and the two kinds of protection a reader can put on them.
-/

namespace Kvpack.Store

open Base Kvpack.Core

/-! ## Chunk rows -/

def ChunkRow.reference (row : ChunkRow) (objectKey : Id32) : ChunkRef where
  chunkId := row.chunkId
  objectKey := objectKey
  objectDigest := row.objectDigest
  keyEpoch := row.keyEpoch
  plaintextBytes := row.plaintextBytes
  objectBytes := UInt32.ofNat row.objectBytes

/-- The one row of a content identity and key epoch. -/
def Catalog.canonicalChunk (c : Catalog) (chunkId : Id32) (keyEpoch : UInt64) : Option (Id32 × ChunkRow) :=
  c.chunks.rows.find? fun row => row.2.chunkId = chunkId ∧ row.2.keyEpoch = keyEpoch

def findChunk (c : Catalog) (chunkId : Id32) (keyEpoch : UInt64) : Option ChunkRef :=
  match c.canonicalChunk chunkId keyEpoch with
  | some (key, row) =>
    if row.locationState = .available ∧ ¬ c.tombstoned .chunk key then some (row.reference key) else none
  | none => none

/-- The row of an object that has just been written. -/
def ChunkRow.ofObject (object : ChunkObject) (keyEpoch : UInt64) : ChunkRow where
  chunkId := object.chunkId
  objectDigest := object.objectDigest
  keyEpoch := keyEpoch
  plaintextBytes := object.plaintextBytes
  objectBytes := object.bytes.length
  refcount := 0
  locationState := .available
  fidelityRung := .residentFp16

/-- Whether `INSERT OR IGNORE` is ignored: the key or the content is taken. -/
def Catalog.chunkTaken (c : Catalog) (object : ChunkObject) (keyEpoch : UInt64) : Bool :=
  (c.chunks.get? object.objectKey).isSome || (c.canonicalChunk object.chunkId keyEpoch).isSome

structure CatalogedChunk where
  inserted : Bool
  reference : ChunkRef
  deriving DecidableEq

def catalogChunk (object : ChunkObject) (keyEpoch : UInt64) (c : Catalog) :
    Except StoreError (Catalog × CatalogedChunk) := do
  let taken := c.chunkTaken object keyEpoch
  let c := if taken then c
    else { c with chunks := c.chunks.put object.objectKey (ChunkRow.ofObject object keyEpoch) }
  let (key, row) ← okOr (c.canonicalChunk object.chunkId keyEpoch) noRows
  return (c, { inserted := !taken, reference := row.reference key })

def catalogEach (keyEpoch : UInt64) : List ChunkObject → Catalog → Except StoreError (Catalog × List CatalogedChunk)
  | [], c => .ok (c, [])
  | object :: objects, c => do
      let (c, cataloged) ← catalogChunk object keyEpoch c
      let (c, rest) ← catalogEach keyEpoch objects c
      return (c, cataloged :: rest)

/-- One transaction for a batch of written objects, with the ledger entry of an import. -/
def catalogChunks (objects : List ChunkObject) (keyEpoch : UInt64) (ledger : Option (Id32 × Nat)) (c : Catalog) :
    Except StoreError (Catalog × List CatalogedChunk) := do
  let (c, cataloged) ← catalogEach keyEpoch objects c
  match ledger, objects with
  | some (key, ordinal), object :: _ => do
      let c ← advanceImportCursor key ordinal ⟨object.objectKey, object.objectDigest⟩ c
      return (c, cataloged)
  | _, _ => return (c, cataloged)

/-! ## Pins -/

def Catalog.pinned (c : Catalog) (objectKey : Id32) : Bool := c.pins.any fun _ key => key = objectKey

/-- Whether the catalog lets the object behind a reference be pinned. -/
def Catalog.pinnable (c : Catalog) (reference : ChunkRef) : Bool :=
  match c.chunks.get? reference.objectKey with
  | some row => decide (row.objectDigest = reference.objectDigest ∧ row.locationState = .available ∧
      ¬ c.tombstoned .chunk reference.objectKey ∧ row.objectBytes = reference.objectBytes.toNat)
  | none => false

def pinChunkRows : List (ChunkRef × Id32) → Catalog → Except StoreError Catalog
  | [], c => .ok c
  | (reference, pinId) :: rest, c => do
      rejectIf (¬ c.pinnable reference) (.authentication "chunk catalog reference mismatch")
      rejectIf (c.pins.get? pinId ≠ none) (.catalog "UNIQUE constraint failed: pins")
      pinChunkRows rest { c with pins := c.pins.put pinId reference.objectKey }

def releaseRetainedSourcePins (pinIds : List Id32) (c : Catalog) : Except StoreError Catalog := do
  rejectIf (1000000 < pinIds.length) (.expectation "retained source pin release exceeds the bounded count")
  return { c with pins := c.pins.filter fun pinId _ => pinId ∉ pinIds }

/-! ## Source leases -/

def SourceLease.protects (lease : SourceLease) (now : Nat) (kind : ObjectKind) (id : Id32) : Bool :=
  decide ((kind, id) ∈ lease.objects) &&
    (lease.state = .uncertain || (lease.state = .active && now < lease.expiresNs))

def Catalog.leased (c : Catalog) (now : Nat) (kind : ObjectKind) (id : Id32) : Bool :=
  c.sourceLeases.any fun _ lease => lease.protects now kind id

structure LeaseRequest where
  leaseId : Id32
  manifestId : Id32
  ownerId : Id32
  ownerIncarnation : Id32
  authorityTerm : Nat
  maximumDurationNs : Nat
  /-- The chunk objects of the manifest, each once. -/
  objects : List Id32
  deriving DecidableEq

def maxSourceLeaseNs : Nat := 5 * 60 * 1000000000

def LeaseRequest.check (request : LeaseRequest) (config : StoreConfig) : Except StoreError Unit := do
  rejectIf (isZeroId request.leaseId) (.expectation "source lease identity is zero")
  rejectIf (isZeroId request.manifestId) (.expectation "source lease manifest identity is zero")
  rejectIf (isZeroId request.ownerId) (.expectation "source lease owner identity is zero")
  rejectIf (isZeroId request.ownerIncarnation) (.expectation "source lease owner incarnation is zero")
  rejectIf (request.authorityTerm ≠ config.catalogEpoch ∨ request.maximumDurationNs = 0 ∨
    maxSourceLeaseNs < request.maximumDurationNs) (.authentication "source lease term or duration is invalid")

def SourceLease.sameRequest (lease : SourceLease) (request : LeaseRequest) : Bool :=
  decide (lease.manifestId = request.manifestId ∧ lease.ownerId = request.ownerId ∧
    lease.ownerIncarnation = request.ownerIncarnation ∧ lease.authorityTerm = request.authorityTerm ∧
    lease.maximumDurationNs = request.maximumDurationNs)

def Catalog.servable (c : Catalog) (objectKey : Id32) : Bool :=
  match c.chunks.get? objectKey with
  | some row => decide (row.locationState = .available ∧ ¬ c.tombstoned .chunk objectKey)
  | none => false

def acquireSourceLease (config : StoreConfig) (request : LeaseRequest) (now : Nat) (c : Catalog) :
    Except StoreError Catalog := do
  request.check config
  rejectIf (2 ^ 64 ≤ now + request.maximumDurationNs) (.expectation "source lease expiry overflows")
  match c.sourceLeases.get? request.leaseId with
  | some lease => do
      rejectIf (¬ lease.sameRequest request) (.authentication "source lease identity was reused with changed bounds")
      return c
  | none => do
      let manifest ← okOr (c.manifests.get? request.manifestId) .notFound
      rejectIf (c.tombstoned .manifest request.manifestId) .notFound
      rejectIf (∃ key ∈ request.objects, ¬ c.servable key) .notFound
      return { c with sourceLeases := c.sourceLeases.put request.leaseId {
        manifestId := request.manifestId
        ownerId := request.ownerId
        ownerIncarnation := request.ownerIncarnation
        authorityTerm := request.authorityTerm
        generation := manifest.generation
        state := .active
        maximumDurationNs := request.maximumDurationNs
        expiresNs := now + request.maximumDurationNs
        objects := (.manifest, request.manifestId) :: request.objects.map fun key => (.chunk, key) } }

structure LeaseFence where
  leaseId : Id32
  ownerId : Id32
  ownerIncarnation : Id32
  authorityTerm : Nat
  deriving DecidableEq

def reattachSourceLease (fence : LeaseFence) (maximumDurationNs now : Nat) (c : Catalog) :
    Except StoreError Catalog := do
  rejectIf (maximumDurationNs = 0 ∨ maxSourceLeaseNs < maximumDurationNs)
    (.authentication "source lease reattach duration is invalid")
  let lease ← okOr (c.sourceLeases.get? fence.leaseId) .notFound
  rejectIf (lease.ownerId ≠ fence.ownerId ∨ lease.ownerIncarnation ≠ fence.ownerIncarnation ∨
    lease.authorityTerm ≠ fence.authorityTerm ∨ lease.state = .released)
    (.authentication "source lease reattach fence mismatch")
  rejectIf (2 ^ 64 ≤ now + maximumDurationNs) (.expectation "source lease expiry overflows")
  let lease := { lease with state := .active, maximumDurationNs, expiresNs := now + maximumDurationNs }
  return { c with sourceLeases := c.sourceLeases.put fence.leaseId lease }

def releaseSourceLease (leaseId ownerId : Id32) (authorityTerm : Nat) (c : Catalog) : Except StoreError Catalog := do
  let lease ← okOr (c.sourceLeases.get? leaseId) .notFound
  rejectIf (lease.ownerId ≠ ownerId ∨ lease.authorityTerm ≠ authorityTerm)
    (.authentication "source lease release fence mismatch")
  return { c with sourceLeases := c.sourceLeases.put leaseId { lease with state := .released } }

/-- Restart: no lease granted before it is trusted to have ended. -/
def markActiveSourceLeasesUncertain (c : Catalog) : Catalog :=
  { c with sourceLeases := c.sourceLeases.map fun _ lease =>
      if lease.state = .active then { lease with state := .uncertain } else lease }

end Kvpack.Store
