import Kvpack.Base.Memo
import Kvpack.Restore.Scatter
import Kvpack.Store.Catalog

/-!
# Loading manifest chains

What a reader finds in the store: catalog rows and files, which need not agree. A manifest is served only after its
bytes have been authenticated, and a chain only when the rows and files of its chunks agree with it. One lookup shares
what it has loaded among its candidates.
-/

namespace Kvpack.Restore

open Base Kvpack.Core Store

/-! ## The store of a reader -/

/-- What is at the path of a chunk object. -/
inductive ChunkFile where
  | absent
  /-- Something that is not a regular file. -/
  | other
  | regular (length : Nat)
  deriving DecidableEq

structure LocalStore where
  config : StoreConfig
  catalog : Catalog
  /-- States of the local locations of the chunks. -/
  chunkLocations : Table Id32 LocationState
  /-- Opening and reading the object of a manifest. -/
  manifestFile : Id32 → Except StoreError Bytes
  chunkFile : Id32 → ChunkFile
  /-- The keys of an epoch, as the tenant's key derives them. -/
  keySchedule : UInt64 → Except StoreError KeySchedule

namespace LocalStore

variable (store : LocalStore)

def tenantNamespace : Id32 := store.config.tenantNamespace

def keyEpoch : UInt64 := store.config.keyEpoch

def minimumReadableKeyEpoch : UInt64 := store.config.minimumReadableKeyEpoch

def schedule (epoch : UInt64) : Except StoreError KeySchedule := do
  rejectIf (epoch < store.minimumReadableKeyEpoch ∨ store.keyEpoch < epoch)
    (.state "key epoch is outside the readable window")
  store.keySchedule epoch

/-- The size of a manifest that is readable and not tombstoned. -/
def manifestCatalogFileBytes (id : Id32) : Except StoreError Nat := do
  let row ← okOr (store.catalog.manifests.get? id) .notFound
  rejectIf (row.keyEpoch < store.minimumReadableKeyEpoch ∨ store.keyEpoch < row.keyEpoch ∨
      store.catalog.tombstoned .manifest id)
    .notFound
  return row.fileBytes

def readManifestBytes (id : Id32) : Except StoreError Bytes := do
  let bytes ← store.manifestCatalogFileBytes id
  rejectIf (packHeaderBytes + maxManifestBytes + 16 + packFooterBytes < bytes)
    (.authentication "catalog manifest size exceeds bound")
  let content ← store.manifestFile id
  -- one byte more than the row promises is read, so that a longer file is noticed
  let result := content.take (bytes + 1)
  rejectIf (result.length ≠ bytes) (.authentication "manifest object length changed")
  return result

end LocalStore

/-! ## Manifests -/

section Manifests

variable (C : Crypto) (store : LocalStore) (minimumKeyEpoch : UInt64) (context : ValidationContext)

def loadAuthenticatedManifest (id : Id32) : Except StoreError CutManifest := do
  let bytes ← store.readManifestBytes id
  let header ← liftPack (inspectPackHeader C bytes)
  rejectIf (header.tenantNamespace ≠ store.tenantNamespace)
    (.authentication "manifest candidate belongs to another tenant")
  rejectIf (header.keyEpoch < minimumKeyEpoch ∨ store.keyEpoch < header.keyEpoch) .notFound
  let keys ← store.schedule header.keyEpoch
  let manifest ← liftPack (decodeAuthenticatedPack C bytes keys context)
  let canonical ← liftPack manifest.encodeCanonical
  rejectIf (manifestId C canonical ≠ id)
    (.authentication "manifest candidate identity does not match its catalog row")
  return manifest

end Manifests

/-! ## Chains -/

section Chain

variable (load : Id32 → Except StoreError CutManifest)

/-- The manifests one lookup has loaded so far. -/
abbrev ManifestCache := Memo Id32 CutManifest

def loadParentsCached (leaf : CutManifest) (current : CutManifest) (seen : List Id32) :
    EStateM StoreError ManifestCache (List AuthenticatedManifest) :=
  match current.realizedSchema.kind with
  | .full => pure []
  | .delta parent parentCut depth =>
    if depth = 0 ∨ maxDeltaDepth < depth ∨ parent ∈ seen then
      throw (.authentication "manifest parent chain depth or cycle is invalid")
    else do
      let manifest ← consult load parent
      if _h : manifest.inputCut ≠ parentCut ∨ manifest.semanticModel ≠ leaf.semanticModel ∨
          manifest.family ≠ leaf.family ∨ manifest.tenantNamespace ≠ leaf.tenantNamespace ∨
          manifest.keyEpoch ≠ leaf.keyEpoch ∨
          manifest.realizedSchema.kind.depth.toNat + 1 ≠ current.realizedSchema.kind.depth.toNat then
        throw (.authentication "manifest parent is incompatible with its authenticated child")
      else do
        let ancestors ← loadParentsCached leaf manifest (parent :: seen)
        return ⟨parent, manifest⟩ :: ancestors
termination_by current.realizedSchema.kind.depth.toNat
decreasing_by
  simp only [not_or, not_not] at _h
  omega

def authenticateChainCached (C : Crypto) (leafId : Id32) (expected : Option (Id32 × Id32 × InputCutId)) :
    EStateM StoreError ManifestCache (List AuthenticatedManifest) := do
  let leaf ← consult load leafId
  outcome (checkExpected C leaf expected)
  let ancestors ← loadParentsCached load leaf leaf [leafId]
  let chain := (⟨leafId, leaf⟩ :: ancestors).reverse
  outcome (rejectIf (chain.head?.map (·.manifest.realizedSchema.kind) ≠ some .full ∨
      chain.length ≠ leaf.realizedSchema.kind.depth.toNat + 1)
    (.authentication "manifest chain does not terminate at the declared full root"))
  return chain

end Chain

/-! ## Chunks -/

inductive CachedChunkAvailability where
  | missing
  | available (row : ChunkRow)
  /-- The row is kept, but a demotion has dropped the bytes. -/
  | tombstoned (row : ChunkRow)
  deriving DecidableEq

structure ChainChunkDisposition where
  complete : Bool
  tombstoned : List Id32
  deriving DecidableEq

abbrev AvailabilityCache := Table Id32 CachedChunkAvailability

section Chunks

variable (store : LocalStore)

/-- The row of a chunk that is there, or that a demotion has left behind. -/
def LocalStore.availabilityRow (objectKey : Id32) : Option ChunkRow :=
  (store.catalog.chunks.get? objectKey).filter fun row =>
    decide ((row.locationState = .available ∧ store.chunkLocations.get? objectKey = some .available ∨
        row.locationState = .tombstoned ∧ row.fidelityRung = .tombstone) ∧
      ¬ store.catalog.tombstoned .chunk objectKey)

def availabilityIsTombstoned (row : ChunkRow) : Bool :=
  decide (row.fidelityRung = .tombstone ∧ row.locationState = .tombstoned)

def validateAvailableReference (row : ChunkRow) (reference : ChunkRef) : Except StoreError Unit :=
  rejectIf (row.keyEpoch < store.minimumReadableKeyEpoch ∨ store.keyEpoch < row.keyEpoch ∨
      row.keyEpoch ≠ reference.keyEpoch ∨ row.chunkId ≠ reference.chunkId ∨
      row.objectDigest ≠ reference.objectDigest ∨ row.plaintextBytes ≠ reference.plaintextBytes ∨
      row.objectBytes ≠ reference.objectBytes.toNat)
    (.authentication "local chunk catalog disagrees with authenticated manifest")

/-- What the catalog and the file system say of one reference. -/
def localAvailability (reference : ChunkRef) : Except StoreError CachedChunkAvailability :=
  match store.availabilityRow reference.objectKey with
  | none => .ok .missing
  | some row => do
      validateAvailableReference store row reference
      if availabilityIsTombstoned row then
        return .tombstoned row
      else
        match store.chunkFile reference.objectKey with
        | .absent => return .missing
        | .other => throw (.authentication "local chunk object metadata disagrees with authenticated manifest")
        | .regular length => do
            rejectIf (length ≠ reference.objectBytes.toNat)
              (.authentication "local chunk object metadata disagrees with authenticated manifest")
            return .available row

def fillAvailability : AvailabilityCache → List ChunkRef → Except StoreError AvailabilityCache
  | cache, [] => .ok cache
  | cache, reference :: rest => do
      let availability ← localAvailability store reference
      fillAvailability (cache.put reference.objectKey availability) rest

/-- The references whose keys are not known yet, in the order of their keys. -/
def unknownReferences (cache : AvailabilityCache) (references : List ChunkRef) : List ChunkRef :=
  (references.dedup.filter fun reference => cache.get? reference.objectKey = none).insertionSort
    fun a b => a.objectKey.val ≤ b.objectKey.val

def prefetchLocalAvailability (references : List ChunkRef) (cache : AvailabilityCache) :
    Except StoreError AvailabilityCache :=
  fillAvailability store cache (unknownReferences cache references)

def conflictingReferences : StoreError :=
  .authentication "one local object key has conflicting authenticated references"

/-- The loop over the references, with those missing and tombstoned so far. -/
def validateReferences (cache : AvailabilityCache) :
    List ChunkRef → List Id32 → List ChunkRef → Except StoreError ChainChunkDisposition
  | missing, tombstoned, [] => .ok ⟨missing.isEmpty, tombstoned⟩
  | missing, tombstoned, reference :: rest =>
    match cache.get? reference.objectKey with
    | none => .error (.state "local availability cache is incomplete")
    | some .missing => do
        rejectIf (∃ r ∈ missing, r.objectKey = reference.objectKey ∧ r ≠ reference) conflictingReferences
        validateReferences cache (reference :: missing) tombstoned rest
    | some (.available row) => do
        validateAvailableReference store row reference
        validateReferences cache missing tombstoned rest
    | some (.tombstoned row) => do
        validateAvailableReference store row reference
        validateReferences cache missing (tombstoned.insert reference.objectKey) rest

def chainReferences (chain : List AuthenticatedManifest) : List ChunkRef :=
  chain.flatMap fun entry => entry.manifest.states.flatMap (·.chunks)

def validateCachedChain (chain : List AuthenticatedManifest) (cache : AvailabilityCache) :
    Except StoreError ChainChunkDisposition :=
  validateReferences store cache [] [] (chainReferences chain)

def chainChunkDispositionCached (chain : List AuthenticatedManifest) (cache : AvailabilityCache) :
    Except StoreError (ChainChunkDisposition × AvailabilityCache) :=
  let references := chainReferences chain
  if ∀ reference ∈ references, cache.get? reference.objectKey ≠ none then do
    let disposition ← validateCachedChain store chain cache
    return (disposition, cache)
  else do
    rejectIf (∃ a ∈ references, ∃ b ∈ references, a.objectKey = b.objectKey ∧ a ≠ b) conflictingReferences
    let cache ← prefetchLocalAvailability store references cache
    let disposition ← validateCachedChain store chain cache
    return (disposition, cache)

def chainChunkDisposition (chain : List AuthenticatedManifest) : Except StoreError ChainChunkDisposition := do
  let (disposition, _) ← chainChunkDispositionCached store chain Table.empty
  return disposition

end Chunks

end Kvpack.Restore
