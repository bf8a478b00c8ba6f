import Kvpack.Restore.Load

/-!
# The cache of decoded manifests

A bounded table of manifests in the order of their last use. A hit saves only the decoding: the file is read and
authenticated again, and the manifest is validated anew for the caller.
-/

namespace Kvpack.Restore

open Base Kvpack.Core Store

/-! ## The table -/

def manifestCacheCapacity : Nat := 32

structure ManifestLru where
  entries : Table Id32 CutManifest
  order : List Id32

namespace ManifestLru

def new : ManifestLru := ⟨Table.empty, []⟩

def get (cache : ManifestLru) (id : Id32) : Option CutManifest × ManifestLru :=
  match cache.entries.get? id with
  | none => (none, cache)
  | some manifest => (some manifest, ⟨cache.entries, cache.order.erase id ++ [id]⟩)

/-- Drops the entries used least recently until there is room for one more. -/
def makeRoom (entries : Table Id32 CutManifest) : List Id32 → Table Id32 CutManifest × List Id32
  | [] => (entries, [])
  | oldest :: order =>
    if manifestCacheCapacity ≤ entries.rows.length then makeRoom (entries.erase oldest) order
    else (entries, oldest :: order)

def put (cache : ManifestLru) (id : Id32) (manifest : CutManifest) : ManifestLru :=
  if (cache.entries.get? id).isSome then cache
  else
    let room := makeRoom cache.entries cache.order
    ⟨room.1.put id manifest, room.2 ++ [id]⟩

end ManifestLru

/-! ## Loading through the table -/

section Load

variable (C : Crypto) (store : LocalStore) (context : ValidationContext) (id : Id32)

def requireManifestReadableEpochs (manifest : CutManifest) : Except StoreError Unit :=
  rejectIf (∃ chunk ∈ manifest.states.flatMap (·.chunks),
      chunk.keyEpoch < store.minimumReadableKeyEpoch ∨ store.keyEpoch < chunk.keyEpoch)
    .notFound

/-- The bytes of a manifest the catalog serves, with their header and keys. -/
def openManifest : Except StoreError (Bytes × PackHeader × KeySchedule) := do
  let _ ← store.manifestCatalogFileBytes id
  let bytes ← store.readManifestBytes id
  let header ← liftPack (inspectPackHeader C bytes)
  rejectIf (header.tenantNamespace ≠ store.tenantNamespace) (.authentication "manifest belongs to another tenant")
  let keys ← store.schedule header.keyEpoch
  return (bytes, header, keys)

def recheckManifest (bytes : Bytes) (keys : KeySchedule) (manifest : CutManifest) : Except StoreError Unit := do
  let verified ← liftPack (verifyAuthenticatedPack C bytes keys)
  rejectIf (verified.manifestId ≠ id) (.authentication "manifest catalog identity mismatch")
  liftPack (validateManifest manifest context)
  requireManifestReadableEpochs store manifest

def decodeManifest (bytes : Bytes) (header : PackHeader) (keys : KeySchedule) : Except StoreError CutManifest := do
  let manifest ← liftPack (decodeAuthenticatedPack C bytes keys context)
  rejectIf (header.manifestId ≠ id) (.authentication "manifest catalog identity mismatch")
  requireManifestReadableEpochs store manifest
  return manifest

def authenticatedManifestCached : EStateM StoreError ManifestLru (Bytes × CutManifest) := do
  let (bytes, header, keys) ← outcome (openManifest C store id)
  let cached ← modifyGet fun cache => cache.get id
  match cached with
  | some manifest => do
      outcome (recheckManifest C store context id bytes keys manifest)
      return (bytes, manifest)
  | none => do
      let manifest ← outcome (decodeManifest C store context id bytes header keys)
      modify fun cache => cache.put id manifest
      return (bytes, manifest)

end Load

/-! ## Loads among other operations -/

/-- An open store with its cache. -/
structure CachedStore where
  store : LocalStore
  cache : ManifestLru

/-- A load, or a change between loads: a publication, an eviction or a retirement may leave any catalog behind. -/
inductive CacheEvent where
  | load (id : Id32) (context : ValidationContext)
  | publish (manifest : CutManifest) (encrypt : Bool) (context : ValidationContext) (entropy : Entropy)
      (catalog : Catalog)
  | evict (id : Id32) (catalog : Catalog)
  | retire (minimumReadableKeyEpoch : UInt64) (catalog : Catalog)
  /-- A file is overwritten by someone who has no keys. -/
  | damage (id : Id32) (bytes : Bytes)

namespace LocalStore

/-- A file that is not there yet; one that is there is never replaced. -/
def linkManifest (store : LocalStore) (pack : EncodedPack) : Id32 → Except StoreError Bytes := fun id =>
  match store.manifestFile id with
  | .ok bytes => .ok bytes
  | .error e => if id = pack.manifestId then .ok pack.bytes else .error e

def publish (C : Crypto) (store : LocalStore) (manifest : CutManifest) (encrypt : Bool) (context : ValidationContext)
    (entropy : Entropy) (catalog : Catalog) : Except StoreError LocalStore := do
  let keys ← store.keySchedule manifest.keyEpoch
  let pack ← liftPack (encodeAuthenticatedPack C manifest keys encrypt context entropy)
  return { store with catalog, manifestFile := store.linkManifest pack }

end LocalStore

namespace CachedStore

def step (C : Crypto) (s : CachedStore) : CacheEvent → CachedStore
  | .load id context => { s with cache := finalState (authenticatedManifestCached C s.store context id s.cache) }
  | .publish manifest encrypt context entropy catalog =>
    match s.store.publish C manifest encrypt context entropy catalog with
    | .ok store => { s with store }
    | .error _ => s
  | .evict id catalog =>
    { s with store := { s.store with
        catalog, manifestFile := fun id' => if id' = id then .error .notFound else s.store.manifestFile id' } }
  | .retire minimumReadableKeyEpoch catalog =>
    { s with store := { s.store with catalog, config := { s.store.config with minimumReadableKeyEpoch } } }
  | .damage id bytes =>
    { s with store := { s.store with
        manifestFile := fun id' => if id' = id then .ok bytes else s.store.manifestFile id' } }

end CachedStore

end Kvpack.Restore
