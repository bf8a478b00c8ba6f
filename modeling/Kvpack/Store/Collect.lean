import Kvpack.Store.Publish

/-!
# Eviction, collection, demotion and retirement

The transactions that take objects away; eviction, collection and demotion are spread over several of them, with a
value handed from one to the next. Query candidates are ordered by policy scores outside the catalog, so a transaction
takes the rows of its query as an argument and checks that the query could have returned them.
-/

namespace Kvpack.Store

open Base Kvpack.Core

/-! ## Manifest eviction -/

/-- The distinct objects a manifest refers to. -/
def Catalog.objectsOf (c : Catalog) (manifestId : Id32) : List Id32 :=
  ((c.manifestChunks.rows.filter fun r => r.1.manifestId = manifestId).map (·.2)).dedup

def Catalog.guarded (c : Catalog) (now : Nat) (objectKey : Id32) : Bool :=
  c.pinned objectKey || c.leased now .chunk objectKey

/-- The eviction query: an available leaf that nothing protects, while no upload is active. -/
def Catalog.evictable (c : Catalog) (now : Nat) (manifestId : Id32) : Bool :=
  decide (c.locations.get? manifestId = some .available) &&
    !c.manifests.any (fun _ row => row.parentId = some manifestId) && !c.leased now .manifest manifestId &&
    (c.objectsOf manifestId).all (fun key => !c.guarded now key) && !c.anyActive

/-- An eviction between its two transactions. -/
structure Eviction where
  manifestId : Id32
  fileBytes : Nat
  deriving DecidableEq

def evictManifest (manifestId : Id32) (now : Nat) (c : Catalog) : Except StoreError (Catalog × Eviction) := do
  let row ← okOr (c.manifests.get? manifestId) noRows
  rejectIf (¬ c.evictable now manifestId) noRows
  let events := [⟨.tombstoned, .manifest, manifestId, row.generation⟩]
  requireCapacity c.outbox events
  let objects := c.objectsOf manifestId
  let c := c.addTombstone .manifest manifestId
  let c := { c with
    checkpoints := c.checkpoints.filter fun _ checkpoint => checkpoint.manifestId ≠ manifestId
    locations := c.locations.modify manifestId fun _ => .evicting
    chunks := c.chunks.map fun key row => if key ∈ objects then { row with refcount := row.refcount - 1 } else row
    manifestChunks := c.manifestChunks.filter fun key _ => key.manifestId ≠ manifestId }
  let c ← c.record events now
  return (c, ⟨manifestId, row.fileBytes⟩)

def finishManifestEviction (eviction : Eviction) (now : Nat) (c : Catalog) : Except StoreError Catalog := do
  let events := [⟨.collected, .manifest, eviction.manifestId, 0⟩]
  requireCapacity c.outbox events
  let c := { c with locations := c.locations.erase eviction.manifestId }
  if c.manifests.get? eviction.manifestId = none then return c
  else
    let c := { c with
      manifests := c.manifests.erase eviction.manifestId
      durableBytes := c.durableBytes - eviction.fileBytes }
    c.record events now

/-! ## Chunk collection -/

/-- The condition of the collection query. -/
def Catalog.collectable (c : Catalog) (now : Nat) (objectKey : Id32) : Bool :=
  match c.chunks.get? objectKey with
  | some row => decide (row.refcount = 0 ∧ (row.locationState = .available ∨ row.locationState = .tombstoned)) &&
      !c.guarded now objectKey && !c.anyActive
  | none => false

structure Victim where
  objectKey : Id32
  wasTombstoned : Bool
  deriving DecidableEq

def markEvicting (c : Catalog) (key : Id32) : Catalog × Victim :=
  let wasTombstoned := decide ((c.chunks.get? key).map (·.locationState) = some .tombstoned)
  let c := c.addTombstone .chunk key
  ({ c with chunks := c.chunks.modify key fun row => { row with locationState := .evicting } }, ⟨key, wasTombstoned⟩)

def markEachEvicting : List Id32 → Catalog → Catalog × List Victim
  | [], c => (c, [])
  | key :: keys, c =>
    let (c, victim) := markEvicting c key
    let (c, victims) := markEachEvicting keys c
    (c, victim :: victims)

def collectionEvents (kind : AuditEventKind) (generation : Id32 → Nat) (keys : List Id32) : List AuditEventKey :=
  keys.map fun key => ⟨kind, .chunk, key, generation key⟩

/-- The first transaction of a collection tombstones its victims. -/
def selectVictims (keys : List Id32) (now : Nat) (c : Catalog) : Except StoreError (Catalog × List Victim) := do
  rejectIf (keys = [] ∨ ¬ keys.Nodup ∨ ∃ key ∈ keys, ¬ c.collectable now key) noRows
  let epoch (key : Id32) := ((c.chunks.get? key).map (·.keyEpoch.toNat)).getD 0
  let events := collectionEvents .tombstoned epoch keys
  requireCapacity c.outbox events
  let (c, victims) := markEachEvicting keys c
  let c ← c.record events now
  return (c, victims)

/-- A victim whose file has been moved away, with the size its row had. -/
structure Moved where
  objectKey : Id32
  objectBytes : Nat
  wasTombstoned : Bool
  deriving DecidableEq

/-- The check before a victim's file is moved: none when its row is gone. -/
def checkVictim (victim : Victim) (c : Catalog) : Except StoreError (Option Moved) :=
  match c.chunks.get? victim.objectKey with
  | none => .ok none
  | some row => do
      rejectIf (row.refcount ≠ 0 ∨ (row.locationState ≠ .evicting ∧ row.locationState ≠ .trashed))
        (.state "chunk eviction recovery found an invalid catalog transition")
      return some ⟨victim.objectKey, row.objectBytes, victim.wasTombstoned⟩

/-- EVICTING to TRASHED, then the row goes unless it has a reference; the bytes this frees. -/
def removeRow (moved : Moved) (c : Catalog) : Catalog × Nat :=
  match c.chunks.get? moved.objectKey with
  | none => (c, 0)
  | some row =>
    if row.locationState = .evicting ∨ row.locationState = .trashed then
      if row.refcount = 0 then
        ({ c with chunks := c.chunks.erase moved.objectKey }, if moved.wasTombstoned then 0 else moved.objectBytes)
      else ({ c with chunks := c.chunks.put moved.objectKey { row with locationState := .trashed } }, 0)
    else (c, 0)

def removeRows : List Moved → Catalog → Catalog × Nat
  | [], c => (c, 0)
  | moved :: rest, c =>
    let (c, freed) := removeRow moved c
    let (c, more) := removeRows rest c
    (c, freed + more)

/-- The last transaction of a collection. -/
def finishCollection (moved : List Moved) (now : Nat) (c : Catalog) : Except StoreError Catalog := do
  let keys := moved.map (·.objectKey)
  requireCapacity c.outbox (collectionEvents .collected (fun _ => 0) keys)
  let (after, freed) := removeRows moved c
  let deleted := keys.filter fun key => (c.chunks.get? key).isSome ∧ after.chunks.get? key = none
  let after := { after with durableBytes := after.durableBytes - freed }
  if deleted = [] then return after
  else after.record (collectionEvents .collected (fun _ => 0) deleted) now

/-! ## Fidelity demotion -/

/-- The condition of the demotion query. -/
def Catalog.demotable (c : Catalog) (now : Nat) (objectKey : Id32) : Bool :=
  match c.chunks.get? objectKey with
  | some row => decide (row.locationState = .available ∧ row.fidelityRung ≠ .tombstone) &&
      !c.guarded now objectKey && !c.anyActive
  | none => false

/-- What the demotion query returned for one row. -/
structure Demoted where
  objectKey : Id32
  rung : FidelityRung
  objectBytes : Nat
  deriving DecidableEq

def selectDemotions (keys : List Id32) (now : Nat) (c : Catalog) : Except StoreError (List Demoted) := do
  rejectIf (keys = [] ∨ ¬ keys.Nodup ∨ ∃ key ∈ keys, ¬ c.demotable now key) noRows
  collect keys fun key => do
    let row ← okOr (c.chunks.get? key) noRows
    return ⟨key, row.fidelityRung, row.objectBytes⟩

/-- One rung down, for a row that is still on the rung it was selected on. -/
def demoteRow (victim : Demoted) (c : Catalog) : Catalog :=
  match c.chunks.get? victim.objectKey with
  | none => c
  | some row =>
    if row.fidelityRung = victim.rung ∧ row.locationState = .available then
      match victim.rung with
      | .residentFp16 =>
        { c with chunks := c.chunks.put victim.objectKey { row with fidelityRung := .restQuantized } }
      | .restQuantized =>
        { c with
          chunks := c.chunks.put victim.objectKey
            { row with fidelityRung := .tombstone, locationState := .tombstoned }
          durableBytes := c.durableBytes - victim.objectBytes }
      | .tombstone => c
    else c

/-- The transaction of a demotion, which reads the rows again but not what protects them. -/
def demoteVictims (victims : List Demoted) (c : Catalog) : Except StoreError Catalog := do
  rejectIf (∃ victim ∈ victims, victim.rung = .tombstone)
    (.state "catalog fidelity rung is outside the demotable ladder")
  return victims.foldl (fun c victim => demoteRow victim c) c

/-- The objects whose files a demotion removes: its victims of the quantized rung. -/
def droppedBytes (victims : List Demoted) : List Id32 :=
  (victims.filter fun victim => victim.rung = .restQuantized).map (·.objectKey)

/-! ## Key-epoch retirement and prefix deletion -/

/-- Whether reading a manifest needs a key below the readable minimum. -/
def Catalog.needsEpochBelow (c : Catalog) (minimum : UInt64) (manifestId : Id32) (row : ManifestRow) : Bool :=
  decide (row.keyEpoch < minimum) ||
    (c.objectsOf manifestId).any fun key => ((c.chunks.get? key).any fun chunk => chunk.keyEpoch < minimum)

def byEpoch {α : Type} (epoch : α → UInt64) (key : α → Id32) (a b : α) : Bool :=
  decide (epoch a < epoch b ∨ (epoch a = epoch b ∧ (key a).val ≤ (key b).val))

def retiringManifests (c : Catalog) (minimum : UInt64) (limit : Nat) : List (Id32 × ManifestRow) :=
  ((c.manifests.rows.filter fun r => c.needsEpochBelow minimum r.1 r.2 && !c.tombstoned .manifest r.1).insertionSort
    fun a b => byEpoch (fun r => r.2.keyEpoch) (·.1) a b).take limit

def retiringChunks (c : Catalog) (minimum : UInt64) (limit : Nat) : List (Id32 × ChunkRow) :=
  ((c.chunks.rows.filter fun r => decide (r.2.keyEpoch < minimum) && !c.tombstoned .chunk r.1).insertionSort
    fun a b => byEpoch (fun r => r.2.keyEpoch) (·.1) a b).take limit

def maxRetirementBatch : Nat := 10000

def addTombstones (kind : ObjectKind) (ids : List Id32) (c : Catalog) : Catalog :=
  ids.foldl (fun c id => c.addTombstone kind id) c

def retireKeyEpochsBefore (config : StoreConfig) (minimum : UInt64) (maximumObjects now : Nat) (c : Catalog) :
    Except StoreError Catalog := do
  rejectIf (minimum ≠ config.minimumReadableKeyEpoch)
    (.state "retirement epoch must equal the configured readable minimum")
  rejectIf (maximumObjects = 0 ∨ maxRetirementBatch < maximumObjects)
    (.state "key-epoch retirement batch bound is invalid")
  let manifests := retiringManifests c minimum maximumObjects
  let chunks := retiringChunks c minimum (maximumObjects - manifests.length)
  let events := (manifests.map fun r => ⟨.tombstoned, .manifest, r.1, r.2.generation⟩) ++
    chunks.map fun r => ⟨.tombstoned, .chunk, r.1, r.2.keyEpoch.toNat⟩
  requireCapacity c.outbox events
  let retired := manifests.map (·.1)
  let c := addTombstones .chunk (chunks.map (·.1)) (addTombstones .manifest retired c)
  let c := { c with checkpoints := c.checkpoints.filter fun _ checkpoint => checkpoint.manifestId ∉ retired }
  c.record events now

def deletePrefix (config : StoreConfig) (prefixId : Id32) (catalogEpoch now : Nat) (c : Catalog) :
    Except StoreError Catalog := do
  rejectIf (isZeroId prefixId ∨ catalogEpoch ≠ config.catalogEpoch)
    (.authentication "prefix deletion identity or catalog epoch is invalid")
  let events := [⟨.tombstoned, .prefixNode, prefixId, catalogEpoch⟩]
  requireCapacity c.outbox events
  let c := c.addTombstone .prefixNode prefixId
  let c := { c with checkpoints := c.checkpoints.filter fun key _ => key.prefixId ≠ prefixId }
  c.record events now

/-! ## Withdrawal of a provisional promotion -/

/-- Whether nothing but the withdrawing upload can be using an object it linked. -/
def Catalog.exclusive (c : Catalog) (key objectKey : Id32) : Bool :=
  !c.chunks.any (fun k row => k = objectKey ∧ row.refcount ≠ 0) && !c.manifestChunks.any (fun _ k => k = objectKey) &&
    !c.uploadChunks.any fun entry chunk => chunk.objectKey = objectKey ∧ entry.1 ≠ key ∧
      (c.uploads.get? entry.1).any (·.state.active)

/-- Unlinks an exclusive object, its file included, in one transaction. -/
def cleanupPromotion (key objectKey : Id32) (c : Catalog) : Catalog :=
  if c.exclusive key objectKey then
    { c with chunks := c.chunks.filter fun k row => ¬ (k = objectKey ∧ row.refcount = 0) }
  else c

end Kvpack.Store
