import Kvpack.Base.Atomic
import Kvpack.Store.Recovery

/-!
# Evictions that a crash can stop

What of the store survives a crash, and the evictions and their recovery as programs of atomic steps: every
transaction, query and change of the file system is one step, and a crash makes an eviction forget what it has read.
-/

namespace Kvpack.Store

open Base Kvpack.Core

inductive RetentionSegment where
  | probationarySegment | protectedSegment
  deriving Repr, DecidableEq

structure PolicyObject where
  frequency : Nat
  segment : RetentionSegment
  score : Int
  lastAccessNs : Nat
  lastPersistedEpoch : Nat
  deriving DecidableEq

/-- The catalog with the chunk rows that only removals delete, and the files. -/
structure Image where
  catalog : Catalog
  /-- States of the local locations of the chunks. -/
  chunkLocations : Table Id32 LocationState
  policyObjects : Table Id32 PolicyObject
  /-- The files of chunks and manifests, and those renamed into the trash. -/
  files : List (ObjectKind × Id32)
  trash : List (ObjectKind × Id32)
  deriving DecidableEq

/-- Everything but the audit outbox. -/
def Image.rows (s : Image) : Image := { s with catalog := { s.catalog with outbox := Table.empty } }

abbrev EvictionProg := Prog Image StoreError

/-! ## Files -/

/-- Rename a file into the trash; a file that is not there has been moved before. -/
def moveToTrash (kind : ObjectKind) (id : Id32) (s : Image) : Image :=
  if (kind, id) ∈ s.files then
    { s with files := s.files.filter (· ≠ (kind, id)), trash := s.trash.insert (kind, id) }
  else s

def unlinkTrash (kind : ObjectKind) (id : Id32) (s : Image) : Image :=
  { s with trash := s.trash.filter (· ≠ (kind, id)) }

def moveAndUnlink (kind : ObjectKind) (id : Id32) : EvictionProg Unit := do
  Prog.updating (moveToTrash kind id)
  Prog.updating (unlinkTrash kind id)

/-! ## The end of an eviction -/

def commitManifestEviction (eviction : Eviction) (now : Nat) (s : Image) : Except StoreError Image := do
  let catalog ← finishManifestEviction eviction now s.catalog
  return { s with catalog }

def finishManifestEvictionSteps (eviction : Eviction) (now : Nat) : EvictionProg Unit := do
  moveAndUnlink .manifest eviction.manifestId
  Prog.writing (commitManifestEviction eviction now)

/-- The last transaction of a collection, which takes locations and policy rows along. -/
def commitCollection (moved : List Moved) (now : Nat) (s : Image) : Except StoreError Image := do
  let catalog ← finishCollection moved now s.catalog
  let keys := moved.map (·.objectKey)
  return { s with
    catalog
    chunkLocations := s.chunkLocations.filter fun key _ => key ∉ keys
    policyObjects := s.policyObjects.filter fun key _ => key ∉ keys }

/-- The files of the victims in turn; a victim whose row is gone is passed over. -/
def moveVictims : List Victim → EvictionProg (List Moved)
  | [] => pure []
  | victim :: victims => do
      match ← Prog.reading fun s => checkVictim victim s.catalog with
      | none => moveVictims victims
      | some moved => do
          moveAndUnlink .chunk victim.objectKey
          let rest ← moveVictims victims
          return moved :: rest

def finishBatchSteps (victims : List Victim) (now : Nat) : EvictionProg Unit := do
  let moved ← moveVictims victims
  if moved = [] then return () else Prog.writing (commitCollection moved now)

/-! ## Recovery -/

/-- What recovery reads of a chunk on its way out; its rung says whether it had been demoted. -/
def checkLeaving (key : Id32) (c : Catalog) : Except StoreError (Option Moved) :=
  match c.chunks.get? key with
  | none => .ok none
  | some row => do
      rejectIf (row.refcount ≠ 0 ∨ ¬ row.locationState.leaving)
        (.state "chunk eviction recovery found an invalid catalog transition")
      return some ⟨key, row.objectBytes, row.fidelityRung = .tombstone⟩

def finishChunkEvictionSteps (key : Id32) (now : Nat) : EvictionProg Unit := do
  match ← Prog.reading fun s => checkLeaving key s.catalog with
  | none => return ()
  | some moved => do
      moveAndUnlink .chunk key
      Prog.writing (commitCollection [moved] now)

def nextManifest (s : Image) : Except StoreError (Option (Id32 × ManifestRow)) :=
  .ok (firstRow s.catalog.manifests fun id _ => s.catalog.leavingManifest id)

def nextChunk (s : Image) : Except StoreError (Option (Id32 × ChunkRow)) :=
  .ok (firstRow s.catalog.chunks fun _ row => row.locationState.leaving)

/-- The number of evictions that were completed, at most `bound`. -/
def reconcileSteps (now : Nat) : Nat → EvictionProg Nat
  | 0 => pure 0
  | bound + 1 => do
      match ← Prog.reading nextManifest with
      | some (id, row) => do
          finishManifestEvictionSteps ⟨id, row.fileBytes⟩ now
          let completed ← reconcileSteps now bound
          return completed + 1
      | none => do
          match ← Prog.reading nextChunk with
          | some (key, _) => do
              finishChunkEvictionSteps key now
              let completed ← reconcileSteps now bound
              return completed + 1
          | none => return 0

/-! ## Whole evictions -/

inductive EvictionRequest where
  | manifest (manifestId : Id32)
  | chunks (keys : List Id32)
  deriving DecidableEq

def EvictionRequest.kind : EvictionRequest → ObjectKind
  | .manifest _ => .manifest
  | .chunks _ => .chunk

def EvictionRequest.ids : EvictionRequest → List Id32
  | .manifest manifestId => [manifestId]
  | .chunks keys => keys

/-- What an eviction knows after its first transaction. -/
inductive StartedEviction where
  | manifest (eviction : Eviction)
  | chunks (victims : List Victim)
  deriving DecidableEq

def EvictionRequest.start (now : Nat) (s : Image) : EvictionRequest → Except StoreError (StartedEviction × Image)
  | .manifest manifestId => do
      let (catalog, eviction) ← evictManifest manifestId now s.catalog
      return (.manifest eviction, { s with catalog })
  | .chunks keys => do
      let (catalog, victims) ← selectVictims keys now s.catalog
      return (.chunks victims, { s with catalog })

def StartedEviction.finish (now : Nat) : StartedEviction → EvictionProg Unit
  | .manifest eviction => finishManifestEvictionSteps eviction now
  | .chunks victims => finishBatchSteps victims now

/-- Recovery at some time and with some bound. -/
def IsRecovery (p : EvictionProg Nat) : Prop := ∃ now bound, now ≠ 0 ∧ p = reconcileSteps now bound

end Kvpack.Store
