import Kvpack.Base.Table
import Kvpack.Core.Chunk
import Kvpack.Store.Basic

/-!
# The catalog

The rows one tenant has in the catalog database, and the audit outbox that every transaction writes to. A transaction
is a function from a catalog to the catalog it commits; one that fails is rolled back and leaves the catalog as it was.
-/

namespace Kvpack.Store

open Base Kvpack.Core

/-! ## Rows -/

inductive UploadState where
  | init | reserved | receiving | verified | published | aborted | quarantined
  deriving Repr, DecidableEq

/-- The states in which an upload holds a reservation and blocks collection. -/
def UploadState.active : UploadState → Bool
  | .init | .reserved | .receiving | .verified => true
  | .published | .aborted | .quarantined => false

structure Upload where
  state : UploadState
  reservedBytes : Nat
  expectedBytes : Nat
  generation : Nat
  intentDigest : Id32
  manifestId : Option Id32
  nextChunkOrdinal : Nat
  sealDigest : Id32
  sessionToken : Nat
  leaseExpiresNs : Nat
  deriving DecidableEq

inductive LocationState where
  | available | evicting | trashed | tombstoned
  deriving Repr, DecidableEq

/-- Rungs of the fidelity ladder: 0, 1 and 2. -/
inductive FidelityRung where
  | residentFp16 | restQuantized | tombstone
  deriving Repr, DecidableEq

structure ChunkRow where
  chunkId : Id32
  objectDigest : Id32
  keyEpoch : UInt64
  plaintextBytes : UInt32
  objectBytes : Nat
  refcount : Nat
  locationState : LocationState
  fidelityRung : FidelityRung
  deriving DecidableEq

structure ManifestRow where
  keyEpoch : UInt64
  fileBytes : Nat
  restoredBytes : UInt64
  semanticId : Id32
  familyId : Id32
  tokenCount : UInt64
  parentId : Option Id32
  parentDepth : UInt8
  generation : Nat
  deriving DecidableEq

structure ManifestChunkKey where
  manifestId : Id32
  state : StateKey
  ordinal : Nat
  deriving DecidableEq

structure CheckpointKey where
  prefixId : Id32
  semanticId : Id32
  familyId : Id32
  deriving DecidableEq

structure Checkpoint where
  tokenCount : UInt64
  manifestId : Id32
  exactFinal : Bool
  deriving DecidableEq

inductive SourceLeaseState where
  | active | uncertain | released
  deriving Repr, DecidableEq

inductive ObjectKind where
  | manifest | chunk | prefixNode
  deriving Repr, DecidableEq

instance instLawfulBEqObject : LawfulBEq (ObjectKind × Id32) := inferInstance

structure SourceLease where
  manifestId : Id32
  ownerId : Id32
  ownerIncarnation : Id32
  authorityTerm : Nat
  generation : Nat
  state : SourceLeaseState
  maximumDurationNs : Nat
  expiresNs : Nat
  objects : List (ObjectKind × Id32)
  deriving DecidableEq

structure WriteTicket where
  bucketStartNs : Nat
  reservedBytes : Nat
  deriving DecidableEq

structure UploadChunk where
  objectKey : Id32
  objectDigest : Id32
  deriving DecidableEq

/-! ## Audit outbox -/

inductive AuditEventKind where
  | reserved | receiving | verified | published | aborted | quarantined | tombstoned | collected
  deriving Repr, DecidableEq

inductive AuditObjectKind where
  | upload | prefixNode | manifest | chunk | quarantine
  deriving Repr, DecidableEq

structure AuditEventKey where
  event : AuditEventKind
  object : AuditObjectKind
  objectId : Id32
  generation : Nat
  deriving DecidableEq

/-- Recorded events, each with whether it has been delivered. -/
abbrev AuditOutbox := Table AuditEventKey Bool

inductive AuditCapacity where
  | ready | backpressured
  deriving Repr, DecidableEq

def maxPendingAuditRecords : Nat := 65536
def maxI64 : Nat := 2 ^ 63 - 1

/-- Whether the outbox has room for the events that it does not hold yet. -/
def preflightEvents (outbox : AuditOutbox) (events : List AuditEventKey) : Except StoreError AuditCapacity := do
  let unique := events.dedup
  rejectIf (∃ event ∈ unique, isZeroId event.objectId ∨ maxI64 < event.generation)
    (.state "audit event identity or generation is invalid")
  let needed := (unique.filter fun event => outbox.get? event = none).length
  let pending := (outbox.rows.filter fun record => record.2 = false).length
  return if maxPendingAuditRecords < pending + needed then .backpressured else .ready

/-- The check every transaction makes before it changes a row. -/
def requireCapacity (outbox : AuditOutbox) (events : List AuditEventKey) : Except StoreError Unit := do
  let capacity ← preflightEvents outbox events
  rejectIf (capacity = .backpressured) .busy

def appendEvents (outbox : AuditOutbox) (events : List AuditEventKey) (occurredNs : Nat) :
    Except StoreError AuditOutbox := do
  rejectIf (occurredNs = 0) (.state "audit event timestamp is invalid")
  return events.dedup.foldl (fun outbox event => if outbox.get? event = none then outbox.put event false else outbox)
    outbox

/-! ## The tables -/

structure Catalog where
  durableBytes : Nat
  reservedBytes : Nat
  uploads : Table Id32 Upload
  uploadChunks : Table (Id32 × Nat) UploadChunk
  writeTickets : Table Id32 WriteTicket
  chunks : Table Id32 ChunkRow
  manifests : Table Id32 ManifestRow
  manifestChunks : Table ManifestChunkKey Id32
  /-- States of the local locations of the manifests. -/
  locations : Table Id32 LocationState
  checkpoints : Table CheckpointKey Checkpoint
  tombstones : List (ObjectKind × Id32)
  pins : Table Id32 Id32
  sourceLeases : Table Id32 SourceLease
  outbox : AuditOutbox
  deriving DecidableEq

def Catalog.initial : Catalog where
  durableBytes := 0
  reservedBytes := 0
  uploads := Table.empty
  uploadChunks := Table.empty
  writeTickets := Table.empty
  chunks := Table.empty
  manifests := Table.empty
  manifestChunks := Table.empty
  locations := Table.empty
  checkpoints := Table.empty
  tombstones := []
  pins := Table.empty
  sourceLeases := Table.empty
  outbox := Table.empty

structure StoreConfig where
  tenantNamespace : Id32
  keyEpoch : UInt64
  minimumReadableKeyEpoch : UInt64
  catalogEpoch : Nat
  quotaBytes : Nat
  stagingQuotaBytes : Nat
  enduranceBytesPerFiveMinutes : Nat
  /-- The quotas are stored as signed 64-bit integers. -/
  quota_le : quotaBytes ≤ maxI64
  stagingQuota_le : stagingQuotaBytes ≤ maxI64

/-- The result of reading one row that is not there. -/
def noRows : StoreError := .catalog "Query returned no rows"

namespace Catalog

variable (c : Catalog)

def anyActive : Bool := c.uploads.any fun _ upload => upload.state.active

def tombstoned (kind : ObjectKind) (id : Id32) : Bool := decide ((kind, id) ∈ c.tombstones)

/-- `INSERT OR IGNORE INTO tombstones`. -/
def addTombstone (kind : ObjectKind) (id : Id32) : Catalog :=
  if (kind, id) ∈ c.tombstones then c else { c with tombstones := (kind, id) :: c.tombstones }

def setUpload (key : Id32) (upload : Upload) : Catalog := { c with uploads := c.uploads.put key upload }

def record (events : List AuditEventKey) (now : Nat) : Except StoreError Catalog := do
  let outbox ← appendEvents c.outbox events now
  return { c with outbox }

end Catalog

end Kvpack.Store
