import Kvpack.Base.Run
import Kvpack.Store.Collect

/-!
# The store as a state machine

The catalog with the object files and every operation in progress. One event is one catalog transaction, lock scope or
file operation, so a run is an interleaving of any number of callers. An operation in progress is a value that says
what is left of it; a caller that stops leaves it there.
-/

namespace Kvpack.Store

open Base Kvpack.Core

/-! ## Operations in progress -/

/-- How far a put has come with one object: the target is to be looked at, or was absent and is to be linked, or is
there, linked by this put or found. -/
inductive PutPhase where
  | inspect
  | link
  | done (published : Bool)
  deriving DecidableEq

structure PutItem where
  object : ChunkObject
  phase : PutPhase
  deriving DecidableEq

structure Put where
  keyEpoch : UInt64
  /-- The upload and ordinal whose ledger an import advances. -/
  ledger : Option (Id32 × Nat)
  items : List PutItem
  deriving DecidableEq

/-- A collection after its first transaction: victims to check, the one to move next, and those moved. -/
structure Collection where
  pending : List Victim
  current : Option Moved
  moved : List Moved
  deriving DecidableEq

structure State where
  catalog : Catalog
  clock : Nat
  /-- The objects whose file is at its path. -/
  files : List Id32
  puts : List Put
  /-- Files written for a content that another object already holds. -/
  duplicates : List Id32
  evictions : List Eviction
  collections : List Collection
  /-- Demotions between the selection of their victims and their transaction. -/
  demotions : List (List Demoted)
  /-- Demotions after their transaction, with the files still to remove. -/
  removals : List (List Id32)
  deriving DecidableEq

def State.initial : State where
  catalog := Catalog.initial
  clock := 1
  files := []
  puts := []
  duplicates := []
  evictions := []
  collections := []
  demotions := []
  removals := []

/-! ## Events -/

/-- The operations that are one transaction. -/
inductive Transaction where
  | reserve (key : Id32) (reservation : UploadReservation)
  | markReceiving (key : Id32)
  | abort (key : Id32)
  | quarantine (key : Id32)
  | adoptSession (key : Id32) (token : Nat)
  | stageBatch (key : Id32) (token first : Nat) (staged : List UploadChunk)
  | sealProvisional (key : Id32) (token expectedChunks : Nat) (digest : Id32)
  | clearLedger (key : Id32) (published : Bool)
  | bindImport (key manifestId : Id32)
  | sealImport (key : Id32) (expectedChunks : Nat) (digest : Id32)
  | publish (key : Id32) (publications : List PendingManifest)
  | retire (maximumObjects : Nat)
  | deletePrefix (prefixId : Id32)
  | pin (references : List (ChunkRef × Id32))
  | unpin (pinIds : List Id32)
  | acquireLease (request : LeaseRequest)
  | reattachLease (fence : LeaseFence) (maximumDurationNs : Nat)
  | releaseLease (leaseId ownerId : Id32) (authorityTerm : Nat)
  deriving DecidableEq

inductive Event where
  | tick (elapsedNs : Nat)
  /-- Audit export: some events are delivered, and some delivered ones are pruned. -/
  | exportAudit (delivered pruned : List AuditEventKey)
  | transact (t : Transaction)
  | beginPut (keyEpoch : UInt64) (ledger : Option (Id32 × Nat))
  | lookUp (put : Put) (object : ChunkObject)
  | inspectTarget (put : Put) (index : Nat)
  | linkTarget (put : Put) (index : Nat)
  | catalogPut (put : Put)
  | quarantineDuplicate (objectKey : Id32)
  | cleanupPromotion (key objectKey : Id32)
  | evict (manifestId : Id32)
  | finishEviction (eviction : Eviction)
  | selectVictims (keys : List Id32)
  | checkVictim (collection : Collection)
  | moveVictim (collection : Collection)
  | finishCollection (collection : Collection)
  | selectDemotions (keys : List Id32)
  | demoteVictims (victims : List Demoted)
  | dropFile (removal : List Id32)
  deriving DecidableEq

/-! ## Steps -/

variable (C : Crypto) (config : StoreConfig)

def Transaction.apply (now : Nat) : Transaction → Catalog → Except StoreError Catalog
  | .reserve key reservation, c => (·.1) <$> reserveUpload config key reservation now c
  | .markReceiving key, c => Store.markReceiving key now c
  | .abort key, c => abortUpload key now c
  | .quarantine key, c => quarantineUpload key now c
  | .adoptSession key token, c => adoptProvisionalSession key token now c
  | .stageBatch key token first staged, c => commitProvisionalStageBatch key token first staged now c
  | .sealProvisional key token expectedChunks digest, c => sealProvisionalUpload key token expectedChunks digest now c
  | .clearLedger key published, c => clearProvisionalLedger key published c
  | .bindImport key manifestId, c => bindImportManifest key manifestId c
  | .sealImport key expectedChunks digest, c => sealAuthenticatedImport key expectedChunks digest c
  | .publish key publications, c => (·.1) <$> publishManifestBatch C config key publications now c
  | .retire maximumObjects, c => retireKeyEpochsBefore config config.minimumReadableKeyEpoch maximumObjects now c
  | .deletePrefix prefixId, c => Store.deletePrefix config prefixId config.catalogEpoch now c
  | .pin references, c => pinChunkRows references c
  | .unpin pinIds, c => releaseRetainedSourcePins pinIds c
  | .acquireLease request, c => acquireSourceLease config request now c
  | .reattachLease fence maximumDurationNs, c => reattachSourceLease fence maximumDurationNs now c
  | .releaseLease leaseId ownerId authorityTerm, c => releaseSourceLease leaseId ownerId authorityTerm c

def exportOutbox (delivered pruned : List AuditEventKey) (outbox : AuditOutbox) : AuditOutbox :=
  (outbox.map fun event sent => sent || event ∈ delivered).filter fun event sent => !(sent && event ∈ pruned)

/-- An operation that is not in progress cannot go on. -/
def notInProgress : StoreError := .state "operation is not in progress"

def Put.setPhase (put : Put) (index : Nat) (item : PutItem) (phase : PutPhase) : Put :=
  { put with items := put.items.set index { item with phase } }

def State.advancePut (s : State) (put put' : Put) : State := { s with puts := put' :: s.puts.erase put }

/-- The files that lost to another object of the same content. -/
def supersededFiles (items : List PutItem) (cataloged : List CatalogedChunk) : List Id32 :=
  ((items.zip cataloged).filter fun r =>
    !r.2.inserted && r.1.phase = .done true && r.2.reference.objectKey ≠ r.1.object.objectKey).map
      (·.1.object.objectKey)

def PutItem.isDone (item : PutItem) : Bool :=
  match item.phase with
  | .done _ => true
  | _ => false

def lookUpChunk (put : Put) (object : ChunkObject) (s : State) : Except StoreError State := do
  rejectIf (put ∉ s.puts) notInProgress
  if put.ledger = none ∧ (findChunk s.catalog object.chunkId put.keyEpoch).isSome then return s
  else return s.advancePut put { put with items := put.items ++ [⟨object, .inspect⟩] }

def inspectTarget (put : Put) (index : Nat) (s : State) : Except StoreError State := do
  rejectIf (put ∉ s.puts) notInProgress
  let item ← okOr put.items[index]? notInProgress
  rejectIf (item.phase ≠ .inspect) notInProgress
  let phase := if item.object.objectKey ∈ s.files then .done false else .link
  return s.advancePut put (put.setPhase index item phase)

def linkTarget (put : Put) (index : Nat) (s : State) : Except StoreError State := do
  rejectIf (put ∉ s.puts) notInProgress
  let item ← okOr put.items[index]? notInProgress
  rejectIf (item.phase ≠ .link) notInProgress
  if item.object.objectKey ∈ s.files then return s.advancePut put (put.setPhase index item (.done false))
  else return { s.advancePut put (put.setPhase index item (.done true)) with
    files := item.object.objectKey :: s.files }

def catalogPut (put : Put) (s : State) : Except StoreError State := do
  rejectIf (put ∉ s.puts ∨ put.items = [] ∨ ∃ item ∈ put.items, ¬ item.isDone) notInProgress
  let (catalog, cataloged) ← catalogChunks (put.items.map (·.object)) put.keyEpoch put.ledger s.catalog
  return { s with
    catalog
    puts := s.puts.erase put
    duplicates := supersededFiles put.items cataloged ++ s.duplicates }

def State.removeFile (s : State) (key : Id32) : State := { s with files := s.files.filter (· ≠ key) }

def checkNextVictim (collection : Collection) (s : State) : Except StoreError State := do
  rejectIf (collection ∉ s.collections ∨ collection.current ≠ none) notInProgress
  match collection.pending with
  | [] => .error notInProgress
  | victim :: pending => do
      let current ← checkVictim victim s.catalog
      return { s with collections := { collection with pending, current } :: s.collections.erase collection }

def moveVictim (collection : Collection) (s : State) : Except StoreError State := do
  rejectIf (collection ∉ s.collections) notInProgress
  let moved ← okOr collection.current notInProgress
  return { s.removeFile moved.objectKey with
    collections := { collection with current := none, moved := collection.moved ++ [moved] } ::
      s.collections.erase collection }

def exec (s : State) : Event → Except StoreError State
  | .tick elapsedNs => .ok { s with clock := s.clock + elapsedNs }
  | .exportAudit delivered pruned =>
    .ok { s with catalog := { s.catalog with outbox := exportOutbox delivered pruned s.catalog.outbox } }
  | .transact t => do
      let catalog ← t.apply C config s.clock s.catalog
      return { s with catalog }
  | .beginPut keyEpoch ledger => .ok { s with puts := ⟨keyEpoch, ledger, []⟩ :: s.puts }
  | .lookUp put object => lookUpChunk put object s
  | .inspectTarget put index => Store.inspectTarget put index s
  | .linkTarget put index => Store.linkTarget put index s
  | .catalogPut put => Store.catalogPut put s
  | .quarantineDuplicate objectKey => do
      rejectIf (objectKey ∉ s.duplicates) notInProgress
      return { s.removeFile objectKey with duplicates := s.duplicates.erase objectKey }
  | .cleanupPromotion key objectKey =>
    let removed := if s.catalog.exclusive key objectKey then s.removeFile objectKey else s
    .ok { removed with catalog := Store.cleanupPromotion key objectKey s.catalog }
  | .evict manifestId => do
      let (catalog, eviction) ← evictManifest manifestId s.clock s.catalog
      return { s with catalog, evictions := eviction :: s.evictions }
  | .finishEviction eviction => do
      rejectIf (eviction ∉ s.evictions) notInProgress
      let catalog ← finishManifestEviction eviction s.clock s.catalog
      return { s with catalog, evictions := s.evictions.erase eviction }
  | .selectVictims keys => do
      let (catalog, pending) ← Store.selectVictims keys s.clock s.catalog
      return { s with catalog, collections := ⟨pending, none, []⟩ :: s.collections }
  | .checkVictim collection => checkNextVictim collection s
  | .moveVictim collection => Store.moveVictim collection s
  | .finishCollection collection => do
      rejectIf (collection ∉ s.collections ∨ collection.pending ≠ [] ∨ collection.current ≠ none) notInProgress
      let catalog ← Store.finishCollection collection.moved s.clock s.catalog
      return { s with catalog, collections := s.collections.erase collection }
  | .selectDemotions keys => do
      let victims ← Store.selectDemotions keys s.clock s.catalog
      return { s with demotions := victims :: s.demotions }
  | .demoteVictims victims => do
      rejectIf (victims ∉ s.demotions) notInProgress
      let catalog ← Store.demoteVictims victims s.catalog
      return { s with
        catalog
        demotions := s.demotions.erase victims
        removals := droppedBytes victims :: s.removals }
  | .dropFile removal =>
    match removal with
    | [] => .error notInProgress
    | key :: keys => do
        rejectIf (removal ∉ s.removals) notInProgress
        return { s.removeFile key with removals := keys :: s.removals.erase removal }

/-- A refused event changes nothing. -/
def step (s : State) (e : Event) : State :=
  match exec C config s e with
  | .ok s' => s'
  | .error _ => s

end Kvpack.Store
