import Kvpack.Store.Machine

/-!
# Work files and recovery

The store with the files that only operations in progress use: staging directories, staged manifests of imports,
partial files of puts, and the quarantine. A crash keeps the catalog and the files and forgets every operation in
progress; opening the store again works off what was left, and fails where it finds something unexpected.
-/

namespace Kvpack.Store

open Base Kvpack.Core

/-! ## Work files -/

structure QuarantineEntry where
  fileBytes : Nat
  createdNs : Nat
  expiresNs : Nat
  deriving DecidableEq

/-- The store with its work files, each named by the identity of the catalog entry it has or would be given. -/
structure Disk where
  store : State
  /-- The directories under uploads/, with the ordinals staged in each. -/
  directories : Table Id32 (List Nat)
  /-- The keys of the staged manifests under uploads/. -/
  stagedManifests : List Id32
  /-- The files under partials/ and quarantine/, with their sizes. -/
  partials : Table Id32 Nat
  quarantined : Table Id32 Nat
  quarantineEntries : Table Id32 QuarantineEntry
  deriving DecidableEq

def Disk.initial : Disk where
  store := State.initial
  directories := Table.empty
  stagedManifests := []
  partials := Table.empty
  quarantined := Table.empty
  quarantineEntries := Table.empty

inductive WorkEvent where
  | store (e : Event)
  | makeDirectory (key : Id32)
  | stageChunk (key : Id32) (ordinal : Nat)
  | removeChunk (key : Id32) (ordinal : Nat)
  | removeDirectory (key : Id32)
  | stageManifest (key : Id32)
  | removeManifest (key : Id32)
  | writePartial (id : Id32) (bytes : Nat)
  | removePartial (id : Id32)
  | moveToQuarantine (id : Id32) (bytes : Nat)
  | catalogQuarantine (id : Id32)
  | pruneQuarantine (id : Id32)
  deriving DecidableEq

variable (C : Crypto) (config : StoreConfig)

/-- One day. -/
def quarantineRetentionNs : Nat := 24 * 60 * 60 * 1000000000

/-- `INSERT OR IGNORE INTO quarantine_entries`. -/
def insertQuarantineEntry (now : Nat) (id : Id32) (bytes : Nat) (entries : Table Id32 QuarantineEntry) :
    Table Id32 QuarantineEntry :=
  if entries.get? id = none then entries.put id ⟨bytes, now, now + quarantineRetentionNs⟩ else entries

/-- Remove a quarantined file and then its entry. -/
def Disk.removeQuarantined (d : Disk) (now : Nat) (id : Id32) : Except StoreError Disk := do
  let events := [⟨.collected, .quarantine, id, 0⟩]
  requireCapacity d.store.catalog.outbox events
  let catalog ← d.store.catalog.record events now
  return { d with
    store := { d.store with catalog }
    quarantined := d.quarantined.erase id
    quarantineEntries := d.quarantineEntries.erase id }

def Disk.exec (d : Disk) : WorkEvent → Except StoreError Disk
  | .store e => do
      let store ← Store.exec C config d.store e
      return { d with store }
  -- the directory of a provisional upload is made after its row has been reserved, and rows are never deleted
  | .makeDirectory key => do
      rejectIf (d.store.catalog.uploads.get? key = none) notInProgress
      return if d.directories.get? key = none then { d with directories := d.directories.put key [] } else d
  | .stageChunk key ordinal => do
      let files ← okOr (d.directories.get? key) notInProgress
      return { d with directories := d.directories.put key (files.insert ordinal) }
  | .removeChunk key ordinal => do
      let files ← okOr (d.directories.get? key) notInProgress
      return { d with directories := d.directories.put key (files.erase ordinal) }
  | .removeDirectory key => do
      let files ← okOr (d.directories.get? key) notInProgress
      rejectIf (files ≠ []) notInProgress
      return { d with directories := d.directories.erase key }
  | .stageManifest key => .ok { d with stagedManifests := d.stagedManifests.insert key }
  | .removeManifest key => .ok { d with stagedManifests := d.stagedManifests.erase key }
  | .writePartial id bytes => do
      rejectIf (isZeroId id) notInProgress
      return { d with partials := d.partials.put id bytes }
  | .removePartial id => .ok { d with partials := d.partials.erase id }
  | .moveToQuarantine id bytes => do
      rejectIf (isZeroId id) notInProgress
      return { d with quarantined := d.quarantined.put id bytes }
  | .catalogQuarantine id => do
      let bytes ← okOr (d.quarantined.get? id) notInProgress
      return { d with quarantineEntries := insertQuarantineEntry d.store.clock id bytes d.quarantineEntries }
  | .pruneQuarantine id => d.removeQuarantined d.store.clock id

def Disk.step (d : Disk) (e : WorkEvent) : Disk :=
  match d.exec C config e with
  | .ok d' => d'
  | .error _ => d

/-! ## Recovery of evictions -/

/-- The states of an object that a crash stopped on its way out. -/
def LocationState.leaving : LocationState → Bool
  | .evicting | .trashed => true
  | .available | .tombstoned => false

def Catalog.leavingManifest (c : Catalog) (manifestId : Id32) : Bool :=
  (c.locations.get? manifestId).any (·.leaving)

/-- The row with the smallest key that satisfies `p`. -/
def firstRow {ν : Type} (t : Table Id32 ν) (p : Id32 → ν → Bool) : Option (Id32 × ν) :=
  ((t.filter p).rows.insertionSort fun a b => a.1.val ≤ b.1.val).head?

def finishChunkEviction (key : Id32) (now : Nat) (c : Catalog) : Except StoreError Catalog :=
  match c.chunks.get? key with
  | none => .ok c
  | some row => do
      rejectIf (row.refcount ≠ 0 ∨ ¬ row.locationState.leaving)
        (.state "chunk eviction recovery found an invalid catalog transition")
      finishCollection [⟨key, row.objectBytes, row.fidelityRung = .tombstone⟩] now c

/-- At most `bound` evictions are completed, the manifests' first. -/
def reconcileEvictions (now : Nat) : Nat → State → Except StoreError State
  | 0, s => .ok s
  | bound + 1, s =>
    match firstRow s.catalog.manifests fun id _ => s.catalog.leavingManifest id with
    | some (id, row) => do
        let catalog ← finishManifestEviction ⟨id, row.fileBytes⟩ now s.catalog
        reconcileEvictions now bound { s with catalog }
    | none =>
      match firstRow s.catalog.chunks fun _ row => row.locationState.leaving with
      | some (key, _) => do
          let catalog ← finishChunkEviction key now s.catalog
          reconcileEvictions now bound { s.removeFile key with catalog }
      | none => .ok s

/-! ## Recovery of uploads -/

inductive UploadEntry where
  | stagedManifest (key : Id32)
  | directory (key : Id32) (files : List Nat)
  deriving DecidableEq

def Disk.uploadEntries (d : Disk) : List UploadEntry :=
  d.stagedManifests.map .stagedManifest ++ d.directories.rows.map fun r => .directory r.1 r.2

def provisionalDirectoryEntryBound : Nat := 8192

/-- A leftover directory is removed with its files, and its upload is aborted. -/
def reconcileDirectory (key : Id32) (files : List Nat) (now : Nat) (c : Catalog) : Except StoreError Catalog := do
  rejectIf (provisionalDirectoryEntryBound < files.length) (.state "provisional cleanup exceeded its per-upload bound")
  let c ← abortUpload key now c
  clearProvisionalLedger key false c

/-- The entries in turn, `seen` of them looked at. A staged manifest stays for its import. -/
def reconcileProvisionalUploads (bound now : Nat) : Nat → List UploadEntry → Catalog → Except StoreError Catalog
  | _, [], c => .ok c
  | seen, entry :: entries, c => do
      rejectIf (bound < seen + 1) (.state "upload reconciliation exceeded its configured bound")
      match entry with
      | .stagedManifest _ => reconcileProvisionalUploads bound now (seen + 1) entries c
      | .directory key files => do
          let c ← reconcileDirectory key files now c
          reconcileProvisionalUploads bound now (seen + 1) entries c

/-! ## Recovery of partial and quarantined files -/

/-- The first `bound` partial files are entered and moved into the quarantine. -/
def reconcilePartials (bound now : Nat) (d : Disk) : Disk :=
  (d.partials.rows.take bound).foldl
    (fun d r => { d with
      partials := d.partials.erase r.1
      quarantined := d.quarantined.put r.1 r.2
      quarantineEntries := insertQuarantineEntry now r.1 r.2 d.quarantineEntries }) d

/-- Entries for the first `bound` quarantined files. -/
def reconcileQuarantine (bound now : Nat) (d : Disk) : Disk :=
  let quarantineEntries := (d.quarantined.rows.take bound).foldl
    (fun entries r => insertQuarantineEntry now r.1 r.2 entries) d.quarantineEntries
  { d with quarantineEntries }

def quarantineMaintenanceBound : Nat := 1024

/-- One percent of the quota. -/
def quarantineLimit : Nat := config.quotaBytes * 10000 / 1000000

def quarantineBytes (entries : Table Id32 QuarantineEntry) : Nat := entries.sum fun _ entry => entry.fileBytes

def byCreation (a b : Id32 × QuarantineEntry) : Bool :=
  decide (a.2.createdNs < b.2.createdNs ∨ (a.2.createdNs = b.2.createdNs ∧ a.1.val ≤ b.1.val))

/-- Above the limit an expired entry goes, or else the oldest; below it only expired ones. -/
def pruneCandidate (limit now : Nat) (entries : Table Id32 QuarantineEntry) : Option Id32 :=
  let unexpired (r : Id32 × QuarantineEntry) : Bool := decide (now < r.2.expiresNs)
  let order := if limit < quarantineBytes entries then
      entries.rows.insertionSort fun a b =>
        (!unexpired a && unexpired b) || (unexpired a == unexpired b && byCreation a b)
    else
      (entries.filter fun id entry => !unexpired (id, entry)).rows.insertionSort fun a b =>
        decide (a.2.expiresNs < b.2.expiresNs) || (a.2.expiresNs == b.2.expiresNs && byCreation a b)
  order.head?.map (·.1)

/-- At most as many entries are removed as the bound allows. -/
def pruneQuarantineBounded (limit now : Nat) : Nat → Disk → Except StoreError Disk
  | 0, d => .ok d
  | bound + 1, d =>
    match pruneCandidate limit now d.quarantineEntries with
    | none => .ok d
    | some id => do
        let d ← d.removeQuarantined now id
        pruneQuarantineBounded limit now bound d

def enforceQuarantineCap (now : Nat) (d : Disk) : Except StoreError Disk := do
  let d ← pruneQuarantineBounded (quarantineLimit config) now quarantineMaintenanceBound d
  rejectIf (quarantineLimit config < quarantineBytes d.quarantineEntries)
    (.quota "quarantine capacity requires bounded maintenance")
  return d

/-! ## Opening the store -/

/-- The checks on the configuration and on the epochs the key supports. -/
def checkConfig (supportsEpoch : UInt64 → Bool) : Except StoreError Unit := do
  rejectIf (config.keyEpoch = 0 ∨ config.minimumReadableKeyEpoch = 0 ∨
    config.keyEpoch < config.minimumReadableKeyEpoch ∨
    64 ≤ config.keyEpoch.toNat - config.minimumReadableKeyEpoch.toNat ∨ config.catalogEpoch = 0 ∨
    config.quotaBytes = 0 ∨ config.stagingQuotaBytes = 0)
    (.state "store epochs, readable window, or durable/staging quotas are invalid")
  let window := config.keyEpoch.toNat + 1 - config.minimumReadableKeyEpoch.toNat
  rejectIf (∃ i ∈ List.range window, ¬ supportsEpoch (config.minimumReadableKeyEpoch + UInt64.ofNat i))
    (.state "store key does not contain the complete readable epoch window")

/-- What is left of the store's process after a crash. -/
def State.crash (s : State) : State :=
  { s with puts := [], duplicates := [], evictions := [], collections := [], demotions := [], removals := [] }

def reconcileBound : Nat := 10000

def reconcileWorkDirs (bound now : Nat) (d : Disk) : Except StoreError Disk := do
  let store ← reconcileEvictions now bound d.store
  let catalog ← reconcileProvisionalUploads bound now 0 d.uploadEntries store.catalog
  let d := { d with store := { store with catalog }, directories := Table.empty }
  return reconcileQuarantine bound now (reconcilePartials bound now d)

/-- Opening the store on what a crash left. -/
def openStore (supportsEpoch : UInt64 → Bool) (d : Disk) : Except StoreError Disk := do
  checkConfig config supportsEpoch
  let now := d.store.clock
  let d := { d with store := { d.store.crash with catalog := markActiveSourceLeasesUncertain d.store.catalog } }
  let d ← reconcileWorkDirs reconcileBound now d
  enforceQuarantineCap config now d

/-- The disks the store can be found on: a new one, what a step leaves, and what an opening after a crash leaves. -/
inductive Reachable (supportsEpoch : UInt64 → Bool) : Disk → Prop
  | created (hconfig : checkConfig config supportsEpoch = .ok ()) : Reachable supportsEpoch Disk.initial
  | step (d : Disk) (e : WorkEvent) (h : Reachable supportsEpoch d) : Reachable supportsEpoch (d.step C config e)
  | reopened (d d' : Disk) (h : Reachable supportsEpoch d) (hopen : openStore config supportsEpoch d = .ok d') :
      Reachable supportsEpoch d'

end Kvpack.Store
