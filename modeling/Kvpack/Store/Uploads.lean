import Kvpack.Store.Catalog

/-!
# Upload transactions

The life of an upload row: reservation under the quotas, reception, provisional sessions and import ledgers, and the
exits other than publication. Each definition is one transaction.
-/

namespace Kvpack.Store

open Base Kvpack.Core

/-! ## Reservation -/

structure RetentionInputs where
  predictedReuseMillis : Nat
  physicalBytes : Nat
  sharedAncestorBytes : Nat
  deriving DecidableEq

structure UploadReservation where
  expectedBytes : Nat
  publicationGeneration : Nat
  intentDigest : Id32
  retention : RetentionInputs
  deriving DecidableEq

def RetentionInputs.validate (r : RetentionInputs) : Except StoreError Unit :=
  rejectIf (1000 < r.predictedReuseMillis ∨ r.physicalBytes = 0 ∨ r.physicalBytes < r.sharedAncestorBytes)
    (.state "retention inputs are invalid")

def checkReservation (key : Id32) (reservation : UploadReservation) : Except StoreError Unit := do
  rejectIf (isZeroId key ∨ reservation.expectedBytes = 0 ∨ maxI64 < reservation.expectedBytes ∨
    reservation.publicationGeneration = 0 ∨ maxI64 < reservation.publicationGeneration ∨
    isZeroId reservation.intentDigest) (.state "invalid write reservation")
  reservation.retention.validate
  rejectIf (reservation.retention.physicalBytes ≠ reservation.expectedBytes)
    (.state "write reservation retention bytes disagree with its bound")

/-- A key may only be used again with the declaration it was first used with. -/
def Upload.sameDeclaration (upload : Upload) (reservation : UploadReservation) : Except StoreError Unit := do
  rejectIf (upload.expectedBytes ≠ reservation.expectedBytes)
    (.expectation "idempotency key was reused with different write bounds")
  rejectIf (upload.generation ≠ reservation.publicationGeneration)
    (.expectation "idempotency key was reused with a different publication generation")
  rejectIf (upload.intentDigest ≠ reservation.intentDigest)
    (.expectation "idempotency key was reused with a different immutable declaration")

def saturatingAdd (a b : Nat) : Nat := min (a + b) (2 ^ 64 - 1)

def enduranceWindowNs : Nat := 300000000000

def recentReservedBytes (c : Catalog) (now : Nat) : Nat :=
  c.writeTickets.sum fun _ ticket => if now - enduranceWindowNs ≤ ticket.bucketStartNs then ticket.reservedBytes else 0

/-- The quota, endurance and audit checks of a reservation, and its row. -/
def admitReservation (config : StoreConfig) (key : Id32) (reservation : UploadReservation) (row : Upload) (now : Nat)
    (c : Catalog) : Except StoreError Catalog := do
  rejectIf (config.stagingQuotaBytes < saturatingAdd c.reservedBytes reservation.expectedBytes)
    (.quota "tenant staging quota reservation refused")
  rejectIf (config.quotaBytes <
      saturatingAdd (saturatingAdd c.durableBytes c.reservedBytes) reservation.expectedBytes)
    (.quota "tenant durable quota reservation refused")
  rejectIf (config.enduranceBytesPerFiveMinutes < saturatingAdd (recentReservedBytes c now) reservation.expectedBytes)
    (.endurance "five-minute endurance budget exhausted")
  let events := [⟨.reserved, .upload, key, reservation.publicationGeneration⟩]
  requireCapacity c.outbox events
  let c := { c.setUpload key row with
    reservedBytes := c.reservedBytes + reservation.expectedBytes
    writeTickets := c.writeTickets.put key ⟨now, reservation.expectedBytes⟩ }
  c.record events now

/-- The row of a first reservation, after its transition from INIT. -/
def Upload.fresh (reservation : UploadReservation) : Upload where
  state := .reserved
  reservedBytes := reservation.expectedBytes
  expectedBytes := reservation.expectedBytes
  generation := reservation.publicationGeneration
  intentDigest := reservation.intentDigest
  manifestId := none
  nextChunkOrdinal := 0
  sealDigest := zeroId
  sessionToken := 0
  leaseExpiresNs := 0

/-- An aborted row reserved again from a clean cursor. -/
def Upload.reinit (upload : Upload) (reservation : UploadReservation) : Upload :=
  { upload with
    state := .reserved
    reservedBytes := reservation.expectedBytes
    manifestId := none
    nextChunkOrdinal := 0
    sealDigest := zeroId
    sessionToken := 0
    leaseExpiresNs := 0 }

/-- The write transaction of a reservation. The scope before it makes the same checks, and the admission policy can
only refuse. -/
def reserveUpload (config : StoreConfig) (key : Id32) (reservation : UploadReservation) (now : Nat) (c : Catalog) :
    Except StoreError (Catalog × UploadState) := do
  checkReservation key reservation
  match c.uploads.get? key with
  | some upload => do
      upload.sameDeclaration reservation
      if upload.state = .aborted then do
        let c ← admitReservation config key reservation (upload.reinit reservation) now c
        return (c, .reserved)
      else return (c, upload.state)
  | none => do
      let c ← admitReservation config key reservation (Upload.fresh reservation) now c
      return (c, .reserved)

/-! ## Reception and exits -/

def markReceiving (key : Id32) (now : Nat) (c : Catalog) : Except StoreError Catalog := do
  let upload ← okOr (c.uploads.get? key) .notFound
  rejectIf (upload.state ≠ .reserved ∧ upload.state ≠ .receiving) (.state "upload is not reserved")
  let events := [⟨.receiving, .upload, key, upload.generation⟩]
  requireCapacity c.outbox events
  (c.setUpload key { upload with state := .receiving }).record events now

/-- Release the reservation of `upload`, whose row becomes `state`. -/
def releaseUpload (key : Id32) (upload : Upload) (state : UploadState) (c : Catalog) : Catalog :=
  { c.setUpload key { upload with state, reservedBytes := 0 } with
    reservedBytes := c.reservedBytes - upload.reservedBytes }

def abortUpload (key : Id32) (now : Nat) (c : Catalog) : Except StoreError Catalog :=
  match c.uploads.get? key with
  | none => .ok c
  | some upload =>
    if upload.state = .published ∨ upload.state = .quarantined then .ok c
    else do
      let events := [⟨.aborted, .upload, key, upload.generation⟩]
      requireCapacity c.outbox events
      (if upload.state = .aborted then c else releaseUpload key upload .aborted c).record events now

def quarantineUpload (key : Id32) (now : Nat) (c : Catalog) : Except StoreError Catalog := do
  let upload ← okOr (c.uploads.get? key) .notFound
  rejectIf (upload.state = .published ∨ upload.state = .aborted)
    (.state "terminal upload cannot transition to quarantined")
  let events := [⟨.quarantined, .upload, key, upload.generation⟩]
  requireCapacity c.outbox events
  (if upload.state = .quarantined then c else releaseUpload key upload .quarantined c).record events now

/-! ## Provisional sessions -/

def provisionalUploadLeaseNs : Nat := 15 * 60 * 1000000000

def adoptProvisionalSession (key : Id32) (token now : Nat) (c : Catalog) : Except StoreError Catalog := do
  let upload ← okOr (c.uploads.get? key) (.state "provisional session adoption raced")
  rejectIf (upload.state ≠ .receiving) (.state "provisional session adoption raced")
  return c.setUpload key { upload with sessionToken := token, leaseExpiresNs := now + provisionalUploadLeaseNs }

def rejectExpiredLease (upload : Upload) (now : Nat) : Except StoreError Unit :=
  rejectIf (upload.leaseExpiresNs ≠ 0 ∧ upload.leaseExpiresNs < now) (.state "provisional upload lease expired")

/-- Ledger rows for consecutive ordinals from `ordinal` on. -/
def insertLedgerRows (key : Id32) : Nat → List UploadChunk → Table (Id32 × Nat) UploadChunk →
    Except StoreError (Table (Id32 × Nat) UploadChunk)
  | _, [], ledger => .ok ledger
  | ordinal, chunk :: chunks, ledger => do
      rejectIf (ledger.get? (key, ordinal) ≠ none) (.catalog "UNIQUE constraint failed: upload_chunks")
      insertLedgerRows key (ordinal + 1) chunks (ledger.put (key, ordinal) chunk)

def commitProvisionalStageBatch (key : Id32) (token first : Nat) (staged : List UploadChunk) (now : Nat)
    (c : Catalog) : Except StoreError Catalog :=
  if staged = [] then .ok c
  else do
    let upload ← okOr (c.uploads.get? key) noRows
    rejectIf (upload.sessionToken ≠ token) (.state "provisional upload session token is stale")
    rejectExpiredLease upload now
    rejectIf (upload.state ≠ .receiving ∨ upload.nextChunkOrdinal ≠ first)
      (.state "provisional upload cursor raced while staging a chunk")
    let uploadChunks ← insertLedgerRows key first staged c.uploadChunks
    return { c.setUpload key { upload with
        nextChunkOrdinal := upload.nextChunkOrdinal + staged.length
        leaseExpiresNs := now + provisionalUploadLeaseNs } with uploadChunks }

def sealProvisionalUpload (key : Id32) (token expectedChunks : Nat) (sealDigest : Id32) (now : Nat) (c : Catalog) :
    Except StoreError Catalog := do
  rejectIf (isZeroId sealDigest) (.authentication "provisional seal digest is zero")
  let upload ← okOr (c.uploads.get? key) noRows
  rejectIf (upload.sessionToken ≠ token) (.state "provisional upload session token is stale")
  rejectIf (upload.state ≠ .published ∧ upload.nextChunkOrdinal ≠ expectedChunks)
    (.authentication "provisional seal observed an incomplete chunk ledger")
  match upload.state with
  | .published | .verified => do
      rejectIf (upload.sealDigest ≠ sealDigest) (.authentication "provisional replay seal identity changed")
      return c
  | .receiving => do
      rejectExpiredLease upload now
      return c.setUpload key { upload with state := .verified, sealDigest }
  | _ => .error (.state "provisional upload cannot accept a seal")

def clearProvisionalLedger (key : Id32) (published : Bool) (c : Catalog) : Except StoreError Catalog := do
  let upload ← okOr (c.uploads.get? key) noRows
  rejectIf (upload.state ≠ if published then .published else .aborted)
    (.state "provisional ledger cannot be cleared in its current state")
  return { c.setUpload key { upload with nextChunkOrdinal := 0 } with
    uploadChunks := c.uploadChunks.filter fun entry _ => entry.1 ≠ key }

/-! ## Authenticated imports -/

/-- The manifest identity is bound to the key before any bytes arrive. -/
def bindImportManifest (key manifestId : Id32) (c : Catalog) : Except StoreError Catalog :=
  match c.uploads.get? key with
  | none => .ok c
  | some upload =>
    match upload.manifestId with
    | some existing => do
        rejectIf (existing ≠ manifestId)
          (.expectation "idempotency key was reused with a different manifest identity")
        return c
    | none => .ok (c.setUpload key { upload with manifestId := some manifestId })

/-- The cursor advance that commits with the rows of an imported chunk. -/
def advanceImportCursor (key : Id32) (ordinal : Nat) (chunk : UploadChunk) (c : Catalog) :
    Except StoreError Catalog := do
  let upload ← okOr (c.uploads.get? key) noRows
  rejectIf (upload.state ≠ .receiving) noRows
  rejectIf (ordinal ≠ upload.nextChunkOrdinal)
    (.expectation "chunk upload raced ahead of the authenticated import cursor")
  let uploadChunks ← insertLedgerRows key ordinal [chunk] c.uploadChunks
  return { c.setUpload key { upload with nextChunkOrdinal := upload.nextChunkOrdinal + 1 } with uploadChunks }

/-- `sealDigest` is the digest of the declaration and of the ledger rows. -/
def sealAuthenticatedImport (key : Id32) (expectedChunks : Nat) (sealDigest : Id32) (c : Catalog) :
    Except StoreError Catalog := do
  let upload ← okOr (c.uploads.get? key) .notFound
  match upload.state with
  | .published => .ok c
  | .receiving | .verified => do
      rejectIf (upload.nextChunkOrdinal ≠ expectedChunks)
        (.state "authenticated import has not received every ordered chunk")
      rejectIf ((c.uploadChunks.rows.filter fun entry => entry.1.1 = key).length ≠ expectedChunks ∨
          ∃ ordinal < expectedChunks, c.uploadChunks.get? (key, ordinal) = none)
        (.authentication "authenticated import chunk ledger is not contiguous")
      rejectIf (upload.state = .verified ∧ upload.sealDigest ≠ sealDigest)
        (.authentication "authenticated import seal changed")
      return c.setUpload key { upload with state := .verified, sealDigest }
  | _ => .error (.state "authenticated import cannot be sealed")

end Kvpack.Store
