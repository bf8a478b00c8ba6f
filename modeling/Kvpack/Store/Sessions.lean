import Kvpack.Base.Effect
import Kvpack.Store.Machine

/-!
# Write sessions

The life of one write session, of each of the three kinds, up to its end without a commit. A session makes one catalog
transaction after the other and stops at the first that fails. The rest of the system is what happens to the catalog
in between, with the outcomes of file operations and the random generator.
-/

namespace Kvpack.Store

open Base Kvpack.Core

/-! ## Surroundings -/

inductive AdmissionDecision where
  | admitted
  | admitOverVictim (victim : Id32)
  | rejectLowerFrequency
  | rejectPromotionStopped

structure Surroundings where
  /-- What happens to the catalog before the session's next lock scope: audit work and cache maintenance, which leave
  uploads alone. -/
  between : Nat → Catalog → Catalog
  uploads_between : ∀ n c, (between n c).uploads = c.uploads
  reservedBytes_between : ∀ n c, (between n c).reservedBytes = c.reservedBytes
  now : Nat → Nat
  now_ne_zero : ∀ n, now n ≠ 0
  /-- Pruning of the quarantine: whether another thread was faster, and whether the rest is within the cap. -/
  pruneQuarantine : Except StoreError (Bool × Bool)
  /-- Listing of the upload directories, for the statistics. -/
  listDirectories : Nat → Except StoreError Unit
  admissionDecision : Except StoreError AdmissionDecision
  flushAccessEpochs : Except StoreError Unit
  /-- The comparison with the watermark, in floating point. -/
  belowWatermark : (bytes capacity : Nat) → Bool
  evictionTarget : (capacity : Nat) → Nat
  /-- The eviction loop: whether it ran out of victims, and whether it used up its operations. -/
  evict : Except StoreError (Bool × Bool)
  /-- The check of a published upload against the declaration. -/
  replay : Except StoreError Unit
  sessionToken : Except StoreError Nat
  /-- Creation of the upload's private directory. -/
  createDirectory : Except StoreError Unit
  /-- Removal of an upload's private directory. -/
  finishDirectory : Nat → Except StoreError Unit

/-- The catalog and the number of lock scopes so far. -/
structure SessionState where
  catalog : Catalog
  scopes : Nat

def SessionState.start (c : Catalog) : SessionState := ⟨c, 0⟩

abbrev Session := EStateM StoreError SessionState

variable (env : Surroundings) (config : StoreConfig)

/-- One lock scope: a transaction that commits or is rolled back. -/
def transact {α : Type} (t : Nat → Catalog → Except StoreError (Catalog × α)) : Session α := fun s =>
  let c := env.between s.scopes s.catalog
  match t (env.now s.scopes) c with
  | .ok (c', a) => .ok a { s with catalog := c', scopes := s.scopes + 1 }
  | .error e => .error e { s with catalog := c, scopes := s.scopes + 1 }

def commit (t : Nat → Catalog → Except StoreError Catalog) : Session Unit :=
  transact env fun now c => (fun c' => (c', ())) <$> t now c

/-- A lock scope that only reads. -/
def inspect {α : Type} (f : Nat → Catalog → Except StoreError α) : Session α :=
  transact env fun now c => (fun a => (c, a)) <$> f now c

def finishUploadDirectory : Session Unit := fun s => outcome (env.finishDirectory s.scopes) s

/-! ## Reaping -/

def expiredUploads (now : Nat) (c : Catalog) : List Id32 :=
  (c.uploads.rows.filter fun r =>
    r.2.state.active && decide (r.2.leaseExpiresNs ≠ 0 ∧ r.2.leaseExpiresNs < now)).map (·.1)

def reapEach : List Id32 → Session Unit
  | [] => pure ()
  | key :: keys => do
      finishUploadDirectory env
      commit env (abortUpload key)
      commit env fun _ => clearProvisionalLedger key false
      reapEach keys

def reapExpiredProvisionalUploads : Session Unit := do
  let expired ← inspect env fun now c => .ok (expiredUploads now c)
  reapEach env expired

def stat : Session Catalog := do
  reapExpiredProvisionalUploads env
  let c ← inspect env fun _ c => .ok c
  fun s => outcome (env.listDirectories s.scopes) s
  return c

/-! ## Admission -/

def Session.enforceQuarantineCap : Session Unit := do
  let (raced, withinCap) ← outcome env.pruneQuarantine
  if raced then discard (stat env)
  outcome (rejectIf (withinCap = false) (.quota "quarantine capacity requires bounded maintenance"))

/-- What a reservation reads of the report of a maintenance. -/
structure EvictionReport where
  afterBytes : Nat
  blocked : Bool

/-- What the evictions do to the catalog is part of the surroundings; both looks at the statistics reap. -/
def maintainCapacityWithHeadroom (capacity incoming : Nat) : Session EvictionReport := do
  outcome (rejectIf (capacity = 0) (.state "capacity maintenance bounds must be nonzero"))
  outcome env.flushAccessEpochs
  let c ← stat env
  let nonDurable := saturatingAdd c.reservedBytes incoming
  let before := saturatingAdd c.durableBytes nonDurable
  if env.belowWatermark before capacity then return ⟨before, false⟩
  let (blocked, exhausted) ← outcome env.evict
  let c ← stat env
  let after := saturatingAdd c.durableBytes nonDurable
  return ⟨after, blocked || exhausted && decide (env.evictionTarget capacity < after)⟩

def AdmissionDecision.check : AdmissionDecision → Except StoreError Unit
  | .rejectLowerFrequency => .error (.quota "TinyLFU rejected lower-value cache admission")
  | .rejectPromotionStopped => .error (.quota "cache promotion stopped at 95% utilization")
  | _ => .ok ()

def checkReport (report : EvictionReport) : Except StoreError Unit := do
  rejectIf (config.quotaBytes * 100 * 95 / 100 ≤ report.afterBytes * 100)
    (.quota "cache promotion stopped at 95% utilization")
  rejectIf (report.blocked = true ∧ config.quotaBytes * 100 * 92 / 100 ≤ report.afterBytes * 100)
    (.quota "cache is read-only under emergency utilization")

/-- The admission of a reservation, with a maintenance from 85% utilization on. -/
def checkAdmission (expectedBytes : Nat) : Session Unit := do
  Session.enforceQuarantineCap env
  let c ← stat env
  outcome (rejectIf (config.stagingQuotaBytes < saturatingAdd c.reservedBytes expectedBytes)
    (.quota "tenant staging quota reservation refused"))
  let projected := saturatingAdd (saturatingAdd c.durableBytes c.reservedBytes) expectedBytes
  outcome (rejectIf (config.quotaBytes < projected) (.quota "tenant durable quota reservation refused"))
  if config.quotaBytes * 85 ≤ projected * 100 then
    let decision ← outcome env.admissionDecision
    outcome decision.check
    let report ← maintainCapacityWithHeadroom env config.quotaBytes expectedBytes
    outcome (checkReport config report)

/-! ## Reservation -/

/-- What the first lock scope of a reservation finds. -/
inductive Existing where
  | absent
  | aborted
  | answered (state : UploadState)

def inspectReservation (key : Id32) (reservation : UploadReservation) (now : Nat) (c : Catalog) :
    Except StoreError Existing :=
  match c.uploads.get? key with
  | some upload => do
      upload.sameDeclaration reservation
      return if upload.state = .aborted then .aborted else .answered upload.state
  | none => do
      rejectIf (config.enduranceBytesPerFiveMinutes <
          saturatingAdd (recentReservedBytes c now) reservation.expectedBytes)
        (.endurance "five-minute endurance budget exhausted")
      return .absent

/-- What an aborted upload may have left behind. -/
def discardAborted (key : Id32) : Session Unit := do
  finishUploadDirectory env
  commit env fun _ => clearProvisionalLedger key false

def reserveAdmitted (key : Id32) (reservation : UploadReservation) (discard : Session Unit) :
    Session UploadState := do
  checkAdmission env config reservation.expectedBytes
  discard
  transact env fun now c => reserveUpload config key reservation now c

def reserve (key : Id32) (reservation : UploadReservation) : Session UploadState := do
  reapExpiredProvisionalUploads env
  outcome (checkReservation key reservation)
  let existing ← inspect env (inspectReservation config key reservation)
  match existing with
  | .answered state => pure state
  | .absent => reserveAdmitted env config key reservation (pure ())
  | .aborted => reserveAdmitted env config key reservation (discardAborted env key)

/-! ## Artifact writers and export sessions -/

/-- The writer, and whether it only replays a publication. -/
def ArtifactWriter.begin (key : Id32) (reservation : UploadReservation) : Session Bool := do
  let state ← reserve env config key reservation
  if state = .published then
    outcome env.replay
    return true
  commit env (markReceiving key)
  return false

def ExportSession.begin (key : Id32) (reservation : UploadReservation) : Session Unit := do
  let state ← reserve env config key reservation
  if state = .published then pure ()
  else commit env (markReceiving key)

/-- The drop of a writer or of an export session that has not committed. -/
def dropUpload (key : Id32) : Session Unit := ignoring (commit env (abortUpload key))

/-- How a writer or an export session ends without a commit. A cancellation that fails drops the session. -/
inductive UploadExit where
  | dropped
  | cancelled

def UploadExit.run (key : Id32) : UploadExit → Session Unit
  | .dropped => dropUpload env key
  | .cancelled => ignoring (onError (commit env (abortUpload key)) (dropUpload env key))

/-! ## Provisional sessions -/

def checkToken (key : Id32) (token : Nat) (stale : StoreError) (c : Catalog) : Except StoreError Unit :=
  match c.uploads.get? key with
  | some upload => rejectIf (upload.state.active ∧ upload.sessionToken ≠ token) stale
  | none => .ok ()

def abortProvisionalSession (key : Id32) (token : Nat) : Session Unit := do
  inspect env fun _ => checkToken key token
    (.state "stale provisional session token; the active reservation is untouched")
  commit env (abortUpload key)

/-- What a begin does before it passes its error on. -/
def failProvisionalBegin (key : Id32) (token : Nat) : Session Unit := do
  ignoring (abortProvisionalSession env key token)
  ignoring (commit env fun _ => clearProvisionalLedger key false)

/-- The reception of a new upload by the session of `token`, or its resumption. -/
def adoptUpload (key : Id32) (token : Nat) : UploadState → Session Unit
  | .reserved => do
      onError (commit env (markReceiving key)) (commit env (abortUpload key))
      onError (commit env (adoptProvisionalSession key token)) (failProvisionalBegin env key token)
  | .receiving => commit env (adoptProvisionalSession key token)
  | _ => throw (.state "provisional export cannot resume a terminal upload")

def beginProvisionalUpload (key : Id32) (reservation : UploadReservation) : Session Nat := do
  let state ← reserve env config key reservation
  let token ← outcome env.sessionToken
  if state = .published then inspect env fun _ c => okOr ((c.uploads.get? key).map (·.sessionToken)) noRows
  else do
    adoptUpload env key token state
    onError (outcome env.createDirectory) (failProvisionalBegin env key token)
    return token

def ProvisionalExportSession.begin (key : Id32) (reservation : UploadReservation) : Session Nat := do
  let _ ← stat env
  beginProvisionalUpload env config key reservation

def cancelProvisionalUpload (key : Id32) (token : Nat) : Session Unit := do
  inspect env fun _ => checkToken key token
    (.state "stale provisional session token; cancel refused, reservation untouched")
  finishUploadDirectory env
  commit env (abortUpload key)
  commit env fun _ => clearProvisionalLedger key false

/-- How a provisional session ends without a commit. A failed cancellation drops the session, which tries again; a
failed seal withdraws what it promoted. -/
inductive ProvisionalExit where
  | dropped
  | cancelled
  | sealFailed (promoted : List Id32)

def withdrawEach (key : Id32) : List Id32 → Session Unit
  | [] => pure ()
  | objectKey :: rest => do
      commit env fun _ c => .ok (cleanupPromotion key objectKey c)
      withdrawEach key rest

def ProvisionalExit.run (key : Id32) (token : Nat) : ProvisionalExit → Session Unit
  | .dropped => ignoring (cancelProvisionalUpload env key token)
  | .cancelled => do
      ignoring (onError (cancelProvisionalUpload env key token) (cancelProvisionalUpload env key token))
  | .sealFailed promoted => do
      ignoring (withdrawEach env key promoted)
      ignoring (cancelProvisionalUpload env key token)

/-! ## Whole sessions -/

/-- What a session does between its begin and its end. -/
inductive SessionWork where
  | put (objects : List ChunkObject) (keyEpoch : UInt64)
  | stage (first : Nat) (staged : List UploadChunk)
  | verify (expectedChunks : Nat) (sealDigest : Id32)

def SessionWork.run (key : Id32) (token : Nat) : SessionWork → Session Unit
  | .put objects keyEpoch => commit env fun _ c => (·.1) <$> catalogChunks objects keyEpoch none c
  | .stage first staged => commit env (commitProvisionalStageBatch key token first staged)
  | .verify expectedChunks sealDigest => commit env (sealProvisionalUpload key token expectedChunks sealDigest)

/-- An operation that fails leaves the session to its caller, who may go on. -/
def runWork (key : Id32) (token : Nat) : List SessionWork → Session Unit
  | [] => pure ()
  | work :: rest => do
      ignoring (work.run env key token)
      runWork key token rest

inductive SessionKind where
  | artifact
  | exportCuts (exit : UploadExit)
  | provisional (exit : ProvisionalExit)

/-- A session that begins, works and ends without a commit; a failed begin ends it. -/
def SessionKind.run (key : Id32) (reservation : UploadReservation) (work : List SessionWork) :
    SessionKind → Session Unit
  | .artifact => do
      let replayed ← ArtifactWriter.begin env config key reservation
      runWork env key 0 work
      unless replayed do dropUpload env key
  | .exportCuts exit => do
      ExportSession.begin env config key reservation
      runWork env key 0 work
      exit.run env key
  | .provisional exit => do
      let token ← ProvisionalExportSession.begin env config key reservation
      runWork env key token work
      exit.run env key token

/-! ## Release -/

def Inactive (key : Id32) (c : Catalog) : Prop :=
  ∀ upload, c.uploads.get? key = some upload → upload.state.active = false

/-- The upload holds nothing, and the reserved bytes are those of before. -/
def ReservationReleased (key : Id32) (c : Catalog) (s : SessionState) : Prop :=
  Inactive key s.catalog ∧ s.catalog.reservedBytes = c.reservedBytes

/-- The last lock scope in which a begin may look for expired uploads. -/
def lastReaping : Nat := 10

/-- No upload of the catalog has expired when a begin looks for expired ones. -/
def NoneExpired (c : Catalog) : Prop := ∀ n ≤ lastReaping, expiredUploads (env.now n) c = []

/-- Whether the outbox has room for a record in the next lock scope. -/
def hasRoom (kind : AuditEventKind) (key : Id32) (generation : Nat) (s : SessionState) : Bool :=
  (requireCapacity (env.between s.scopes s.catalog).outbox [⟨kind, .upload, key, generation⟩]).isOk

/-- The room for an abort; a cancellation tries it twice. -/
def UploadExit.room (key : Id32) (generation : Nat) (s : SessionState) : UploadExit → Bool
  | .dropped => hasRoom env .aborted key generation s
  | .cancelled => hasRoom env .aborted key generation s ||
      hasRoom env .aborted key generation (finalState (commit env (abortUpload key) s))

/-- The room a writer or an export session needs after its reservation. -/
def uploadRoom (key : Id32) (reservation : UploadReservation) (work : List SessionWork) (exit : UploadExit)
    (s : SessionState) : Bool :=
  match reserve env config key reservation s with
  | .error _ _ => true
  | .ok _ s =>
    hasRoom env .receiving key reservation.publicationGeneration s &&
      exit.room env key reservation.publicationGeneration
        (finalState (runWork env key 0 work (finalState (commit env (markReceiving key) s))))

/-- What an abort needs: room for its record, after the look at the token. -/
def abortRoom (key : Id32) (token generation : Nat) (stale : StoreError) (s : SessionState) : Bool :=
  hasRoom env .aborted key generation (finalState (inspect env (fun _ => checkToken key token stale) s))

/-- What a cancellation needs: the removal of the directory, and room for its record. -/
def cancelRoom (key : Id32) (token generation : Nat) (s : SessionState) : Bool :=
  let stale := StoreError.state "stale provisional session token; cancel refused, reservation untouched"
  (env.finishDirectory (s.scopes + 1)).isOk && abortRoom env key token generation stale s

def ProvisionalExit.room (key : Id32) (token generation : Nat) (s : SessionState) : ProvisionalExit → Bool
  | .dropped => cancelRoom env key token generation s
  | .cancelled => cancelRoom env key token generation s ||
      cancelRoom env key token generation (finalState (cancelProvisionalUpload env key token s))
  | .sealFailed promoted => cancelRoom env key token generation (finalState (withdrawEach env key promoted s))

/-- What a provisional session needs after its reservation: room to start receiving or to abort; then its directory or
room to abort; then what its exit needs. -/
def afterReservationRoom (key : Id32) (generation : Nat) (work : List SessionWork) (exit : ProvisionalExit)
    (token : Nat) (s : SessionState) : Bool :=
  if hasRoom env .receiving key generation s then
    let s := finalState (adoptUpload env key token .reserved s)
    match env.createDirectory with
    | .error _ => abortRoom env key token generation
        (.state "stale provisional session token; the active reservation is untouched") s
    | .ok _ => exit.room env key token generation (finalState (runWork env key token work s))
  else hasRoom env .aborted key generation (finalState (commit env (markReceiving key) s))

/-- A reservation whose session gets no token is not given back. -/
def provisionalRoom (key : Id32) (reservation : UploadReservation) (work : List SessionWork) (exit : ProvisionalExit)
    (s : SessionState) : Bool :=
  match (stat env >>= fun _ => reserve env config key reservation) s, env.sessionToken with
  | .error _ _, _ => true
  | .ok _ _, .error _ => false
  | .ok _ s, .ok token => afterReservationRoom env key reservation.publicationGeneration work exit token s

def SessionKind.room (key : Id32) (reservation : UploadReservation) (work : List SessionWork) (s : SessionState) :
    SessionKind → Bool
  | .artifact => uploadRoom env config key reservation work .dropped s
  | .exportCuts exit => uploadRoom env config key reservation work exit s
  | .provisional exit => provisionalRoom env config key reservation work exit s

end Kvpack.Store
