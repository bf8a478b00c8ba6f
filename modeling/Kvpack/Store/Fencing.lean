import Kvpack.Base.Callers
import Kvpack.Store.Sessions
import Kvpack.Store.Staging

/-!
# Provisional sessions side by side

Any number of provisional sessions under one idempotency key share the catalog and the upload's private directory.
Each transaction, lock scope and file operation of a call is one task, so a run is an interleaving of the calls; after
a look at the upload a call goes on with tasks that do not look again.
-/

namespace Kvpack.Store.Fencing

open Base Kvpack.Core

/-! ## The shared state -/

structure Shared where
  catalog : Catalog
  /-- The private directory of the upload, if it exists. -/
  directory : Option StagedFiles

def Shared.files (s : Shared) : List (Nat × Bytes) :=
  match s.directory with
  | some files => files.rows
  | none => []

/-! ## Tasks -/

/-- Files that a session writes, and the ledger rows it commits after them; which chunks are written is up to the
session. -/
structure StageBatch where
  files : List (Nat × Bytes)
  first : Nat
  staged : List UploadChunk

inductive Action where
  -- begin
  | readExpired
  | inspectReservation (reservation : UploadReservation) (token : Nat)
  /-- The quarantine cap, the admission policy and the maintenance it asks for. -/
  | admission
  | reserveUpload (reservation : UploadReservation) (token : Nat)
  | markReceiving (token : Nat)
  | adoptSession (token : Nat)
  | readSession
  | inspectDirectory (token : Nat)
  | createDirectory (token : Nat)
  /-- The look at the token before an abort, and before a cancellation. -/
  | checkAbort
  | checkCancel
  -- removal
  | openDirectory
  | removeEntries
  | abortUpload
  | clearLedger (published : Bool)
  -- staging
  | beginStageBatch (batches : List StageBatch)
  | writeFile (ordinal : Nat) (bytes : Bytes)
  | commitStageBatch (first : Nat) (staged : List UploadChunk)
  -- seal
  | verifyLedger (references : List UploadChunk)
  | promote (object : ChunkObject)
  | withdraw (objectKey : Id32)
  | sealUpload (expectedChunks : Nat) (digest : Id32) (publications : List PendingManifest)
  | publish (publications : List PendingManifest)

/-- The actions that change the upload without looking at its token. Clearing the ledger looks at the row. -/
def Action.unfenced : Action → Bool
  | .openDirectory | .removeEntries | .abortUpload | .writeFile _ _ | .publish _ => true
  | _ => false

/-- The actions that give the upload to a session. -/
def Action.claims : Action → Bool
  | .reserveUpload _ _ | .adoptSession _ => true
  | _ => false

structure Task where
  action : Action
  /-- The token under which the caller acts: its own, one it found expired, or zero. It is not handed on. -/
  holder : Nat
  /-- Whether the call ends when the action fails. -/
  required : Bool

/-- A session, with the token that its begin has returned. -/
structure Session extends Caller Task where
  token : Option Nat

/-- The rest of a call that leaves nothing of the upload. -/
def discardUpload (holder : Nat) : List Task :=
  [⟨.openDirectory, holder, true⟩, ⟨.abortUpload, holder, true⟩, ⟨.clearLedger false, holder, true⟩]

def failProvisionalBegin (token : Nat) : List Task :=
  [⟨.checkAbort, token, false⟩, ⟨.clearLedger false, token, false⟩]

def StageBatch.tasks (token : Nat) (batch : StageBatch) : List Task :=
  batch.files.map (fun file => ⟨.writeFile file.1 file.2, token, true⟩) ++
    [⟨.commitStageBatch batch.first batch.staged, token, true⟩]

/-! ## Steps -/

/-- What the surroundings answer: the clock, the listed entry, and failures of system, database or admission. -/
structure Input where
  now : Nat
  entry : Option Nat
  fault : Option StoreError

variable (C : Crypto) (config : StoreConfig) (key : Id32)

/-- The token of the upload if its lease has run out. -/
def expiredHolder (now : Nat) (c : Catalog) : Option Nat :=
  if key ∈ expiredUploads now c then (c.uploads.get? key).map (·.sessionToken) else none

/-- What a begin does once the reservation has answered. -/
def answered (token : Nat) (x : Session) : UploadState → Except StoreError Session
  | .reserved => .ok { x with
      plan := [⟨.markReceiving token, 0, true⟩]
      recovery := [⟨.abortUpload, 0, false⟩] }
  | .receiving => .ok { x with plan := [⟨.adoptSession token, token, true⟩], recovery := [] }
  | .published => .ok { x with plan := [⟨.readSession, 0, true⟩], recovery := [] }
  | _ => .error (.state "provisional export cannot resume a terminal upload")

/-- What a begin does once it has looked at the reservation for the first time. -/
def inspected (reservation : UploadReservation) (token : Nat) (x : Session) : Existing → Except StoreError Session
  | .answered state => answered token x state
  | .absent => .ok { x with
      plan := [⟨.readExpired, 0, true⟩, ⟨.admission, 0, true⟩, ⟨.reserveUpload reservation token, 0, true⟩] }
  | .aborted => .ok { x with
      plan := [⟨.readExpired, 0, true⟩, ⟨.admission, 0, true⟩, ⟨.openDirectory, 0, true⟩,
        ⟨.clearLedger false, 0, true⟩, ⟨.reserveUpload reservation token, 0, true⟩] }

/-- One entry of the listing, or the end of it. -/
def removeEntry (entry : Option Nat) : Option StagedFiles → Except StoreError (Option StagedFiles)
  | none => .error (.io "remove provisional upload object")
  | some files =>
    match entry with
    | some ordinal => do
        rejectIf (files.get? ordinal = none) (.io "remove provisional upload object")
        return some (files.erase ordinal)
    | none => do
        rejectIf (files.rows ≠ []) (.io "remove provisional upload directory")
        return none

/-- What an action does to the shared state and to its caller, who goes on with `rest`. -/
def perform (input : Input) (x : Session) (task : Task) (rest : List Task) (s : Shared) :
    Action → Except StoreError (Shared × Session)
  | .readExpired =>
    match expiredHolder key input.now s.catalog with
    | some holder => .ok (s, { x with plan := discardUpload holder ++ rest })
    | none => .ok (s, { x with plan := rest })
  | .inspectReservation reservation token => do
      checkReservation key reservation
      let existing ← inspectReservation config key reservation input.now s.catalog
      let x ← inspected reservation token x existing
      return (s, x)
  | .admission => .ok (s, { x with plan := rest })
  | .reserveUpload reservation token => do
      let (catalog, state) ← reserveUpload config key reservation input.now s.catalog
      let x ← answered token x state
      return ({ s with catalog }, x)
  | .markReceiving token => do
      let catalog ← markReceiving key input.now s.catalog
      return ({ s with catalog }, { x with
        plan := [⟨.adoptSession token, token, true⟩]
        recovery := failProvisionalBegin token })
  | .adoptSession token => do
      let catalog ← adoptProvisionalSession key token input.now s.catalog
      return ({ s with catalog }, { x with
        plan := [⟨.inspectDirectory token, token, true⟩]
        recovery := failProvisionalBegin token })
  | .readSession => do
      let upload ← okOr (s.catalog.uploads.get? key) noRows
      return (s, { x with plan := rest, token := some upload.sessionToken })
  | .inspectDirectory token =>
    if s.directory.isSome then .ok (s, { plan := rest, recovery := [], token := some token })
    else .ok (s, { x with plan := ⟨.createDirectory token, token, true⟩ :: rest })
  | .createDirectory token => do
      rejectIf s.directory.isSome (.io "create provisional upload directory")
      return ({ s with directory := some .empty }, { plan := rest, recovery := [], token := some token })
  | .checkAbort => do
      checkToken key task.holder (.state "stale provisional session token; the active reservation is untouched")
        s.catalog
      return (s, { x with plan := ⟨.abortUpload, task.holder, false⟩ :: rest })
  | .checkCancel => do
      checkToken key task.holder (.state "stale provisional session token; cancel refused, reservation untouched")
        s.catalog
      return (s, { x with plan := discardUpload task.holder ++ rest })
  | .openDirectory =>
    if s.directory.isSome then .ok (s, { x with plan := ⟨.removeEntries, task.holder, task.required⟩ :: rest })
    else .ok (s, { x with plan := rest })
  | .removeEntries => do
      let directory ← removeEntry input.entry s.directory
      return ({ s with directory }, { x with plan := if input.entry.isSome then task :: rest else rest })
  | .abortUpload => do
      let catalog ← abortUpload key input.now s.catalog
      return ({ s with catalog }, { x with plan := rest })
  | .clearLedger published => do
      let catalog ← clearProvisionalLedger key published s.catalog
      return ({ s with catalog }, { x with plan := rest })
  | .beginStageBatch batches => do
      match ← beginProvisionalStageBatch key task.holder input.now s.catalog with
      | .publishedReplay => return (s, { x with plan := rest })
      | .receiving _ => return (s, { x with plan := batches.flatMap (StageBatch.tasks task.holder) ++ rest })
  | .writeFile ordinal bytes => do
      let directory ← writeOrVerifyPrivate ordinal bytes s.directory
      return ({ s with directory }, { x with plan := rest })
  | .commitStageBatch first staged => do
      let catalog ← commitProvisionalStageBatch key task.holder first staged input.now s.catalog
      return ({ s with catalog }, { x with plan := rest })
  | .verifyLedger references => do
      verifyProvisionalLedger key references s.catalog
      return (s, { x with plan := rest })
  | .promote object => do
      let (catalog, _) ← catalogChunks [object] config.keyEpoch none s.catalog
      return ({ s with catalog }, { x with
        plan := rest
        recovery := ⟨.withdraw object.objectKey, task.holder, true⟩ :: x.recovery })
  | .withdraw objectKey =>
    .ok ({ s with catalog := cleanupPromotion key objectKey s.catalog }, { x with plan := rest })
  | .sealUpload expectedChunks digest publications => do
      let catalog ← sealProvisionalUpload key task.holder expectedChunks digest input.now s.catalog
      return ({ s with catalog }, { x with
        plan := ⟨.publish publications, task.holder, true⟩ :: ⟨.openDirectory, task.holder, true⟩ ::
          ⟨.clearLedger true, task.holder, true⟩ :: rest })
  | .publish publications => do
      let (catalog, _) ← publishManifestBatch C config key publications input.now s.catalog
      return ({ s with catalog }, { x with plan := rest })

/-! ## Calls -/

inductive Call where
  /-- A question for the statistics, which reaps. -/
  | stat
  | begin (reservation : UploadReservation) (token : Nat)
  | stage (batches : List StageBatch)
  /-- A cancellation, or the drop of a session that has not ended. -/
  | cancel
  | sealAndPublish (references : List UploadChunk) (objects : List ChunkObject) (expectedChunks : Nat) (digest : Id32)
      (publications : List PendingManifest)

/-- A session that has begun makes the calls that need a token. -/
def Call.start (x : Session) : Call → Session
  | .stat => { x with plan := [⟨.readExpired, 0, true⟩], recovery := [] }
  | .begin reservation token =>
    match x.token with
    | none => { x with
        plan := [⟨.readExpired, 0, true⟩, ⟨.readExpired, 0, true⟩, ⟨.inspectReservation reservation token, 0, true⟩]
        recovery := [] }
    | some _ => x
  | .stage batches =>
    match x.token with
    | some token => { x with plan := [⟨.beginStageBatch batches, token, true⟩], recovery := [] }
    | none => x
  | .cancel =>
    match x.token with
    | some token => { x with plan := [⟨.checkCancel, token, true⟩], recovery := [] }
    | none => x
  | .sealAndPublish references objects expectedChunks digest publications =>
    match x.token with
    | some token => { x with
        plan := ⟨.verifyLedger references, token, true⟩ :: objects.map (fun object => ⟨.promote object, token, true⟩) ++
          [⟨.sealUpload expectedChunks digest publications, token, true⟩]
        recovery := [⟨.checkCancel, token, true⟩] }
    | none => x

/-! ## Interleavings -/

variable {n : Nat}

structure State (n : Nat) where
  shared : Shared
  sessions : Fin n → Session

def State.initial : State n where
  shared := ⟨Catalog.initial, none⟩
  sessions := fun _ => ⟨⟨[], []⟩, none⟩

inductive Event (n : Nat) where
  | call (i : Fin n) (call : Call)
  | act (i : Fin n) (input : Input)
  /-- What the rest of the store does, which leaves the upload alone. -/
  | elsewhere (catalog : Catalog)

def ledger (c : Catalog) : List ((Id32 × Nat) × UploadChunk) := c.uploadChunks.rows.filter fun entry => entry.1.1 = key

/-- The next task of a session. -/
def act (input : Input) (x : Session) (s : Shared) : Shared × Session :=
  match x.plan with
  | [] => (s, x)
  | task :: rest =>
    match input.fault with
    | some _ => (s, { x.toCaller.fail task.required rest with token := x.token })
    | none =>
      match perform C config key input x task rest s task.action with
      | .ok next => next
      | .error _ => (s, { x.toCaller.fail task.required rest with token := x.token })

def step (s : State n) : Event n → State n
  | .call i call =>
    if (s.sessions i).plan.isEmpty then
      { s with sessions := Function.update s.sessions i (call.start (s.sessions i)) }
    else s
  | .act i input =>
    let (shared, x) := act C config key input (s.sessions i) s.shared
    ⟨shared, Function.update s.sessions i x⟩
  | .elsewhere catalog =>
    if catalog.uploads.get? key = s.shared.catalog.uploads.get? key ∧
        ledger key catalog = ledger key s.shared.catalog then
      { s with shared := { s.shared with catalog } }
    else s

/-! ## Fencing -/

/-- The token of the session that holds the upload. -/
def current (c : Catalog) : Option Nat :=
  match c.uploads.get? key with
  | some upload => if upload.state.active ∧ upload.sessionToken ≠ 0 then some upload.sessionToken else none
  | none => none

/-- The reservation state, the ledger with its cursor and the staged files are the same. -/
def SameUpload (s s' : Shared) : Prop :=
  (s'.catalog.uploads.get? key).map (fun upload => (upload.state, upload.reservedBytes, upload.nextChunkOrdinal)) =
      (s.catalog.uploads.get? key).map (fun upload => (upload.state, upload.reservedBytes, upload.nextChunkOrdinal)) ∧
    ledger key s'.catalog = ledger key s.catalog ∧ s'.files = s.files

instance (s s' : Shared) : Decidable (SameUpload key s s') := inferInstanceAs (Decidable (_ ∧ _ ∧ _))

/-- An action under another token leaves the upload of the current session alone. -/
def Fenced (s : State n) : Event n → Prop
  | .act i input => ∀ task ∈ (s.sessions i).plan.head?, ∀ token ∈ current key s.shared.catalog,
      token ≠ task.holder → SameUpload key s.shared (step C config key s (.act i input)).shared
  | _ => True

instance (s : State n) : ∀ e, Decidable (Fenced C config key s e)
  | .act _ _ => inferInstanceAs (Decidable (∀ task ∈ _, ∀ token ∈ current key s.shared.catalog, _ → _))
  | .call _ _ | .elsewhere _ => isTrue trivial

/-- A session takes the upload only while no other is between its look and its next action. -/
def Alone (s : State n) : Event n → Prop
  | .act i _ => ∀ task ∈ (s.sessions i).plan.head?, task.action.claims →
      ∀ j, j ≠ i → ∀ other ∈ (s.sessions j).pending, other.action.unfenced = false
  | _ => True

instance (s : State n) : ∀ e, Decidable (Alone s e)
  | .act _ _ => inferInstanceAs (Decidable (∀ task ∈ _, _ → ∀ j, _ → ∀ other ∈ (s.sessions j).pending, _))
  | .call _ _ | .elsewhere _ => isTrue trivial

end Kvpack.Store.Fencing
