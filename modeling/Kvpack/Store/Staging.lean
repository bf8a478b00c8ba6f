import Kvpack.Store.Objects

/-!
# Staging of a provisional upload

The chunks of a provisional upload wait as files of a private directory until the upload is sealed. The ledger names
the objects and the cursor counts them; content the catalog already holds is not written again.
-/

namespace Kvpack.Store

open Base Kvpack.Core

/-- The files of an upload's private directory, by ordinal. -/
abbrev StagedFiles := Table Nat Bytes

/-- How a batch of chunks is staged, resolved once when it begins. -/
inductive ProvisionalStageMode where
  /-- The upload is published: every chunk is looked up and nothing is written. -/
  | publishedReplay
  /-- Ordinals below the cursor are compared with the ledger, the others written. -/
  | receiving (cursor : Nat)
  deriving DecidableEq

def beginProvisionalStageBatch (key : Id32) (token now : Nat) (c : Catalog) :
    Except StoreError ProvisionalStageMode := do
  let upload ← okOr (c.uploads.get? key) noRows
  if upload.state = .published then return .publishedReplay
  else do
    rejectIf (upload.sessionToken ≠ token) (.state "provisional upload session token is stale")
    rejectExpiredLease upload now
    rejectIf (upload.state ≠ .receiving) (.state "provisional upload is not accepting chunks")
    return .receiving upload.nextChunkOrdinal

/-! ## Private files -/

def verifyFileBytes (existing bytes : Bytes) : Except StoreError Unit := do
  rejectIf (existing.length ≠ bytes.length) (.authentication "immutable collision metadata mismatch")
  rejectIf (existing ≠ bytes) (.authentication "immutable collision bytes mismatch")

def writeOrVerifyPrivate (ordinal : Nat) (bytes : Bytes) : Option StagedFiles → Except StoreError (Option StagedFiles)
  | none => .error (.io "create provisional private object")
  | some files =>
    match files.get? ordinal with
    | none => .ok (some (files.put ordinal bytes))
    | some existing => do
        verifyFileBytes existing bytes
        return some files

/-! ## The whole ledger -/

/-- The ledger rows of an upload, in ordinal order. -/
def ledgerRows (key : Id32) (c : Catalog) : List (Nat × UploadChunk) :=
  ((c.uploadChunks.rows.filter fun entry => entry.1.1 = key).map fun entry => (entry.1.2, entry.2)).insertionSort
    fun a b => a.1 ≤ b.1

def verifyProvisionalLedger (key : Id32) (references : List UploadChunk) (c : Catalog) : Except StoreError Unit := do
  let upload ← okOr (c.uploads.get? key) noRows
  if upload.state = .published then return ()
  else do
    rejectIf ((upload.state ≠ .receiving ∧ upload.state ≠ .verified) ∨ upload.nextChunkOrdinal ≠ references.length)
      (.authentication "provisional chunk ledger state or count is incomplete")
    rejectIf ((ledgerRows key c).length ≠ references.length)
      (.authentication "provisional chunk ledger has a noncontiguous inventory")
    rejectIf (ledgerRows key c ≠ references.zipIdx.map fun entry => (entry.2, entry.1))
      (.authentication "provisional chunk ledger identity changed")

end Kvpack.Store
