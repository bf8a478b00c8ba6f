import Kvpack.Base.Effect
import Kvpack.Handoff.Validation

/-!
# The incremental verifier

The verifier takes the planes of one transfer in order and then the seal. It keeps the accepted headers, the bytes and
three running hashes, and changes them only when everything about a plane has been checked.
-/

namespace Kvpack.Handoff

open Base Kvpack.Core

/-- A payload whose header, place and digest have been checked. -/
structure VerifiedPlaneV1 where
  header : LayerHeaderV1
  bytes : Bytes
  deriving DecidableEq

/-- A seal that has been found to match the stream. -/
structure VerifiedSealV1 where
  manifest : SealManifestV1
  transferId : String
  descriptorChainSha256 : String
  payloadSha256 : String
  deriving DecidableEq

/-- A hash in progress, by what has been fed to it. -/
structure Hasher where
  absorbed : Bytes
  deriving DecidableEq

namespace Hasher

def new : Hasher := ⟨[]⟩

def update (h : Hasher) (bytes : Bytes) : Hasher := ⟨h.absorbed ++ bytes⟩

def finalizeHex (C : Crypto) (h : Hasher) : String := sha256Hex C h.absorbed

@[simp]
theorem absorbed_update (h : Hasher) (bytes : Bytes) : (h.update bytes).absorbed = h.absorbed ++ bytes := rfl

end Hasher

structure IncrementalVerifierV1 (m : BeginManifestV1) where
  limits : ValidationLimits
  /-- The walk of the table, listed once. -/
  layoutWalk : Option (List m.WalkEntry)
  headers : List LayerHeaderV1
  payloadBytes : UInt64
  payloadHash : Hasher
  descriptorHash : Hasher
  artifactPrefixHash : Hasher
  isSealed : Bool
  deriving DecidableEq

namespace IncrementalVerifierV1

variable {m : BeginManifestV1}

def initial (m : BeginManifestV1) (limits : ValidationLimits) : IncrementalVerifierV1 m where
  limits := limits
  layoutWalk := if m.isV2 then some m.layoutWalkV2 else none
  headers := []
  payloadBytes := 0
  payloadHash := .new
  descriptorHash := Hasher.new.update (utf8 "kvpack-live-descriptor-chain-v1\x00")
  artifactPrefixHash := ((Hasher.new.update (utf8 "kvpack-live-artifact-v1\x00")).update m.toJson.canonical).update
    (utf8 "\n")
  isSealed := false

def new (m : BeginManifestV1) (limits : ValidationLimits) : Except HandoffError (IncrementalVerifierV1 m) := do
  m.validate limits
  return initial m limits

variable (v : IncrementalVerifierV1 m)

def expectedLayerAt (sequence : UInt32) : Except HandoffError UInt32 := do
  let walk ← okOr v.layoutWalk (.validation "a v1 begin declares no layout walk")
  let entry ← okOr walk[sequence.toNat]? (BeginManifestV1.outsideTable sequence)
  return entry.2.1

/-- Whether the frame completes its layer on its own. -/
def isSingleRoleFrame (sequence : UInt32) : Bool :=
  match v.layoutWalk.bind (·[sequence.toNat]?) with
  | some entry => decide ((m.layoutTable.get entry.1).roles.length = 1)
  | none => false

def nextSequence : UInt32 := (u32TryFrom v.headers.length).getD 0xffffffff

/-- The check of the next header, against the walk where one is kept. -/
def validateNextHeader (header : LayerHeaderV1) : Except HandoffError Unit := do
  rejectIf (v.isSealed = true) (.validation "cannot validate a layer header after the terminal seal")
  match v.layoutWalk with
  | some walk => do
      let entry ← okOr walk[v.nextSequence.toNat]? (BeginManifestV1.outsideTable v.nextSequence)
      header.validateForV2Expected m v.nextSequence (m.expectedFromWalkEntry entry)
  | none => header.validateFor m v.nextSequence
  rejectIf (v.limits.maxFrameBytes < header.byteLength)
    (.validation "layer descriptor exceeds the configured frame bound")

/-- The search for numbers that are not finite, in a plane of unrotated keys. -/
def checkFinite (m : BeginManifestV1) (header : LayerHeaderV1) (payload : Bytes) : Except HandoffError Unit :=
  if m.isPreropeV2 ∧ header.role = .key then validatePreropeKeyPlaneFinite payload else .ok ()

variable (C : Crypto)

/-- Everything that can fail about a plane; the number of bytes after it. -/
def checkPlane (header : LayerHeaderV1) (payload : Bytes) : Except HandoffError UInt64 := do
  rejectIf (v.isSealed = true) (.validation "cannot verify a layer plane after the terminal seal")
  let sequence ← okOr (u32TryFrom v.headers.length) (.validation "layer sequence exceeds u32")
  v.validateNextHeader header
  rejectIf (v.limits.maxFrameBytes < header.byteLength ∨ payload.length ≠ header.byteLength.toNat ∨
      sha256Hex C payload ≠ header.sha256)
    (.validation ("layer frame " ++ toString sequence ++ " length or SHA-256 mismatch"))
  checkFinite m header payload
  let nextPayloadBytes ← okOr (checkedAdd v.payloadBytes header.byteLength) (.validation "payload byte count overflow")
  rejectIf (v.limits.maxTotalBytes < nextPayloadBytes ∨ m.expectedPayloadBytes < nextPayloadBytes)
    (.validation "received payload exceeds its declared or configured total bound")
  return nextPayloadBytes

def verifyPlane (header : LayerHeaderV1) (payload : Bytes) :
    EStateM HandoffError (IncrementalVerifierV1 m) VerifiedPlaneV1 := do
  let v ← get
  let nextPayloadBytes ← outcome (v.checkPlane C header payload)
  let encodedHeader := header.toJson.canonical
  modify fun v => { v with payloadHash := v.payloadHash.update payload }
  modify fun v => { v with descriptorHash := (v.descriptorHash.update encodedHeader).update (utf8 "\n") }
  modify fun v => { v with artifactPrefixHash := (v.artifactPrefixHash.update encodedHeader).update (utf8 "\n") }
  modify fun v => { v with payloadBytes := nextPayloadBytes }
  modify fun v => { v with headers := v.headers ++ [header] }
  return ⟨header, payload⟩

/-- Everything that can fail about the seal. -/
def checkSeal (manifest : SealManifestV1) : Except HandoffError VerifiedSealV1 := do
  rejectIf (v.isSealed = true) (.validation "terminal seal was already verified")
  let payloadSha256 := v.payloadHash.finalizeHex C
  let descriptorSha256 := v.descriptorHash.finalizeHex C
  rejectIf (descriptorSha256 ≠ descriptorChainSha256 C v.headers)
    (.validation "incremental descriptor chain disagrees with compatibility verifier")
  manifest.validateFor C m v.headers v.payloadBytes payloadSha256
  let incrementalArtifact := (v.artifactPrefixHash.update manifest.core.toJson.canonical).finalizeHex C
  rejectIf (incrementalArtifact ≠ manifest.artifactSha256 ∨
      incrementalArtifact ≠ artifactSha256 C m v.headers manifest.core)
    (.validation "incremental artifact identity disagrees with terminal seal")
  return ⟨manifest, m.transferId, descriptorSha256, payloadSha256⟩

def verifySeal (manifest : SealManifestV1) : EStateM HandoffError (IncrementalVerifierV1 m) VerifiedSealV1 := do
  let v ← get
  let verified ← outcome (v.checkSeal C manifest)
  modify fun v => { v with isSealed := true }
  return verified

end IncrementalVerifierV1

end Kvpack.Handoff
