import Kvpack.Handoff.Verify

/-!
# The rules for a whole stream

The same rules that the verifier applies step by step, stated of a stream as a whole, without a state.
-/

namespace Kvpack.Handoff

open Base Kvpack.Core

variable (C : Crypto) (m : BeginManifestV1)

/-- What a plane must satisfy at its place of the stream. -/
structure PlaneRules (i : Nat) (p : VerifiedPlaneV1) : Prop where
  header : p.header.validateFor m (UInt32.ofNat i) = .ok ()
  digest : sha256Hex C p.bytes = p.header.sha256
  length : p.bytes.length = p.header.byteLength.toNat
  finite : m.isPreropeV2 = true → p.header.role = .key → validatePreropeKeyPlaneFinite p.bytes = .ok ()

def payloadTotal (planes : List VerifiedPlaneV1) : Nat := (planes.map (·.bytes.length)).sum

/-- The seal, against the digests of the whole stream. -/
def SealRules (planes : List VerifiedPlaneV1) (manifest : SealManifestV1) : Prop :=
  ∃ total : UInt64, total.toNat = payloadTotal planes ∧
    manifest.validateFor C m (planes.map (·.header)) total (sha256Hex C (planes.flatMap (·.bytes))) = .ok ()

structure StreamRules (planes : List VerifiedPlaneV1) (manifest : SealManifestV1) : Prop where
  plane : ∀ i p, planes[i]? = some p → PlaneRules C m i p
  terminal : SealRules C m planes manifest

/-- The seal of a stream, with the digests that it must have. -/
def sealOf (planes : List VerifiedPlaneV1) (promptTokenIds : List UInt32) (completedUnixMs : UInt64)
    (canary : Option CanaryRecord) : SealManifestV1 :=
  let core : SealCoreV1 :=
    { completedUnixMs := completedUnixMs
      descriptorChainSha256 := descriptorChainSha256 C (planes.map (·.header))
      frameCount := m.expectedLayerFrames
      payloadBytes := m.expectedPayloadBytes
      payloadSha256 := sha256Hex C (planes.flatMap (·.bytes))
      promptTokenIds := promptTokenIds
      protocol := liveHandoffProtocolV1
      schemaVersion := liveHandoffSchemaV1
      strategy := m.strategy
      tokenIdsSha256 := m.tokenIdsSha256
      transferId := m.transferId
      canary := canary }
  { artifactSha256 := artifactSha256 C m (planes.map (·.header)) core, artifactHmacSha256 := none, core := core }

namespace IncrementalVerifierV1

/-! ## Streams and calls -/

variable {m}

def verifyPlanes : List VerifiedPlaneV1 → EStateM HandoffError (IncrementalVerifierV1 m) Unit
  | [] => pure ()
  | p :: planes => do
      let _ ← verifyPlane C p.header p.bytes
      verifyPlanes planes

/-- All planes and then the seal, up to the first error. -/
def verifyStream (planes : List VerifiedPlaneV1) (manifest : SealManifestV1) :
    EStateM HandoffError (IncrementalVerifierV1 m) VerifiedSealV1 := do
  verifyPlanes C planes
  verifySeal C manifest

inductive Call where
  | plane (header : LayerHeaderV1) (payload : Bytes)
  | terminal (manifest : SealManifestV1)

/-- What a call leaves, whether it is rejected or not. -/
def call (v : IncrementalVerifierV1 m) : Call → IncrementalVerifierV1 m
  | .plane header payload => finalState (verifyPlane C header payload v)
  | .terminal manifest => finalState (verifySeal C manifest v)

/-- The check of the next header with the walk listed anew. -/
def validateNextHeaderAnew (v : IncrementalVerifierV1 m) (header : LayerHeaderV1) : Except HandoffError Unit := do
  rejectIf (v.isSealed = true) (.validation "cannot validate a layer header after the terminal seal")
  header.validateFor m v.nextSequence
  rejectIf (v.limits.maxFrameBytes < header.byteLength)
    (.validation "layer descriptor exceeds the configured frame bound")

end IncrementalVerifierV1

end Kvpack.Handoff
