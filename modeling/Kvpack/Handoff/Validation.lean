import Kvpack.Handoff.Manifest

/-!
# Validation of the manifests

A begin is checked against the receiver's limits before anything else is read, a header against the begin and its
position in the stream, a seal against everything before it.
-/

namespace Kvpack.Handoff

open Base Kvpack.Core

def validLabel (value : String) (maxLen : Nat) : Bool :=
  decide (value ≠ "" ∧ (utf8 value).length ≤ maxLen) &&
    (utf8 value).all fun b => decide (33 ≤ b ∧ b ≤ 126 ∧ b ∉ utf8 "\\/\"")

def validSha256 (value : String) : Bool := decide ((utf8 value).length = 64) && (utf8 value).all isLowerHex

/-- The words of four bytes of a plane; a shorter rest is dropped. -/
def chunksExact4 : Bytes → List (UInt8 × UInt8 × UInt8 × UInt8)
  | a :: b :: c :: d :: rest => (a, b, c, d) :: chunksExact4 rest
  | _ => []

/-- Whether the exponent of a single, from its two high bytes, is not all ones. -/
def isFiniteF32 (high low : UInt8) : Bool := !(high &&& 0x7f == 0x7f && low &&& 0x80 == 0x80)

/-- A digest says nothing about values, so unrotated keys are also searched for numbers that are not finite. -/
def validatePreropeKeyPlaneFinite (payload : Bytes) : Except HandoffError Unit := do
  rejectIf (payload.length % 4 ≠ 0) (.validation ("pre-RoPE Key plane length " ++ toString payload.length ++
    " is not a multiple of the f32 element width"))
  rejectIf (∃ element ∈ chunksExact4 payload, isFiniteF32 element.2.2.2 element.2.2.1 = false)
    (.validation "pre-RoPE Key plane contains a non-finite (NaN/Inf) f32 element")

/-! ## Begin -/

/-- The values without repetitions, ascending. -/
def sortDedup (values : List UInt32) : List UInt32 := (values.insertionSort (· ≤ ·)).dedup

namespace BeginManifestV1

variable (m : BeginManifestV1)

def checkedPayloadBytes : Except HandoffError UInt64 :=
  checkedProdFrom payloadOverflow m.geometry.numLayers.toUInt64 [2, m.cachedTokenCount.toUInt64,
    m.geometry.numKvHeads.toUInt64, m.geometry.headDim.toUInt64, 2]

def expectedPlaneBytes : Except HandoffError UInt64 := do
  let bytes ← m.checkedPayloadBytes
  return bytes / m.expectedLayerFrames.toUInt64

def validateSchedule : Except HandoffError Unit :=
  rejectIf (m.schedule ≠ none ∧ m.schedule ≠ some wireScheduleLayerOrder ∧ m.schedule ≠ some wireScheduleDecodePriority)
    (.validation "layout table declares an unknown wire schedule")

def invalidClass : HandoffError := .validation "layout table contains an invalid layer class"

def rolesOk (l : LayoutClassV2) : Bool :=
  decide (l.roles = [.key, .value] ∨ l.class_ = "mla-latent" ∧ l.roles = [.key])

/-- The checks on one class. The bounds come before the layers are listed. -/
def validateClass (limits : ValidationLimits) (l : LayoutClassV2) : Except HandoffError (List UInt32) := do
  rejectIf (l.step = 0 ∨ l.until_ ≤ l.from_ ∨ m.geometry.numLayers < l.until_) invalidClass
  let maxElementBytes := ((l.roles.map m.planeElementBytesV2).max?).getD 2
  let perPlane ← m.perPlane l maxElementBytes
  rejectIf (limits.maxFrameBytes < perPlane) (.validation "layout table class exceeds the per-frame byte bound")
  rejectIf ((sortDedup l.except).length ≠ l.except.length ∨ ∃ layer ∈ l.except, layer < l.from_ ∨ l.until_ ≤ layer)
    (.validation "layout table contains an out-of-range or duplicate except entry")
  rejectIf (¬ rolesOk l) (.validation "layout table classes must declare roles [key, value]")
  rejectIf (¬ validLabel l.class_ 64 ∨ l.layers = [] ∨ l.kvHeads = 0 ∨ l.headDim = 0 ∨ l.dtype ≠ "float16") invalidClass
  return l.layers

/-- The flat geometry repeats that of a single class and is zero for several. -/
def flatGeometryAgrees : Except HandoffError Unit :=
  match m.layoutTable with
  | [l] => rejectIf (m.geometry.numKvHeads ≠ l.kvHeads ∨ m.geometry.headDim ≠ l.headDim)
      (.validation "flat geometry disagrees with the single-class layout table")
  | _ => rejectIf (m.geometry.numKvHeads ≠ 0 ∨ m.geometry.headDim ≠ 0)
      (.validation "multi-class layout table requires zero flat kv_heads/head_dim")

def validateLayoutTable (limits : ValidationLimits) : Except HandoffError Unit := do
  let layers ← collect m.layoutTable (m.validateClass limits)
  let covered := layers.flatten
  rejectIf ((sortDedup covered).length ≠ covered.length)
    (.validation "layout table assigns a layer to more than one class")
  rejectIf ((sortDedup covered).length ≠ m.geometry.numLayers.toNat ∨
      ∃ entry ∈ (sortDedup covered).zipIdx, entry.1 ≠ UInt32.ofNat entry.2)
    (.validation "layout table must cover every declared layer exactly once")
  m.flatGeometryAgrees

def abiOk : Bool :=
  if m.isV2 then decide (m.portableAbi = portableKvAbiV2 ∨ m.portableAbi = portableKvAbiV2Prerope)
  else decide (m.portableAbi = portableKvAbiV1)

def outOfBounds : HandoffError := .validation "geometry or cached-token count is outside configured bounds"

/-- The number of frames and of bytes that the geometry or the table amounts to. -/
def expectedCounts (limits : ValidationLimits) : Except HandoffError (UInt32 × UInt64) :=
  if m.isV2 then do
    m.validateLayoutTable limits
    m.validateSchedule
    m.v2FrameCounts
  else do
    rejectIf m.schedule.isSome (.validation "wire schedule requires a v2 layout table")
    rejectIf (m.geometry.numKvHeads = 0 ∨ m.geometry.headDim = 0) outOfBounds
    let frames ← okOr (u32TryFrom (m.geometry.numLayers.toNat * 2)) frameOverflow
    let bytes ← m.checkedPayloadBytes
    return (frames, bytes)

def labels : List String :=
  [m.endpoints.consumerEngineAbi, m.endpoints.consumerNode, m.endpoints.producerEngineAbi, m.endpoints.producerNode,
    m.endpoints.trustDomain, m.identity.modelRevision, m.identity.tokenizerRevision]

def digests : List String :=
  [m.transferId, m.tokenIdsSha256, m.identity.adapterSha256, m.identity.chatTemplateSha256,
    m.identity.contextPolicySha256, m.identity.modelSha256, m.identity.tokenizerSha256]

def weightsAllowed : List String := ["q4_k_m", "q4_k_xl", "nvfp4", "mxfp4", "bf16"]

def validate (limits : ValidationLimits) : Except HandoffError Unit := do
  rejectIf (m.schemaVersion ≠ liveHandoffSchemaV1 ∨ m.protocol ≠ liveHandoffProtocolV1 ∨ ¬ m.abiOk ∨
      m.strategy ≠ .consumerLastPromptToken)
    (.validation "unsupported live handoff schema, protocol, ABI, or strategy")
  rejectIf (m.cachedTokenCount = 0 ∨ limits.maxCachedTokens < m.cachedTokenCount ∨
      limits.maxContextTokens < m.geometry.maxContextTokens ∨ m.geometry.maxContextTokens ≤ m.cachedTokenCount ∨
      m.geometry.numLayers = 0 ∨ limits.maxLayers < m.geometry.numLayers) outOfBounds
  let (expectedFrames, expectedBytes) ← m.expectedCounts limits
  let oneFrame := expectedBytes / expectedFrames.toUInt64
  rejectIf (m.expectedLayerFrames ≠ expectedFrames ∨ m.expectedPayloadBytes ≠ expectedBytes ∨
      limits.maxTotalBytes < expectedBytes ∨ limits.maxFrameBytes < oneFrame)
    (.validation "declared frame or payload bounds do not match geometry")
  rejectIf (m.precision.compute ≠ "float16" ∨ m.precision.kv ≠ "float16" ∨ m.precision.weights ∉ weightsAllowed)
    (.validation "v1 requires q4_k_m, q4_k_xl, nvfp4, mxfp4, or bf16 weights with float16 compute and KV")
  rejectIf ((∃ value ∈ m.labels, ¬ validLabel value 256) ∨ (∃ value ∈ m.digests, ¬ validSha256 value) ∨
      ∃ id ∈ m.hmacKeyId, ¬ validLabel id 64)
    (.validation "identity contains an invalid label or SHA-256")
  let latestDeadline ← okOr (checkedAdd m.createdUnixMs limits.maxSessionMs) (.validation "session deadline overflow")
  rejectIf (m.createdUnixMs = 0 ∨
      min (limits.nowUnixMs.toNat + limits.maxClockSkewMs.toNat) (2 ^ 64 - 1) < m.createdUnixMs.toNat ∨
      m.deadlineUnixMs ≤ m.createdUnixMs ∨ latestDeadline < m.deadlineUnixMs ∨ m.deadlineUnixMs < limits.nowUnixMs)
    (.validation "handoff creation/deadline is invalid or expired")

end BeginManifestV1

/-! ## Headers -/

namespace LayerHeaderV1

variable (h : LayerHeaderV1) (m : BeginManifestV1)

/-- The check against an expectation taken from the table. -/
def validateForV2Expected (nextSequence : UInt32) (expected : ExpectedPlane) : Except HandoffError Unit := do
  let frame := "layer frame " ++ toString nextSequence
  rejectIf (h.logicalTokenEnd < h.logicalTokenStart) (.validation (frame ++ " has an inverted token range"))
  let rangeLen := h.logicalTokenEnd - h.logicalTokenStart
  let expectedBytes ← checkedProdFrom (.validation (frame ++ " byte bound overflow")) rangeLen.toUInt64
    [expected.class_.kvHeads.toUInt64, expected.class_.headDim.toUInt64, m.planeElementBytesV2 expected.role]
  let expectedDtype := m.expectedPlaneDtypeV2 expected.class_ expected.role
  rejectIf (h.schemaVersion ≠ liveHandoffSchemaV1 ∨ h.transferId ≠ m.transferId ∨ h.sequence ≠ nextSequence ∨
      h.layer ≠ expected.layer ∨ h.role ≠ expected.role ∨ h.layoutClass ≠ some expected.class_.class_ ∨
      h.logicalTokenStart ≠ expected.rangeStart ∨ h.logicalTokenEnd ≠ expected.rangeEnd ∨
      h.shape ≠ (rangeLen, expected.class_.kvHeads, expected.class_.headDim) ∨ h.byteLength ≠ expectedBytes ∨
      h.dtype.getD "float16" ≠ expectedDtype ∨ ¬ validSha256 h.sha256)
    (.validation (frame ++ " does not match the v2 layout-table contract"))

def validateForV2 (nextSequence : UInt32) : Except HandoffError Unit := do
  let expected ← m.expectedPlaneAt nextSequence
  h.validateForV2Expected m nextSequence expected

/-- The check of a begin without table: ascending layers, key before value. -/
def validateForV1 (nextSequence : UInt32) : Except HandoffError Unit := do
  let mismatch := HandoffError.validation ("layer frame " ++ toString nextSequence ++
    " does not match the ordered canonical tensor contract")
  rejectIf (h.schemaVersion ≠ liveHandoffSchemaV1 ∨ h.transferId ≠ m.transferId ∨ h.sequence ≠ nextSequence ∨
      h.layer ≠ nextSequence / 2 ∨ h.role ≠ (if nextSequence % 2 = 0 then .key else .value) ∨
      h.logicalTokenStart ≠ 0 ∨ h.logicalTokenEnd ≠ m.cachedTokenCount ∨
      h.shape ≠ (m.cachedTokenCount, m.geometry.numKvHeads, m.geometry.headDim)) mismatch
  let planeBytes ← m.expectedPlaneBytes
  rejectIf (h.byteLength ≠ planeBytes ∨ ¬ validSha256 h.sha256 ∨ h.dtype.isSome ∨ h.layoutClass.isSome) mismatch

def validateFor (nextSequence : UInt32) : Except HandoffError Unit :=
  if m.isV2 then h.validateForV2 m nextSequence else h.validateForV1 m nextSequence

end LayerHeaderV1

/-! ## Seal -/

section Seal

variable (C : Crypto)

def tokenIdsSha256 (tokenIds : List UInt32) : String :=
  sha256Hex C (utf8 "kvpack-live-token-ids-v1\x00" ++ tokenIds.flatMap le32)

def headerBytes (headers : List LayerHeaderV1) : Bytes := headers.flatMap fun h => h.toJson.canonical ++ utf8 "\n"

def descriptorChainSha256 (headers : List LayerHeaderV1) : String :=
  sha256Hex C (utf8 "kvpack-live-descriptor-chain-v1\x00" ++ headerBytes headers)

def artifactSha256 (m : BeginManifestV1) (headers : List LayerHeaderV1) (core : SealCoreV1) : String :=
  sha256Hex C (utf8 "kvpack-live-artifact-v1\x00" ++ m.toJson.canonical ++ utf8 "\n" ++ headerBytes headers ++
    core.toJson.canonical)

namespace SealManifestV1

variable (s : SealManifestV1) (m : BeginManifestV1)

/-- A transfer of unrotated keys has a canary, and no other has one. -/
def canaryOk : Bool :=
  match m.isPreropeV2, s.core.canary with
  | true, some canary => decide (0 < canary.sampleTokenCount ∧
      min (canary.sampleTokenStart.toNat + canary.sampleTokenCount.toNat) (2 ^ 32 - 1) ≤ m.cachedTokenCount.toNat) &&
      validSha256 canary.postRopeKSha256 && validSha256 canary.postRopeVSha256
  | true, none => false
  | false, canary => canary.isNone

def hmacShapeOk : Bool :=
  match m.hmacKeyId, s.artifactHmacSha256 with
  | some _, some tag => validSha256 tag
  | some _, none => false
  | none, none => true
  | none, some _ => false

def validateFor (headers : List LayerHeaderV1) (payloadBytes : UInt64) (payloadSha256 : String) :
    Except HandoffError Unit :=
  rejectIf (s.core.schemaVersion ≠ liveHandoffSchemaV1 ∨ s.core.protocol ≠ liveHandoffProtocolV1 ∨
      s.core.strategy ≠ m.strategy ∨ s.core.transferId ≠ m.transferId ∨ s.core.frameCount ≠ m.expectedLayerFrames ∨
      s.core.frameCount.toNat ≠ headers.length ∨ s.core.payloadBytes ≠ m.expectedPayloadBytes ∨
      s.core.payloadBytes ≠ payloadBytes ∨ s.core.payloadSha256 ≠ payloadSha256 ∨
      s.core.descriptorChainSha256 ≠ descriptorChainSha256 C headers ∨ s.core.tokenIdsSha256 ≠ m.tokenIdsSha256 ∨
      s.core.tokenIdsSha256 ≠ tokenIdsSha256 C s.core.promptTokenIds ∨
      s.core.promptTokenIds.length ≠ m.cachedTokenCount.toNat + 1 ∨ s.core.completedUnixMs < m.createdUnixMs ∨
      m.deadlineUnixMs < s.core.completedUnixMs ∨ s.artifactSha256 ≠ Handoff.artifactSha256 C m headers s.core ∨
      ¬ s.canaryOk m ∨ ¬ s.hmacShapeOk m)
    (.validation "terminal seal does not authenticate the complete ordered handoff")

end SealManifestV1

end Seal

end Kvpack.Handoff
