import Kvpack.Base.Effect
import Kvpack.Core.Canonical
import Kvpack.Handoff.Basic

/-!
# The receiver of version two

A transfer is announced by a begin manifest, which declares all segments or leaves their descriptors to the stream.
The receiver checks each segment, hands it to a sink, whose methods may fail, and lets the sink commit only after a
seal authenticated over everything delivered.
-/

namespace Kvpack.Handoff

open Base Kvpack.Core

/-! ## Manifests -/

inductive ComponentKindV2 where
  | targetKv | dflashContext | visionContext
  deriving Repr, DecidableEq

structure ComponentV2 where
  id : String
  kind : ComponentKindV2
  required : Bool
  identitySha256 : String
  deriving DecidableEq

structure HmacIdentityV2 where
  keyId : String
  epoch : UInt64
  deriving DecidableEq

structure MultimodalIdentityV2 where
  projectorSha256 : String
  preprocessingSha256 : String
  imageSequenceSha256 : String
  deriving DecidableEq

inductive SegmentRoleV2 where
  | nopeKey | nopeValue | swaKey | swaValue | nopeTile | swaTile | dflashKey | dflashValue | auxiliary
  deriving Repr, DecidableEq

structure SegmentDescriptorV2 where
  sequence : UInt32
  componentId : String
  role : SegmentRoleV2
  layer : Option UInt32
  logicalStart : UInt64
  logicalCount : UInt64
  elementType : String
  elementsPerToken : UInt32
  byteLen : UInt64
  sha256 : String
  deriving DecidableEq

structure BeginManifestV2 where
  protocol : String
  transferId : String
  generation : UInt64
  createdUnixMs : UInt64
  expiresUnixMs : UInt64
  identity : ExactIdentityV1
  promptTokenIds : List UInt32
  multimodal : Option MultimodalIdentityV2
  hmac : HmacIdentityV2
  components : List ComponentV2
  deferredSegments : Bool
  segments : List SegmentDescriptorV2
  deriving DecidableEq

structure SealCoreV2 where
  transferId : String
  generation : UInt64
  beginSha256 : String
  descriptorSha256 : String
  payloadSha256 : String
  segmentCount : UInt32
  totalBytes : UInt64
  deriving DecidableEq

structure SealManifestV2 where
  core : SealCoreV2
  hmacSha256 : String
  deriving DecidableEq

/-! ## Canonical forms -/

def ComponentKindV2.text : ComponentKindV2 → String
  | .targetKv => "target_kv"
  | .dflashContext => "dflash_context"
  | .visionContext => "vision_context"

def SegmentRoleV2.text : SegmentRoleV2 → String
  | .nopeKey => "nope_key"
  | .nopeValue => "nope_value"
  | .swaKey => "swa_key"
  | .swaValue => "swa_value"
  | .nopeTile => "nope_tile"
  | .swaTile => "swa_tile"
  | .dflashKey => "dflash_key"
  | .dflashValue => "dflash_value"
  | .auxiliary => "auxiliary"

def optionalJson {α : Type} (f : α → Json) : Option α → Json
  | some a => f a
  | none => .null

def ComponentV2.toJson (c : ComponentV2) : Json :=
  .object [("id", .string c.id), ("kind", .string c.kind.text), ("required", .bool c.required),
    ("identity_sha256", .string c.identitySha256)]

def HmacIdentityV2.toJson (h : HmacIdentityV2) : Json :=
  .object [("key_id", .string h.keyId), ("epoch", .number h.epoch.toNat)]

def MultimodalIdentityV2.toJson (m : MultimodalIdentityV2) : Json :=
  .object [("projector_sha256", .string m.projectorSha256), ("preprocessing_sha256", .string m.preprocessingSha256),
    ("image_sequence_sha256", .string m.imageSequenceSha256)]

def SegmentDescriptorV2.toJson (d : SegmentDescriptorV2) : Json :=
  .object [("sequence", .number d.sequence.toNat), ("component_id", .string d.componentId),
    ("role", .string d.role.text), ("layer", optionalJson (fun n : UInt32 => .number n.toNat) d.layer),
    ("logical_start", .number d.logicalStart.toNat), ("logical_count", .number d.logicalCount.toNat),
    ("element_type", .string d.elementType),
    ("elements_per_token", .number d.elementsPerToken.toNat), ("byte_len", .number d.byteLen.toNat),
    ("sha256", .string d.sha256)]

/-- The flag of the deferred mode is written only when it is set. -/
def BeginManifestV2.toJson (m : BeginManifestV2) : Json :=
  .object ([("protocol", .string m.protocol), ("transfer_id", .string m.transferId),
    ("generation", .number m.generation.toNat), ("created_unix_ms", .number m.createdUnixMs.toNat),
    ("expires_unix_ms", .number m.expiresUnixMs.toNat), ("identity", m.identity.toJson),
    ("prompt_token_ids", .array (m.promptTokenIds.map fun n => .number n.toNat)),
    ("multimodal", optionalJson MultimodalIdentityV2.toJson m.multimodal), ("hmac", m.hmac.toJson),
    ("components", .array (m.components.map ComponentV2.toJson))] ++
    (if m.deferredSegments then [("deferred_segments", .bool true)] else []) ++
    [("segments", .array (m.segments.map SegmentDescriptorV2.toJson))])

def SealCoreV2.toJson (c : SealCoreV2) : Json :=
  .object [("transfer_id", .string c.transferId), ("generation", .number c.generation.toNat),
    ("begin_sha256", .string c.beginSha256), ("descriptor_sha256", .string c.descriptorSha256),
    ("payload_sha256", .string c.payloadSha256), ("segment_count", .number c.segmentCount.toNat),
    ("total_bytes", .number c.totalBytes.toNat)]

/-! ## Segment descriptors -/

abbrev SegmentRangeKey := String × SegmentRoleV2 × Option UInt32

/-- The logical ranges seen so far, each under the plane it belongs to. -/
abbrev SegmentRanges := List (SegmentRangeKey × UInt64 × UInt64)

def SegmentDescriptorV2.rangeKey (d : SegmentDescriptorV2) : SegmentRangeKey := (d.componentId, d.role, d.layer)

def elementWidth : String → Option UInt64
  | "f16_le" => some 2
  | "f32_le" => some 4
  | _ => none

/-- Checks one descriptor and records its range. -/
def validateSegmentDescriptor (segment : SegmentDescriptorV2) (ids : List String) (ranges : SegmentRanges) :
    Except HandoffError SegmentRanges := do
  rejectIf (segment.componentId ∉ ids ∨ segment.logicalCount = 0 ∨ segment.elementsPerToken = 0 ∨ segment.byteLen = 0)
    (.validation "segment has unknown component or empty range")
  validateHex "segment" segment.sha256
  let width ← okOr (elementWidth segment.elementType) (.validation "unsupported segment element type")
  let expectedBytes ← okOr
    ((checkedMul segment.logicalCount segment.elementsPerToken.toUInt64).bind fun n => checkedMul n width)
    (.validation "segment byte geometry overflow")
  rejectIf (segment.byteLen ≠ expectedBytes) (.validation "segment byte length disagrees with row geometry")
  let stop ← okOr (checkedAdd segment.logicalStart segment.logicalCount)
    (.validation "segment logical range overflow")
  rejectIf (∃ r ∈ ranges, r.1 = segment.rangeKey ∧ segment.logicalStart < r.2.2 ∧ r.2.1 < stop)
    (.validation "overlapping segment logical ranges")
  return ranges ++ [(segment.rangeKey, segment.logicalStart, stop)]

/-! ## Begin manifests -/

def liveHandoffProtocolV2 : String := "kvpack-live-handoff-v2"

def isTransferIdByte (b : UInt8) : Bool :=
  decide (48 ≤ b ∧ b ≤ 57 ∨ 65 ≤ b ∧ b ≤ 90 ∨ 97 ≤ b ∧ b ≤ 122 ∨ b ∈ utf8 "-_.")

def checkMultimodal : Option MultimodalIdentityV2 → Except HandoffError Unit
  | none => .ok ()
  | some multimodal => do
      validateHex "projector" multimodal.projectorSha256
      validateHex "preprocessing" multimodal.preprocessingSha256
      validateHex "image sequence" multimodal.imageSequenceSha256

/-- The loop over the components, with the identities seen so far. -/
def checkComponents : List String → List ComponentV2 → Except HandoffError Unit
  | _, [] => .ok ()
  | ids, component :: rest => do
      rejectIf (component.id = "" ∨ component.id ∈ ids) (.validation "empty or duplicate component id")
      validateHex "component identity" component.identitySha256
      checkComponents (component.id :: ids) rest

/-- The loop over the declared segments, from a position on. -/
def checkSegments (ids : List String) : Nat → SegmentRanges → List SegmentDescriptorV2 → Except HandoffError Unit
  | _, _, [] => .ok ()
  | index, ranges, segment :: rest => do
      rejectIf (segment.sequence.toNat ≠ index)
        (.validation "segment sequences must be contiguous in declared wire order")
      let ranges ← validateSegmentDescriptor segment ids ranges
      checkSegments ids (index + 1) ranges rest

def BeginManifestV2.check (m : BeginManifestV2) (nowUnixMs : UInt64) (expectedKeyId : String) (minimumEpoch : UInt64) :
    Except HandoffError Unit := do
  rejectIf (m.protocol ≠ liveHandoffProtocolV2) (.validation "wrong V2 protocol")
  rejectIf (m.transferId = "" ∨ 128 < (utf8 m.transferId).length ∨ ∃ b ∈ utf8 m.transferId, isTransferIdByte b = false)
    (.validation "invalid transfer id")
  rejectIf (m.expiresUnixMs ≤ m.createdUnixMs ∨ m.expiresUnixMs < nowUnixMs)
    (.validation "expired or invalid handoff lifetime")
  rejectIf (m.hmac.keyId ≠ expectedKeyId ∨ m.hmac.epoch < minimumEpoch)
    (.validation "wrong HMAC key id or replayed epoch")
  validateHex "model identity" m.identity.modelSha256
  validateHex "adapter identity" m.identity.adapterSha256
  validateHex "chat template identity" m.identity.chatTemplateSha256
  validateHex "context policy identity" m.identity.contextPolicySha256
  validateHex "tokenizer identity" m.identity.tokenizerSha256
  checkMultimodal m.multimodal
  rejectIf (m.components = [] ∨ m.deferredSegments = true ∧ m.segments ≠ [] ∨
      m.deferredSegments = false ∧ m.segments = [])
    (.validation "V2 requires components and exactly one declared/deferred segment mode")
  rejectIf (m.promptTokenIds = []) (.validation "V2 prompt token sequence is empty")
  checkComponents [] m.components
  rejectIf (¬ ∃ c ∈ m.components, c.kind = .targetKv ∧ c.required = true)
    (.validation "a required target KV component is mandatory")
  checkSegments (m.components.map (·.id)) 0 [] m.segments
  rejectIf (m.deferredSegments = false ∧ (∃ c ∈ m.components, c.kind = .dflashContext ∧ c.required = true) ∧
      ¬ ∃ s ∈ m.segments, ∃ c ∈ m.components, c.id = s.componentId ∧ c.kind = .dflashContext)
    (.validation "required DFlash component has no segments")

/-- A manifest that the checks have accepted, with its canonical bytes. -/
structure ValidatedBeginV2 where
  manifest : BeginManifestV2
  canonical : Bytes
  accepted : ∃ nowUnixMs expectedKeyId minimumEpoch, manifest.check nowUnixMs expectedKeyId minimumEpoch = .ok ()
  canonical_eq : canonical = manifest.toJson.canonical

def ValidatedBeginV2.validate (m : BeginManifestV2) (nowUnixMs : UInt64) (expectedKeyId : String)
    (minimumEpoch : UInt64) : Except HandoffError ValidatedBeginV2 :=
  match h : m.check nowUnixMs expectedKeyId minimumEpoch with
  | .error e => .error e
  | .ok () => .ok ⟨m, m.toJson.canonical, ⟨nowUnixMs, expectedKeyId, minimumEpoch, h⟩, rfl⟩

/-! ## Segments and seals -/

section Seals

variable (C : Crypto)

structure VerifiedSegmentV2 where
  descriptor : SegmentDescriptorV2
  payload : Bytes
  deriving DecidableEq

def VerifiedSegmentV2.verify (descriptor : SegmentDescriptorV2) (payload : Bytes) :
    Except HandoffError VerifiedSegmentV2 := do
  rejectIf (payload.length ≠ descriptor.byteLen.toNat ∨ sha256Hex C payload ≠ descriptor.sha256)
    (.validation "segment length or digest mismatch")
  return ⟨descriptor, payload⟩

/-- The loop of the signer: descriptor bytes, payload bytes and the total. -/
def signSegments : Nat → Bytes → Bytes → UInt64 → List (SegmentDescriptorV2 × Bytes) →
    Except HandoffError (Bytes × Bytes × UInt64)
  | _, descriptors, payloads, total, [] => .ok (descriptors, payloads, total)
  | index, descriptors, payloads, total, (descriptor, payload) :: rest => do
      rejectIf (descriptor.sequence.toNat ≠ index ∨ descriptor.byteLen.toNat ≠ payload.length ∨
          descriptor.sha256 ≠ sha256Hex C payload)
        (.validation "cannot sign mismatched segment material")
      let total ← okOr (checkedAdd total descriptor.byteLen) (.validation "total byte count overflow")
      signSegments (index + 1) (descriptors ++ descriptor.toJson.canonical) (payloads ++ payload) total rest

def SealManifestV2.sign (begin_ : ValidatedBeginV2) (descriptors : List SegmentDescriptorV2) (payloads : List Bytes)
    (key : MacKey) : Except HandoffError SealManifestV2 := do
  rejectIf (descriptors.length ≠ payloads.length) (.validation "descriptor/payload count mismatch")
  let (descriptorBytes, payloadBytes, total) ← signSegments C 0 [] [] 0 (descriptors.zip payloads)
  let count ← okOr (u32TryFrom descriptors.length) (.validation "segment count exceeds u32")
  let core : SealCoreV2 :=
    { transferId := begin_.manifest.transferId, generation := begin_.manifest.generation,
      beginSha256 := sha256Hex C begin_.canonical, descriptorSha256 := sha256Hex C descriptorBytes,
      payloadSha256 := sha256Hex C payloadBytes, segmentCount := count, totalBytes := total }
  return ⟨core, tagHex C key core.toJson.canonical⟩

end Seals

/-! ## The sink -/

structure CommittedGeneration where
  transferId : String
  generation : UInt64
  installedSegments : UInt32
  installedBytes : UInt64
  deriving DecidableEq

/-- The methods of an engine's shadow; each may fail. -/
structure HandoffSinkV2 (S : Type) where
  begin_ : ValidatedBeginV2 → S → Except HandoffError Unit × S
  segmentReady : VerifiedSegmentV2 → S → Except HandoffError Unit × S
  prepareCommit : SealManifestV2 → S → Except HandoffError Unit × S
  commit : S → Except HandoffError CommittedGeneration × S
  abort : S → S

/-- A call the sink has received, with whether it returned successfully. -/
inductive SinkCall where
  | begin_
  | segmentReady (segment : VerifiedSegmentV2) (ok : Bool)
  | prepareCommit (manifest : SealManifestV2) (ok : Bool)
  | commit (ok : Bool)
  | abort
  deriving DecidableEq

/-! ## The receiver -/

inductive ReceiverState where
  | receiving | prepared | committed | aborted
  deriving Repr, DecidableEq

structure AtomicReceiverV2 (S : Type) where
  begin_ : ValidatedBeginV2
  sink : S
  key : MacKey
  next : Nat
  deferredRanges : SegmentRanges
  seenComponents : List String
  /-- What the two running hashes have been fed. -/
  descriptorHash : Bytes
  payloadHash : Bytes
  total : UInt64
  state : ReceiverState
  /-- History: the calls the sink has received, in order. -/
  calls : List SinkCall

abbrev ReceiverM (S : Type) := EStateM HandoffError (AtomicReceiverV2 S)

namespace AtomicReceiverV2

variable {S : Type} (C : Crypto) (H : HandoffSinkV2 S)

/-- Call a method of the sink that may fail. -/
def callSink {α : Type} (call : Bool → SinkCall) (method : S → Except HandoffError α × S) : ReceiverM S α := fun r =>
  match method r.sink with
  | (.ok a, sink) => .ok a { r with sink, calls := r.calls ++ [call true] }
  | (.error e, sink) => .error e { r with sink, calls := r.calls ++ [call false] }

def start (begin_ : ValidatedBeginV2) (key : MacKey) (sink : S) : Except HandoffError (AtomicReceiverV2 S) :=
  match H.begin_ begin_ sink with
  | (.error e, _) => .error e
  | (.ok _, sink) =>
    .ok { begin_, sink, key, next := 0, deferredRanges := [], seenComponents := [], descriptorHash := [],
          payloadHash := [], total := 0, state := .receiving, calls := [.begin_] }

def abort : ReceiverM S Unit := fun r =>
  match r.state with
  | .committed | .aborted => .ok () r
  | .receiving | .prepared =>
    .ok () { r with sink := H.abort r.sink, state := .aborted, calls := r.calls ++ [.abort] }

def fail {α : Type} (message : String) : ReceiverM S α := do
  abort H
  throw (.validation message)

def acceptSegment (descriptor : SegmentDescriptorV2) (payload : Bytes) : ReceiverM S Unit := do
  let verified ← onError (outcome (VerifiedSegmentV2.verify C descriptor payload)) (abort H)
  modify fun r => { r with descriptorHash := r.descriptorHash ++ descriptor.toJson.canonical,
                           payloadHash := r.payloadHash ++ verified.payload }
  let r ← get
  -- the hashes have taken the segment in when the total overflows
  let total ← outcome (okOr (checkedAdd r.total descriptor.byteLen) (.validation "total byte count overflow"))
  modify fun r => { r with total }
  onError (callSink (.segmentReady verified) (H.segmentReady verified)) (abort H)
  modify fun r => { r with seenComponents := r.seenComponents.insert descriptor.componentId, next := r.next + 1 }

def segmentReady (sequence : UInt32) (payload : Bytes) : ReceiverM S Unit := do
  let r ← get
  if r.state ≠ .receiving then
    fail H "segment outside receiving state"
  else
    match r.begin_.manifest.segments[r.next]? with
    | none => fail H "extra segment"
    | some descriptor =>
      if descriptor.sequence ≠ sequence then
        fail H "dropped, duplicate, or reordered segment"
      else
        acceptSegment C H descriptor payload

def segmentReadyDeferred (descriptor : SegmentDescriptorV2) (payload : Bytes) : ReceiverM S Unit := do
  let r ← get
  if r.state ≠ .receiving ∨ r.begin_.manifest.deferredSegments = false then
    fail H "deferred segment outside deferred receiving mode"
  else if descriptor.sequence.toNat ≠ r.next then
    fail H "dropped, duplicate, or reordered deferred segment"
  else do
    let ids := r.begin_.manifest.components.map (·.id)
    let ranges ← onError (outcome (validateSegmentDescriptor descriptor ids r.deferredRanges)) (abort H)
    modify fun r => { r with deferredRanges := ranges }
    acceptSegment C H descriptor payload

def allSegments (r : AtomicReceiverV2 S) : Bool :=
  if r.begin_.manifest.deferredSegments then decide (0 < r.next)
  else decide (r.next = r.begin_.manifest.segments.length)

/-- The seal is one over what has been delivered. -/
def sealMismatch (r : AtomicReceiverV2 S) (core : SealCoreV2) : Prop :=
  core.transferId ≠ r.begin_.manifest.transferId ∨ core.generation ≠ r.begin_.manifest.generation ∨
    core.segmentCount.toNat ≠ r.next ∨ core.totalBytes ≠ r.total ∨
    core.beginSha256 ≠ sha256Hex C r.begin_.canonical ∨ core.descriptorSha256 ≠ sha256Hex C r.descriptorHash ∨
    core.payloadSha256 ≠ sha256Hex C r.payloadHash

instance (r : AtomicReceiverV2 S) (core : SealCoreV2) : Decidable (sealMismatch C r core) :=
  inferInstanceAs (Decidable (_ ∨ _))

def prepareCommit (manifest : SealManifestV2) : ReceiverM S Unit := do
  let r ← get
  if r.state ≠ .receiving ∨ allSegments r = false then
    fail H "seal before every segment"
  else if r.begin_.manifest.deferredSegments = true ∧
      ∃ c ∈ r.begin_.manifest.components, c.required = true ∧ c.id ∉ r.seenComponents then
    fail H "required component has no deferred segment"
  else if sealMismatch C r manifest.core then
    fail H "seal identity or digest mismatch"
  else do
    outcome (validateHex "seal HMAC" manifest.hmacSha256)
    onError (outcome (verifyHex C r.key manifest.core.toJson.canonical manifest.hmacSha256)) (abort H)
    onError (callSink (.prepareCommit manifest) (H.prepareCommit manifest)) (abort H)
    modify fun r => { r with state := .prepared }

def commit : ReceiverM S CommittedGeneration := do
  let r ← get
  if r.state ≠ .prepared then
    fail H "commit before prepared seal"
  else do
    let generation ← onError (callSink .commit H.commit) (abort H)
    modify fun r => { r with state := .committed }
    return generation

/-! ## Runs -/

inductive Call where
  | segmentReady (sequence : UInt32) (payload : Bytes)
  | segmentReadyDeferred (descriptor : SegmentDescriptorV2) (payload : Bytes)
  | prepareCommit (manifest : SealManifestV2)
  | commit
  /-- The method, and also what dropping the receiver does. -/
  | abort

def perform : Call → ReceiverM S Unit
  | .segmentReady sequence payload => segmentReady C H sequence payload
  | .segmentReadyDeferred descriptor payload => segmentReadyDeferred C H descriptor payload
  | .prepareCommit manifest => prepareCommit C H manifest
  | .commit => do
      let _ ← commit H
      return ()
  | .abort => abort H

def step (r : AtomicReceiverV2 S) (call : Call) : AtomicReceiverV2 S := finalState (perform C H call r)

end AtomicReceiverV2

end Kvpack.Handoff
