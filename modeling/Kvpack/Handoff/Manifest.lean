import Kvpack.Core.Canonical
import Kvpack.Handoff.Basic

/-!
# Manifests of version one

A transfer is announced by a begin manifest and ended by a seal; between them travel the planes of the cache, one for
each layer and role. Their order follows from the begin: layers ascending and the key before the value, or the order
of a table of layer classes.
-/

namespace Kvpack.Handoff

open Base Kvpack.Core

/-! ## Constants -/

def liveHandoffSchemaV1 : UInt32 := 1
def liveHandoffProtocolV1 : String := "kvpack-live-f16-le-v1"
def portableKvAbiV1 : String := "canonical-kv-f16-le-v1"
def portableKvAbiV2 : String := "canonical-kv-v2"
def portableKvAbiV2Prerope : String := "canonical-kv-prerope-v2"
def wireScheduleLayerOrder : String := "layer-order"
def wireScheduleDecodePriority : String := "decode-priority"

/-! ## Data -/

inductive HandoffStrategyV1 where
  | consumerLastPromptToken
  deriving Repr, DecidableEq

inductive TensorRoleV1 where
  | key | value
  deriving Repr, DecidableEq

structure EndpointIdentityV1 where
  consumerEngineAbi : String
  consumerNode : String
  producerEngineAbi : String
  producerNode : String
  trustDomain : String
  deriving DecidableEq

structure GeometryV1 where
  headDim : UInt32
  maxContextTokens : UInt32
  numKvHeads : UInt32
  numLayers : UInt32
  deriving DecidableEq

structure PrecisionV1 where
  compute : String
  kv : String
  weights : String
  deriving DecidableEq

/-- One class of layers: `from_` up to `until_` by `step`, without the exceptions; a window keeps only the last
tokens. -/
structure LayoutClassV2 where
  class_ : String
  dtype : String
  except : List UInt32
  from_ : UInt32
  headDim : UInt32
  kvHeads : UInt32
  roles : List TensorRoleV1
  step : UInt32
  until_ : UInt32
  windowTokens : UInt32
  deriving DecidableEq

structure BeginManifestV1 where
  cachedTokenCount : UInt32
  createdUnixMs : UInt64
  deadlineUnixMs : UInt64
  endpoints : EndpointIdentityV1
  expectedLayerFrames : UInt32
  expectedPayloadBytes : UInt64
  geometry : GeometryV1
  identity : ExactIdentityV1
  portableAbi : String
  precision : PrecisionV1
  protocol : String
  schemaVersion : UInt32
  strategy : HandoffStrategyV1
  tokenIdsSha256 : String
  transferId : String
  layoutTable : List LayoutClassV2
  schedule : Option String
  hmacKeyId : Option String
  deriving DecidableEq

@[ext]
structure LayerHeaderV1 where
  byteLength : UInt64
  layer : UInt32
  logicalTokenEnd : UInt32
  logicalTokenStart : UInt32
  role : TensorRoleV1
  schemaVersion : UInt32
  sequence : UInt32
  sha256 : String
  shape : UInt32 × UInt32 × UInt32
  transferId : String
  dtype : Option String
  layoutClass : Option String
  deriving DecidableEq

/-- The digests of the rotated rows of a sample of unrotated keys. -/
structure CanaryRecord where
  sampleTokenStart : UInt32
  sampleTokenCount : UInt32
  postRopeKSha256 : String
  postRopeVSha256 : String
  deriving DecidableEq

structure SealCoreV1 where
  completedUnixMs : UInt64
  descriptorChainSha256 : String
  frameCount : UInt32
  payloadBytes : UInt64
  payloadSha256 : String
  promptTokenIds : List UInt32
  protocol : String
  schemaVersion : UInt32
  strategy : HandoffStrategyV1
  tokenIdsSha256 : String
  transferId : String
  canary : Option CanaryRecord
  deriving DecidableEq

structure SealManifestV1 where
  artifactSha256 : String
  artifactHmacSha256 : Option String
  core : SealCoreV1
  deriving DecidableEq

structure AckManifestV1 where
  artifactSha256 : String
  protocol : String
  schemaVersion : UInt32
  status : String
  transferId : String
  deriving DecidableEq

structure AbortManifestV1 where
  code : String
  protocol : String
  schemaVersion : UInt32
  transferId : String
  deriving DecidableEq

structure ValidationLimits where
  maxCachedTokens : UInt32
  maxClockSkewMs : UInt64
  maxContextTokens : UInt32
  maxFrameBytes : UInt64
  maxLayers : UInt32
  maxSessionMs : UInt64
  maxTotalBytes : UInt64
  nowUnixMs : UInt64
  deriving DecidableEq

def ValidationLimits.default : ValidationLimits where
  maxCachedTokens := 32767
  maxClockSkewMs := 30000
  maxContextTokens := 32768
  maxFrameBytes := 64 * 1024 * 1024
  maxLayers := 64
  maxSessionMs := 15 * 60 * 1000
  maxTotalBytes := 4 * 1024 * 1024 * 1024
  nowUnixMs := 1

/-! ## Canonical forms -/

def HandoffStrategyV1.text : HandoffStrategyV1 → String
  | .consumerLastPromptToken => "consumer_last_prompt_token"

def TensorRoleV1.text : TensorRoleV1 → String
  | .key => "key"
  | .value => "value"

def word32Json (n : UInt32) : Json := .number n.toNat

def word64Json (n : UInt64) : Json := .number n.toNat

/-- A field that is left out when it has no value. -/
def optionalField {α : Type} (name : String) (f : α → Json) : Option α → List (String × Json)
  | some a => [(name, f a)]
  | none => []

def EndpointIdentityV1.toJson (e : EndpointIdentityV1) : Json :=
  .object [("consumer_engine_abi", .string e.consumerEngineAbi), ("consumer_node", .string e.consumerNode),
    ("producer_engine_abi", .string e.producerEngineAbi), ("producer_node", .string e.producerNode),
    ("trust_domain", .string e.trustDomain)]

def GeometryV1.toJson (g : GeometryV1) : Json :=
  .object [("head_dim", word32Json g.headDim), ("max_context_tokens", word32Json g.maxContextTokens),
    ("num_kv_heads", word32Json g.numKvHeads), ("num_layers", word32Json g.numLayers)]

def PrecisionV1.toJson (p : PrecisionV1) : Json :=
  .object [("compute", .string p.compute), ("kv", .string p.kv), ("weights", .string p.weights)]

def LayoutClassV2.toJson (l : LayoutClassV2) : Json :=
  .object [("class", .string l.class_), ("dtype", .string l.dtype), ("except", .array (l.except.map word32Json)),
    ("from", word32Json l.from_), ("head_dim", word32Json l.headDim), ("kv_heads", word32Json l.kvHeads),
    ("roles", .array (l.roles.map fun role => .string role.text)), ("step", word32Json l.step),
    ("until", word32Json l.until_), ("window_tokens", word32Json l.windowTokens)]

/-- The fields of version two are left out where they are not used. -/
def BeginManifestV1.toJson (m : BeginManifestV1) : Json :=
  .object ([("cached_token_count", word32Json m.cachedTokenCount), ("created_unix_ms", word64Json m.createdUnixMs),
    ("deadline_unix_ms", word64Json m.deadlineUnixMs), ("endpoints", m.endpoints.toJson),
    ("expected_layer_frames", word32Json m.expectedLayerFrames),
    ("expected_payload_bytes", word64Json m.expectedPayloadBytes), ("geometry", m.geometry.toJson),
    ("identity", m.identity.toJson), ("portable_abi", .string m.portableAbi), ("precision", m.precision.toJson),
    ("protocol", .string m.protocol), ("schema_version", word32Json m.schemaVersion),
    ("strategy", .string m.strategy.text), ("token_ids_sha256", .string m.tokenIdsSha256),
    ("transfer_id", .string m.transferId)] ++
    (if m.layoutTable.isEmpty then [] else [("layout_table", .array (m.layoutTable.map LayoutClassV2.toJson))]) ++
    optionalField "schedule" .string m.schedule ++ optionalField "hmac_key_id" .string m.hmacKeyId)

def LayerHeaderV1.toJson (h : LayerHeaderV1) : Json :=
  .object ([("byte_length", word64Json h.byteLength), ("layer", word32Json h.layer),
    ("logical_token_end", word32Json h.logicalTokenEnd), ("logical_token_start", word32Json h.logicalTokenStart),
    ("role", .string h.role.text), ("schema_version", word32Json h.schemaVersion), ("sequence", word32Json h.sequence),
    ("sha256", .string h.sha256),
    ("shape", .array [word32Json h.shape.1, word32Json h.shape.2.1, word32Json h.shape.2.2]),
    ("transfer_id", .string h.transferId)] ++ optionalField "dtype" .string h.dtype ++
    optionalField "layout_class" .string h.layoutClass)

def CanaryRecord.toJson (c : CanaryRecord) : Json :=
  .object [("sample_token_start", word32Json c.sampleTokenStart), ("sample_token_count", word32Json c.sampleTokenCount),
    ("post_rope_k_sha256", .string c.postRopeKSha256), ("post_rope_v_sha256", .string c.postRopeVSha256)]

def SealCoreV1.fields (c : SealCoreV1) : List (String × Json) :=
  [("completed_unix_ms", word64Json c.completedUnixMs), ("descriptor_chain_sha256", .string c.descriptorChainSha256),
    ("frame_count", word32Json c.frameCount), ("payload_bytes", word64Json c.payloadBytes),
    ("payload_sha256", .string c.payloadSha256), ("prompt_token_ids", .array (c.promptTokenIds.map word32Json)),
    ("protocol", .string c.protocol), ("schema_version", word32Json c.schemaVersion),
    ("strategy", .string c.strategy.text), ("token_ids_sha256", .string c.tokenIdsSha256),
    ("transfer_id", .string c.transferId)] ++ optionalField "canary" CanaryRecord.toJson c.canary

def SealCoreV1.toJson (c : SealCoreV1) : Json := .object c.fields

/-- The fields of the core stand among those of the seal. -/
def SealManifestV1.toJson (s : SealManifestV1) : Json :=
  .object ([("artifact_sha256", .string s.artifactSha256)] ++
    optionalField "artifact_hmac_sha256" .string s.artifactHmacSha256 ++ s.core.fields)

def AckManifestV1.toJson (a : AckManifestV1) : Json :=
  .object [("artifact_sha256", .string a.artifactSha256), ("protocol", .string a.protocol),
    ("schema_version", word32Json a.schemaVersion), ("status", .string a.status), ("transfer_id", .string a.transferId)]

def AbortManifestV1.toJson (a : AbortManifestV1) : Json :=
  .object [("code", .string a.code), ("protocol", .string a.protocol), ("schema_version", word32Json a.schemaVersion),
    ("transfer_id", .string a.transferId)]

/-! ## Layers and planes -/

namespace LayoutClassV2

variable (l : LayoutClassV2)

def layers : List UInt32 :=
  if l.step = 0 ∨ l.until_ ≤ l.from_ then []
  else
    let count := (l.until_.toNat - l.from_.toNat + (l.step.toNat - 1)) / l.step.toNat
    ((List.range' l.from_.toNat count l.step.toNat).map UInt32.ofNat).filter fun layer => layer ∉ l.except

end LayoutClassV2

namespace BeginManifestV1

variable (m : BeginManifestV1)

def isV2 : Bool := !m.layoutTable.isEmpty

def isPreropeV2 : Bool := m.isV2 && m.portableAbi == portableKvAbiV2Prerope

def planeElementBytesV2 (role : TensorRoleV1) : UInt64 := if m.isPreropeV2 ∧ role = .key then 4 else 2

def expectedPlaneDtypeV2 (l : LayoutClassV2) (role : TensorRoleV1) : String :=
  if m.isPreropeV2 ∧ role = .key then "float32" else l.dtype

/-- The number of tokens in a plane of the class. -/
def window (l : LayoutClassV2) : UInt32 :=
  if l.windowTokens = 0 then m.cachedTokenCount else min l.windowTokens m.cachedTokenCount

/-- A class of the table, a layer of it and a role. -/
abbrev WalkEntry := Fin m.layoutTable.length × UInt32 × TensorRoleV1

/-- The order of the classes: as declared, or those with a window first. -/
def scheduleClassOrder : List (Fin m.layoutTable.length) :=
  let order := List.finRange m.layoutTable.length
  if m.schedule = some wireScheduleDecodePriority then
    order.filter (fun i => 0 < (m.layoutTable.get i).windowTokens) ++
      order.filter (fun i => ¬ 0 < (m.layoutTable.get i).windowTokens)
  else order

def classWalk (i : Fin m.layoutTable.length) : List m.WalkEntry :=
  (m.layoutTable.get i).layers.flatMap fun layer => (m.layoutTable.get i).roles.map fun role => (i, layer, role)

def layoutWalkV2 : List m.WalkEntry := m.scheduleClassOrder.flatMap m.classWalk

end BeginManifestV1

structure ExpectedPlane where
  class_ : LayoutClassV2
  layer : UInt32
  role : TensorRoleV1
  rangeStart : UInt32
  rangeEnd : UInt32
  deriving DecidableEq

namespace BeginManifestV1

variable (m : BeginManifestV1)

def expectedFromWalkEntry (entry : m.WalkEntry) : ExpectedPlane where
  class_ := m.layoutTable.get entry.1
  layer := entry.2.1
  role := entry.2.2
  rangeStart :=
    if m.cachedTokenCount < m.window (m.layoutTable.get entry.1) then 0
    else m.cachedTokenCount - m.window (m.layoutTable.get entry.1)
  rangeEnd := m.cachedTokenCount

def outsideTable (sequence : UInt32) : HandoffError :=
  .validation ("layer frame " ++ toString sequence ++ " is outside the declared layout table")

def expectedPlaneAt (sequence : UInt32) : Except HandoffError ExpectedPlane := do
  let entry ← okOr m.layoutWalkV2[sequence.toNat]? (outsideTable sequence)
  return m.expectedFromWalkEntry entry

def payloadOverflow : HandoffError := .validation "declared payload size overflows u64"

def frameOverflow : HandoffError := .validation "layer-frame count overflow"

def perPlane (l : LayoutClassV2) (elementBytes : UInt64) : Except HandoffError UInt64 :=
  checkedProdFrom payloadOverflow (m.window l).toUInt64 [l.kvHeads.toUInt64, l.headDim.toUInt64, elementBytes]

/-- The loop over the roles of a class, with the frames and bytes so far. -/
def countRoles (l : LayoutClassV2) : List TensorRoleV1 → UInt64 × UInt64 → Except HandoffError (UInt64 × UInt64)
  | [], counts => .ok counts
  | role :: roles, (frames, bytes) => do
      let layers := UInt64.ofNat l.layers.length
      let perPlane ← m.perPlane l (m.planeElementBytesV2 role)
      let frames ← okOr (checkedAdd frames layers) frameOverflow
      let classBytes ← okOr (checkedMul layers perPlane) payloadOverflow
      let bytes ← okOr (checkedAdd bytes classBytes) payloadOverflow
      countRoles l roles (frames, bytes)

def countClasses : List LayoutClassV2 → UInt64 × UInt64 → Except HandoffError (UInt64 × UInt64)
  | [], counts => .ok counts
  | l :: classes, counts => do
      let counts ← m.countRoles l l.roles counts
      countClasses classes counts

def v2FrameCounts : Except HandoffError (UInt32 × UInt64) := do
  let (frames, bytes) ← m.countClasses m.layoutTable (0, 0)
  let frames ← okOr (u32TryFrom frames.toNat) frameOverflow
  return (frames, bytes)

end BeginManifestV1

end Kvpack.Handoff
