import Kvpack.Core.Canonical

/-!
# Families, realized schemas and cut manifests

The durable records of the format and their canonical encodings: the static family of a cache, the realized schema
of one cut, and the manifest that binds the two to the chunk objects of the cut.
-/

namespace Kvpack.Core

open Base

/-! ## State keys -/

structure StateKey where
  layer : UInt32
  stateName : String
  deriving Repr, DecidableEq

namespace StateKey

/-- The comparison order: layer first, then the bytes of the name. -/
def lt (a b : StateKey) : Prop :=
  a.layer < b.layer ∨ (a.layer = b.layer ∧ utf8 a.stateName < utf8 b.stateName)

instance : LT StateKey := ⟨StateKey.lt⟩

instance (a b : StateKey) : Decidable (a < b) :=
  inferInstanceAs (Decidable (a.layer < b.layer ∨ (a.layer = b.layer ∧ utf8 a.stateName < utf8 b.stateName)))

def cmp (a b : StateKey) : Ordering :=
  if a < b then .lt else if a = b then .eq else .gt

def encode (key : StateKey) : Except PackError Bytes := do
  let name ← encodeString key.stateName
  return le32 key.layer ++ name

def decode : Decoder StateKey := do
  let layer ← Decoder.u32
  let stateName ← Decoder.string
  return { layer, stateName }

theorem lt_irrefl (a : StateKey) : ¬ a < a := by
  rintro (h | ⟨_, h⟩)
  · exact UInt32.lt_irrefl _ h
  · exact List.lt_irrefl _ h

theorem lt_trans {a b c : StateKey} (hab : a < b) (hbc : b < c) : a < c := by
  rcases hab with hab | ⟨hab, hab'⟩ <;> rcases hbc with hbc | ⟨hbc, hbc'⟩
  · exact Or.inl (UInt32.lt_trans hab hbc)
  · exact Or.inl (hbc ▸ hab)
  · exact Or.inl (hab ▸ hbc)
  · exact Or.inr ⟨hab.trans hbc, List.lt_trans hab' hbc'⟩

theorem ne_of_lt {a b : StateKey} (h : a < b) : a ≠ b := by
  rintro rfl
  exact lt_irrefl a h

end StateKey

/-! ## Static family -/

structure SemanticModelId where
  weightsConfig : Id32
  adapters : Id32
  tokenizerTemplate : Id32
  positionSemantics : Id32
  qualifiedMath : Id32
  deriving DecidableEq

structure InputCutId where
  tokenRoot : Id32
  auxiliaryInputRoot : Id32
  tokenCount : UInt64
  deriving DecidableEq

structure AuxiliaryInputId where
  typeId : Id32
  valueId : Id32
  deriving DecidableEq

inductive StaticDimension where
  | token
  | fixed (value : UInt64)
  deriving Repr, DecidableEq

structure FamilyState where
  key : StateKey
  cacheKind : CacheKind
  dtype : DType
  codec : Codec
  codecVersion : UInt16
  layout : Layout
  tokenAxisRule : TokenAxisRule
  tokenAxis : UInt8
  elementsPerToken : UInt64
  dimensions : List StaticDimension
  dependencies : List StateKey
  deriving Repr, DecidableEq

structure RepresentationFamilyId where
  engineCacheAbi : Id32
  mode : RepresentationMode
  pageSizeTokens : UInt32
  topology : Id32
  shardMap : Id32
  states : List FamilyState
  deriving DecidableEq

def SemanticModelId.encode (v : SemanticModelId) : Bytes :=
  v.weightsConfig.val ++ v.adapters.val ++ v.tokenizerTemplate.val ++ v.positionSemantics.val ++ v.qualifiedMath.val

def SemanticModelId.decode : Decoder SemanticModelId := do
  let weightsConfig ← Decoder.id
  let adapters ← Decoder.id
  let tokenizerTemplate ← Decoder.id
  let positionSemantics ← Decoder.id
  let qualifiedMath ← Decoder.id
  return { weightsConfig, adapters, tokenizerTemplate, positionSemantics, qualifiedMath }

def InputCutId.encode (v : InputCutId) : Bytes :=
  v.tokenRoot.val ++ v.auxiliaryInputRoot.val ++ le64 v.tokenCount

def InputCutId.decode : Decoder InputCutId := do
  let tokenRoot ← Decoder.id
  let auxiliaryInputRoot ← Decoder.id
  let tokenCount ← Decoder.u64
  return { tokenRoot, auxiliaryInputRoot, tokenCount }

/-- The token dimension is stored as zero. -/
def StaticDimension.wire : StaticDimension → UInt64
  | .token => 0
  | .fixed value => value

def StaticDimension.ofWire (value : UInt64) : StaticDimension := if value = 0 then .token else .fixed value

def FamilyState.encode (s : FamilyState) : Except PackError Bytes := do
  let key ← s.key.encode
  let rank ← okOr (u8TryFrom s.dimensions.length) (.bounds "family state rank exceeds u8")
  let count ← okOr (u16TryFrom s.dependencies.length) (.bounds "too many state dependencies")
  let dependencies ← writeAll StateKey.encode s.dependencies
  return key ++ le16 s.cacheKind.wire ++ le16 s.dtype.wire ++ le16 s.codec.wire ++ le16 s.codecVersion ++
    le16 s.layout.wire ++ le16 s.tokenAxisRule.wire ++ [s.tokenAxis] ++ [0] ++ le64 s.elementsPerToken ++ [rank] ++
    (s.dimensions.flatMap fun d => le64 d.wire) ++ le16 count ++ dependencies

def FamilyState.decode : Decoder FamilyState := do
  let key ← StateKey.decode
  let cacheKind ← Decoder.u16 >>= fun v => Parser.check (CacheKind.fromWire v)
  let dtype ← Decoder.u16 >>= fun v => Parser.check (DType.fromWire v)
  let codec ← Decoder.u16 >>= fun v => Parser.check (Codec.fromWire v)
  let codecVersion ← Decoder.u16
  let layout ← Decoder.u16 >>= fun v => Parser.check (Layout.fromWire v)
  let tokenAxisRule ← Decoder.u16 >>= fun v => Parser.check (TokenAxisRule.fromWire v)
  let tokenAxis ← Decoder.u8
  let reserved ← Decoder.u8
  Parser.check (rejectIf (reserved ≠ 0) (.reserved "family state reserved byte is nonzero"))
  let elementsPerToken ← Decoder.u64
  let rank ← Decoder.u8
  Parser.check (rejectIf (rank.toNat = 0 ∨ maxRank < rank.toNat) (.bounds "family state rank is outside 1..=8"))
  let dimensions ← Parser.times rank.toNat (StaticDimension.ofWire <$> Decoder.u64)
  let count ← Decoder.u16
  Parser.check (rejectIf (maxDependenciesPerState < count.toNat) (.bounds "too many state dependencies"))
  let dependencies ← Parser.times count.toNat StateKey.decode
  return { key, cacheKind, dtype, codec, codecVersion, layout, tokenAxisRule, tokenAxis, elementsPerToken, dimensions,
           dependencies }

namespace RepresentationFamilyId

def encodeBody (f : RepresentationFamilyId) : Except PackError Bytes := do
  let count ← okOr (u32TryFrom f.states.length) (.bounds "too many family states")
  let states ← writeAll FamilyState.encode f.states
  return f.engineCacheAbi.val ++ le16 f.mode.wire ++ le16 0 ++ le32 f.pageSizeTokens ++ f.topology.val ++
    f.shardMap.val ++ le32 count ++ states

def decodeBody : Decoder RepresentationFamilyId := do
  let engineCacheAbi ← Decoder.id
  let mode ← Decoder.u16 >>= fun v => Parser.check (RepresentationMode.fromWire v)
  Decoder.expect16 0 (.reserved "family reserved field is nonzero")
  let pageSizeTokens ← Decoder.u32
  let topology ← Decoder.id
  let shardMap ← Decoder.id
  let count ← Decoder.u32
  Parser.check (rejectIf (count.toNat = 0 ∨ maxStates < count.toNat) (.bounds "family state count is outside bounds"))
  let states ← Parser.times count.toNat FamilyState.decode
  return { engineCacheAbi, mode, pageSizeTokens, topology, shardMap, states }

def encodeCanonical (f : RepresentationFamilyId) : Except PackError Bytes := do
  let body ← f.encodeBody
  return familyMagic ++ le16 wireVersion ++ le16 0 ++ body

end RepresentationFamilyId

/-! ## Realized schema of one cut -/

/-- Dimensions of a tensor: one to eight of them, none zero. -/
structure Shape where
  dims : List UInt64
  rank_pos : dims ≠ []
  rank_le : dims.length ≤ maxRank
  dims_ne_zero : (0 : UInt64) ∉ dims
  deriving DecidableEq

namespace Shape

def new (dims : List UInt64) : Except PackError Shape :=
  if h : dims = [] ∨ maxRank < dims.length then .error (.bounds "state rank must be in 1..=8")
  else if h0 : (0 : UInt64) ∈ dims then .error (.bounds "state dimensions must be nonzero")
  else .ok ⟨dims, fun hd => h (Or.inl hd), Nat.le_of_not_lt fun hl => h (Or.inr hl), h0⟩

def rank (s : Shape) : Nat := s.dims.length

def elementCount (s : Shape) : Except PackError UInt64 :=
  checkedProdFrom (.bounds "shape element count overflows u64") 1 s.dims

def encode (s : Shape) : Bytes := UInt8.ofNat s.rank :: s.dims.flatMap le64

def decode : Decoder Shape := do
  let rank ← Decoder.u8
  Parser.check (rejectIf (rank.toNat = 0 ∨ maxRank < rank.toNat) (.bounds "state rank must be in 1..=8"))
  let dims ← Parser.times rank.toNat Decoder.u64
  Parser.check (Shape.new dims)

theorem new_dims (s : Shape) : Shape.new s.dims = .ok s := by
  unfold Shape.new
  rw [dif_neg (by simpa using ⟨s.rank_pos, s.rank_le⟩), dif_neg s.dims_ne_zero]

end Shape

structure ChunkSpan where
  tokenStart : UInt64
  tokenCount : UInt64
  plaintextOffset : UInt64
  plaintextBytes : UInt32
  deriving Repr, DecidableEq

structure ChunkRef where
  chunkId : Id32
  objectKey : Id32
  objectDigest : Id32
  keyEpoch : UInt64
  plaintextBytes : UInt32
  objectBytes : UInt32
  deriving DecidableEq

structure RealizedStateSchema where
  key : StateKey
  fullShape : Shape
  segmentShape : Shape
  strides : List UInt64
  logicalStart : UInt64
  logicalCount : UInt64
  physicalOffsetBytes : UInt64
  physicalSpanBytes : UInt64
  completePhysicalBytes : UInt64
  absolutePosition : UInt64
  window : UInt64
  chunkSpans : List ChunkSpan
  deriving DecidableEq

structure StateManifest where
  key : StateKey
  chunks : List ChunkRef
  deriving DecidableEq

structure AtomicGroup where
  id : UInt32
  states : List StateKey
  deriving DecidableEq

inductive ManifestKind where
  | full
  | delta (parent : Id32) (parentCut : InputCutId) (depth : UInt8)
  deriving DecidableEq

structure RealizedCutSchemaId where
  kind : ManifestKind
  states : List RealizedStateSchema
  atomicGroups : List AtomicGroup
  segmentRestoredBytes : UInt64
  completeRestoredBytes : UInt64
  deriving DecidableEq

structure CutManifest where
  tenantNamespace : Id32
  keyEpoch : UInt64
  semanticModel : SemanticModelId
  inputCut : InputCutId
  family : RepresentationFamilyId
  realizedSchema : RealizedCutSchemaId
  states : List StateManifest
  deriving DecidableEq

namespace ManifestKind

def depth : ManifestKind → UInt8
  | .full => 0
  | .delta _ _ depth => depth

def parent : ManifestKind → Option Id32
  | .full => none
  | .delta parent _ _ => some parent

def encode : ManifestKind → Bytes
  | .full => [0] ++ [0] ++ le16 0
  | .delta parent parentCut depth => [1] ++ [depth] ++ le16 0 ++ parent.val ++ parentCut.encode

def decode : Decoder ManifestKind := do
  let tag ← Decoder.u8
  let depth ← Decoder.u8
  Decoder.expect16 0 (.reserved "manifest-kind reserved field is nonzero")
  if tag = 0 then
    Parser.check (rejectIf (depth ≠ 0) (.reserved "full manifest carries a delta depth"))
    return .full
  else if tag = 1 then
    let parent ← Decoder.id
    let parentCut ← InputCutId.decode
    return .delta parent parentCut depth
  else
    Parser.check (.error (.unknownEnum "manifest kind" tag.toUInt64))

end ManifestKind

def ChunkSpan.encode (s : ChunkSpan) : Bytes :=
  le64 s.tokenStart ++ le64 s.tokenCount ++ le64 s.plaintextOffset ++ le32 s.plaintextBytes

def ChunkSpan.decode : Decoder ChunkSpan := do
  let tokenStart ← Decoder.u64
  let tokenCount ← Decoder.u64
  let plaintextOffset ← Decoder.u64
  let plaintextBytes ← Decoder.u32
  return { tokenStart, tokenCount, plaintextOffset, plaintextBytes }

def ChunkRef.encode (c : ChunkRef) : Bytes :=
  c.chunkId.val ++ c.objectKey.val ++ c.objectDigest.val ++ le64 c.keyEpoch ++ le32 c.plaintextBytes ++
    le32 c.objectBytes

def ChunkRef.decode : Decoder ChunkRef := do
  let chunkId ← Decoder.id
  let objectKey ← Decoder.id
  let objectDigest ← Decoder.id
  let keyEpoch ← Decoder.u64
  let plaintextBytes ← Decoder.u32
  let objectBytes ← Decoder.u32
  return { chunkId, objectKey, objectDigest, keyEpoch, plaintextBytes, objectBytes }

def RealizedStateSchema.encode (s : RealizedStateSchema) : Except PackError Bytes := do
  let key ← s.key.encode
  let strideCount ← okOr (u8TryFrom s.strides.length) (.bounds "too many state strides")
  let chunkCount ← okOr (u32TryFrom s.chunkSpans.length) (.bounds "too many chunk spans")
  return key ++ s.fullShape.encode ++ s.segmentShape.encode ++ [strideCount] ++ s.strides.flatMap le64 ++
    le64 s.logicalStart ++ le64 s.logicalCount ++ le64 s.physicalOffsetBytes ++ le64 s.physicalSpanBytes ++
    le64 s.completePhysicalBytes ++ le64 s.absolutePosition ++ le64 s.window ++ le32 chunkCount ++
    s.chunkSpans.flatMap ChunkSpan.encode

def RealizedStateSchema.decode : Decoder RealizedStateSchema := do
  let key ← StateKey.decode
  let fullShape ← Shape.decode
  let segmentShape ← Shape.decode
  let strideCount ← Decoder.u8
  Parser.check (rejectIf (maxRank < strideCount.toNat) (.bounds "too many state strides"))
  let strides ← Parser.times strideCount.toNat Decoder.u64
  let logicalStart ← Decoder.u64
  let logicalCount ← Decoder.u64
  let physicalOffsetBytes ← Decoder.u64
  let physicalSpanBytes ← Decoder.u64
  let completePhysicalBytes ← Decoder.u64
  let absolutePosition ← Decoder.u64
  let window ← Decoder.u64
  let chunkCount ← Decoder.u32
  Parser.check (rejectIf (chunkCount.toNat = 0 ∨ maxChunksPerState < chunkCount.toNat)
    (.bounds "state chunk-span count is outside bounds"))
  let chunkSpans ← Parser.times chunkCount.toNat ChunkSpan.decode
  return { key, fullShape, segmentShape, strides, logicalStart, logicalCount, physicalOffsetBytes, physicalSpanBytes,
           completePhysicalBytes, absolutePosition, window, chunkSpans }

def AtomicGroup.encode (g : AtomicGroup) : Except PackError Bytes := do
  let count ← okOr (u32TryFrom g.states.length) (.bounds "too many atomic-group states")
  let states ← writeAll StateKey.encode g.states
  return le32 g.id ++ le32 count ++ states

def AtomicGroup.decode : Decoder AtomicGroup := do
  let id ← Decoder.u32
  let count ← Decoder.u32
  Parser.check (rejectIf (count.toNat = 0 ∨ maxStates < count.toNat)
    (.bounds "atomic-group state count is outside bounds"))
  let states ← Parser.times count.toNat StateKey.decode
  return { id, states }

namespace RealizedCutSchemaId

def encodeBody (s : RealizedCutSchemaId) : Except PackError Bytes := do
  let stateCount ← okOr (u32TryFrom s.states.length) (.bounds "too many realized states")
  let states ← writeAll RealizedStateSchema.encode s.states
  let groupCount ← okOr (u32TryFrom s.atomicGroups.length) (.bounds "too many atomic groups")
  let groups ← writeAll AtomicGroup.encode s.atomicGroups
  return s.kind.encode ++ le32 stateCount ++ states ++ le32 groupCount ++ groups ++ le64 s.segmentRestoredBytes ++
    le64 s.completeRestoredBytes

def decodeBody : Decoder RealizedCutSchemaId := do
  let kind ← ManifestKind.decode
  let stateCount ← Decoder.u32
  Parser.check (rejectIf (stateCount.toNat = 0 ∨ maxStates < stateCount.toNat)
    (.bounds "realized state count is outside bounds"))
  let states ← Parser.times stateCount.toNat RealizedStateSchema.decode
  let groupCount ← Decoder.u32
  Parser.check (rejectIf (groupCount.toNat = 0 ∨ maxAtomicGroups < groupCount.toNat)
    (.bounds "atomic-group count is outside bounds"))
  let atomicGroups ← Parser.times groupCount.toNat AtomicGroup.decode
  let segmentRestoredBytes ← Decoder.u64
  let completeRestoredBytes ← Decoder.u64
  return { kind, states, atomicGroups, segmentRestoredBytes, completeRestoredBytes }

end RealizedCutSchemaId

/-! ## Cut manifest -/

def StateManifest.encode (s : StateManifest) : Except PackError Bytes := do
  let key ← s.key.encode
  let count ← okOr (u32TryFrom s.chunks.length) (.bounds "too many state chunks")
  return key ++ le32 count ++ s.chunks.flatMap ChunkRef.encode

def StateManifest.decode : Decoder StateManifest := do
  let key ← StateKey.decode
  let count ← Decoder.u32
  Parser.check (rejectIf (count.toNat = 0 ∨ maxChunksPerState < count.toNat)
    (.bounds "state chunk count is outside bounds"))
  let chunks ← Parser.times count.toNat ChunkRef.decode
  return { key, chunks }

namespace CutManifest

/-- The states of a manifest, each with its schema and its chunks. -/
def triples (m : CutManifest) : List (FamilyState × RealizedStateSchema × StateManifest) :=
  m.family.states.zip (m.realizedSchema.states.zip m.states)

def encodeCanonical (m : CutManifest) : Except PackError Bytes := do
  let family ← m.family.encodeBody
  let schema ← m.realizedSchema.encodeBody
  let count ← okOr (u32TryFrom m.states.length) (.bounds "too many manifest states")
  let states ← writeAll StateManifest.encode m.states
  return manifestMagic ++ le16 wireVersion ++ le16 0 ++ m.tenantNamespace.val ++ le64 m.keyEpoch ++
    m.semanticModel.encode ++ m.inputCut.encode ++ family ++ schema ++ le32 count ++ states

/-- The fields of a manifest, before the check that nothing follows them. -/
def decodeFields : Decoder CutManifest := do
  Decoder.new manifestMagic
  Decoder.expect16 wireVersion (.badMagic "unsupported manifest version")
  Decoder.expect16 0 (.reserved "manifest reserved field is nonzero")
  let tenantNamespace ← Decoder.id
  let keyEpoch ← Decoder.u64
  let semanticModel ← SemanticModelId.decode
  let inputCut ← InputCutId.decode
  let family ← RepresentationFamilyId.decodeBody
  let realizedSchema ← RealizedCutSchemaId.decodeBody
  let count ← Decoder.u32
  Parser.check (rejectIf (count.toNat = 0 ∨ maxStates < count.toNat) (.bounds "manifest state count is outside bounds"))
  let states ← Parser.times count.toNat StateManifest.decode
  return { tenantNamespace, keyEpoch, semanticModel, inputCut, family, realizedSchema, states }

def decodeCanonical (bytes : Bytes) : Except PackError CutManifest := do
  rejectIf (maxManifestBytes < bytes.length) (.bounds "manifest exceeds production bound")
  let (value, rest) ← decodeFields.run bytes
  let _ ← Decoder.finish.run rest
  let again ← value.encodeCanonical
  rejectIf (again ≠ bytes) (.reserved "manifest encoding is not canonical")
  return value

end CutManifest

end Kvpack.Core
