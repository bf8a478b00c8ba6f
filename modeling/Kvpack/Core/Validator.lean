import Kvpack.Base.Assoc
import Kvpack.Core.Manifest

/-!
# Manifest validation

The semantic rules of a family and of a manifest, as the validator checks them: in its order, with its errors.
-/

namespace Kvpack.Core

open Base

structure ManifestBounds where
  maxStates : Nat
  maxChunksPerState : Nat
  maxRestoredBytes : UInt64
  deriving Repr, DecidableEq

structure ValidationContext where
  bounds : ManifestBounds
  deriving Repr, DecidableEq

def ManifestBounds.default : ManifestBounds :=
  { maxStates := Core.maxStates, maxChunksPerState := Core.maxChunksPerState, maxRestoredBytes := 4398046511104 }

def ValidationContext.default : ValidationContext := { bounds := ManifestBounds.default }

/-! ## Families -/

def validateStateKey (key : StateKey) : Except PackError Unit :=
  rejectIf (key.stateName = "" ∨ maxStateNameBytes < (utf8 key.stateName).length ∨ 0 ∈ utf8 key.stateName)
    (.semantics "invalid state name")

/-- The previous key of an increasing sequence does not precede `key`. -/
def outOfOrder (previous : Option StateKey) (key : StateKey) : Prop :=
  match previous with
  | none => False
  | some k => ¬ k < key

instance : (previous : Option StateKey) → (key : StateKey) → Decidable (outOfOrder previous key)
  | none, _ => isFalse id
  | some k, key => inferInstanceAs (Decidable (¬ k < key))

def validateDependencyList (keys : List StateKey) (key : StateKey) :
    Option StateKey → List StateKey → Except PackError Unit
  | _, [] => .ok ()
  | previous, dependency :: rest => do
      rejectIf (dependency = key) (.graph "state depends on itself")
      rejectIf (dependency ∉ keys) (.graph "state dependency is missing")
      rejectIf (outOfOrder previous dependency) (.graph "state dependencies are not unique canonical order")
      validateDependencyList keys key (some dependency) rest

/-- Depth-first search for a cycle; `visiting` is the stack of open keys, the result the keys closed. A stack never
holds a key twice, so without fuel there is a cycle. -/
def visit (graph : List (StateKey × List StateKey)) :
    Nat → StateKey → List StateKey → List StateKey → Except PackError (List StateKey)
  | 0, _, _, _ => .error (.graph "state dependency cycle")
  | fuel + 1, key, visiting, done =>
    if key ∈ done then .ok done
    else if key ∈ visiting then .error (.graph "state dependency cycle")
    else do
      let done ← ((graph.lookup key).getD []).foldlM
        (fun done dependency => visit graph fuel dependency (key :: visiting) done) done
      return key :: done

/-- The dependencies of every state, in the order of the keys. -/
def dependencyGraph (states : List FamilyState) : List (StateKey × List StateKey) :=
  orderedMap StateKey.cmp (states.map fun s => (s.key, s.dependencies))

def validateDependencies (states : List FamilyState) : Except PackError Unit := do
  let keys := states.map (·.key)
  let graph := dependencyGraph states
  checkAll (fun entry => validateDependencyList keys entry.1 none entry.2) graph
  let _ ← graph.foldlM (fun done entry => visit graph (graph.length + 1) entry.1 [] done) []
  return ()

def checkedProduct (values : List UInt64) (error : String) : Except PackError UInt64 :=
  checkedProdFrom (.bounds error) 1 values

def fixedDimensions (dimensions : List StaticDimension) : List UInt64 :=
  dimensions.filterMap fun
    | .token => none
    | .fixed value => some value

def tokenDimensions (dimensions : List StaticDimension) : List Nat :=
  (dimensions.zipIdx.filter fun d => decide (d.1 = .token)).map (·.2)

def validateFamilyState (mode : RepresentationMode) (previous : Option StateKey) (s : FamilyState) :
    Except PackError Unit := do
  validateStateKey s.key
  rejectIf (outOfOrder previous s.key) (.semantics "family states are not unique canonical order")
  rejectIf (s.codecVersion ≠ 1) (.codec "unsupported family codec version")
  let rank := s.dimensions.length
  rejectIf (rank = 0 ∨ maxRank < rank ∨ rank ≤ s.tokenAxis.toNat) (.semantics "family token axis is outside its rank")
  rejectIf (tokenDimensions s.dimensions ≠ [s.tokenAxis.toNat])
    (.semantics "family must have exactly one declared token dimension")
  let elementsPerToken ← checkedProduct (fixedDimensions s.dimensions) "family elements-per-token overflows u64"
  rejectIf (elementsPerToken ≠ s.elementsPerToken ∨ elementsPerToken = 0)
    (.semantics "family elements-per-token is not canonical")
  rejectIf (s.dtype.widthBytes = none) (.semantics "family dtype has no fixed width")
  rejectIf (s.layout = .contiguous ∧ s.tokenAxisRule = .gather)
    (.semantics "contiguous family cannot require strided token gathering")
  rejectIf (mode = .portable ∧ (s.layout ≠ .contiguous ∨ ¬ (s.tokenAxisRule = .direct ∨ s.tokenAxisRule = .tailWindow)))
    (.semantics "portable family requires contiguous direct token streams")

def validateFamilyStates (mode : RepresentationMode) : Option StateKey → List FamilyState → Except PackError Unit
  | _, [] => .ok ()
  | previous, s :: rest => do
      validateFamilyState mode previous s
      validateFamilyStates mode (some s.key) rest

def validateFamily (family : RepresentationFamilyId) : Except PackError Unit := do
  rejectIf (isZeroId family.engineCacheAbi ∨ isZeroId family.topology ∨ isZeroId family.shardMap)
    (.semantics "representation family contains a zero identity")
  rejectIf (family.pageSizeTokens = 0) (.semantics "representation family page size must be nonzero")
  rejectIf (family.states = [] ∨ maxStates < family.states.length) (.bounds "family state count is outside bounds")
  validateFamilyStates family.mode none family.states
  validateDependencies family.states

/-! ## Realized states -/

def StaticDimension.extent (tokens : UInt64) : StaticDimension → UInt64
  | .token => tokens
  | .fixed value => value

def validateShapeFrom (tokenAxis : Nat) (expectedTokens : UInt64) :
    Nat → List (UInt64 × StaticDimension) → Except PackError Unit
  | _, [] => .ok ()
  | index, (actual, dimension) :: rest => do
      rejectIf (actual ≠ dimension.extent expectedTokens ∨ decide (index = tokenAxis) ≠ decide (dimension = .token))
        (.semantics "realized shape does not satisfy static family dimensions")
      validateShapeFrom tokenAxis expectedTokens (index + 1) rest

def validateShape (shape : Shape) (family : FamilyState) (expectedTokens : UInt64) : Except PackError Unit := do
  rejectIf (shape.rank ≠ family.dimensions.length) (.semantics "realized shape rank does not match family rank")
  validateShapeFrom family.tokenAxis.toNat expectedTokens 0 (shape.dims.zip family.dimensions)

def lastElementFrom (offset : UInt64) : List (UInt64 × UInt64) → Except PackError UInt64
  | [] => .ok offset
  | (dimension, stride) :: rest => do
      let next ← okOr
        ((checkedSub dimension 1).bind fun count => (checkedMul count stride).bind fun term => checkedAdd offset term)
        (.bounds "state physical footprint overflows u64")
      lastElementFrom next rest

def physicalFootprint (shape : Shape) (strides : List UInt64) (width : UInt64) : Except PackError UInt64 := do
  let lastElement ← lastElementFrom 0 (shape.dims.zip strides)
  okOr ((checkedAdd lastElement 1).bind fun elements => checkedMul elements width)
    (.bounds "state physical footprint overflows u64")

def validateGroupStates (expected : List StateKey) :
    Option StateKey → List StateKey → List StateKey → Except PackError (List StateKey)
  | _, observed, [] => .ok observed
  | previous, observed, state :: rest => do
      rejectIf (state ∉ expected) (.graph "atomic group names an unknown state")
      rejectIf (outOfOrder previous state) (.semantics "atomic-group states are not unique canonical order")
      rejectIf (state ∈ observed) (.graph "state appears in multiple atomic groups")
      validateGroupStates expected (some state) (observed ++ [state]) rest

def validateGroups (expected : List StateKey) :
    UInt32 → List StateKey → List AtomicGroup → Except PackError (List StateKey)
  | _, observed, [] => .ok observed
  | previousId, observed, group :: rest => do
      rejectIf (group.id = 0 ∨ group.id ≤ previousId) (.semantics "atomic groups are not unique canonical order")
      let observed ← validateGroupStates expected none observed group.states
      validateGroups expected group.id observed rest

def validateAtomicGroups (m : CutManifest) : Except PackError Unit := do
  let expected := m.family.states.map (·.key)
  let observed ← validateGroups expected 0 [] m.realizedSchema.atomicGroups
  rejectIf (¬ (observed ⊆ expected ∧ expected ⊆ observed))
    (.graph "atomic groups do not cover the complete family inventory")

def validateContiguousFrom (expectedStride : UInt64) : List (UInt64 × UInt64) → Except PackError Unit
  | [] => .ok ()
  | (dimension, stride) :: rest => do
      rejectIf (stride ≠ expectedStride) (.semantics "contiguous state has noncanonical strides")
      let next ← okOr (checkedMul expectedStride dimension) (.bounds "contiguous stride calculation overflows u64")
      validateContiguousFrom next rest

def validateLayout (family : FamilyState) (realized : RealizedStateSchema) : Except PackError Unit :=
  if family.layout = .contiguous then
    validateContiguousFrom 1 (realized.fullShape.dims.zip realized.strides).reverse
  else .ok ()

/-- The spans and references of one state; the result is the token and byte position reached. -/
def validateSpans (bytesPerToken : UInt64) :
    UInt64 → UInt64 → List (ChunkSpan × ChunkRef) → Except PackError (UInt64 × UInt64)
  | expectedToken, expectedOffset, [] => .ok (expectedToken, expectedOffset)
  | expectedToken, expectedOffset, (span, chunk) :: rest => do
      rejectIf (span.tokenStart ≠ expectedToken ∨ span.tokenCount = 0 ∨ span.plaintextOffset ≠ expectedOffset)
        (.semantics "chunk spans are not a contiguous token/byte partition")
      let expectedBytes ← okOr (checkedMul span.tokenCount bytesPerToken)
        (.bounds "chunk span byte count overflows u64")
      rejectIf (expectedBytes.toNat ≠ span.plaintextBytes.toNat ∨ expectedBytes = 0 ∨
          maxChunkPlaintext < expectedBytes.toNat ∨ chunk.plaintextBytes ≠ span.plaintextBytes)
        (.semantics "chunk span has a noncanonical plaintext size")
      rejectIf (isZeroId chunk.chunkId ∨ isZeroId chunk.objectKey ∨ isZeroId chunk.objectDigest ∨ chunk.keyEpoch = 0)
        (.semantics "chunk reference contains a zero identity")
      rejectIf (chunk.objectBytes.toNat % alignment ≠ 0 ∨ chunk.objectBytes.toNat ≤ chunkHeaderBytes ∨
          maxChunkObjectBytes < chunk.objectBytes.toNat)
        (.semantics "chunk object size is not aligned")
      let nextToken ← okOr (checkedAdd expectedToken span.tokenCount) (.bounds "chunk token range overflows u64")
      let nextOffset ← okOr (checkedAdd expectedOffset expectedBytes) (.bounds "chunk byte range overflows u64")
      validateSpans bytesPerToken nextToken nextOffset rest

/-- The token range of a manifest: the whole cut, or what follows the parent cut. -/
def cutRange (kind : ManifestKind) (inputCut : InputCutId) : Except PackError (UInt64 × UInt64) :=
  match kind with
  | .full => .ok (0, inputCut.tokenCount)
  | .delta parent parentCut depth => do
      rejectIf (isZeroId parent ∨ isZeroId parentCut.tokenRoot ∨ isZeroId parentCut.auxiliaryInputRoot)
        (.graph "delta parent identity is invalid")
      rejectIf (depth = 0 ∨ maxDeltaDepth < depth) (.graph "delta depth is outside 1..=7")
      rejectIf (parentCut.auxiliaryInputRoot ≠ inputCut.auxiliaryInputRoot ∨ parentCut.tokenCount = 0 ∨
          inputCut.tokenCount ≤ parentCut.tokenCount)
        (.graph "delta parent cut is not a compatible strict prefix")
      return (parentCut.tokenCount, inputCut.tokenCount - parentCut.tokenCount)

/-- The token range of one state: a tail window restores only the last tokens. -/
def stateRange (kind : ManifestKind) (tokenCount : UInt64) (cut : UInt64 × UInt64) (family : FamilyState)
    (realized : RealizedStateSchema) : Except PackError (UInt64 × UInt64) :=
  if family.tokenAxisRule = .tailWindow then do
    rejectIf (kind ≠ .full ∨ realized.logicalCount = 0 ∨ tokenCount < realized.logicalCount)
      (.semantics "tail-window states require one nonempty full snapshot")
    return (tokenCount - realized.logicalCount, realized.logicalCount)
  else .ok cut

/-- Checks one state and returns the bytes of its segment and complete tensor. -/
def validateState (context : ValidationContext) (kind : ManifestKind) (tokenCount : UInt64) (cut : UInt64 × UInt64)
    (family : FamilyState) (realized : RealizedStateSchema) (payload : StateManifest) :
    Except PackError (UInt64 × UInt64) := do
  rejectIf (family.key ≠ realized.key ∨ realized.key ≠ payload.key)
    (.semantics "family, realized schema, and payload state order differ")
  let range ← stateRange kind tokenCount cut family realized
  let fullTokens := if family.tokenAxisRule = .tailWindow then range.2 else tokenCount
  validateShape realized.fullShape family fullTokens
  validateShape realized.segmentShape family range.2
  rejectIf (realized.logicalStart ≠ range.1 ∨ realized.logicalCount ≠ range.2 ∨
      realized.absolutePosition ≠ tokenCount ∨ realized.window ≠ 0)
    (.semantics "realized state range does not match the exact manifest cut")
  rejectIf (realized.strides.length ≠ realized.fullShape.rank ∨ 0 ∈ realized.strides)
    (.semantics "realized state strides do not match its rank")
  validateLayout family realized
  let width ← okOr family.dtype.widthBytes (.semantics "family dtype has no fixed width")
  let segmentElements ← realized.segmentShape.elementCount
  let segmentBytes ← okOr (checkedMul segmentElements width) (.bounds "segment byte count overflows u64")
  let completeElements ← realized.fullShape.elementCount
  let completeBytes ← okOr (checkedMul completeElements width) (.bounds "complete byte count overflows u64")
  let physicalTokenOffset := if family.tokenAxisRule = .tailWindow then 0 else range.1
  -- The stride list has the rank of the shape, so the token axis indexes it.
  let stride := realized.strides.getD family.tokenAxis.toNat 0
  let physicalOffset ← okOr ((checkedMul physicalTokenOffset stride).bind fun value => checkedMul value width)
    (.bounds "physical token offset overflows u64")
  let physicalSpan ← physicalFootprint realized.segmentShape realized.strides width
  let completePhysical ← physicalFootprint realized.fullShape realized.strides width
  rejectIf (realized.physicalOffsetBytes ≠ physicalOffset ∨ realized.physicalSpanBytes ≠ physicalSpan ∨
      realized.completePhysicalBytes ≠ completePhysical)
    (.semantics "realized physical span is not canonical")
  rejectIf (realized.chunkSpans = [] ∨ context.bounds.maxChunksPerState < realized.chunkSpans.length ∨
      payload.chunks.length ≠ realized.chunkSpans.length)
    (.bounds "state chunk count is outside bounds")
  let bytesPerToken ← okOr (checkedMul family.elementsPerToken width) (.bounds "bytes per token overflows u64")
  rejectIf (bytesPerToken = 0 ∨ maxChunkPlaintext < bytesPerToken.toNat)
    (.bounds "one state token does not fit in a bounded chunk")
  let baseOffset ← okOr (checkedMul range.1 bytesPerToken) (.bounds "state plaintext base offset overflows u64")
  let reached ← validateSpans bytesPerToken range.1 baseOffset (realized.chunkSpans.zip payload.chunks)
  let rangeEnd ← okOr (checkedAdd range.1 range.2) (.bounds "state token range overflows u64")
  let endOffset ← okOr (checkedMul rangeEnd bytesPerToken) (.bounds "state plaintext end offset overflows u64")
  rejectIf (reached.1 ≠ rangeEnd ∨ reached.2 ≠ endOffset)
    (.semantics "chunk spans do not cover the complete realized state segment")
  return (segmentBytes, completeBytes)

/-! ## Manifests -/

/-- The states of a manifest with the running byte totals. -/
def validateStates (context : ValidationContext) (kind : ManifestKind) (tokenCount : UInt64) (cut : UInt64 × UInt64) :
    UInt64 → UInt64 → List FamilyState → List RealizedStateSchema → List StateManifest →
    Except PackError (UInt64 × UInt64)
  | segmentTotal, completeTotal, family :: families, realized :: schemas, payload :: payloads => do
      let bytes ← validateState context kind tokenCount cut family realized payload
      let segmentTotal ← okOr (checkedAdd segmentTotal bytes.1) (.bounds "segment restored byte total overflows u64")
      let completeTotal ← okOr (checkedAdd completeTotal bytes.2) (.bounds "complete restored byte total overflows u64")
      validateStates context kind tokenCount cut segmentTotal completeTotal families schemas payloads
  | segmentTotal, completeTotal, _, _, _ => .ok (segmentTotal, completeTotal)

def SemanticModelId.components (s : SemanticModelId) : List Id32 :=
  [s.weightsConfig, s.adapters, s.tokenizerTemplate, s.positionSemantics, s.qualifiedMath]

def validateManifest (m : CutManifest) (context : ValidationContext) : Except PackError Unit := do
  rejectIf (isZeroId m.tenantNamespace) (.semantics "tenant namespace is zero")
  rejectIf (m.keyEpoch = 0) (.semantics "key epoch must be nonzero")
  rejectIf (m.semanticModel.components.any isZeroId) (.semantics "semantic model identity contains a zero component")
  rejectIf (isZeroId m.inputCut.tokenRoot ∨ isZeroId m.inputCut.auxiliaryInputRoot ∨ m.inputCut.tokenCount = 0)
    (.semantics "input cut identity is invalid")
  validateFamily m.family
  let cut ← cutRange m.realizedSchema.kind m.inputCut
  rejectIf (m.realizedSchema.states.length ≠ m.family.states.length ∨ m.states.length ≠ m.family.states.length ∨
      context.bounds.maxStates < m.realizedSchema.states.length)
    (.bounds "manifest, family, and schema state counts differ or exceed bounds")
  validateAtomicGroups m
  let totals ← validateStates context m.realizedSchema.kind m.inputCut.tokenCount cut 0 0 m.family.states
    m.realizedSchema.states m.states
  rejectIf (m.realizedSchema.segmentRestoredBytes ≠ totals.1 ∨ m.realizedSchema.completeRestoredBytes ≠ totals.2 ∨
      context.bounds.maxRestoredBytes < m.realizedSchema.completeRestoredBytes)
    (.bounds "manifest restored byte totals are invalid")

end Kvpack.Core
