import Kvpack.Base.Assoc
import Kvpack.Core.Ids
import Kvpack.Store.Basic

/-!
# Manifest chains and scatter plans

A cut is restored from a chain of manifests, a full one and the deltas after it, walked from its leaf to the root and
turned into one list of chunk operations.
-/

namespace Kvpack.Restore

open Base Kvpack.Core

structure AuthenticatedManifest where
  manifestId : Id32
  manifest : CutManifest

structure StateDeclaration where
  key : StateKey
  fullShape : Shape
  segmentShape : Shape
  strides : List UInt64
  logicalStart : UInt64
  logicalCount : UInt64
  absolutePosition : UInt64
  window : UInt64
  atomicGroup : UInt32

structure RestoreStatePlan where
  declaration : StateDeclaration
  plaintextBytes : UInt64
  physicalSpanBytes : UInt64
  atomicGroup : UInt32
  chunkCount : Nat

structure RestoreChunkOperation where
  stateKey : StateKey
  span : ChunkSpan
  targetOffset : UInt64
  reference : ChunkRef
  tenantNamespace : Id32
  family : RepresentationFamilyId
  recompute : Bool

/-! ## Walking the chain -/

section Chain

variable (load : Id32 → Except StoreError CutManifest)

/-- The ancestors of `current`, nearest first. -/
def loadParents (leaf : CutManifest) (current : CutManifest) (seen : List Id32) :
    Except StoreError (List AuthenticatedManifest) :=
  match current.realizedSchema.kind with
  | .full => .ok []
  | .delta parent parentCut depth =>
    if depth = 0 ∨ maxDeltaDepth < depth ∨ parent ∈ seen then
      .error (.authentication "manifest parent chain depth or cycle is invalid")
    else
      match load parent with
      | .error e => .error e
      | .ok manifest =>
        if _h : manifest.inputCut ≠ parentCut ∨ manifest.semanticModel ≠ leaf.semanticModel ∨
            manifest.family ≠ leaf.family ∨ manifest.tenantNamespace ≠ leaf.tenantNamespace ∨
            manifest.keyEpoch ≠ leaf.keyEpoch ∨
            manifest.realizedSchema.kind.depth.toNat + 1 ≠ current.realizedSchema.kind.depth.toNat then
          .error (.authentication "manifest parent is incompatible with its authenticated child")
        else do
          let ancestors ← loadParents leaf manifest (parent :: seen)
          return ⟨parent, manifest⟩ :: ancestors
termination_by current.realizedSchema.kind.depth.toNat
decreasing_by
  simp only [not_or, not_not] at _h
  omega

/-- The leaf is the manifest the catalog row promised. -/
def checkExpected (C : Crypto) (leaf : CutManifest) : Option (Id32 × Id32 × InputCutId) → Except StoreError Unit
  | none => .ok ()
  | some (semantic, family, cut) => do
      let mismatch := .authentication "catalog candidate does not authenticate the matched prefix"
      rejectIf (semanticModelId C leaf.semanticModel ≠ semantic) mismatch
      let leafFamily ← liftPack (representationFamilyId C leaf.family)
      rejectIf (leafFamily ≠ family ∨ leaf.inputCut ≠ cut) mismatch

def authenticateChain (C : Crypto) (leafId : Id32) (expected : Option (Id32 × Id32 × InputCutId)) :
    Except StoreError (List AuthenticatedManifest) := do
  let leaf ← load leafId
  checkExpected C leaf expected
  let ancestors ← loadParents load leaf leaf [leafId]
  let chain := (⟨leafId, leaf⟩ :: ancestors).reverse
  rejectIf (chain.head?.map (·.manifest.realizedSchema.kind) ≠ some .full ∨
      chain.length ≠ leaf.realizedSchema.kind.depth.toNat + 1)
    (.authentication "manifest chain does not terminate at the declared full root")
  return chain

end Chain

/-! ## Scatter plans -/

/-- The group of each state; a state in two groups is refused. -/
def groupByKey (groups : List AtomicGroup) : Except StoreError (StateKey → Option UInt32) :=
  insertNew (.authentication "authenticated atomic groups overlap") (fun _ => none)
    (groups.flatMap fun g => g.states.map fun key => (key, g.id))

structure ScatterState where
  nextToken : StateKey → Option UInt64
  chunkCounts : StateKey → Option Nat
  operations : List RestoreChunkOperation

/-- Where a chunk goes: a tail window is restored from its own start. -/
def targetOffset (family : FamilyState) (schema : RealizedStateSchema) (bytesPerToken : UInt64) (span : ChunkSpan) :
    Except StoreError UInt64 :=
  if family.tokenAxisRule = .tailWindow then do
    let base ← okOr (checkedMul schema.logicalStart bytesPerToken)
      (.authentication "authenticated TailWindow target offset overflows")
    okOr (checkedSub span.plaintextOffset base)
      (.authentication "authenticated TailWindow chunk precedes its declared range")
  else .ok span.plaintextOffset

/-- The chunks of one state; the result is the token reached and the operations. -/
def scatterChunks (manifest : CutManifest) (family : FamilyState) (schema : RealizedStateSchema) (key : StateKey)
    (bytesPerToken : UInt64) :
    UInt64 → List (ChunkRef × ChunkSpan) → Except StoreError (UInt64 × List RestoreChunkOperation)
  | expected, [] => .ok (expected, [])
  | expected, (reference, span) :: rest => do
      rejectIf (span.tokenStart ≠ expected) (.authentication "parent chain chunk spans are not exactly composable")
      let offset ← okOr (checkedMul span.tokenStart bytesPerToken)
        (.authentication "authenticated scatter offset overflow")
      rejectIf (span.plaintextOffset ≠ offset) (.authentication "parent chain chunk spans are not exactly composable")
      let next ← okOr (checkedAdd expected span.tokenCount)
        (.authentication "authenticated scatter token range overflow")
      let target ← targetOffset family schema bytesPerToken span
      let (reached, operations) ← scatterChunks manifest family schema key bytesPerToken next rest
      return (reached,
        { stateKey := key, span, targetOffset := target, reference, tenantNamespace := manifest.tenantNamespace,
          family := manifest.family, recompute := false } :: operations)

def bytesPerToken (family : FamilyState) : Except StoreError UInt64 := do
  let width ← okOr family.dtype.widthBytes (.authentication "authenticated family dtype has no width")
  okOr (checkedMul family.elementsPerToken width) (.authentication "authenticated state bytes-per-token overflow")

def scatterState (manifest : CutManifest) (s : ScatterState) (t : FamilyState × RealizedStateSchema × StateManifest) :
    Except StoreError ScatterState := do
  let (family, schema, state) := t
  let expected ← okOr (s.nextToken state.key) (.authentication "parent chain state inventory changed")
  let perToken ← bytesPerToken family
  let (reached, operations) ←
    scatterChunks manifest family schema state.key perToken expected (state.chunks.zip schema.chunkSpans)
  let counted := (s.chunkCounts state.key).getD 0 + operations.length
  return { nextToken := Function.update s.nextToken state.key (some reached)
           chunkCounts := if operations = [] then s.chunkCounts
             else Function.update s.chunkCounts state.key (some counted)
           operations := s.operations ++ operations }

def scatterManifest (s : ScatterState) (entry : AuthenticatedManifest) : Except StoreError ScatterState :=
  entry.manifest.triples.foldlM (scatterState entry.manifest) s

def planState (leaf : CutManifest) (groupOf : StateKey → Option UInt32) (s : ScatterState)
    (t : FamilyState × RealizedStateSchema × StateManifest) : Except StoreError RestoreStatePlan := do
  let (family, schema, state) := t
  let expectedEnd ← okOr (checkedAdd schema.logicalStart schema.logicalCount)
    (.authentication "authenticated state range overflows")
  rejectIf (s.nextToken state.key ≠ some expectedEnd)
    (.authentication "parent chain does not cover the complete matched cut")
  let group ← okOr (groupOf state.key) (.authentication "authenticated state has no atomic group")
  let tail := family.tokenAxisRule = .tailWindow
  let segmentShape := if tail then schema.segmentShape else schema.fullShape
  let elements ← liftPack segmentShape.elementCount
  let width ← okOr family.dtype.widthBytes (.authentication "authenticated family dtype has no width")
  let plaintextBytes ← okOr (checkedMul elements width)
    (.authentication "authenticated restore state byte count overflow")
  let chunkCount ← okOr (s.chunkCounts state.key) .panicked
  return {
    declaration :=
      { key := state.key, fullShape := schema.fullShape, segmentShape, strides := schema.strides,
        logicalStart := if tail then schema.logicalStart else 0,
        logicalCount := if tail then schema.logicalCount else leaf.inputCut.tokenCount,
        absolutePosition := leaf.inputCut.tokenCount, window := if tail then schema.window else 0,
        atomicGroup := group }
    plaintextBytes, physicalSpanBytes := schema.completePhysicalBytes, atomicGroup := group, chunkCount }

/-- The states start at the ranges of the first manifest. -/
def initialScatter (first : CutManifest) : ScatterState :=
  { nextToken := insertAll (fun _ => none)
      ((first.states.zip first.realizedSchema.states).map fun (state, schema) => (state.key, schema.logicalStart))
    chunkCounts := fun _ => none
    operations := [] }

def buildScatterPlan (chain : List AuthenticatedManifest) :
    Except StoreError (List RestoreStatePlan × List RestoreChunkOperation) := do
  let leaf ← okOr (chain.getLast?.map (·.manifest)) (.state "authenticated chain is empty")
  let groupOf ← groupByKey leaf.realizedSchema.atomicGroups
  let first ← okOr (chain.head?.map (·.manifest)) (.state "authenticated chain is empty")
  rejectIf (first.states.length ≠ first.realizedSchema.states.length)
    (.authentication "authenticated root state inventory changed")
  let scattered ← chain.foldlM scatterManifest (initialScatter first)
  let states ← collect leaf.triples (planState leaf groupOf scattered)
  rejectIf (maxChunksPerState * leaf.states.length < scattered.operations.length)
    (.authentication "authenticated restore operation count exceeds bound")
  return (states, scattered.operations)

end Kvpack.Restore
