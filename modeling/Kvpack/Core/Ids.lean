import Kvpack.Base.Tiling
import Kvpack.Core.Keys
import Kvpack.Core.Manifest

/-!
# Derived identities

Every identity is a hash or a keyed hash of a preimage: a domain string followed by framed fields. The preimages are
definitions of their own, so that their layout can be reasoned about apart from the hash.
-/

namespace Kvpack.Core

open Base

variable (C : Crypto)

/-! ## Unkeyed identities -/

def semanticModelPreimage (value : SemanticModelId) : Bytes := domain "kvpack/v1/semantic-model" ++ value.encode

def semanticModelId (value : SemanticModelId) : Id32 := C.sha256 (semanticModelPreimage value)

def representationFamilyPreimage (value : RepresentationFamilyId) : Except PackError Bytes := do
  let canonical ← value.encodeCanonical
  return domain "kvpack/v1/representation-family" ++ canonical

def representationFamilyId (value : RepresentationFamilyId) : Except PackError Id32 := do
  let preimage ← representationFamilyPreimage value
  return C.sha256 preimage

def manifestId (canonicalManifest : Bytes) : Id32 := C.sha256 (domain "kvpack/v1/manifest" ++ canonicalManifest)

/-! ## Keyed identities -/

def namespacePreimage (operatorTenantId : Bytes) : Except PackError Bytes := do
  let length ← okOr (u32TryFrom operatorTenantId.length) (.bounds "tenant ID is too long")
  return domain "kvpack/v1/namespace" ++ le32 length ++ operatorTenantId

/-- One framed auxiliary input, at its position in the list. -/
def frameAuxiliaryInput (ordinal : Nat) (input : AuxiliaryInputId) : Except PackError Bytes := do
  rejectIf (input.typeId = zeroId ∨ input.valueId = zeroId) (.semantics "auxiliary identity contains a zero component")
  return le64 (UInt64.ofNat ordinal) ++ le32 32 ++ input.typeId.val ++ le32 32 ++ input.valueId.val

def frameAuxiliaryInputs : Nat → List AuxiliaryInputId → Except PackError Bytes
  | _, [] => .ok []
  | ordinal, input :: rest => do
      let frame ← frameAuxiliaryInput ordinal input
      let frames ← frameAuxiliaryInputs (ordinal + 1) rest
      return frame ++ frames

def auxiliaryInputPreimage (tenant : Id32) (inputs : List AuxiliaryInputId) : Except PackError Bytes := do
  let count ← okOr (u32TryFrom inputs.length) (.bounds "too many auxiliary identities")
  let frames ← frameAuxiliaryInputs 0 inputs
  return domain "kvpack/v1/auxiliary-input-root" ++ tenant.val ++ (le32 count ++ frames)

def auxiliaryInputRoot (key tenant : Id32) (inputs : List AuxiliaryInputId) : Except PackError Id32 := do
  let preimage ← auxiliaryInputPreimage tenant inputs
  return C.hmac key preimage

def chunkPreimage (tenant : Id32) (family : RepresentationFamilyId) (stateKey : StateKey) (span : ChunkSpan)
    (plaintext : Bytes) : Except PackError Bytes := do
  rejectIf (span.tokenCount = 0 ∨ span.plaintextBytes.toNat ≠ plaintext.length)
    (.semantics "chunk plaintext does not match its declared span")
  let familyId ← representationFamilyId C family
  let nameLength ← okOr (u16TryFrom (utf8 stateKey.stateName).length) (.bounds "state name is too long")
  let plaintextLength ← okOr (u32TryFrom plaintext.length) (.bounds "chunk plaintext exceeds u32")
  return domain "kvpack/v1/chunk-content" ++ tenant.val ++ familyId.val ++ le32 stateKey.layer ++ le16 nameLength ++
    utf8 stateKey.stateName ++ le64 span.tokenStart ++ le64 span.tokenCount ++ le64 span.plaintextOffset ++
    le32 plaintextLength ++ plaintext

def chunkId (key tenant : Id32) (family : RepresentationFamilyId) (stateKey : StateKey) (span : ChunkSpan)
    (plaintext : Bytes) : Except PackError Id32 := do
  let preimage ← chunkPreimage C tenant family stateKey span plaintext
  return C.hmac key preimage

/-! ## Prefix chains -/

structure PrefixNode where
  tokenCount : UInt64
  id : Id32
  reusable : Bool
  deriving DecidableEq

def contextPreimage (tenant : Id32) (semanticModel : SemanticModelId) (family : RepresentationFamilyId)
    (auxiliaryRoot : Id32) : Except PackError Bytes := do
  let familyId ← representationFamilyId C family
  return domain "kvpack/v1/prefix-context" ++ tenant.val ++ (semanticModelId C semanticModel).val ++ familyId.val ++
    auxiliaryRoot.val

def prefixContextRoot (key tenant : Id32) (semanticModel : SemanticModelId) (family : RepresentationFamilyId)
    (auxiliaryRoot : Id32) : Except PackError Id32 := do
  let preimage ← contextPreimage C tenant semanticModel family auxiliaryRoot
  return C.hmac key preimage

def rootPreimage (context : Id32) : Bytes := domain "kvpack/v1/prefix-root" ++ context.val

/-- The preimage of one node of a chain; block lengths and positions always fit their fields. -/
def nodePreimage (context parent : Id32) (index : Nat) (block : List UInt32) : Bytes :=
  domain "kvpack/v1/prefix-node" ++ context.val ++ parent.val ++ le64 (UInt64.ofNat index) ++
    le64 (UInt64.ofNat (index * prefixBlockTokens)) ++ le32 (UInt32.ofNat block.length) ++
    le32 (UInt32.ofNat (block.length * 4)) ++ block.flatMap le32

def chainNodes (key context : Id32) : Id32 → Nat → List (List UInt32) → List PrefixNode
  | _, _, [] => []
  | parent, index, block :: blocks =>
    let id := C.hmac key (nodePreimage context parent index block)
    { tokenCount := UInt64.ofNat (index * prefixBlockTokens + block.length), id,
      reusable := block.length == prefixBlockTokens } :: chainNodes key context id (index + 1) blocks

def chainPrefixNodes (key tenant : Id32) (semanticModel : SemanticModelId) (family : RepresentationFamilyId)
    (auxiliaryRoot : Id32) (tokens : List UInt32) : Except PackError (List PrefixNode) := do
  let context ← prefixContextRoot C key tenant semanticModel family auxiliaryRoot
  return chainNodes C key context (C.hmac key (rootPreimage context)) 0 (blocks prefixBlockTokens tokens)

def deriveInputCut (key tenant : Id32) (semanticModel : SemanticModelId) (family : RepresentationFamilyId)
    (tokens : List UInt32) (auxiliaryInputs : List AuxiliaryInputId) :
    Except PackError (InputCutId × List PrefixNode) := do
  let root ← auxiliaryInputRoot C key tenant auxiliaryInputs
  let nodes ← chainPrefixNodes C key tenant semanticModel family root tokens
  let tokenRoot ← match nodes.getLast? with
    | some node => pure node.id
    | none => do
        let context ← prefixContextRoot C key tenant semanticModel family root
        pure (C.hmac key (rootPreimage context))
  return ({ tokenRoot, auxiliaryInputRoot := root, tokenCount := UInt64.ofNat tokens.length }, nodes)

end Kvpack.Core
