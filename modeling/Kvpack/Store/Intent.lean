import Kvpack.Store.Uploads

/-!
# Intents of provisional exports

The digest that fences the reuse of an idempotency key, as a hash of the fields of the declaration and the policy, and
the check of the prompt when the export is sealed. Lengths of vectors and strings fit in 64 bits.
-/

namespace Kvpack.Store

open Base Kvpack.Core

variable (C : Crypto)

structure ExportStateDeclaration where
  key : StateKey
  strides : List UInt64
  atomicGroup : UInt32
  name_lt : (utf8 key.stateName).length < 2 ^ 64
  strides_lt : strides.length < 2 ^ 64

structure ProvisionalExportDeclaration where
  semanticModel : SemanticModelId
  cachedTokenCount : UInt32
  sealedPromptTokenIdsSha256 : Id32
  sourceDeclarationDigest : Id32
  auxiliaryInputs : List AuxiliaryInputId
  family : RepresentationFamilyId
  states : List ExportStateDeclaration
  states_lt : states.length < 2 ^ 64

/-- The fields of a policy that are part of the intent. -/
structure WritePolicy where
  encryptChunks : Bool
  encryptManifest : Bool
  maximumRestoredBytes : UInt64
  publicationGeneration : UInt64

/-! ## The digest -/

/-- `IntentHasher::bytes`, which is also how the domain is written. -/
def intentBytes (value : Bytes) : Bytes := le64 (UInt64.ofNat value.length) ++ value

def ExportStateDeclaration.intent (state : ExportStateDeclaration) : Bytes :=
  le32 state.key.layer ++ intentBytes (utf8 state.key.stateName) ++ le64 (UInt64.ofNat state.strides.length) ++
    state.strides.flatMap le64 ++ le32 state.atomicGroup

def provisionalIntentPreimage (tenantNamespace : Id32) (keyEpoch : UInt64) (declaration : ProvisionalExportDeclaration)
    (policy : WritePolicy) : Except PackError Bytes := do
  let familyId ← representationFamilyId C declaration.family
  return intentBytes (utf8 "kvpack/catalog/provisional-export-intent/v1") ++ tenantNamespace.val ++ le64 keyEpoch ++
    declaration.sourceDeclarationDigest.val ++ declaration.sealedPromptTokenIdsSha256.val ++
    le64 (declaration.cachedTokenCount.toUInt64 + 1) ++ (semanticModelId C declaration.semanticModel).val ++
    familyId.val ++ le64 (UInt64.ofNat declaration.states.length) ++
    declaration.states.flatMap (·.intent) ++
    ([policy.encryptChunks.toUInt8, policy.encryptManifest.toUInt8] ++ le64 policy.maximumRestoredBytes ++
      le64 policy.publicationGeneration)

def provisionalIntentDigest (tenantNamespace : Id32) (keyEpoch : UInt64) (declaration : ProvisionalExportDeclaration)
    (policy : WritePolicy) : Except StoreError Id32 := do
  let preimage ← liftPack (provisionalIntentPreimage C tenantNamespace keyEpoch declaration policy)
  return C.sha256 preimage

/-! ## The prompt -/

def portablePrefillPreimage (tokenIds : List UInt32) : Bytes :=
  utf8 "kvpack-live-token-ids-v1" ++ [0] ++ tokenIds.flatMap le32

def portablePrefillTokenIdsSha256 (tokenIds : List UInt32) : Id32 := C.sha256 (portablePrefillPreimage tokenIds)

def checkSeal (declaration : ProvisionalExportDeclaration) (promptTokenIds : List UInt32) (artifactDigest : Id32) :
    Except StoreError Unit :=
  rejectIf (artifactDigest = zeroId ∨ promptTokenIds.length ≠ declaration.cachedTokenCount.toNat + 1 ∨
    portablePrefillTokenIdsSha256 C promptTokenIds ≠ declaration.sealedPromptTokenIdsSha256)
    (.authentication "provisional seal has the wrong artifact, prompt count, or token commitment")

/-- The cut whose manifests a seal publishes. -/
def sealedCut (keys : KeySchedule) (tenantNamespace : Id32) (declaration : ProvisionalExportDeclaration)
    (promptTokenIds : List UInt32) : Except PackError InputCutId := do
  let (finalCut, _) ← deriveInputCut C keys.prefixKey tenantNamespace declaration.semanticModel declaration.family
    (promptTokenIds.take declaration.cachedTokenCount.toNat) declaration.auxiliaryInputs
  return finalCut

end Kvpack.Store
