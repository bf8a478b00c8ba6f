import Kvpack.Core.Canonical
import Kvpack.Core.Keys

/-!
# Transform descriptors

An ordered list of repack operations that maps a named source layout onto the canonical one. Its identity is the hash of
its canonical bytes.
-/

namespace Kvpack.Core

open Base

def transformMagic : Bytes := [75, 86, 88, 70, 77, 49, 0, 0]
def transformVersion : UInt16 := 1
def maxTransformOps : Nat := 64
def maxTransformLabelBytes : Nat := 128
def maxPermutationWidth : Nat := 16384
def maxPadTargetBytes : UInt64 := 1073741824
def maxRopeHeadDim : UInt32 := 4096

inductive CastDType where
  | fp16 | bf16 | fp8E4m3
  deriving Repr, DecidableEq

def CastDType.wire : CastDType → UInt16
  | .fp16 => 1
  | .bf16 => 2
  | .fp8E4m3 => 3

def CastDType.fromWire : UInt16 → Except PackError CastDType :=
  fromWireOf "cast dtype" [.fp16, .bf16, .fp8E4m3] CastDType.wire

/-- The order of the rotated dimensions of a head: two halves, or adjacent pairs. -/
inductive RopeDirection where
  | neoxToInterleaved | interleavedToNeox
  deriving Repr, DecidableEq

def RopeDirection.wire : RopeDirection → UInt16
  | .neoxToInterleaved => 1
  | .interleavedToNeox => 2

def RopeDirection.fromWire : UInt16 → Except PackError RopeDirection :=
  fromWireOf "rope direction" [.neoxToInterleaved, .interleavedToNeox] RopeDirection.wire

/-- One repack operation; `order[i]` is the source index placed at output slot `i`. -/
inductive RepackOp where
  | permuteHeadPairs (order : List UInt32)
  | reorderPlanes (order : List UInt32)
  | regroupLayers (order : List UInt32)
  | padOrTrim (targetBytes : UInt64)
  | dtypeCast (from_ to_ : CastDType) (scaleId : Option Id32)
  | ropePermute (direction : RopeDirection) (headDim : UInt32)
  deriving Repr, DecidableEq

/-! ## Validation -/

/-- The loop of `validate_permutation`, with the sources it has marked. -/
def markSources (width : Nat) : List UInt32 → List UInt32 → Except PackError Unit
  | _, [] => .ok ()
  | seen, index :: rest => do
      rejectIf (width ≤ index.toNat) (.semantics "transform permutation index is outside the permutation width")
      rejectIf (index ∈ seen) (.semantics "transform permutation repeats a source index")
      markSources width (index :: seen) rest

def validatePermutation (order : List UInt32) : Except PackError Unit := do
  rejectIf (order = [] ∨ maxPermutationWidth < order.length)
    (.bounds "transform permutation width is outside the v1 bounds")
  markSources order.length [] order

def validateLabel (value what : String) : Except PackError Unit :=
  rejectIf (utf8 value = [] ∨ maxTransformLabelBytes < (utf8 value).length ∨ ¬ (utf8 value).all (· < 128))
    (.bounds what)

def RepackOp.validate : RepackOp → Except PackError Unit
  | .permuteHeadPairs order | .reorderPlanes order | .regroupLayers order => validatePermutation order
  | .padOrTrim targetBytes =>
    rejectIf (targetBytes = 0 ∨ maxPadTargetBytes < targetBytes)
      (.bounds "transform pad-or-trim target is outside the v1 bounds")
  | .dtypeCast from_ to_ scaleId => do
      rejectIf (from_ = to_) (.semantics "transform dtype-cast endpoints must differ")
      rejectIf (decide (from_ = .fp8E4m3 ∨ to_ = .fp8E4m3) ≠ scaleId.isSome)
        (.semantics "transform dtype-cast scale-id presence must match fp8e4m3 endpoints")
  | .ropePermute _ headDim =>
    rejectIf (headDim < 2 ∨ maxRopeHeadDim < headDim ∨ headDim % 2 ≠ 0)
      (.bounds "transform rope-permute head dim is outside the v1 bounds")

/-! ## Canonical bytes -/

def encodePermutation (tag : UInt16) (order : List UInt32) : Bytes :=
  le16 tag ++ le16 (UInt16.ofNat order.length) ++ order.flatMap le32

def decodePermutation : Decoder (List UInt32) := do
  let width ← Decoder.u16
  Parser.times width.toNat Decoder.u32

def encodeScaleId : Option Id32 → Bytes
  | some id => [1] ++ id.val
  | none => [0] ++ zeroId.val

def decodeScaleId (present : UInt8) (id : Id32) : Except PackError (Option Id32) :=
  if present = 0 ∧ id = zeroId then .ok none
  else if present = 1 then .ok (some id)
  else .error (.semantics "transform dtype-cast scale-id marker is outside the v1 bounds")

def RepackOp.encode : RepackOp → Bytes
  | .permuteHeadPairs order => encodePermutation 1 order
  | .reorderPlanes order => encodePermutation 2 order
  | .regroupLayers order => encodePermutation 3 order
  | .padOrTrim targetBytes => le16 4 ++ le64 targetBytes
  | .dtypeCast from_ to_ scaleId => le16 5 ++ le16 from_.wire ++ le16 to_.wire ++ encodeScaleId scaleId
  | .ropePermute direction headDim => le16 6 ++ le16 direction.wire ++ le32 headDim

def RepackOp.decode : Decoder RepackOp := do
  let tag ← Decoder.u16
  match tag with
  | 1 => return .permuteHeadPairs (← decodePermutation)
  | 2 => return .reorderPlanes (← decodePermutation)
  | 3 => return .regroupLayers (← decodePermutation)
  | 4 => return .padOrTrim (← Decoder.u64)
  | 5 =>
    let from_ ← Parser.check (CastDType.fromWire (← Decoder.u16))
    let to_ ← Parser.check (CastDType.fromWire (← Decoder.u16))
    let present ← Decoder.u8
    let id ← Decoder.id
    let scaleId ← Parser.check (decodeScaleId present id)
    return .dtypeCast from_ to_ scaleId
  | 6 =>
    let direction ← Parser.check (RopeDirection.fromWire (← Decoder.u16))
    return .ropePermute direction (← Decoder.u32)
  | other => Parser.check (.error (.unknownEnum "transform op" other.toUInt64))

/-! ## Descriptors -/

structure TransformDescriptor where
  schemaVersion : UInt32
  name : String
  sourceLayout : String
  ops : List RepackOp
  deriving Repr, DecidableEq

namespace TransformDescriptor

def validate (d : TransformDescriptor) : Except PackError Unit := do
  rejectIf (d.schemaVersion ≠ transformVersion.toUInt32)
    (.badMagic "transform descriptor schema version is outside the v1 bounds")
  validateLabel d.name "transform name is outside the v1 bounds"
  validateLabel d.sourceLayout "transform source layout is outside the v1 bounds"
  rejectIf (maxTransformOps < d.ops.length) (.bounds "transform op count is outside the v1 bounds")
  checkAll RepackOp.validate d.ops

def encode (d : TransformDescriptor) : Except PackError Bytes := do
  d.validate
  let name ← encodeString d.name
  let sourceLayout ← encodeString d.sourceLayout
  return transformMagic ++ le16 transformVersion ++ name ++ sourceLayout ++ le16 (UInt16.ofNat d.ops.length) ++
    d.ops.flatMap RepackOp.encode

def decodeBody : Decoder TransformDescriptor := do
  Decoder.new transformMagic
  Decoder.expect16 transformVersion (.badMagic "invalid transform descriptor version")
  let name ← Decoder.string
  let sourceLayout ← Decoder.string
  let count ← Decoder.u16
  let ops ← Parser.times count.toNat RepackOp.decode
  Decoder.finish
  return ⟨transformVersion.toUInt32, name, sourceLayout, ops⟩

def decode (bytes : Bytes) : Except PackError TransformDescriptor := do
  let (d, _) ← decodeBody.run bytes
  d.validate
  return d

def transformId (C : Crypto) (d : TransformDescriptor) : Except PackError Id32 := do
  let bytes ← d.encode
  return C.sha256 bytes

end TransformDescriptor

end Kvpack.Core
