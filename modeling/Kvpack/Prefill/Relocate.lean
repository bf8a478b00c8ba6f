import Kvpack.Prefill.Layout

/-!
# Relocating a session

A session moved by `delta` positions has the keys of its rotating classes rotated in place, plane after plane; every
other plane is left as it is. The numeric rotation of one pair is a parameter.
-/

namespace Kvpack.Prefill

open Base Kvpack.Core

abbrev PositionDelta := Int

/-- The planes of a session by layer and state name. -/
abbrev Planes := StateKey → Option Bytes

inductive RelocateAction where
  | memcpyNoOp
  | deltaRotated
  | identityDelta
  deriving DecidableEq

inductive PairingConvention where
  | splitHalf
  | adjacent

/-- The two elements of a vector that pair `pairIndex` couples. -/
def PairingConvention.offsets : PairingConvention → Nat → Nat → Nat × Nat
  | .splitHalf, pairIndex, half => (pairIndex, pairIndex + half)
  | .adjacent, pairIndex, _ => (2 * pairIndex, 2 * pairIndex + 1)

/-- The two little-endian bytes of a half-precision element. -/
abbrev Element := UInt8 × UInt8

/-- What a pair of elements becomes, for a frequency base, rotary width, shift and pair index. -/
abbrev PairRotation := UInt64 → Nat → PositionDelta → Nat → Element → Element → Element × Element

def readElement (bytes : Bytes) (offset : Nat) : Element := (bytes.getD offset 0, bytes.getD (offset + 1) 0)

def writeElement (bytes : Bytes) (offset : Nat) (value : Element) : Bytes :=
  (bytes.set offset value.1).set (offset + 1) value.2

namespace LayoutClassView

variable (c : LayoutClassView)

def bytesPerToken : Nat := c.kvHeads.toNat * c.headDim.toNat * 2

def half : Nat := c.ropeDimensionCount.toNat / 2

def pairing : PairingConvention :=
  match c.ropeConvention with
  | .interleaved => .adjacent
  | _ => .splitHalf

def offset (token head element : Nat) : Nat :=
  token * c.bytesPerToken + head * c.headDim.toNat * 2 + element * 2

/-- `freq_base > 1.0` on the bits: positive doubles are ordered as their bits, and NaN lies above infinity. -/
def freqBaseAboveOne : Prop := 0x3FF0000000000000 < c.ropeFreqBaseBits ∧ c.ropeFreqBaseBits ≤ 0x7FF0000000000000

instance : Decidable c.freqBaseAboveOne := inferInstanceAs (Decidable (_ ∧ _))

/-- The checks before a rotation; the width of a token is computed with overflow checks. -/
def checkRotation (length : Nat) : Except StoreError Unit := do
  let rotary := c.ropeDimensionCount.toNat
  rejectIf (rotary = 0 ∨ rotary % 2 ≠ 0 ∨ c.headDim.toNat < rotary ∨ c.kvHeads.toNat = 0)
    (.expectation "relocate: invalid rotary width / kv_heads for delta-rotation")
  rejectIf (¬ c.freqBaseAboveOne)
    (.expectation ("relocate: delta-rotation requires freq_base > 1.0 (a NoPE class must " ++
      "dispatch through the RopeConvention::None no-op path, never here)"))
  rejectIf (18446744073709551616 ≤ c.bytesPerToken) .panicked
  rejectIf (c.bytesPerToken = 0 ∨ length % c.bytesPerToken ≠ 0)
    (.expectation "relocate: plane byte length is not a whole number of tokens for this class's geometry")

/-- One turn of the loops over tokens, heads and pairs. -/
def rotatePair (rotate : PairRotation) (delta : PositionDelta) (bytes : Bytes) (turn : Nat × Nat × Nat) : Bytes :=
  let (off0, off1) := c.pairing.offsets turn.2.2 c.half
  let lo := c.offset turn.1 turn.2.1 off0
  let hi := c.offset turn.1 turn.2.1 off1
  let y := rotate c.ropeFreqBaseBits c.ropeDimensionCount.toNat delta turn.2.2 (readElement bytes lo)
    (readElement bytes hi)
  writeElement (writeElement bytes lo y.1) hi y.2

def turns (length : Nat) : List (Nat × Nat × Nat) :=
  List.range (length / c.bytesPerToken) ×ˢ List.range c.kvHeads.toNat ×ˢ List.range c.half

def rotated (rotate : PairRotation) (delta : PositionDelta) (bytes : Bytes) : Bytes :=
  (c.turns bytes.length).foldl (c.rotatePair rotate delta) bytes

def rotateKInplace (rotate : PairRotation) (delta : PositionDelta) (bytes : Bytes) : Except StoreError Bytes := do
  c.checkRotation bytes.length
  return c.rotated rotate delta bytes

end LayoutClassView

def relocatePlaneBytes (rotate : PairRotation) (c : LayoutClassView) (stateName : String) (delta : PositionDelta)
    (bytes : Bytes) : Except StoreError (RelocateAction × Bytes) :=
  if c.ropeConvention = .none ∨ stateName ≠ "attn.k" then .ok (.memcpyNoOp, bytes)
  else if delta = 0 then .ok (.identityDelta, bytes)
  else do
    let bytes' ← c.rotateKInplace rotate delta bytes
    return (.deltaRotated, bytes')

structure SessionRelocateReport where
  memcpyPlanes : Nat
  rotatedPlanes : Nat
  identityDeltaPlanes : Nat
  nopeBytesIdentical : Bool
  deriving DecidableEq

/-- The report after one more plane; `changed` is about a class without positions. -/
def SessionRelocateReport.count (r : SessionRelocateReport) (action : RelocateAction) (changed : Bool) :
    SessionRelocateReport where
  memcpyPlanes := r.memcpyPlanes + if action = .memcpyNoOp then 1 else 0
  rotatedPlanes := r.rotatedPlanes + if action = .deltaRotated then 1 else 0
  identityDeltaPlanes := r.identityDeltaPlanes + if action = .identityDelta then 1 else 0
  nopeBytesIdentical := r.nopeBytesIdentical && !changed

abbrev Visit := LayoutClassView × StateKey

/-- The planes a layout names, by class, layer and state name. -/
def PortablePrefillLayoutV2.visits (layout : PortablePrefillLayoutV2) : List Visit :=
  layout.classes.flatMap fun c => c.layers.flatMap fun layer =>
    (classStateNames c.class_).map fun name => (c, ⟨layer, name⟩)

/-- The loops over the planes. A refused plane is not written; those before it stay rotated. -/
def relocateVisits (rotate : PairRotation) (delta : PositionDelta) :
    SessionRelocateReport → Planes → List Visit → Except StoreError SessionRelocateReport × Planes
  | report, planes, [] => (.ok report, planes)
  | report, planes, (c, key) :: rest =>
    match planes key with
    | none => (.error .notFound, planes)
    | some bytes =>
      match relocatePlaneBytes rotate c key.stateName delta bytes with
      | .error e => (.error e, planes)
      | .ok (action, bytes') =>
        relocateVisits rotate delta (report.count action (c.ropeConvention = .none ∧ bytes' ≠ bytes))
          (Function.update planes key (some bytes')) rest

def relocateSessionPlanes (rotate : PairRotation) (layout : PortablePrefillLayoutV2) (delta : PositionDelta)
    (planes : Planes) : Except StoreError SessionRelocateReport × Planes :=
  relocateVisits rotate delta ⟨0, 0, 0, true⟩ planes layout.visits

end Kvpack.Prefill
