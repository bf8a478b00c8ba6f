import Kvpack.Handoff.Validation

/-!
# The stream that a begin declares

The planes of a transfer in the order of their sequence numbers, with everything that a header must say about them:
the declaration read as a whole, of which the code looks at one position at a time.
-/

namespace Kvpack.Handoff

open Base

/-- What a begin says about one plane. -/
structure PlaneSpec where
  layer : UInt32
  role : TensorRoleV1
  rangeStart : UInt32
  rangeEnd : UInt32
  shape : UInt32 × UInt32 × UInt32
  bytes : Nat
  layoutClass : Option String
  /-- The ways in which a header may state the type of the elements. -/
  tags : List (Option String)
  deriving DecidableEq

/-- The header of a plane with a given digest, at a given place of the stream. -/
def PlaneSpec.header (p : PlaneSpec) (m : BeginManifestV1) (sequence : Nat) (digest : String) (tag : Option String) :
    LayerHeaderV1 where
  byteLength := UInt64.ofNat p.bytes
  layer := p.layer
  logicalTokenEnd := p.rangeEnd
  logicalTokenStart := p.rangeStart
  role := p.role
  schemaVersion := liveHandoffSchemaV1
  sequence := UInt32.ofNat sequence
  sha256 := digest
  shape := p.shape
  transferId := m.transferId
  dtype := tag
  layoutClass := p.layoutClass

namespace BeginManifestV1

variable (m : BeginManifestV1)

def planeV1 (layer : Nat) (role : TensorRoleV1) : PlaneSpec where
  layer := UInt32.ofNat layer
  role := role
  rangeStart := 0
  rangeEnd := m.cachedTokenCount
  shape := (m.cachedTokenCount, m.geometry.numKvHeads, m.geometry.headDim)
  bytes := m.cachedTokenCount.toNat * m.geometry.numKvHeads.toNat * m.geometry.headDim.toNat * 2
  layoutClass := none
  tags := [none]

/-- A plane of a class: the last tokens that its window lets through. -/
def planeOf (l : LayoutClassV2) (layer : UInt32) (role : TensorRoleV1) : PlaneSpec where
  layer := layer
  role := role
  rangeStart := m.cachedTokenCount - m.window l
  rangeEnd := m.cachedTokenCount
  shape := (m.window l, l.kvHeads, l.headDim)
  bytes := (m.window l).toNat * l.kvHeads.toNat * l.headDim.toNat * (m.planeElementBytesV2 role).toNat
  layoutClass := some l.class_
  tags := if m.expectedPlaneDtypeV2 l role = "float16" then [some "float16", none]
    else [some (m.expectedPlaneDtypeV2 l role)]

def planesV1 : List PlaneSpec :=
  (List.range m.geometry.numLayers.toNat).flatMap fun layer => [m.planeV1 layer .key, m.planeV1 layer .value]

def planesV2 : List PlaneSpec :=
  m.layoutWalkV2.map fun entry => m.planeOf (m.layoutTable.get entry.1) entry.2.1 entry.2.2

def planes : List PlaneSpec := if m.isV2 then m.planesV2 else m.planesV1

/-- A begin that describes one stream, and describes it without contradiction. -/
structure Consistent : Prop where
  frames : m.planes.length = m.expectedLayerFrames.toNat
  bytes : (m.planes.map (·.bytes)).sum = m.expectedPayloadBytes.toNat
  layer_lt : ∀ p ∈ m.planes, p.layer < m.geometry.numLayers
  /-- Without a table each layer has a key and a value. -/
  roles : m.isV2 = false → ∀ layer < m.geometry.numLayers,
    (m.planes.filter (·.layer = layer)).map (·.role) = [.key, .value]
  /-- With a table each layer is in one class, with one plane for each role of it. -/
  class_ : m.isV2 = true → ∀ layer < m.geometry.numLayers, ∃ i : Fin m.layoutTable.length,
    (∀ j, layer ∈ (m.layoutTable.get j).layers ↔ j = i) ∧ (m.layoutTable.get i).roles.Nodup ∧
      m.planes.filter (·.layer = layer) =
        (m.layoutTable.get i).roles.map (m.planeOf (m.layoutTable.get i) layer)
  /-- The header of a plane passes at the place of the plane and at no other. -/
  header : ∀ i p, m.planes[i]? = some p → ∀ digest, validSha256 digest = true → ∀ tag ∈ p.tags, ∀ position : UInt32,
    (p.header m i digest tag).validateFor m position = .ok () ↔ position.toNat = i
  schedule : List.Perm { m with schedule := some wireScheduleDecodePriority }.planes { m with schedule := none }.planes

end BeginManifestV1

end Kvpack.Handoff
