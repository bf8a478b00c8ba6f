import Kvpack.Handoff.Bundle

/-!
# The streaming coordinator

The coordinator verifies and stages the planes in order and reports a layer once all its planes are there. A permit
taken for each layer before its first payload belongs to the report of the layer afterwards.
-/

namespace Kvpack.Handoff

open Base Kvpack.Core

/-! ## Permits -/

structure LayerPermitPoolV1 where
  capacity : Nat
  available : Nat
  inUse : Nat
  deriving DecidableEq

/-- The right to the memory of one layer. A permit cannot be copied, so each has a number. -/
structure LayerPermitV1 where
  id : Nat
  deriving DecidableEq

namespace LayerPermitPoolV1

def new (capacity : Nat) : Except HandoffError LayerPermitPoolV1 := do
  rejectIf (capacity = 0 ∨ 64 < capacity) (.validation "layer permit capacity must be in 1..=64")
  return ⟨capacity, capacity, 0⟩

def experimentV2 : LayerPermitPoolV1 := ⟨2, 2, 0⟩

variable (pool : LayerPermitPoolV1)

/-- The pool after a permit is taken, if one is free. The blocking form waits for this. -/
def tryAcquire : Option LayerPermitPoolV1 :=
  if pool.available = 0 then none
  else some { pool with available := pool.available - 1, inUse := pool.inUse + 1 }

def release : LayerPermitPoolV1 :=
  { pool with inUse := pool.inUse - 1, available := min (pool.available + 1) pool.capacity }

end LayerPermitPoolV1

/-! ## Layers -/

/-- The planes of one layer: a key and a value, or a single plane. -/
structure VerifiedLayerPairV1 where
  layer : UInt32
  key : VerifiedPlaneV1
  value : Option VerifiedPlaneV1
  deriving DecidableEq

namespace VerifiedLayerPairV1

def new (key value : VerifiedPlaneV1) : Except HandoffError VerifiedLayerPairV1 := do
  rejectIf (key.header.layer ≠ value.header.layer ∨ key.header.role ≠ .key ∨ value.header.role ≠ .value ∨
      value.header.sequence.toNat ≠ min (key.header.sequence.toNat + 1) (2 ^ 32 - 1))
    (.validation "verified layer pair is not one adjacent K-then-V pair")
  return ⟨key.header.layer, key, some value⟩

def newSingle (key : VerifiedPlaneV1) : Except HandoffError VerifiedLayerPairV1 := do
  rejectIf (key.header.role ≠ .key) (.validation "verified single-role layer is not a key-role plane")
  return ⟨key.header.layer, key, none⟩

def planes (pair : VerifiedLayerPairV1) : List VerifiedPlaneV1 := pair.key :: pair.value.toList

end VerifiedLayerPairV1

/-- A layer that is complete, with its permit. -/
structure LayerReadyV1 where
  pair : VerifiedLayerPairV1
  permit : LayerPermitV1
  deriving DecidableEq

structure PendingKey where
  plane : VerifiedPlaneV1
  permit : LayerPermitV1
  deriving DecidableEq

structure StreamingCoordinatorV1 (m : BeginManifestV1) where
  stager : BundleStager m
  pendingKey : Option PendingKey
  readyLayers : UInt32
  terminalPrepared : Bool

namespace StreamingCoordinatorV1

variable {m : BeginManifestV1} (C : Crypto)

abbrev Action (m : BeginManifestV1) (α : Type) := EStateM HandoffError (StreamingCoordinatorV1 m) α

def start (stager : BundleStager m) : StreamingCoordinatorV1 m where
  stager := stager
  pendingKey := none
  readyLayers := 0
  terminalPrepared := false

def create (m : BeginManifestV1) (limits : ValidationLimits) : Except HandoffError (StreamingCoordinatorV1 m) := do
  let stager ← BundleStager.create m limits
  return start stager

def onStager {α : Type} (x : BundleStager.Action m α) : Action m α :=
  onPart (·.stager) (fun stager s => { s with stager }) x

/-- The layer that the next report must be about. -/
def expectedReady (s : StreamingCoordinatorV1 m) (sequence : UInt32) : Except HandoffError UInt32 :=
  if m.isV2 then s.stager.verifier.expectedLayerAt sequence else .ok s.readyLayers

def checkReadyCursor (layer sequence : UInt32) : Action m Unit := do
  let s ← get
  let expectedLayer ← outcome (s.expectedReady sequence)
  outcome (rejectIf (layer ≠ expectedLayer)
    (.validation "layer-ready order does not match the strict stream cursor"))
  let readyLayers ← outcome (okOr (u32TryFrom (s.readyLayers.toNat + 1)) (.validation "layer-ready count overflow"))
  modify fun s => { s with readyLayers }

/-- A key needs a permit, a value must not bring one. -/
def checkPermit (header : LayerHeaderV1) (permit : Option LayerPermitV1) : Except HandoffError Unit :=
  match header.role, permit with
  | .key, none => .error (.validation "a K plane payload requires a pre-acquired layer permit")
  | .value, some _ => .error (.validation "a V plane cannot acquire a second layer permit")
  | _, _ => .ok ()

/-- What follows a staged key: a layer of its own, or the first half of one. -/
def completeKey (plane : VerifiedPlaneV1) (permit : LayerPermitV1) : Action m (Option LayerReadyV1) := do
  let s ← get
  if s.stager.verifier.isSingleRoleFrame plane.header.sequence then do
    let pair ← outcome (VerifiedLayerPairV1.newSingle plane)
    checkReadyCursor pair.layer pair.key.header.sequence
    return some ⟨pair, permit⟩
  else do
    outcome (rejectIf (s.pendingKey.isSome = true) (.validation "received another K plane before its V plane"))
    modify fun s => { s with pendingKey := some ⟨plane, permit⟩ }
    return none

/-- After a staged value the pending key is taken, whether or not it fits. -/
def completeValue (plane : VerifiedPlaneV1) : Action m (Option LayerReadyV1) := do
  let s ← get
  modify fun s => { s with pendingKey := none }
  let key ← outcome (okOr s.pendingKey (.validation "received V without a pending K plane"))
  let pair ← outcome (VerifiedLayerPairV1.new key.plane plane)
  checkReadyCursor pair.layer pair.key.header.sequence
  return some ⟨pair, key.permit⟩

/-- The rest of a staged plane, whose permit has been checked. -/
def complete (plane : VerifiedPlaneV1) (permit : Option LayerPermitV1) : Action m (Option LayerReadyV1) :=
  match plane.header.role, permit with
  | .key, some permit => completeKey plane permit
  | _, _ => completeValue plane

def ingestPlane (header : LayerHeaderV1) (payload : Bytes) (permit : Option LayerPermitV1) (writes : PlaneWrites) :
    Action m (Option LayerReadyV1) := do
  let s ← get
  outcome (rejectIf (s.terminalPrepared = true)
    (.validation "cannot ingest a plane after terminal seal preparation"))
  outcome (checkPermit header permit)
  let plane ← onStager (BundleStager.onVerifier (IncrementalVerifierV1.verifyPlane C header payload))
  onStager (BundleStager.stageSharedVerified plane writes)
  complete plane permit

def verifyAndPrepareSeal (manifest : SealManifestV1) (o : SealWrites) : Action m VerifiedSealV1 := do
  let s ← get
  outcome (rejectIf (s.pendingKey.isSome = true) (.validation "cannot seal with an incomplete K/V layer pair"))
  let verified ← onStager (BundleStager.sharedSeal C manifest o)
  modify fun s => { s with terminalPrepared := true }
  return verified

def publish (o : PublishOutcome) : Action m Unit := do
  let s ← get
  outcome (rejectIf (s.terminalPrepared = false) (.validation "cannot publish before terminal seal verification"))
  onStager (BundleStager.publish o)

def abort (o : RemoveOutcome) : Action m Unit := do
  modify fun s => { s with pendingKey := none }
  onStager (BundleStager.abort o)

/-! ## Calls -/

inductive Call where
  | ingestPlane (header : LayerHeaderV1) (payload : Bytes) (permit : Option LayerPermitV1) (writes : PlaneWrites)
  | verifyAndPrepareSeal (manifest : SealManifestV1) (o : SealWrites)
  | publish (o : PublishOutcome)
  | abort (o : RemoveOutcome)

def perform : Call → Action m (Option LayerReadyV1)
  | .ingestPlane header payload permit writes => ingestPlane C header payload permit writes
  | .verifyAndPrepareSeal manifest o => do
      let _ ← verifyAndPrepareSeal C manifest o
      return none
  | .publish o => do
      publish o
      return none
  | .abort o => do
      abort o
      return none

def Call.plane : Call → Option VerifiedPlaneV1
  | .ingestPlane header payload _ _ => some ⟨header, payload⟩
  | _ => none

/-- A coordinator with the planes that its verifier has accepted. -/
structure History (m : BeginManifestV1) where
  coordinator : StreamingCoordinatorV1 m
  planes : List VerifiedPlaneV1

def History.step (h : History m) (c : Call) : History m :=
  let after := finalState (perform C c h.coordinator)
  ⟨after, BundleStager.recordPlane h.coordinator.stager after.stager c.plane h.planes⟩

def History.onStager (h : History m) : BundleStager.History m := ⟨h.coordinator.stager, h.planes⟩

/-- What a call does to the stager, if it gets there. -/
def stagerCall (s : StreamingCoordinatorV1 m) : Call → Option BundleStager.Call
  | .ingestPlane header payload permit writes =>
    if s.terminalPrepared = false ∧ (checkPermit header permit).isOk then some (.ingest header payload writes)
    else none
  | .verifyAndPrepareSeal manifest o => if s.pendingKey = none then some (.sharedSeal manifest o) else none
  | .publish o => if s.terminalPrepared = true then some (.publish o) else none
  | .abort o => some (.abort o)

def LosesNothing (h : History m) (c : Call) : Prop :=
  ∀ c' ∈ h.coordinator.stagerCall c, BundleStager.LosesNothing C h.onStager c'

end StreamingCoordinatorV1

end Kvpack.Handoff
