import Kvpack.Handoff.Batch
import Kvpack.Handoff.Coordinator

/-!
# A coordinator, its caller and the pool

A permit belongs to the caller, to the key that waits for its value, or to the report of a layer. It cannot be copied,
and it goes back to the pool when nobody owns it any more.
-/

namespace Kvpack.Handoff

open Base Kvpack.Core

structure Session (m : BeginManifestV1) where
  pool : LayerPermitPoolV1
  /-- The number of permits that have been given out. -/
  issued : Nat
  coordinator : Option (StreamingCoordinatorV1 m)
  /-- The permits that the caller has and has not passed on. -/
  held : List LayerPermitV1
  /-- The reports that have not been dropped. -/
  events : List LayerReadyV1
  /-- All reports, in the order in which they were made. -/
  log : List LayerReadyV1
  /-- The planes that the verifier has accepted. -/
  planes : List VerifiedPlaneV1

inductive SessionCall where
  | acquire
  | release (permit : LayerPermitV1)
  | call (c : StreamingCoordinatorV1.Call)
  | dropCoordinator
  | dropEvent (i : Nat)
  /-- A report is taken apart, and its permit goes to the caller. -/
  | intoParts (i : Nat)

namespace Session

variable {m : BeginManifestV1} (C : Crypto)

def start (pool : LayerPermitPoolV1) (s : StreamingCoordinatorV1 m) : Session m :=
  { pool := pool, issued := 0, coordinator := some s, held := [], events := [], log := [], planes := [] }

def pending (w : Session m) : Option PendingKey := w.coordinator.bind (·.pendingKey)

def owned (w : Session m) : List LayerPermitV1 :=
  w.held ++ (w.pending.toList.map (·.permit) ++ w.events.map (·.permit))

def passed : StreamingCoordinatorV1.Call → Option LayerPermitV1
  | .ingestPlane _ _ permit _ => permit
  | _ => none

def reported (r : EStateM.Result HandoffError (StreamingCoordinatorV1 m) (Option LayerReadyV1)) : List LayerReadyV1 :=
  match r with
  | .ok event _ => event.toList
  | .error _ _ => []

def called (w : Session m) (s : StreamingCoordinatorV1 m) (c : StreamingCoordinatorV1.Call) : Session m :=
  let r := StreamingCoordinatorV1.perform C c s
  { w with
    coordinator := some (finalState r)
    held := w.held.diff (passed c).toList
    events := w.events ++ reported r
    log := w.log ++ reported r
    planes := BundleStager.recordPlane s.stager (finalState r).stager c.plane w.planes }

/-- A call on the coordinator, with a permit only if the caller has it. -/
def onCoordinator (w : Session m) (c : StreamingCoordinatorV1.Call) : Session m :=
  match w.coordinator with
  | none => w
  | some s => if ∀ permit ∈ passed c, permit ∈ w.held then w.called C s c else w

/-- A call, before the permits that have lost their owner are given back. -/
def move (w : Session m) : SessionCall → Session m
  | .acquire =>
    match w.pool.tryAcquire with
    | some pool => { w with pool := pool, issued := w.issued + 1, held := w.held ++ [⟨w.issued⟩] }
    | none => w
  | .release permit => { w with held := w.held.erase permit }
  | .call c => w.onCoordinator C c
  | .dropCoordinator => { w with coordinator := none }
  | .dropEvent i => { w with events := w.events.eraseIdx i }
  | .intoParts i =>
    match w.events[i]? with
    | some event => { w with events := w.events.eraseIdx i, held := w.held ++ [event.permit] }
    | none => w

def step (w : Session m) (c : SessionCall) : Session m :=
  let after := w.move C c
  { after with pool := (w.owned.diff after.owned).foldl (fun pool _ => pool.release) after.pool }

/-- What is known of a session at any time. -/
structure Exact (w : Session m) : Prop where
  /-- No layer is reported twice. -/
  once : (w.log.map (·.pair.layer)).Nodup
  ordered : w.log.Pairwise fun e e' => e.pair.key.header.sequence < e'.pair.key.header.sequence
  /-- A report has all planes of its layer, and they have been verified. -/
  complete : ∀ e ∈ w.log, ∀ (i : Nat) (spec : PlaneSpec), m.planes[i]? = some spec → spec.layer = e.pair.layer →
    ∃ p ∈ e.pair.planes, w.planes[i]? = some p
  verified : ∀ (i : Nat) (p : VerifiedPlaneV1), w.planes[i]? = some p → PlaneRules C m i p
  /-- A seal is accepted only after the whole walk, in order. -/
  terminal : ∀ s manifest o, w.coordinator = some s →
    succeeded (StreamingCoordinatorV1.verifyAndPrepareSeal C manifest o s) = true → StreamRules C m w.planes manifest ∧
      w.planes.map (fun p => (p.header.layer, p.header.role)) = m.planes.map fun p => (p.layer, p.role)
  inUse : w.pool.inUse = w.owned.length
  bounded : w.pool.inUse ≤ w.pool.capacity

end Session

end Kvpack.Handoff
