import Kvpack.Base.Run
import Kvpack.Store.Basic

/-!
# Single-flight fills

The callers of `get_or_fill_cancellable` as they interleave. A step is what one caller does under one lock, or between
two locks where the order matters to the others. An entry lives as long as a caller holds it, so the weak reference of
the map can be upgraded while there is one.
-/

namespace Kvpack.Store

open Base Kvpack.Core

inductive FillState where
  | running
  | ready (bytes : List UInt8)
  | failed
  deriving DecidableEq

structure FillEntry where
  objectKey : Id32
  state : FillState

/-- What a fetch or a call comes back with; a fetch that panics counts as one that fails. -/
abbrev FillResult := Except StoreError (List UInt8)

/-- Where a caller is in the function; entries are named by their allocation. -/
inductive FillPhase where
  | idle
  /-- Elected; the guard is in place and the cancellation is not read yet. -/
  | leading (entry : Nat)
  /-- Found its cancellation set; the guard is about to be dropped. -/
  | stopping (entry : Nat)
  | fetching (entry : Nat)
  | fetched (entry : Nat) (result : FillResult)
  | waiting (entry : Nat)
  /-- The result is decided, and the reference to the entry not released yet. -/
  | settled (entry : Nat) (result : FillResult)
  | returned (result : FillResult)

/-- The entry that the caller keeps alive. -/
def FillPhase.holds : FillPhase → Option Nat
  | .idle | .returned _ => none
  | .leading entry | .stopping entry | .fetching entry | .fetched entry _ | .waiting entry | .settled entry _ =>
    some entry

/-- The entry whose state the caller will write. -/
def FillPhase.leads : FillPhase → Option Nat
  | .leading entry | .stopping entry | .fetching entry | .fetched entry _ => some entry
  | .idle | .waiting _ | .settled _ _ | .returned _ => none

structure SingleflightFill (n : Nat) where
  entries : Id32 → Option Nat
  heap : Nat → FillEntry
  next : Nat
  phase : Fin n → FillPhase
  cancelled : Fin n → Bool
  /-- Every fetch that has ended, with its key. -/
  fetches : List (Id32 × FillResult)

namespace SingleflightFill

variable {n : Nat}

def initial : SingleflightFill n where
  entries := fun _ => none
  heap := fun _ => ⟨zeroId, .failed⟩
  next := 0
  phase := fun _ => .idle
  cancelled := fun _ => false
  fetches := []

def upgrade (s : SingleflightFill n) (objectKey : Id32) : Option Nat :=
  (s.entries objectKey).filter fun entry => decide (∃ i, (s.phase i).holds = some entry)

def move (s : SingleflightFill n) (i : Fin n) (phase : FillPhase) : SingleflightFill n :=
  { s with phase := Function.update s.phase i phase }

def setState (s : SingleflightFill n) (entry : Nat) (state : FillState) : SingleflightFill n :=
  { s with heap := Function.update s.heap entry ⟨(s.heap entry).objectKey, state⟩ }

/-- A new entry for the key, led by caller `i`. -/
def elect (s : SingleflightFill n) (i : Fin n) (objectKey : Id32) : SingleflightFill n :=
  { s with
    entries := Function.update s.entries objectKey (some s.next)
    heap := Function.update s.heap s.next ⟨objectKey, .running⟩
    next := s.next + 1
    phase := Function.update s.phase i (.leading s.next) }

def record (s : SingleflightFill n) (objectKey : Id32) (result : FillResult) : SingleflightFill n :=
  { s with fetches := (objectKey, result) :: s.fetches }

end SingleflightFill

inductive FillEvent (n : Nat) where
  | cancel (i : Fin n)
  | enter (i : Fin n)
  | readCancellation (i : Fin n)
  | endFetch (i : Fin n) (result : FillResult)
  | publish (i : Fin n)
  | poll (i : Fin n)
  | leave (i : Fin n)

open SingleflightFill in
/-- One step of one caller; an event that the caller is not at changes nothing. -/
def fillStep {n : Nat} (objectKey : Fin n → Id32) (s : SingleflightFill n) : FillEvent n → SingleflightFill n
  | .cancel i => { s with cancelled := Function.update s.cancelled i true }
  | .enter i =>
    match s.phase i with
    | .idle =>
      match s.upgrade (objectKey i) with
      | some entry => s.move i (.waiting entry)
      | none => s.elect i (objectKey i)
    | _ => s
  | .readCancellation i =>
    match s.phase i with
    | .leading entry => if s.cancelled i then s.move i (.stopping entry) else s.move i (.fetching entry)
    | _ => s
  | .endFetch i result =>
    match s.phase i with
    | .fetching entry => (s.record (objectKey i) result).move i (.fetched entry result)
    | _ => s
  | .publish i =>
    match s.phase i with
    | .fetched entry (.ok bytes) => (s.setState entry (.ready bytes)).move i (.settled entry (.ok bytes))
    | .fetched entry (.error error) => (s.setState entry .failed).move i (.settled entry (.error error))
    -- the guard of a leader that did not complete
    | .stopping entry => (s.setState entry .failed).move i (.settled entry (.error .cancelled))
    | _ => s
  | .poll i =>
    match s.phase i with
    | .waiting entry =>
      match (s.heap entry).state with
      | .running => if s.cancelled i then s.move i (.settled entry (.error .cancelled)) else s
      | .ready bytes => s.move i (.settled entry (.ok bytes))
      | .failed => s.move i (.settled entry (.error (.state "singleflight upstream fill failed")))
    | _ => s
  | .leave i =>
    match s.phase i with
    | .settled _ result => s.move i (.returned result)
    | _ => s

end Kvpack.Store
