import Kvpack.Base.Run
import Kvpack.Store.Basic

/-!
# Restoring in parallel

The workers of `restore_operations_parallel` and the thread that owns the sink, as they interleave. A step is one
access to what they share: the cursor, the cancellation and the stop flag, the bounded channel and the pin rows. An
operation is named by its ordinal, and so is the pin that was taken for it up front.
-/

namespace Kvpack.Restore

open Base Kvpack.Core

abbrev Decoded := Except StoreError Bytes

inductive Worker where
  | idle
  | claimed (ordinal : Nat)
  | decoding (ordinal : Nat)
  | sending (ordinal : Nat) (result : Decoded)
  | returned

/-- The thread that owns the sink. -/
inductive Collector where
  | receiving
  | received (ordinal : Nat) (result : Decoded)
  /-- The message is dealt with, and the stop flag not written yet. -/
  | settling (pin : Option Nat)

structure ParallelRestore where
  next : Nat
  failed : Bool
  cancelled : Bool
  workers : List Worker
  channel : List (Nat × Decoded)
  collector : Collector
  pins : List Nat
  pendingError : Option StoreError
  /-- What the sink has taken. -/
  written : List (Nat × Bytes)
  /-- The pin rows deleted so far. -/
  released : List Nat

namespace ParallelRestore

def start (total parallelism : Nat) : ParallelRestore :=
  ⟨0, false, false, List.replicate (max (min parallelism total) 1) .idle, [], .receiving, [], none, [], []⟩

/-- The next access of a worker. `decoded` is what its decoding comes back with; the pin of a chunk that cannot be
decoded is dropped on the way. -/
def work (total parallelism : Nat) (s : ParallelRestore) (i : Nat) (decoded : Decoded) : ParallelRestore :=
  match s.workers[i]? with
  | some .idle =>
    let worker := if total ≤ s.next then .returned else .claimed s.next
    { s with next := s.next + 1, workers := s.workers.set i worker }
  | some (.claimed ordinal) =>
    if s.cancelled || s.failed then
      { s with released := s.released ++ [ordinal], workers := s.workers.set i .returned }
    else { s with workers := s.workers.set i (.decoding ordinal) }
  | some (.decoding ordinal) =>
    let released := if decoded.isOk then s.released else s.released ++ [ordinal]
    { s with released, workers := s.workers.set i (.sending ordinal decoded) }
  | some (.sending ordinal result) =>
    if s.channel.length < parallelism then
      let worker := if result.isOk then .idle else .returned
      { s with channel := s.channel ++ [(ordinal, result)], workers := s.workers.set i worker }
    else s
  | _ => s

/-- The next access of the collector. `write` is what a write to the sink comes back with. -/
def collect (s : ParallelRestore) (write : Except StoreError Unit) : ParallelRestore :=
  match s.collector with
  | .receiving =>
    match s.channel with
    | [] => s
    | (ordinal, result) :: channel => { s with channel, collector := .received ordinal result }
  | .received ordinal (.ok plaintext) =>
    let s := { s with collector := .settling (some ordinal) }
    if s.pendingError.isSome then s
    else if s.cancelled then { s with pendingError := some .cancelled }
    else
      match write with
      | .ok _ => { s with written := s.written ++ [(ordinal, plaintext)] }
      | .error error => { s with pendingError := some error }
  | .received _ (.error error) =>
    { s with collector := .settling none, pendingError := s.pendingError.or (some error) }
  | .settling pin =>
    { s with collector := .receiving, failed := s.failed || s.pendingError.isSome, pins := s.pins ++ pin.toList }

inductive Event where
  | cancel
  | work (i : Nat) (decoded : Decoded)
  | collect (write : Except StoreError Unit)

def step (total parallelism : Nat) (s : ParallelRestore) : Event → ParallelRestore
  | .cancel => { s with cancelled := true }
  | .work i decoded => s.work total parallelism i decoded
  | .collect write => s.collect write

/-- The scope has been left: every sender is gone and the channel is drained. -/
def Finished (s : ParallelRestore) : Prop :=
  (∀ worker ∈ s.workers, worker = .returned) ∧ s.channel = [] ∧ s.collector = .receiving

def maxReleasedPins : Nat := 1000000

/-- The rows that a release in one transaction deletes. A list over the bound is refused, and the refusal is lost. -/
def releaseRestorePinBatch (pins : List Nat) : List Nat := if maxReleasedPins < pins.length then [] else pins

/-- What the function returns, with the pin rows it has released by then. -/
def result (total : Nat) (s : ParallelRestore) : Except StoreError (List Nat) × List Nat :=
  let claimed := min s.next total
  match s.pendingError with
  | some error => (.error error, s.released ++ releaseRestorePinBatch (s.pins ++ (List.range total).drop claimed))
  | none => (.ok (s.pins.insertionSort (· ≤ ·)), s.released)

end ParallelRestore

end Kvpack.Restore
