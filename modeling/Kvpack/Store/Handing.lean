import Kvpack.Store.Lemmas.Files

/-!
# Chunks handed to uploads

The store with the references that its active uploads have been given, by a put or by a deduplication lookup. An
upload that ends gives all of them back.
-/

namespace Kvpack.Store

open Base Kvpack.Core

structure Handing where
  store : State
  /-- An upload, and the object it has been given a reference to. -/
  holds : List (Id32 × Id32)

def Handing.initial : Handing := ⟨State.initial, []⟩

def Catalog.uploadActive (c : Catalog) (key : Id32) : Bool := (c.uploads.get? key).any fun upload => upload.state.active

/-- The references of active uploads. -/
def Handing.settle (h : Handing) : Handing :=
  { h with holds := h.holds.filter fun hold => h.store.catalog.uploadActive hold.1 }

def Handing.hand (h : Handing) (key : Id32) (objects : List Id32) : Handing :=
  Handing.settle { h with holds := (objects.map fun objectKey => (key, objectKey)) ++ h.holds }

def Handing.held (h : Handing) (objectKey : Id32) : Bool := h.holds.any fun hold => hold.2 = objectKey

inductive HandingEvent where
  /-- A step of the store that hands nothing out. -/
  | store (e : Event)
  /-- A lookup of the content for an upload. -/
  | deduplicate (key chunkId : Id32) (keyEpoch : UInt64)
  /-- The transaction of a put for an upload. -/
  | put (key : Id32) (put : Put)
  deriving DecidableEq

def Put.answers (put : Put) (c : Catalog) : List Id32 :=
  match catalogChunks (put.items.map (·.object)) put.keyEpoch put.ledger c with
  | .ok (_, cataloged) => cataloged.map (·.reference.objectKey)
  | .error _ => []

def Handing.step (C : Crypto) (config : StoreConfig) (h : Handing) : HandingEvent → Handing
  | .store e => Handing.settle { h with store := Store.step C config h.store e }
  | .deduplicate key chunkId keyEpoch =>
    match findChunk h.store.catalog chunkId keyEpoch with
    | some reference => h.hand key [reference.objectKey]
    | none => h
  | .put key put =>
    match exec C config h.store (.catalogPut put) with
    | .ok s' => { h with store := s' }.hand key (put.answers h.store.catalog)
    | .error _ => h

/-- Whether every row that has the content of an object of the put is available. -/
def Put.servable (put : Put) (c : Catalog) : Bool :=
  put.items.all fun item => !c.chunks.any fun _ row =>
    decide (row.chunkId = item.object.chunkId ∧ row.keyEpoch = put.keyEpoch ∧ row.locationState ≠ .available)

/-- The condition on a step: files and rows stay together, a put for an active upload finds only available rows, and
neither a demotion nor a withdrawal takes an object that an active upload holds. -/
def handingStep (h : Handing) : HandingEvent → Bool
  | .deduplicate _ _ _ => true
  | .put key put => fileStep h.store (.catalogPut put) &&
      (!h.store.catalog.uploadActive key || put.servable h.store.catalog)
  | .store (.demoteVictims victims) => fileStep h.store (.demoteVictims victims) &&
      victims.all fun victim => decide (victim.rung = .restQuantized → h.held victim.objectKey = false)
  | .store (.cleanupPromotion key objectKey) => fileStep h.store (.cleanupPromotion key objectKey) &&
      !(h.store.catalog.exclusive key objectKey && h.held objectKey)
  | .store e => fileStep h.store e

end Kvpack.Store
