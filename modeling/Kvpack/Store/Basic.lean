import Kvpack.Core.Manifest

/-!
# Errors of the store

The error type of the store and restore code, with the conversion from the errors of the pack format.
-/

namespace Kvpack

open Base Kvpack.Core

inductive StoreError where
  | pack (error : PackError)
  | io (op : String)
  | catalog (msg : String)
  | integrity (msg : String)
  | authentication (msg : String)
  | codec (msg : String)
  | poisoned (msg : String)
  | expectation (msg : String)
  | quota (msg : String)
  | endurance (msg : String)
  | state (msg : String)
  | notFound
  | busy
  | cancelled
  /-- A failed index or assertion, which stops the caller. -/
  | panicked
  deriving Repr, DecidableEq

def StoreError.ofPack : PackError → StoreError
  | .authentication msg => .authentication msg
  | .codec msg => .codec msg
  | .poisoned msg => .poisoned msg
  | other => .pack other

/-- The same computation with its errors converted. -/
def liftPack {α : Type} (x : Except PackError α) : Except StoreError α := x.mapError StoreError.ofPack

@[simp]
theorem liftPack_eq_ok {α : Type} {x : Except PackError α} {a : α} : liftPack x = .ok a ↔ x = .ok a := by
  cases x <;> simp [liftPack, Except.mapError]

end Kvpack
