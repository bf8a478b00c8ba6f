import Kvpack.Store.Lemmas.Audit
import Kvpack.Store.Theorems.Ledgers

/-!
# Completeness of the audit trail

A record is filed under the kind of its transition, its object and a generation. The generation of an upload does not
change when it is reserved again, and a collection is always filed under zero, so an object that makes a transition
again while the first record is in the outbox gets no second one.
-/

namespace Kvpack.Store

open Base Kvpack.Core

variable {C : Crypto} {config : StoreConfig} {s s' : State} {e : Event}

theorem exec_complete_iff (h : exec C config s e = .ok s') :
    AuditComplete s.catalog s'.catalog ↔ auditStep config s e = true := by
  obtain ⟨hsilent, hrecorded⟩ | ⟨hsilent, hmissed⟩ := exec_audit h
  · simp [auditStep, hsilent, hrecorded.complete_iff]
  · simp [auditStep, hsilent, hmissed.not_complete]

/-- A key is reserved and given up. -/
def givenUp : List Event :=
  [.transact (.reserve (repeatedId 20) byteReservation), .transact (.abort (repeatedId 20))]

end Kvpack.Store
