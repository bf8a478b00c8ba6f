import Kvpack.Store.Lemmas.Steps

/-!
# The reservation ledger

The reserved bytes of a tenant are those of its active uploads, and with the durable bytes they stay below the quotas:
a reservation is only admitted below them, and publication never charges more than it releases.
-/

namespace Kvpack.Store

open Base Kvpack.Core

variable {C : Crypto} {config : StoreConfig} {c c' : Catalog} {es : List Event}

def Upload.held (upload : Upload) : Nat := if upload.state.active then upload.reservedBytes else 0

def Catalog.heldBytes (c : Catalog) : Nat := c.uploads.sum fun _ upload => upload.held

theorem Upload.held_of_active {upload : Upload} (h : upload.state.active) : upload.held = upload.reservedBytes :=
  if_pos h

theorem Upload.held_of_ended {upload : Upload} (h : upload.state.active = false) : upload.held = 0 := by
  rw [held, h]
  rfl

theorem Upload.Keeps.held {upload upload' : Upload} (h : upload.Keeps upload') : upload'.held = upload.held := by
  rw [Upload.held, Upload.held, h.active, h.reservedBytes]

structure ReservationsExact (config : StoreConfig) (c : Catalog) : Prop where
  ledger : c.reservedBytes = c.heldBytes
  staging : c.reservedBytes ≤ config.stagingQuotaBytes
  quota : c.durableBytes + c.reservedBytes ≤ config.quotaBytes

/-- The bytes of an active upload are part of the ledger, so releasing them is exact. -/
theorem ReservationsExact.reserved_le (h : ReservationsExact config c) {key : Id32} {upload : Upload}
    (hget : c.uploads.get? key = some upload) (hactive : upload.state.active) :
    upload.reservedBytes ≤ c.reservedBytes := by
  rw [h.ledger, ← Upload.held_of_active hactive]
  exact Table.le_sum (w := fun _ upload => upload.held) hget

theorem UploadStep.reservationsExact (h : UploadStep config c c') (hc : ReservationsExact config c) :
    ReservationsExact config c' := by
  have hstaging := hc.staging
  have hquota := hc.quota
  have hledger := hc.ledger
  unfold Catalog.heldBytes at hledger
  cases h with
  | same huploads hreserved hdurable =>
    refine ⟨?_, by omega, by omega⟩
    rw [hreserved, hledger, Catalog.heldBytes, huploads]
  | kept key upload upload' hget hkeeps huploads hreserved hdurable =>
    refine ⟨?_, by omega, by omega⟩
    have hsum := Table.sum_put_of_some (v := upload') (w := fun _ upload => upload.held) hget
    rw [hkeeps.held] at hsum
    rw [hreserved, hledger, Catalog.heldBytes, huploads]
    omega
  | reserved key upload hget hkey hgeneration hstate huploads hreserved hdurable hstaging' hquota' =>
    refine ⟨?_, hstaging', hquota'⟩
    have hactive : upload.state.active := by rw [hstate]; rfl
    rw [hreserved, hledger, Catalog.heldBytes, huploads, ← Upload.held_of_active hactive]
    cases hold : c.uploads.get? key with
    | none =>
      rw [Table.sum_put_of_none hold]
      exact Nat.add_comm _ _
    | some old =>
      have hended : old.state.active = false := by rw [hget old hold]; rfl
      have hsum := Table.sum_put_of_some (v := upload) (w := fun _ upload => upload.held) hold
      rw [Upload.held_of_ended hended] at hsum
      omega
  | released key upload upload' hget hactive hended huploads hgeneration hreserved hdurable =>
    have hle := hc.reserved_le hget hactive
    refine ⟨?_, by omega, by omega⟩
    have hsum := Table.sum_put_of_some (v := upload') (w := fun _ upload => upload.held) hget
    rw [Upload.held_of_active hactive, Upload.held_of_ended hended] at hsum
    rw [hreserved, hledger, Catalog.heldBytes, huploads]
    omega

theorem reservationsExact_initial : ReservationsExact config Catalog.initial :=
  ⟨rfl, Nat.zero_le _, Nat.zero_le _⟩

theorem run_reservationsExact : ReservationsExact config (run (step C config) State.initial es).catalog :=
  run_catalog_invariant (Q := fun _ => True) (fun _ _ _ _ h _ => h.uploadStep.reservationsExact) (fun _ _ => trivial)
    reservationsExact_initial

end Kvpack.Store
