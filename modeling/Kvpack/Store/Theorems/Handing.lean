import Kvpack.Store.Lemmas.Handing
import Kvpack.Store.Theorems.Ledgers

/-!
# Chunks that active uploads hold

What a put or a deduplication lookup promises to the upload it answers. Only the ledger of a provisional session or of
an import records which objects an upload uses; what other uploads were given a withdrawal cannot see.
-/

namespace Kvpack.Store

open Base Kvpack.Core

variable {C : Crypto} {config : StoreConfig} {es : List HandingEvent}

/-- An object referred to by an active upload is available and has its file, as long as every step met the condition.
-/
theorem handed_chunk_available
    (hsteps : Along (Handing.step C config) (fun h e => handingStep h e = true) .initial es) :
    let h := run (Handing.step C config) .initial es
    ∀ key objectKey, (key, objectKey) ∈ h.holds →
      (h.store.catalog.chunks.get? objectKey).map (·.locationState) = some .available ∧
        objectKey ∈ h.store.files := by
  intro h key objectKey hmem
  have hsound : HandingSound h := run_handingSound hsteps
  have havailable := hsound.available _ hmem
  obtain ⟨row, hrow, hstate⟩ := isAvailable_iff.mp havailable
  exact ⟨by rw [hrow, Option.map_some, hstate], hsound.files.served _ havailable⟩

/-- One upload writes an object, and another one finds it by its content. -/
def sharedObject : List HandingEvent :=
  [.store (.transact (.reserve (repeatedId 20) byteReservation)),
    .store (.transact (.reserve (repeatedId 21) byteReservation)), .store (.beginPut 1 none),
    .store (.lookUp (putOf byteObject none) byteObject),
    .store (.inspectTarget (putOf byteObject (some .inspect)) 0),
    .store (.linkTarget (putOf byteObject (some .link)) 0),
    .put (repeatedId 20) (putOf byteObject (some (.done true))), .deduplicate (repeatedId 21) (repeatedId 4) 1]

set_option maxRecDepth 20000 in
theorem sharedObject_available :
    let h := run (Handing.step checksumCrypto byteConfig) .initial sharedObject
    Along (Handing.step checksumCrypto byteConfig) (fun h e => handingStep h e = true) .initial sharedObject ∧
      (repeatedId 21, repeatedId 5) ∈ h.holds ∧ repeatedId 5 ∈ h.store.files := by
  have hsteps : Along (Handing.step checksumCrypto byteConfig) (fun h e => handingStep h e = true) .initial
      sharedObject := by decide +kernel
  have hmem : (repeatedId 21, repeatedId 5) ∈
      (run (Handing.step checksumCrypto byteConfig) .initial sharedObject).holds := by decide +kernel
  exact ⟨hsteps, hmem, (handed_chunk_available hsteps _ _ hmem).2⟩

set_option maxRecDepth 20000 in
/-- The first upload fails and withdraws the object of the second. -/
theorem withdrawal_takes_held_object :
    let h := run (Handing.step checksumCrypto byteConfig) .initial
      (sharedObject ++ [.store (.cleanupPromotion (repeatedId 20) (repeatedId 5))])
    (repeatedId 21, repeatedId 5) ∈ h.holds ∧ h.store.catalog.uploadActive (repeatedId 21) = true ∧
      h.store.catalog.chunks.get? (repeatedId 5) = none ∧ repeatedId 5 ∉ h.store.files := by
  decide +kernel

end Kvpack.Store
