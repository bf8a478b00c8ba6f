import Kvpack.Store.Lemmas.Opening
import Kvpack.Store.Theorems.Concurrency

/-!
# Opening the store after a crash

When the store opens on what a crash has left, and what has become of the uploads that were going on.
-/

namespace Kvpack.Store

open Base Kvpack.Core

variable {C : Crypto} {config : StoreConfig} {d d' : Disk} {supportsEpoch : UInt64 → Bool}

theorem Reachable.run {es : List WorkEvent} (h : Reachable C config supportsEpoch d) :
    Reachable C config supportsEpoch (run (fun d e => d.step C config e) d es) :=
  run_invariant (fun d e h => .step d e h) h

/-! ## The store opens -/

/-- The leftovers are within the bounds of recovery, and the outbox has room for them. -/
def Disk.withinBounds (d : Disk) : Prop :=
  d.uploadEntries.length ≤ reconcileBound ∧
    (∀ r ∈ d.directories.rows, r.2.length ≤ provisionalDirectoryEntryBound) ∧
    d.workNames.dedup.length ≤ quarantineMaintenanceBound ∧
    d.store.catalog.pendingAudit + d.store.catalog.leavingCount + d.directories.rows.length +
      d.workNames.dedup.length ≤ maxPendingAuditRecords

instance : Decidable d.withinBounds := inferInstanceAs (Decidable (_ ∧ _))

/-- The first steps of a provisional upload, which stages one chunk. -/
def provisionalEvents (key : Id32) : List WorkEvent :=
  [.store (.transact (.reserve key byteReservation)), .store (.transact (.markReceiving key)),
    .store (.transact (.adoptSession key 7)), .makeDirectory key, .stageChunk key 0,
    .store (.transact (.stageBatch key 7 0 [⟨repeatedId 5, repeatedId 6⟩]))]

/-- A crash stops a collection and a provisional upload, and leaves a partial file. -/
def byteCrash : Disk :=
  run (fun d e => d.step checksumCrypto byteConfig e) Disk.initial
    ((abandonedEvents (repeatedId 20) byteObject ++ [Event.selectVictims [repeatedId 5]]).map .store ++
      provisionalEvents (repeatedId 21) ++ [.writePartial (repeatedId 30) 100])

theorem byteCrash_reachable : Reachable checksumCrypto byteConfig (fun _ => true) byteCrash :=
  (Reachable.created (by decide)).run

/-- After an opening, only uploads of `imports` are active and hold a reservation, exactly when every other active
upload had a directory at the crash. Then only such an import can block collection. -/
theorem abandoned_uploads_end_iff {imports : Id32 → Bool} (h : Reachable C config supportsEpoch d)
    (hopen : openStore config supportsEpoch d = .ok d') :
    ((∀ key upload, d'.store.catalog.uploads.get? key = some upload → upload.state.active → imports key) ∧
        d'.store.catalog.reservedBytes = (d'.store.catalog.uploads.sum fun key upload =>
          if imports key ∧ upload.state.active then upload.reservedBytes else 0) ∧
        ((∀ key upload, d.store.catalog.uploads.get? key = some upload → imports key → upload.state.active = false) →
          d'.store.catalog.anyActive = false)) ↔
      ∀ key upload, d.store.catalog.uploads.get? key = some upload → upload.state.active → imports key = false →
        key ∈ d.directories.rows.map (·.1) := by
  have hopened : Opened C config d d' := openStore_eq_ok hopen
  have hexact : ReservationsExact config d'.store.catalog :=
    (Reachable.reopened d d' h hopen).catalog_invariant (fun _ _ _ _ hstep => hstep.uploadStep.reservationsExact)
      reservationsExact_initial
  -- an upload that is active afterwards had no directory, and its row has not changed
  have hkept : ∀ key upload, d'.store.catalog.uploads.get? key = some upload → upload.state.active →
      key ∉ d.directories.rows.map (·.1) ∧ d.store.catalog.uploads.get? key = some upload := by
    intro key upload hget hactive
    have hkey : key ∉ d.directories.rows.map (·.1) := by
      intro hkey
      obtain ⟨upload', hget', hstate⟩ := hopened.uploads.after key hkey
      rw [hget, Option.some.injEq] at hget'
      rw [hget', hstate] at hactive
      cases hactive
    exact ⟨hkey, by rw [← hopened.uploads.others key hkey, hget]⟩
  constructor
  · rintro ⟨hactive, -, -⟩ key upload hget hstate himport
    by_contra hkey
    have himport' := hactive key upload (by rw [hopened.uploads.others key hkey, hget]) hstate
    rw [himport] at himport'
    cases himport'
  · intro hdirectories
    have hactive : ∀ key upload, d'.store.catalog.uploads.get? key = some upload → upload.state.active →
        imports key := by
      intro key upload hget hstate
      obtain ⟨hkey, hbefore⟩ := hkept key upload hget hstate
      by_contra himport
      exact hkey (hdirectories key upload hbefore hstate (Bool.not_eq_true _ ▸ himport))
    refine ⟨hactive, ?_, fun hnone => ?_⟩
    · rw [hexact.ledger]
      refine Table.sum_congr fun key upload hget => ?_
      by_cases hstate : upload.state.active
      · rw [Upload.held_of_active hstate, if_pos ⟨hactive key upload hget hstate, hstate⟩]
      · rw [Upload.held_of_ended (Bool.not_eq_true _ ▸ hstate), if_neg fun h => hstate h.2]
    · refine Table.any_eq_false.mpr fun key upload hget => ?_
      by_contra hstate
      rw [Bool.not_eq_false] at hstate
      have hended := hnone key upload (hkept key upload hget hstate).2 (hactive key upload hget hstate)
      rw [hstate] at hended
      cases hended

set_option maxRecDepth 20000 in
theorem byteCrash_uploads_end :
    ∃ d', openStore byteConfig (fun _ => true) byteCrash = .ok d' ∧ byteCrash.store.catalog.reservedBytes = 65536 ∧
      d'.store.catalog.reservedBytes = 0 ∧ d'.store.catalog.anyActive = false := by
  have hok : (openStore byteConfig (fun _ => true) byteCrash).isOk := by decide +kernel
  have hbefore : byteCrash.store.catalog.reservedBytes = 65536 := by decide +kernel
  have hactive : byteCrash.store.catalog.uploads.rows.all fun r =>
      !r.2.state.active || decide (r.1 ∈ byteCrash.directories.rows.map (·.1)) := by decide +kernel
  obtain ⟨d', hopen⟩ := exists_ok_of_isOk hok
  have hdirectories : ∀ key upload, byteCrash.store.catalog.uploads.get? key = some upload → upload.state.active →
      (fun _ => false) key = false → key ∈ byteCrash.directories.rows.map (·.1) := by
    intro key upload hget hstate _
    have hrow := List.all_eq_true.mp hactive (key, upload) (Table.get?_eq_some_iff.mp hget)
    simpa [hstate] using hrow
  obtain ⟨-, hreserved, hcollect⟩ :=
    (abandoned_uploads_end_iff byteCrash_reachable hopen).mpr hdirectories
  refine ⟨d', hopen, hbefore, ?_, hcollect fun _ _ _ himport => by cases himport⟩
  rw [hreserved]
  exact Table.sum_eq_zero fun _ _ _ => by simp

set_option maxRecDepth 20000 in
/-- An artifact writer has no directory: its upload stays active after a crash. -/
theorem artifact_upload_survives_opening :
    let d := run (fun d e => d.step checksumCrypto byteConfig e) Disk.initial
      [.store (.transact (.reserve (repeatedId 20) byteReservation)),
        .store (.transact (.markReceiving (repeatedId 20)))]
    Reachable checksumCrypto byteConfig (fun _ => true) d ∧
      ∃ d', openStore byteConfig (fun _ => true) d = .ok d' ∧ d'.stagedManifests = [] ∧
        (d'.store.catalog.uploads.get? (repeatedId 20)).map (·.state) = some .receiving ∧
        d'.store.catalog.reservedBytes = 65536 ∧ d'.store.catalog.anyActive := by
  intro d
  have hok : (openStore byteConfig (fun _ => true) d).isOk := by decide
  have hend : (openStore byteConfig (fun _ => true) d).toOption.all fun d' =>
      d'.stagedManifests = [] ∧ (d'.store.catalog.uploads.get? (repeatedId 20)).map (·.state) = some .receiving ∧
        d'.store.catalog.reservedBytes = 65536 ∧ d'.store.catalog.anyActive := by decide
  obtain ⟨d', hopen⟩ := exists_ok_of_isOk hok
  rw [hopen] at hend
  exact ⟨(Reachable.created (by decide)).run, d', hopen, of_decide_eq_true hend⟩

end Kvpack.Store
