import Kvpack.Store.Lemmas.Sessions
import Kvpack.Store.Theorems.Ledgers

/-!
# Sessions that end without a commit

The reservation of a session is given back by an abort, which needs room in the outbox for its own record. The begin
of a writer or an export session does not try it when the upload cannot start receiving.
-/

namespace Kvpack.Store

open Base Kvpack.Core

/-- A session on a new key that fails, is dropped or is cancelled has ended its upload exactly when every later step
found what it needs, and the reserved bytes are then at most those of before. They are those of before, and the
reservation is released, in every run in which no other upload had expired when the begin looked for expired ones. -/
theorem session_releases_iff (env : Surroundings) (config : StoreConfig) (kind : SessionKind) (key : Id32)
    (reservation : UploadReservation) (work : List SessionWork) (c : Catalog) (hnew : c.uploads.get? key = none) :
    let s := finalState (kind.run env config key reservation work (.start c))
    let room := kind.room env config key reservation work (.start c)
    (Inactive key s.catalog ↔ room = true) ∧ (room = true → s.catalog.reservedBytes ≤ c.reservedBytes) ∧
      (NoneExpired env c → (ReservationReleased key c s ↔ room = true)) := by
  intro s room
  have hlooking : Looking env key c 0 (.start c) := ⟨.start hnew, fun _ => le_refl 0⟩
  have hdecides : Decides env key c room s := by
    cases kind with
    | artifact =>
      simp only [s, room, SessionKind.run, SessionKind.room, ArtifactWriter.begin, bind_assoc]
      exact hlooking.writes config reservation work .dropped (by simp [UploadExit.run])
    | exportCuts exit =>
      simp only [s, room, SessionKind.run, SessionKind.room, ExportSession.begin, bind_assoc]
      exact hlooking.writes config reservation work exit (by simp)
    | provisional exit => exact hlooking.provisional config reservation work exit
  refine ⟨hdecides.1, fun hroom => (hdecides.2 hroom).1, fun hnone => ?_⟩
  exact ⟨fun h => hdecides.1.mp h.1, fun hroom => ⟨hdecides.1.mpr hroom, (hdecides.2 hroom).2 hnone⟩⟩

/-- Nothing happens between the steps of a session. -/
def quietSurroundings : Surroundings where
  between _ c := c
  uploads_between _ _ := rfl
  reservedBytes_between _ _ := rfl
  now _ := 1
  now_ne_zero _ := one_ne_zero
  pruneQuarantine := .ok (false, true)
  listDirectories _ := .ok ()
  admissionDecision := .ok .admitted
  flushAccessEpochs := .ok ()
  belowWatermark _ _ := true
  evictionTarget capacity := capacity * 3 / 4
  evict := .ok (true, false)
  replay := .ok ()
  sessionToken := .ok 7
  createDirectory := .ok ()
  finishDirectory _ := .ok ()

set_option maxRecDepth 20000 in
theorem cancelledExport_released :
    Catalog.initial.uploads.get? (repeatedId 20) = none ∧ NoneExpired quietSurroundings Catalog.initial ∧
      ReservationReleased (repeatedId 20) Catalog.initial (finalState ((SessionKind.exportCuts .cancelled).run
        quietSurroundings byteConfig (repeatedId 20) byteReservation [.put [byteObject] 1] (.start Catalog.initial))) :=
  ⟨rfl, fun _ _ => rfl, ((session_releases_iff quietSurroundings byteConfig (.exportCuts .cancelled) (repeatedId 20)
    byteReservation [.put [byteObject] 1] Catalog.initial rfl).2.2 fun _ _ => rfl).mpr (by decide)⟩

/-! ## A full outbox -/

/-- An outbox with `n` records that have not been delivered. -/
def pendingOutbox (n : Nat) : AuditOutbox where
  rows := (List.range n).map fun generation => (⟨.collected, .quarantine, repeatedId 1, generation⟩, false)
  nodup := by
    rw [List.map_map]
    exact List.nodup_range.map fun _ _ h => (AuditEventKey.mk.inj h).2.2.2

theorem pendingOutbox_get? {n : Nat} {event : AuditEventKey} (h : event.object ≠ .quarantine) :
    (pendingOutbox n).get? event = none := by
  rw [Table.get?_eq_none_iff, pendingOutbox, List.map_map, List.mem_map]
  rintro ⟨_, -, rfl⟩
  exact h rfl

theorem pendingOutbox_length (n : Nat) :
    ((pendingOutbox n).rows.filter fun record => record.2 = false).length = n := by
  have hall : ((pendingOutbox n).rows.filter fun record => record.2 = false) = (pendingOutbox n).rows := by
    refine List.filter_eq_self.mpr fun record hrecord => ?_
    obtain ⟨_, -, rfl⟩ := List.mem_map.mp hrecord
    rfl
  rw [hall, pendingOutbox, List.length_map, List.length_range]

theorem pendingOutbox_refuses {n : Nat} {event : AuditEventKey} (hn : maxPendingAuditRecords ≤ n)
    (h : event.object ≠ .quarantine) : (requireCapacity (pendingOutbox n) [event]).isOk = false := by
  cases hcapacity : requireCapacity (pendingOutbox n) [event] with
  | error e => rfl
  | ok u =>
    simp only [requireCapacity, preflightEvents, bind_eq_ok, exists_unit, rejectIf_eq_ok, pure_eq_ok] at hcapacity
    obtain ⟨capacity, ⟨-, rfl⟩, hready⟩ := hcapacity
    have hneeded : ([event].dedup.filter fun event => (pendingOutbox n).get? event = none).length = 1 := by
      rw [(List.nodup_singleton event).dedup]
      simp [pendingOutbox_get? h]
    refine absurd (if_pos ?_) hready
    rw [pendingOutbox_length, hneeded]
    exact Nat.lt_succ_of_le hn

/-- The outbox fills up between the reservation of a session and its next step. -/
def filledSurroundings : Surroundings :=
  { quietSurroundings with
    between := fun n c => if n = 5 then { c with outbox := pendingOutbox maxPendingAuditRecords } else c
    uploads_between := fun n c => by split <;> rfl
    reservedBytes_between := fun n c => by split <;> rfl }

set_option maxRecDepth 20000 in
/-- The begin fails, and the upload keeps its reservation. -/
theorem refusedReception_keeps_reservation :
    let r := ArtifactWriter.begin filledSurroundings byteConfig (repeatedId 20) byteReservation (.start Catalog.initial)
    succeeded r = false ∧ ((finalState r).catalog.uploads.get? (repeatedId 20)).map (·.state) = some .reserved ∧
      (finalState r).catalog.reservedBytes = 65536 ∧ Catalog.initial.reservedBytes = 0 := by
  have hlooking : Looking filledSurroundings (repeatedId 20) Catalog.initial 0 (.start Catalog.initial) :=
    ⟨.start rfl, fun _ => le_refl 0⟩
  have hdone : succeeded (reserve filledSurroundings byteConfig (repeatedId 20) byteReservation
      (.start Catalog.initial)) = true := by decide
  have hend : let s := finalState (reserve filledSurroundings byteConfig (repeatedId 20) byteReservation
        (.start Catalog.initial))
      s.scopes = 5 ∧ (s.catalog.uploads.get? (repeatedId 20)).map (·.state) = some .reserved ∧
        s.catalog.reservedBytes = 65536 := by decide
  cases hreserve : reserve filledSurroundings byteConfig (repeatedId 20) byteReservation (.start Catalog.initial) with
  | error e s =>
    rw [hreserve] at hdone
    cases hdone
  | ok state s =>
    rw [hreserve] at hend
    obtain ⟨hscopes, hstate, hbytes⟩ := hend
    simp only [finalState_ok] at hscopes hstate hbytes
    obtain ⟨rfl, base, upload, -, -, hheld⟩ := (idle_reserve (by decide)).of_ok hlooking hreserve
    have hroom : hasRoom filledSurroundings .receiving (repeatedId 20) byteReservation.publicationGeneration s =
        false := by
      rw [hasRoom, hscopes]
      exact pendingOutbox_refuses (le_refl _) (by decide)
    obtain ⟨e, hmark⟩ := hheld.mark_of_not hroom
    have hbegin : ArtifactWriter.begin filledSurroundings byteConfig (repeatedId 20) byteReservation
        (.start Catalog.initial) = .error e (s.next filledSurroundings) := by
      rw [ArtifactWriter.begin, bind_of_ok hreserve]
      exact bind_of_error hmark
    rw [hbegin]
    refine ⟨rfl, ?_, ?_, rfl⟩
    · rw [finalState_error, SessionState.next, filledSurroundings.uploads_between]
      exact hstate
    · rw [finalState_error, SessionState.next, filledSurroundings.reservedBytes_between]
      exact hbytes

end Kvpack.Store
