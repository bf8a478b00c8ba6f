import Kvpack.Store.Machine

/-!
# What a transaction does to the uploads

Every transaction keeps the upload rows, or changes one: without touching its reservation, by taking a reservation for
an inactive row, or by ending an active row and releasing its reservation.
-/

namespace Kvpack.Store

open Base Kvpack.Core

variable {C : Crypto} {config : StoreConfig} {c c' : Catalog} {key : Id32} {now : Nat}
variable {events : List AuditEventKey} {reservation : UploadReservation} {row upload' : Upload}
  {token expectedChunks : Nat} {digest : Id32}

/-! ## Audit -/

theorem record_eq_ok (h : c.record events now = .ok c') :
    ∃ outbox, c' = { c with outbox } := by
  simp only [Catalog.record, bind_eq_ok, pure_eq_ok] at h
  obtain ⟨outbox, -, rfl⟩ := h
  exact ⟨outbox, rfl⟩

theorem record_ok (events : List AuditEventKey) (hnow : now ≠ 0) :
    ∃ outbox, c.record events now = .ok { c with outbox } := by
  simp only [Catalog.record, bind_eq_ok, pure_eq_ok, appendEvents, exists_unit, rejectIf_eq_ok]
  exact ⟨_, _, ⟨hnow, rfl⟩, rfl⟩

theorem requireCapacity_valid {outbox : AuditOutbox}
    (h : requireCapacity outbox events = .ok ()) :
    ∀ event ∈ events, isZeroId event.objectId = false ∧ event.generation ≤ maxI64 := by
  simp only [requireCapacity, preflightEvents, bind_eq_ok, exists_unit, rejectIf_eq_ok, not_exists, not_and, not_or,
    List.mem_dedup, not_lt, Bool.not_eq_true] at h
  obtain ⟨_, ⟨hvalid, -⟩, -⟩ := h
  exact hvalid

/-! ## The transactions -/

theorem admitReservation_valid
    (h : admitReservation config key reservation row now c = .ok c') :
    isZeroId key = false ∧ reservation.publicationGeneration ≤ maxI64 := by
  simp only [admitReservation, bind_eq_ok, exists_unit] at h
  obtain ⟨-, -, -, hroom, -⟩ := h
  exact requireCapacity_valid hroom _ List.mem_cons_self

theorem admitReservation_eq_ok
    (h : admitReservation config key reservation row now c = .ok c') :
    c.reservedBytes + reservation.expectedBytes ≤ config.stagingQuotaBytes ∧
      c.durableBytes + c.reservedBytes + reservation.expectedBytes ≤ config.quotaBytes ∧
      ∃ writeTickets outbox, c' = { c with
        uploads := c.uploads.put key row
        reservedBytes := c.reservedBytes + reservation.expectedBytes
        writeTickets
        outbox } := by
  simp only [admitReservation, bind_eq_ok, exists_unit, rejectIf_eq_ok, not_lt] at h
  obtain ⟨hstaging, hquota, -, -, h⟩ := h
  simp only [saturatingAdd] at hstaging hquota
  obtain ⟨outbox, rfl⟩ := record_eq_ok h
  -- a saturated sum would exceed every quota, which is at most the largest signed integer
  have hle := config.quota_le
  have hle' := config.stagingQuota_le
  simp only [maxI64] at hle hle'
  refine ⟨by omega, by omega, _, outbox, rfl⟩

theorem reserveUpload_eq_ok {state : UploadState}
    (h : reserveUpload config key reservation now c = .ok (c', state)) :
    (∃ upload, c.uploads.get? key = some upload ∧ upload.state ≠ .aborted ∧ state = upload.state ∧ c' = c) ∨
      (∃ row, (∀ upload, c.uploads.get? key = some upload → upload.state = .aborted) ∧ row.state = .reserved ∧
        row.reservedBytes = reservation.expectedBytes ∧ row.generation = reservation.publicationGeneration ∧
        row.sessionToken = 0 ∧ state = .reserved ∧ admitReservation config key reservation row now c = .ok c') := by
  simp only [reserveUpload, bind_eq_ok, exists_unit] at h
  obtain ⟨-, h⟩ := h
  split at h
  · rename_i upload hget
    simp only [bind_eq_ok, exists_unit, Upload.sameDeclaration, rejectIf_eq_ok, not_not, ne_eq] at h
    obtain ⟨⟨-, hgeneration, -⟩, h⟩ := h
    split at h
    · rename_i hstate
      simp only [bind_eq_ok, pure_eq_ok, Prod.mk.injEq] at h
      obtain ⟨_, hadmit, rfl, rfl⟩ := h
      refine Or.inr ⟨upload.reinit reservation, ?_, rfl, rfl, hgeneration, rfl, rfl, hadmit⟩
      intro upload' hget'
      rw [hget, Option.some.injEq] at hget'
      rwa [← hget']
    · rename_i hstate
      simp only [pure_eq_ok, Prod.mk.injEq] at h
      exact Or.inl ⟨upload, hget, hstate, h.2.symm, h.1.symm⟩
  · rename_i hget
    simp only [bind_eq_ok, pure_eq_ok, Prod.mk.injEq] at h
    obtain ⟨_, hadmit, rfl, rfl⟩ := h
    refine Or.inr ⟨_, ?_, rfl, rfl, rfl, rfl, rfl, hadmit⟩
    intro upload hget'
    rw [hget] at hget'
    cases hget'

theorem markReceiving_eq_ok (h : markReceiving key now c = .ok c') :
    ∃ upload outbox, c.uploads.get? key = some upload ∧ (upload.state = .reserved ∨ upload.state = .receiving) ∧
      c' = { c with uploads := c.uploads.put key { upload with state := .receiving }, outbox } := by
  simp only [markReceiving, bind_eq_ok, exists_unit, okOr_eq_ok, rejectIf_eq_ok] at h
  obtain ⟨upload, hget, hstate, -, h⟩ := h
  obtain ⟨outbox, rfl⟩ := record_eq_ok h
  refine ⟨upload, outbox, hget, ?_, rfl⟩
  tauto

/-- The release of an active row, by either of the exits that do not publish. -/
def Released (key : Id32) (state : UploadState) (c c' : Catalog) : Prop :=
  ∃ upload outbox, c.uploads.get? key = some upload ∧ upload.state.active ∧
    c' = { c with
      uploads := c.uploads.put key { upload with state, reservedBytes := 0 }
      reservedBytes := c.reservedBytes - upload.reservedBytes
      outbox }

theorem abortUpload_eq_ok (h : abortUpload key now c = .ok c') :
    (∃ outbox, c' = { c with outbox }) ∨ Released key .aborted c c' := by
  unfold abortUpload at h
  split at h
  · cases h
    exact Or.inl ⟨_, rfl⟩
  · rename_i upload hget
    split at h
    · cases h
      exact Or.inl ⟨_, rfl⟩
    · rename_i hstate
      simp only [bind_eq_ok, exists_unit] at h
      obtain ⟨-, h⟩ := h
      obtain ⟨outbox, rfl⟩ := record_eq_ok h
      split
      · exact Or.inl ⟨outbox, rfl⟩
      · rename_i hne
        refine Or.inr ⟨upload, outbox, hget, ?_, rfl⟩
        cases hs : upload.state <;> simp_all [UploadState.active]

theorem quarantineUpload_eq_ok (h : quarantineUpload key now c = .ok c') :
    (∃ outbox, c' = { c with outbox }) ∨ Released key .quarantined c c' := by
  simp only [quarantineUpload, bind_eq_ok, exists_unit, okOr_eq_ok, rejectIf_eq_ok] at h
  obtain ⟨upload, hget, hstate, -, h⟩ := h
  obtain ⟨outbox, rfl⟩ := record_eq_ok h
  split
  · exact Or.inl ⟨outbox, rfl⟩
  · rename_i hne
    refine Or.inr ⟨upload, outbox, hget, ?_, rfl⟩
    cases hs : upload.state <;> simp_all [UploadState.active]

/-- What a change to a row keeps when it is neither a reservation nor a release. -/
structure Upload.Keeps (upload upload' : Upload) : Prop where
  reservedBytes : upload'.reservedBytes = upload.reservedBytes
  generation : upload'.generation = upload.generation
  active : upload'.state.active = upload.state.active
  ended : upload.state.active = false → upload'.state = upload.state
  manifestId : upload.manifestId.isSome → upload'.manifestId = upload.manifestId

/-- Such a change to one row, with any change to the ledger. -/
def Touched (key : Id32) (c c' : Catalog) : Prop :=
  ∃ upload upload' uploadChunks, c.uploads.get? key = some upload ∧
    c' = { c with uploads := c.uploads.put key upload', uploadChunks } ∧ upload.Keeps upload'

/-- A change that keeps the state of the row too. -/
def Resumed (key : Id32) (c c' : Catalog) : Prop :=
  ∃ upload upload' uploadChunks, c.uploads.get? key = some upload ∧
    c' = { c with uploads := c.uploads.put key upload', uploadChunks } ∧ upload.Keeps upload' ∧
      upload'.state = upload.state

theorem Resumed.touched (h : Resumed key c c') : Touched key c c' := by
  obtain ⟨upload, upload', uploadChunks, hget, rfl, hkeeps, -⟩ := h
  exact ⟨upload, upload', uploadChunks, hget, rfl, hkeeps⟩

/-- A seal, which verifies a row that receives; a replay may leave the row as it is. -/
def Sealed (key digest : Id32) (c c' : Catalog) : Prop :=
  ∃ upload, c.uploads.get? key = some upload ∧ ((upload.state ≠ .receiving ∧ c' = c) ∨
    ((upload.state = .receiving ∨ upload.state = .verified) ∧
      c' = c.setUpload key { upload with state := .verified, sealDigest := digest }))

theorem Upload.Keeps.of_active {upload : Upload} (hreserved : upload'.reservedBytes = upload.reservedBytes)
    (hgeneration : upload'.generation = upload.generation) (hmanifest : upload'.manifestId = upload.manifestId)
    (hactive : upload.state.active) (hactive' : upload'.state.active) : upload.Keeps upload' where
  reservedBytes := hreserved
  generation := hgeneration
  active := by rw [hactive, hactive']
  ended := fun h => by rw [hactive] at h; cases h
  manifestId := fun _ => hmanifest

theorem Upload.Keeps.of_state {upload : Upload} (hreserved : upload'.reservedBytes = upload.reservedBytes)
    (hgeneration : upload'.generation = upload.generation) (hstate : upload'.state = upload.state)
    (hmanifest : upload.manifestId.isSome → upload'.manifestId = upload.manifestId) : upload.Keeps upload' where
  reservedBytes := hreserved
  generation := hgeneration
  active := by rw [hstate]
  ended := fun _ => hstate
  manifestId := hmanifest

theorem adoptProvisionalSession_eq_ok (h : adoptProvisionalSession key token now c = .ok c') :
    Resumed key c c' := by
  simp only [adoptProvisionalSession, bind_eq_ok, exists_unit, okOr_eq_ok, pure_eq_ok] at h
  obtain ⟨upload, hget, -, rfl⟩ := h
  exact ⟨upload, _, c.uploadChunks, hget, rfl, .of_state rfl rfl rfl fun _ => rfl, rfl⟩

theorem commitProvisionalStageBatch_eq_ok {first : Nat} {staged : List UploadChunk}
    (h : commitProvisionalStageBatch key token first staged now c = .ok c') : c' = c ∨ Resumed key c c' := by
  unfold commitProvisionalStageBatch at h
  split at h
  · cases h
    exact Or.inl rfl
  · simp only [bind_eq_ok, exists_unit, okOr_eq_ok, pure_eq_ok] at h
    obtain ⟨upload, hget, -, -, -, ledger, -, rfl⟩ := h
    exact Or.inr ⟨upload, _, ledger, hget, rfl, .of_state rfl rfl rfl fun _ => rfl, rfl⟩

theorem Sealed.touched (h : Sealed key digest c c') : c' = c ∨ Touched key c c' := by
  obtain ⟨upload, hget, ⟨-, rfl⟩ | ⟨hstate, rfl⟩⟩ := h
  · exact Or.inl rfl
  · refine Or.inr ⟨upload, _, c.uploadChunks, hget, rfl, .of_active rfl rfl rfl ?_ rfl⟩
    rcases hstate with hstate | hstate <;> rw [hstate] <;> rfl

theorem sealProvisionalUpload_eq_ok
    (h : sealProvisionalUpload key token expectedChunks digest now c = .ok c') :
    Sealed key digest c c' ∧ ∃ upload, c.uploads.get? key = some upload ∧ upload.sessionToken = token := by
  simp only [sealProvisionalUpload, bind_eq_ok, exists_unit, okOr_eq_ok, rejectIf_eq_ok, not_not, ne_eq] at h
  obtain ⟨-, upload, hget, htoken, -, h⟩ := h
  refine ⟨⟨upload, hget, ?_⟩, upload, hget, htoken⟩
  split at h <;> rename_i hstate
  · simp only [bind_eq_ok, exists_unit, pure_eq_ok] at h
    exact Or.inl ⟨by simp [hstate], h.2.symm⟩
  · simp only [bind_eq_ok, exists_unit, pure_eq_ok] at h
    exact Or.inl ⟨by simp [hstate], h.2.symm⟩
  · simp only [bind_eq_ok, exists_unit, pure_eq_ok] at h
    exact Or.inr ⟨Or.inl hstate, h.2.symm⟩
  · cases h

theorem clearProvisionalLedger_eq_ok {published : Bool} (h : clearProvisionalLedger key published c = .ok c') :
    Resumed key c c' := by
  simp only [clearProvisionalLedger, bind_eq_ok, exists_unit, okOr_eq_ok, pure_eq_ok] at h
  obtain ⟨upload, hget, -, rfl⟩ := h
  exact ⟨upload, _, c.uploadChunks.filter _, hget, rfl, .of_state rfl rfl rfl fun _ => rfl, rfl⟩

theorem bindImportManifest_eq_ok {manifestId : Id32} (h : bindImportManifest key manifestId c = .ok c') :
    c' = c ∨ Resumed key c c' := by
  unfold bindImportManifest at h
  split at h
  · cases h
    exact Or.inl rfl
  · rename_i upload hget
    split at h
    · simp only [bind_eq_ok, exists_unit, pure_eq_ok] at h
      exact Or.inl h.2.symm
    · rename_i hnone
      cases h
      refine Or.inr ⟨upload, _, c.uploadChunks, hget, rfl, .of_state rfl rfl rfl fun hsome => ?_, rfl⟩
      rw [hnone] at hsome
      cases hsome

theorem sealAuthenticatedImport_eq_ok
    (h : sealAuthenticatedImport key expectedChunks digest c = .ok c') : Sealed key digest c c' := by
  simp only [sealAuthenticatedImport, bind_eq_ok, okOr_eq_ok] at h
  obtain ⟨upload, hget, h⟩ := h
  refine ⟨upload, hget, ?_⟩
  split at h <;> rename_i hstate
  · cases h
    exact Or.inl ⟨by simp [hstate], rfl⟩
  · simp only [bind_eq_ok, exists_unit, pure_eq_ok] at h
    exact Or.inr ⟨Or.inl hstate, h.2.2.2.symm⟩
  · simp only [bind_eq_ok, exists_unit, pure_eq_ok] at h
    exact Or.inr ⟨Or.inr hstate, h.2.2.2.symm⟩
  · cases h

theorem advanceImportCursor_eq_ok {ordinal : Nat} {chunk : UploadChunk}
    (h : advanceImportCursor key ordinal chunk c = .ok c') : Resumed key c c' := by
  simp only [advanceImportCursor, bind_eq_ok, exists_unit, okOr_eq_ok, pure_eq_ok] at h
  obtain ⟨upload, hget, -, -, ledger, -, rfl⟩ := h
  exact ⟨upload, _, ledger, hget, rfl, .of_state rfl rfl rfl fun _ => rfl, rfl⟩

end Kvpack.Store
