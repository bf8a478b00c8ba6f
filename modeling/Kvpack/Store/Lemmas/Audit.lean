import Kvpack.Store.Audit
import Kvpack.Store.Lemmas.Steps

/-!
# What a step records

A committed step appends the records it owes, and records nothing else about the objects it moves; the outbox ignores
a record that it holds already.
-/

namespace Kvpack.Store

open Base Kvpack.Core

variable {C : Crypto} {config : StoreConfig} {c c' : Catalog} {key id : Id32} {now : Nat} {s s' : State} {e : Event}
  {event : LifecycleEvent} {outbox : AuditOutbox} {records : List AuditEventKey} {owed : List LifecycleRecord}
variable {upload : Upload} {publications : List PendingManifest}
variable {uploadChunks : Table (Id32 × Nat) UploadChunk} {reservation : UploadReservation} {state : UploadState}
  {token expectedChunks maximumObjects limit : Nat} {digest semantic family : Id32}
  {artifacts : List PublishedArtifact} {minimum : UInt64} {eviction : Eviction}

/-! ## Appending to the outbox -/

/-- `INSERT OR IGNORE` of each record. -/
def recordAll (outbox : AuditOutbox) (records : List AuditEventKey) : AuditOutbox :=
  records.foldl (fun outbox record => if outbox.get? record = none then outbox.put record false else outbox) outbox

theorem record_recordAll (h : c.record records now = .ok c') :
    c' = { c with outbox := recordAll c.outbox records.dedup } := by
  simp only [Catalog.record, appendEvents, bind_eq_ok, exists_unit, pure_eq_ok] at h
  obtain ⟨_, ⟨-, rfl⟩, rfl⟩ := h
  rfl

theorem sum_recordAll {w : AuditEventKey → Nat} (hnodup : records.Nodup) :
    (recordAll outbox records).sum (fun record _ => w record) =
      outbox.sum (fun record _ => w record) +
        ((records.filter fun record => outbox.get? record = none).map w).sum := by
  induction records generalizing outbox with
  | nil => rfl
  | cons record rest ih =>
    rw [List.nodup_cons] at hnodup
    have hcons : recordAll outbox (record :: rest) =
        recordAll (if outbox.get? record = none then outbox.put record false else outbox) rest := rfl
    rw [hcons, ih hnodup.2]
    by_cases hnone : outbox.get? record = none
    · have hrest : (rest.filter fun r => (outbox.put record false).get? r = none) =
          rest.filter fun r => outbox.get? r = none := by
        refine List.filter_congr fun r hr => ?_
        rw [Table.get?_put, if_neg]
        rintro rfl
        exact hnodup.1 hr
      rw [if_pos hnone, hrest, List.filter_cons_of_pos (by simpa using hnone), List.map_cons, List.sum_cons,
        Table.sum_put_of_none hnone]
      omega
    · rw [if_neg hnone, List.filter_cons_of_neg (by simpa using hnone)]

theorem sum_indicator {α : Type} [DecidableEq α] {xs : List α} {p : α → Bool} {a : α} (hnodup : xs.Nodup)
    (hp : ∀ x ∈ xs, p x = true ↔ x = a) :
    (xs.map fun x => if p x = true then 1 else 0).sum = if a ∈ xs then 1 else 0 := by
  induction xs with
  | nil => rfl
  | cons x xs ih =>
    rw [List.nodup_cons] at hnodup
    rw [List.map_cons, List.sum_cons, ih hnodup.2 fun y hy => hp y (List.mem_cons_of_mem _ hy)]
    have hx := hp x List.mem_cons_self
    by_cases hxa : x = a
    · subst hxa
      simp [hx.mpr rfl, hnodup.1]
    · have hpx : ¬ p x = true := fun h => hxa (hx.mp h)
      simp [hpx, Ne.symm hxa]

/-- A record is of a transition of one object. -/
def LifecycleEvent.files (event : LifecycleEvent) (id : Id32) (record : AuditEventKey) : Bool :=
  decide (record.event = event.kind ∧ record.object = event.object ∧ record.objectId = id)

theorem LifecycleRecord.files_key (r : LifecycleRecord) : r.event.files r.objectId r.key = true := by
  simp [LifecycleEvent.files, key]

theorem recordCount_recordAll {record : AuditEventKey} (hmem : record ∈ records) (hfiles : event.files id record = true)
    (hunique : ∀ x ∈ records, event.files id x = true → x = record) :
    recordCount (recordAll outbox records.dedup) event id =
      recordCount outbox event id + if outbox.get? record = none then 1 else 0 := by
  have hcount : ∀ outbox : AuditOutbox, recordCount outbox event id =
      outbox.sum fun record _ => if event.files id record = true then 1 else 0 := by
    intro outbox
    simp only [recordCount, LifecycleEvent.files, decide_eq_true_eq]
  rw [hcount, hcount, sum_recordAll records.nodup_dedup]
  rw [sum_indicator (a := record) (records.nodup_dedup.filter _)]
  · simp [hmem]
  · intro x hx
    have hx' := List.mem_dedup.mp (List.mem_filter.mp hx).1
    refine ⟨hunique x hx', ?_⟩
    rintro rfl
    exact hfiles

/-! ## Steps that record what they owe -/

/-- The records of a step and the transitions it makes. -/
structure Audited (records : List AuditEventKey) (owed : List LifecycleRecord) (c c' : Catalog) : Prop where
  outbox : c'.outbox = recordAll c.outbox records.dedup
  recorded : ∀ r ∈ owed, r.key ∈ records
  unique : ∀ r ∈ owed, ∀ x ∈ records, r.event.files r.objectId x = true → x = r.key
  shown : ∀ event id, c.shows c' id event = true ↔ ∃ generation, ⟨event, id, generation⟩ ∈ owed

theorem Audited.recordCount_eq (h : Audited records owed c c') {r : LifecycleRecord} (hr : r ∈ owed) :
    recordCount c'.outbox r.event r.objectId =
      recordCount c.outbox r.event r.objectId + if c.outbox.get? r.key = none then 1 else 0 := by
  rw [h.outbox]
  exact recordCount_recordAll (h.recorded r hr) r.files_key (h.unique r hr)

theorem Audited.complete_iff (h : Audited records owed c c') :
    AuditComplete c c' ↔ ∀ r ∈ owed, c.outbox.get? r.key = none := by
  constructor
  · intro hcomplete r hr
    have hcount := hcomplete r.event r.objectId ((h.shown _ _).mpr ⟨r.generation, hr⟩)
    rw [h.recordCount_eq hr] at hcount
    by_contra hne
    rw [if_neg hne] at hcount
    omega
  · intro hnew event id hshows
    obtain ⟨generation, hr⟩ := (h.shown event id).mp hshows
    have hcount := h.recordCount_eq hr
    rwa [if_pos (hnew _ hr)] at hcount

/-! ## Which transitions the rows show -/

@[simp]
theorem UploadState.shows_self (state : Option UploadState) : UploadState.shows state state event = false := by
  cases event <;> simp only [UploadState.shows, decide_eq_false_iff_not] <;> tauto

theorem shows_of_uploads (h : c'.uploads = c.uploads) : c.shows c' id event = c.objectShows c' id event := by
  rw [Catalog.shows, Catalog.uploadState, Catalog.uploadState, h, UploadState.shows_self, Bool.false_or]

theorem not_chunkCollected (h : ∀ row, c.chunks.get? id = some row → (c'.chunks.get? id).isSome) :
    c.objectShows c' id .chunkCollected = false := by
  cases hrow : c.chunks.get? id with
  | none => simp [Catalog.objectShows, hrow]
  | some row =>
    obtain ⟨row', hrow'⟩ := Option.isSome_iff_exists.mp (h row hrow)
    simp [Catalog.objectShows, hrow']

theorem objectShows_eq_false (hmanifests : c'.manifests = c.manifests) (htombstones : c'.tombstones = c.tombstones)
    (hchunks : ∀ row, c.chunks.get? id = some row → (c'.chunks.get? id).isSome) :
    c.objectShows c' id event = false := by
  cases event with
  | chunkCollected => exact not_chunkCollected hchunks
  | _ => simp [Catalog.objectShows, hmanifests, htombstones, Catalog.tombstoned]

def Quiet (c c' : Catalog) : Prop := ∀ event id, c.shows c' id event = false

theorem Quiet.complete (h : Quiet c c') : AuditComplete c c' := by
  intro event id hshows
  rw [h event id] at hshows
  cases hshows

/-- Rows that show no transition: nothing has left, and nothing has a new state. -/
structure RowsKept (c c' : Catalog) : Prop where
  uploads : ∀ id, c'.uploadState id = c.uploadState id
  manifests : c'.manifests = c.manifests
  tombstones : c'.tombstones = c.tombstones
  chunks : ∀ id row, c.chunks.get? id = some row → (c'.chunks.get? id).isSome

theorem RowsKept.of_eq (huploads : c'.uploads = c.uploads) (hmanifests : c'.manifests = c.manifests)
    (htombstones : c'.tombstones = c.tombstones) (hchunks : c'.chunks = c.chunks) : RowsKept c c' where
  uploads id := by rw [Catalog.uploadState, huploads, Catalog.uploadState]
  manifests := hmanifests
  tombstones := htombstones
  chunks id row hrow := by rw [hchunks, hrow, Option.isSome_some]

theorem RowsKept.refl (c : Catalog) : RowsKept c c := .of_eq rfl rfl rfl rfl

theorem RowsKept.of_uploads {uploads : Table Id32 Upload}
    (h : RowsKept c c') (huploads : ∀ id, (uploads.get? id).map (·.state) = c'.uploadState id) :
    RowsKept c { c' with uploads, uploadChunks } :=
  ⟨fun id => (huploads id).trans (h.uploads id), h.manifests, h.tombstones, h.chunks⟩

theorem RowsKept.quiet (h : RowsKept c c') : Quiet c c' := by
  intro event id
  rw [Catalog.shows, h.uploads, UploadState.shows_self, objectShows_eq_false h.manifests h.tombstones (h.chunks id)]
  rfl

/-- A change to one upload row shows what happened between its two states. -/
theorem shows_of_upload (huploads : c'.uploads = c.uploads.put key upload)
    (hmanifests : c'.manifests = c.manifests) (htombstones : c'.tombstones = c.tombstones)
    (hchunks : c'.chunks = c.chunks) :
    c.shows c' id event = true ↔ id = key ∧ UploadState.shows (c.uploadState key) (some upload.state) event = true := by
  have hobjects : c.objectShows c' id event = false :=
    objectShows_eq_false hmanifests htombstones fun row hrow => by rw [hchunks, hrow]; rfl
  rw [Catalog.shows, hobjects, Bool.or_false]
  by_cases hid : id = key
  · subst hid
    simp [Catalog.uploadState, huploads]
  · have hstate : c'.uploadState id = c.uploadState id := by
      simp only [Catalog.uploadState, huploads, Table.get?_put, if_neg hid]
    simp [hstate, hid]

theorem Quiet.of_shows (huploads : c'.uploads = c.uploads.put key upload)
    (hmanifests : c'.manifests = c.manifests) (htombstones : c'.tombstones = c.tombstones)
    (hchunks : c'.chunks = c.chunks)
    (hshows : ∀ event, UploadState.shows (c.uploadState key) (some upload.state) event = false) : Quiet c c' := by
  intro event id
  rw [Bool.eq_false_iff]
  intro hid
  rw [shows_of_upload huploads hmanifests htombstones hchunks, hshows] at hid
  cases hid.2

theorem RowsKept.put_upload {upload upload' : Upload}
    (h : RowsKept c c') (hget : c'.uploads.get? key = some upload) (hstate : upload'.state = upload.state) :
    RowsKept c { c' with uploads := c'.uploads.put key upload', uploadChunks } := by
  refine h.of_uploads fun id => ?_
  rw [Table.get?_put, Catalog.uploadState]
  by_cases hid : id = key
  · rw [if_pos hid, hid, hget, Option.map_some, Option.map_some, hstate]
  · rw [if_neg hid]

/-- What the audit says about a step that is not silent. -/
def Recorded (owed : List LifecycleRecord) (c c' : Catalog) : Prop :=
  (Quiet c c' ∧ owed = []) ∨ ∃ records, Audited records owed c c'

theorem Recorded.complete_iff (h : Recorded owed c c') :
    AuditComplete c c' ↔ ∀ r ∈ owed, c.outbox.get? r.key = none := by
  obtain ⟨hquiet, rfl⟩ | ⟨records, haudited⟩ := h
  · simp [hquiet.complete]
  · exact haudited.complete_iff

theorem RowsKept.recorded (h : RowsKept c c') : Recorded [] c c' := Or.inl ⟨h.quiet, rfl⟩

/-! ## Transactions on uploads -/

theorem admitReservation_outbox {row : Upload}
    (h : admitReservation config key reservation row now c = .ok c') :
    c'.outbox = recordAll c.outbox [⟨.reserved, .upload, key, reservation.publicationGeneration⟩].dedup := by
  simp only [admitReservation, bind_eq_ok, exists_unit] at h
  obtain ⟨-, -, -, -, h⟩ := h
  rw [record_recordAll h]
  rfl

theorem Audited.of_upload {generation : Nat}
    (houtbox : c'.outbox = recordAll c.outbox [⟨event.kind, event.object, key, generation⟩].dedup)
    (huploads : c'.uploads = c.uploads.put key upload) (hmanifests : c'.manifests = c.manifests)
    (htombstones : c'.tombstones = c.tombstones) (hchunks : c'.chunks = c.chunks)
    (hshows : ∀ event', UploadState.shows (c.uploadState key) (some upload.state) event' = true ↔ event' = event) :
    Audited [⟨event.kind, event.object, key, generation⟩] [⟨event, key, generation⟩] c c' where
  outbox := houtbox
  recorded r hr := by
    cases List.mem_singleton.mp hr
    exact List.mem_singleton_self _
  unique r hr x hx _ := by
    cases List.mem_singleton.mp hr
    exact List.mem_singleton.mp hx
  shown event' id := by
    rw [shows_of_upload huploads hmanifests htombstones hchunks, hshows]
    simp [and_comm]

theorem reserveUpload_audited
    (h : reserveUpload config key reservation now c = .ok (c', state)) :
    Recorded (Event.owes config (.transact (.reserve key reservation)) c) c c' := by
  obtain ⟨upload, hget, hstate, -, rfl⟩ | ⟨row, hget, hstate, -, -, -, -, hadmit⟩ := reserveUpload_eq_ok h
  · have hall : (c'.uploadState key).all (· = .aborted) = false := by simpa [Catalog.uploadState, hget] using hstate
    exact Or.inl ⟨(RowsKept.refl _).quiet, by simp [Event.owes, hall]⟩
  · have hall : (c.uploadState key).all (· = .aborted) = true := by
      cases hupload : c.uploads.get? key with
      | none => simp [Catalog.uploadState, hupload]
      | some upload => simpa [Catalog.uploadState, hupload] using hget upload hupload
    have houtbox := admitReservation_outbox hadmit
    obtain ⟨-, -, _, _, rfl⟩ := admitReservation_eq_ok hadmit
    have howes : Event.owes config (.transact (.reserve key reservation)) c =
        [⟨.uploadReserved, key, reservation.publicationGeneration⟩] := by simp [Event.owes, hall]
    rw [howes]
    refine Or.inr ⟨_, .of_upload houtbox rfl rfl rfl rfl fun event' => ?_⟩
    rw [hstate]
    cases hold : c.uploadState key with
    | none => cases event' <;> simp [UploadState.shows]
    | some old =>
      have hold' : old = .aborted := by simpa [hold] using hall
      subst hold'
      cases event' <;> simp [UploadState.shows]

theorem markReceiving_quiet (h : markReceiving key now c = .ok c') : Quiet c c' := by
  obtain ⟨upload, _, hget, hstate, rfl⟩ := markReceiving_eq_ok h
  refine .of_shows rfl rfl rfl rfl fun event => ?_
  rw [Catalog.uploadState, hget]
  rcases hstate with hstate | hstate <;> cases event <;> simp [hstate, UploadState.shows]

/-- The two exits that do not publish owe one record, unless the upload had ended. -/
theorem endOwes_audited (hevent : (event = .uploadAborted ∧ state = .aborted) ∨
      (event = .uploadQuarantined ∧ state = .quarantined))
    (h : (Quiet c c' ∧ endOwes event key c = []) ∨ ∃ upload, c.uploads.get? key = some upload ∧
      upload.state.active ∧ c'.outbox = recordAll c.outbox [⟨event.kind, event.object, key, upload.generation⟩].dedup ∧
      c'.uploads = c.uploads.put key { upload with state, reservedBytes := 0 } ∧ c'.manifests = c.manifests ∧
      c'.tombstones = c.tombstones ∧ c'.chunks = c.chunks) :
    Recorded (endOwes event key c) c c' := by
  obtain h | ⟨upload, hget, hactive, houtbox, huploads, hmanifests, htombstones, hchunks⟩ := h
  · exact Or.inl h
  · have howes : endOwes event key c = [⟨event, key, upload.generation⟩] := by simp [endOwes, hget, hactive]
    rw [howes]
    refine Or.inr ⟨_, .of_upload houtbox huploads hmanifests htombstones hchunks fun event' => ?_⟩
    have hold : c.uploadState key = some upload.state := by rw [Catalog.uploadState, hget]; rfl
    rw [hold]
    rcases hevent with ⟨rfl, rfl⟩ | ⟨rfl, rfl⟩ <;> cases hs : upload.state <;>
      simp [hs, UploadState.active] at hactive <;> cases event' <;> simp [UploadState.shows]

theorem abortUpload_audited (h : abortUpload key now c = .ok c') :
    Recorded (endOwes .uploadAborted key c) c c' := by
  refine endOwes_audited (Or.inl ⟨rfl, rfl⟩) ?_
  unfold abortUpload at h
  split at h
  · rename_i hnone
    cases h
    exact Or.inl ⟨(RowsKept.refl _).quiet, by simp [endOwes, hnone]⟩
  · rename_i upload hget
    split at h
    · rename_i hended
      cases h
      exact Or.inl ⟨(RowsKept.refl _).quiet, by rcases hended with hs | hs <;>
        simp [endOwes, hget, hs, UploadState.active]⟩
    · rename_i hne
      simp only [bind_eq_ok, exists_unit] at h
      obtain ⟨-, h⟩ := h
      cases record_recordAll h
      split
      · rename_i hs
        exact Or.inl ⟨(RowsKept.of_eq rfl rfl rfl rfl).quiet,
          by simp [endOwes, hget, hs, UploadState.active]⟩
      · refine Or.inr ⟨upload, hget, ?_, rfl, rfl, rfl, rfl, rfl⟩
        cases hs : upload.state <;> simp_all [UploadState.active]

theorem quarantineUpload_audited (h : quarantineUpload key now c = .ok c') :
    Recorded (endOwes .uploadQuarantined key c) c c' := by
  refine endOwes_audited (Or.inr ⟨rfl, rfl⟩) ?_
  simp only [quarantineUpload, bind_eq_ok, exists_unit, okOr_eq_ok, rejectIf_eq_ok] at h
  obtain ⟨upload, hget, hstate, -, h⟩ := h
  cases record_recordAll h
  split
  · rename_i hs
    exact Or.inl ⟨(RowsKept.of_eq rfl rfl rfl rfl).quiet,
      by simp [endOwes, hget, hs, UploadState.active]⟩
  · refine Or.inr ⟨upload, hget, ?_, rfl, rfl, rfl, rfl, rfl⟩
    cases hs : upload.state <;> simp_all [UploadState.active]

theorem RowsKept.of_resumed (h : c' = c ∨ Resumed key c c') : RowsKept c c' := by
  obtain rfl | ⟨_, _, _, hget, rfl, -, hstate⟩ := h
  · exact .refl _
  · exact (RowsKept.refl c).put_upload hget hstate

/-! ## Seals -/

/-- A seal that is not a replay verifies its upload, and the outbox is as it was. -/
theorem Sealed.audit (h : Sealed key digest c c') :
    (c.uploadState key ≠ some .receiving ∧ Quiet c c') ∨
      (c.uploadState key = some .receiving ∧ c.shows c' key .uploadVerified = true ∧ c'.outbox = c.outbox) := by
  obtain ⟨upload, hget, h⟩ := h
  have hold : c.uploadState key = some upload.state := by rw [Catalog.uploadState, hget]; rfl
  rw [hold]
  obtain ⟨hstate, rfl⟩ | ⟨hstate | hstate, rfl⟩ := h
  · exact Or.inl ⟨by simp [hstate], (RowsKept.refl _).quiet⟩
  · refine Or.inr ⟨by rw [hstate], ?_, rfl⟩
    have huploads : (c.setUpload key { upload with state := .verified, sealDigest := digest }).uploads =
        c.uploads.put key _ := rfl
    rw [shows_of_upload huploads rfl rfl rfl]
    simp [hold, hstate, UploadState.shows]
  · exact Or.inl ⟨by simp [hstate], ((RowsKept.refl c).put_upload hget hstate.symm).quiet⟩

/-! ## Publication -/

theorem publishRows_outbox
    (h : publishRows key upload semantic family publications c = .ok c') : c'.outbox = c.outbox := by
  unfold publishRows at h
  split at h
  · simp only [bind_eq_ok, exists_unit, pure_eq_ok] at h
    rw [h.2]
  · simp only [commitPublication, bind_eq_ok, exists_unit, pure_eq_ok] at h
    obtain ⟨-, tx, heach, -, rfl⟩ := h
    obtain ⟨_, _, _, heq⟩ := publishEach_frame heach
    simp only [Catalog.setUpload, putCheckpoints, addReferences, heq]

theorem publishManifestBatch_outbox (h : publishManifestBatch C config key publications now c = .ok (c', artifacts))
    (hget : c.uploads.get? key = some upload) :
    c'.outbox = recordAll c.outbox (publicationEvents key upload.generation publications).dedup := by
  simp only [publishManifestBatch, bind_eq_ok, exists_unit, Prod.exists, okOr_eq_ok, pure_eq_ok, Prod.mk.injEq] at h
  obtain ⟨_, _, -, upload', hget', -, c₁, hrows, _, hrecord, rfl, -⟩ := h
  rw [hget, Option.some.injEq] at hget'
  cases hget'
  rw [record_recordAll hrecord, publishRows_outbox hrows]

/-- A manifest appears with the first publication that names it; nothing else moves. -/
theorem Committed.objectShows
    {tx : Publishing} (h : Committed key semantic family publications upload tx c c') :
    c.objectShows c' id event = true ↔
      event = .manifestPublished ∧ ∃ p ∈ publications, p.id = id ∧ c.manifests.get? p.id = none := by
  have hinserted := publishEach_inserted h.each
  obtain ⟨_, rfl⟩ := h.result
  cases event with
  | manifestPublished =>
    simp only [Catalog.objectShows, Bool.and_eq_true, Option.isNone_iff_eq_none, Option.isSome_iff_exists, true_and]
    constructor
    · rintro ⟨hnone, row, hrow⟩
      rcases (hinserted.manifests id row).mp hrow with hold | ⟨q, hq, rfl, -⟩
      · rw [hnone] at hold
        cases hold
      · exact ⟨q, hinserted.subset q hq, rfl, hnone⟩
    · rintro ⟨p, hp, rfl, hnone⟩
      obtain ⟨row, hrow, -⟩ := hinserted.present p hp
      exact ⟨hnone, row, hrow⟩
  | manifestCollected =>
    cases hrow : c.manifests.get? id with
    | none => simp [Catalog.objectShows, hrow]
    | some row =>
      have hrow' := (hinserted.manifests id row).mpr (Or.inl hrow)
      simp [Catalog.objectShows, hrow']
  | chunkCollected =>
    rw [not_chunkCollected fun row hrow => by simp [referencedChunks, Table.get?_map, hrow]]
    simp
  | _ => simp [Catalog.objectShows, Catalog.tombstoned]

theorem publishManifestBatch_audited
    (h : publishManifestBatch C config key publications now c = .ok (c', artifacts)) :
    Recorded (publishOwes key publications c) c c' := by
  obtain ⟨semantic, family, upload, -, hget, -, ⟨hstate, -, _, rfl⟩ | ⟨tx, hcommit⟩⟩ := publishManifestBatch_eq_ok h
  · exact Or.inl ⟨(RowsKept.of_eq rfl rfl rfl rfl).quiet, by simp [publishOwes, hget, hstate]⟩
  · have hne : upload.state ≠ .published := by
      intro hs
      have hactive := hcommit.active
      rw [hs] at hactive
      cases hactive
    have howes : ∀ event id generation, ⟨event, id, generation⟩ ∈ publishOwes key publications c ↔
        generation = upload.generation ∧ ((event = .uploadVerified ∧ id = key ∧ upload.state ≠ .verified) ∨
          (event = .manifestPublished ∧ ∃ p ∈ publications, p.id = id ∧ c.manifests.get? p.id = none)) := by
      intro event id generation
      simp only [publishOwes, hget, if_neg hne, List.mem_append, List.mem_map, List.mem_filter, decide_eq_true_eq,
        LifecycleRecord.mk.injEq]
      by_cases hv : upload.state = .verified
      · simp only [hv, ne_eq, not_true_eq_false, and_false, false_or]
        grind
      · simp only [hv, ne_eq, not_false_eq_true, and_true]
        grind
    refine Or.inr ⟨publicationEvents key upload.generation publications, publishManifestBatch_outbox h hget, ?_, ?_, ?_⟩
    · rintro ⟨event, id, generation⟩ hr
      obtain ⟨rfl, ⟨rfl, rfl, -⟩ | ⟨rfl, p, hp, rfl, -⟩⟩ := (howes event id generation).mp hr
      · exact List.mem_cons_self
      · exact List.mem_cons_of_mem _ (List.mem_map.mpr ⟨p, hp, rfl⟩)
    · rintro ⟨event, id, generation⟩ hr ⟨kind, object, id', generation'⟩ hx hfiles
      obtain ⟨rfl, -⟩ := (howes event id generation).mp hr
      simp only [LifecycleEvent.files, decide_eq_true_eq] at hfiles
      obtain ⟨rfl, rfl, rfl⟩ := hfiles
      have hgeneration : generation' = upload.generation := by
        rcases List.mem_cons.mp hx with hx | hx
        · exact (AuditEventKey.mk.inj hx).2.2.2
        · obtain ⟨p, -, hp⟩ := List.mem_map.mp hx
          exact (AuditEventKey.mk.inj hp).2.2.2.symm
      rw [hgeneration]
      rfl
    · intro event id
      simp only [howes, exists_eq_left, Catalog.shows, Bool.or_eq_true, hcommit.objectShows]
      have hupload : UploadState.shows (c.uploadState id) (c'.uploadState id) event = true ↔
          event = .uploadVerified ∧ id = key ∧ upload.state ≠ .verified := by
        obtain ⟨_, rfl⟩ := hcommit.result
        by_cases hid : id = key
        · subst hid
          have hactive := hcommit.active
          simp only [Catalog.uploadState, hget, Table.get?_put_self, Option.map_some]
          cases hs : upload.state <;> simp [hs, UploadState.active] at hactive hne <;> cases event <;>
            simp [UploadState.shows]
        · simp [Catalog.uploadState, Table.get?_put, hid]
      rw [hupload]

/-! ## Tombstones -/

theorem Audited.of_generation (event : LifecycleEvent) (made : Id32 → Bool) {generation : Id32 → Nat} {ids : List Id32}
    (houtbox : c'.outbox = recordAll c.outbox (ids.map fun id => ⟨event.kind, event.object, id, generation id⟩).dedup)
    (hshown : ∀ event' id, c.shows c' id event' = true ↔ event' = event ∧ id ∈ ids ∧ made id = true) :
    Audited (ids.map fun id => ⟨event.kind, event.object, id, generation id⟩)
      ((ids.filter made).map fun id => ⟨event, id, generation id⟩) c c' where
  outbox := houtbox
  recorded r hr := by
    obtain ⟨id, hid, rfl⟩ := List.mem_map.mp hr
    exact List.mem_map.mpr ⟨id, (List.mem_filter.mp hid).1, rfl⟩
  unique r hr x hx hfiles := by
    obtain ⟨id, -, rfl⟩ := List.mem_map.mp hr
    obtain ⟨id', -, rfl⟩ := List.mem_map.mp hx
    simp only [LifecycleEvent.files, decide_eq_true_eq] at hfiles
    obtain ⟨-, -, rfl⟩ := hfiles
    rfl
  shown event' id := by
    rw [hshown]
    constructor
    · rintro ⟨rfl, hid, hmade⟩
      exact ⟨generation id, List.mem_map.mpr ⟨id, List.mem_filter.mpr ⟨hid, hmade⟩, rfl⟩⟩
    · rintro ⟨_, hmem⟩
      obtain ⟨id', hid', heq⟩ := List.mem_map.mp hmem
      cases heq
      exact ⟨rfl, List.mem_filter.mp hid'⟩

theorem shows_of_tombstones (huploads : c'.uploads = c.uploads) (hmanifests : c'.manifests = c.manifests)
    (hchunks : ∀ id row, c.chunks.get? id = some row → (c'.chunks.get? id).isSome) :
    c.shows c' id event = true ↔
      (event = .manifestTombstoned ∧ c.tombstoned .manifest id = false ∧ c'.tombstoned .manifest id = true) ∨
      (event = .chunkTombstoned ∧ c.tombstoned .chunk id = false ∧ c'.tombstoned .chunk id = true) := by
  rw [shows_of_uploads huploads]
  cases event with
  | chunkCollected => simp [not_chunkCollected (hchunks id)]
  | manifestCollected => cases hrow : c.manifests.get? id <;> simp [Catalog.objectShows, hmanifests, hrow]
  | _ => simp [Catalog.objectShows, hmanifests]

theorem retireKeyEpochsBefore_outbox
    (h : retireKeyEpochsBefore config minimum maximumObjects now c = .ok c') :
    let manifests := retiringManifests c minimum maximumObjects
    let chunks := retiringChunks c minimum (maximumObjects - manifests.length)
    c'.outbox = recordAll c.outbox
      ((manifests.map fun r => AuditEventKey.mk .tombstoned .manifest r.1 r.2.generation) ++
        chunks.map fun r => AuditEventKey.mk .tombstoned .chunk r.1 r.2.keyEpoch.toNat).dedup := by
  intro manifests chunks
  simp only [retireKeyEpochsBefore, bind_eq_ok, exists_unit] at h
  obtain ⟨-, -, -, h⟩ := h
  obtain ⟨_, heq, -⟩ := addTombstones_eq (c := c) .manifest (manifests.map (·.1))
  obtain ⟨_, heq', -⟩ := addTombstones_eq (c := addTombstones .manifest (manifests.map (·.1)) c) .chunk
    (chunks.map (·.1))
  rw [heq', heq] at h
  rw [record_recordAll h]

theorem retiringManifests_row {r : Id32 × ManifestRow}
    (h : r ∈ retiringManifests c minimum limit) :
    c.manifests.get? r.1 = some r.2 ∧ c.tombstoned .manifest r.1 = false := by
  have hmem := (List.mem_insertionSort _).mp (List.mem_of_mem_take h)
  rw [List.mem_filter, Bool.and_eq_true] at hmem
  exact ⟨Table.get?_eq_some_iff.mpr hmem.1, by simpa using hmem.2.2⟩

theorem retiringChunks_row {r : Id32 × ChunkRow}
    (h : r ∈ retiringChunks c minimum limit) : c.chunks.get? r.1 = some r.2 ∧ c.tombstoned .chunk r.1 = false := by
  have hmem := (List.mem_insertionSort _).mp (List.mem_of_mem_take h)
  rw [List.mem_filter, Bool.and_eq_true] at hmem
  exact ⟨Table.get?_eq_some_iff.mpr hmem.1, by simpa using hmem.2.2⟩

theorem retireKeyEpochsBefore_audited
    (h : retireKeyEpochsBefore config config.minimumReadableKeyEpoch maximumObjects now c = .ok c') :
    ∃ records, Audited records (retireOwes config maximumObjects c) c c' := by
  have houtbox := retireKeyEpochsBefore_outbox h
  obtain ⟨tombstones, _, _, heq, hmem, -⟩ := retireKeyEpochsBefore_eq_ok h
  refine ⟨_, houtbox, ?_, ?_, ?_⟩
  · intro r hr
    rcases List.mem_append.mp hr with hr | hr
    · obtain ⟨row, hrow, rfl⟩ := List.mem_map.mp hr
      exact List.mem_append_left _ (List.mem_map.mpr ⟨row, hrow, rfl⟩)
    · obtain ⟨row, hrow, rfl⟩ := List.mem_map.mp hr
      exact List.mem_append_right _ (List.mem_map.mpr ⟨row, hrow, rfl⟩)
  · intro r hr x hx hfiles
    simp only [LifecycleEvent.files, decide_eq_true_eq] at hfiles
    -- two records of one object come from one row of its table
    rcases List.mem_append.mp hr with hr | hr <;> rcases List.mem_append.mp hx with hx | hx <;>
      obtain ⟨⟨_, row⟩, hrow, rfl⟩ := List.mem_map.mp hr <;> obtain ⟨⟨_, row'⟩, hrow', rfl⟩ := List.mem_map.mp hx
    · obtain ⟨-, -, rfl⟩ := hfiles
      have hget := (retiringManifests_row hrow).1
      rw [(retiringManifests_row hrow').1, Option.some.injEq] at hget
      cases hget
      rfl
    · cases hfiles.2.1
    · cases hfiles.2.1
    · obtain ⟨-, -, rfl⟩ := hfiles
      have hget := (retiringChunks_row hrow).1
      rw [(retiringChunks_row hrow').1, Option.some.injEq] at hget
      cases hget
      rfl
  · intro event id
    have htombstones : c'.tombstones = tombstones := by rw [heq]
    rw [shows_of_tombstones (by rw [heq]) (by rw [heq]) fun id row hrow => by
      rw [heq]; exact Option.isSome_of_eq_some hrow]
    simp only [Catalog.tombstoned, htombstones, hmem, decide_eq_true_eq, decide_eq_false_iff_not]
    constructor
    · rintro (⟨rfl, hnot, hold | ⟨_, hr, hkey⟩ | ⟨_, -, hkey⟩⟩ | ⟨rfl, hnot, hold | ⟨_, -, hkey⟩ | ⟨_, hr, hkey⟩⟩)
      · exact absurd hold hnot
      · obtain ⟨r, hrow, rfl⟩ := List.mem_map.mp hr
        cases hkey
        exact ⟨_, List.mem_append_left _ (List.mem_map.mpr ⟨r, hrow, rfl⟩)⟩
      · cases hkey
      · exact absurd hold hnot
      · cases hkey
      · obtain ⟨r, hrow, rfl⟩ := List.mem_map.mp hr
        cases hkey
        exact ⟨_, List.mem_append_right _ (List.mem_map.mpr ⟨r, hrow, rfl⟩)⟩
    · rintro ⟨_, hr⟩
      rcases List.mem_append.mp hr with hr | hr
      · obtain ⟨r, hrow, hkey⟩ := List.mem_map.mp hr
        cases hkey
        have hnot := (retiringManifests_row hrow).2
        exact Or.inl ⟨rfl, by simpa [Catalog.tombstoned] using hnot,
          Or.inr (Or.inl ⟨_, List.mem_map.mpr ⟨r, hrow, rfl⟩, rfl⟩)⟩
      · obtain ⟨r, hrow, hkey⟩ := List.mem_map.mp hr
        cases hkey
        have hnot := (retiringChunks_row hrow).2
        exact Or.inr ⟨rfl, by simpa [Catalog.tombstoned] using hnot,
          Or.inr (Or.inr ⟨_, List.mem_map.mpr ⟨r, hrow, rfl⟩, rfl⟩)⟩

theorem deletePrefix_quiet {prefixId : Id32} {catalogEpoch : Nat}
    (h : deletePrefix config prefixId catalogEpoch now c = .ok c') : Quiet c c' := by
  obtain ⟨_, heq⟩ := deletePrefix_eq_ok h
  intro event id
  have htombstones : c'.tombstones = c.tombstones.insert (.prefixNode, prefixId) := by rw [heq]
  rw [Bool.eq_false_iff, ne_eq, shows_of_tombstones (by rw [heq]) (by rw [heq]) fun id row hrow => by
    rw [heq]; exact Option.isSome_of_eq_some hrow]
  simp only [Catalog.tombstoned, htombstones, List.mem_insert_iff, Prod.mk.injEq, reduceCtorEq, false_and, false_or]
  cases decide ((ObjectKind.manifest, id) ∈ c.tombstones) <;> cases decide ((ObjectKind.chunk, id) ∈ c.tombstones) <;>
    simp

/-! ## Eviction and collection -/

theorem evictManifest_audited (h : evictManifest id now c = .ok (c', eviction)) :
    Recorded (evictOwes id c) c c' := by
  obtain ⟨row, _, hrow, -, -, heq⟩ := evictManifest_eq_ok h
  have houtbox : c'.outbox = recordAll c.outbox ([id].map fun key =>
      AuditEventKey.mk .tombstoned .manifest key row.generation).dedup := by
    simp only [evictManifest, bind_eq_ok, exists_unit, okOr_eq_ok, pure_eq_ok, Prod.mk.injEq] at h
    obtain ⟨row', hrow', -, -, _, hrecord, rfl, -⟩ := h
    rw [hrow, Option.some.injEq] at hrow'
    cases hrow'
    rw [record_recordAll hrecord, addTombstone_eq]
    rfl
  have htombstones : c'.tombstones = c.tombstones.insert (.manifest, id) := by rw [heq]
  have hshown : ∀ event' id', c.shows c' id' event' = true ↔
      event' = .manifestTombstoned ∧ id' ∈ [id] ∧ (!c.tombstoned .manifest id') = true := by
    intro event' id'
    rw [shows_of_tombstones (by rw [heq]) (by rw [heq]) fun k row hrow => by
      rw [heq]; simp [Table.get?_map, hrow]]
    simp only [Catalog.tombstoned, htombstones, List.mem_insert_iff, Prod.mk.injEq, reduceCtorEq, false_and, false_or,
      true_and, List.mem_singleton]
    grind
  have howes : evictOwes id c = ([id].filter fun id' => !c.tombstoned .manifest id').map fun key =>
      ⟨.manifestTombstoned, key, row.generation⟩ := by
    cases htomb : c.tombstoned .manifest id <;> simp [evictOwes, hrow, htomb]
  rw [howes]
  exact Or.inr ⟨_, Audited.of_generation .manifestTombstoned _ houtbox hshown⟩

/-- Rows that only some tombstoned or removed objects can be missing from. -/
theorem shows_of_removal (huploads : c'.uploads = c.uploads) (htombstones : c'.tombstones = c.tombstones)
    (hadded : ∀ id, c.manifests.get? id = none → c'.manifests.get? id = none) :
    c.shows c' id event = true ↔
      (event = .manifestCollected ∧ (c.manifests.get? id).isSome = true ∧ c'.manifests.get? id = none) ∨
      (event = .chunkCollected ∧ (c.chunks.get? id).any (·.locationState.leaving) = true ∧
        c'.chunks.get? id = none) := by
  rw [shows_of_uploads huploads]
  cases event with
  | manifestPublished =>
    cases hrow : c.manifests.get? id with
    | none => simp [Catalog.objectShows, hadded id hrow]
    | some row => simp [Catalog.objectShows, hrow]
  | _ => simp [Catalog.objectShows, Catalog.tombstoned, htombstones]

theorem finishManifestEviction_audited (h : finishManifestEviction eviction now c = .ok c') :
    Recorded (Event.owes config (.finishEviction eviction) c) c c' := by
  obtain ⟨hnone, rfl⟩ | ⟨row, _, hrow, heq⟩ := finishManifestEviction_eq_ok h
  · refine Or.inl ⟨(RowsKept.of_eq rfl rfl rfl rfl).quiet, ?_⟩
    simp [Event.owes, hnone]
  · have houtbox : c'.outbox = recordAll c.outbox ([eviction.manifestId].map fun key =>
        AuditEventKey.mk .collected .manifest key 0).dedup := by
      simp only [finishManifestEviction, bind_eq_ok, exists_unit] at h
      obtain ⟨-, h⟩ := h
      rw [if_neg (by rw [hrow]; exact Option.some_ne_none row)] at h
      rw [record_recordAll h]
      rfl
    have hget : ∀ id', c'.manifests.get? id' = if id' = eviction.manifestId then none else c.manifests.get? id' := by
      intro id'
      rw [heq, Table.get?_erase]
    have hshown : ∀ event' id', c.shows c' id' event' = true ↔
        event' = .manifestCollected ∧ id' ∈ [eviction.manifestId] ∧ true = true := by
      intro event' id'
      rw [shows_of_removal (by rw [heq]) (by rw [heq]) fun k hk => by rw [hget, hk]; exact ite_self _, hget]
      have hchunks : c'.chunks = c.chunks := by rw [heq]
      rw [hchunks, List.mem_singleton]
      constructor
      · rintro (⟨rfl, hsome, hnone⟩ | ⟨rfl, hleaving, hnone⟩)
        · by_cases hid : id' = eviction.manifestId
          · exact ⟨rfl, hid, rfl⟩
          · rw [if_neg hid] at hnone
            rw [hnone] at hsome
            cases hsome
        · rw [hnone] at hleaving
          cases hleaving
      · rintro ⟨rfl, rfl, -⟩
        exact Or.inl ⟨rfl, by rw [hrow]; rfl, if_pos rfl⟩
    have howes : Event.owes config (.finishEviction eviction) c =
        ([eviction.manifestId].filter fun _ => true).map fun key => ⟨.manifestCollected, key, 0⟩ := by
      simp [Event.owes, hrow]
    rw [howes]
    exact Or.inr ⟨_, Audited.of_generation .manifestCollected _ houtbox hshown⟩

theorem selectVictims_audited {keys : List Id32} {victims : List Victim}
    (h : selectVictims keys now c = .ok (c', victims)) :
    ∃ records, Audited records (selectOwes keys c) c c' := by
  obtain ⟨-, hnodup, hkeys, -, tombstones, _, heq, hmem⟩ := selectVictims_eq_ok h
  have houtbox : c'.outbox = recordAll c.outbox (keys.map fun key => AuditEventKey.mk .tombstoned .chunk key
      (((c.chunks.get? key).map (·.keyEpoch.toNat)).getD 0)).dedup := by
    simp only [selectVictims, bind_eq_ok, exists_unit, pure_eq_ok, Prod.mk.injEq] at h
    obtain ⟨-, -, _, hrecord, rfl, -⟩ := h
    obtain ⟨_, hmark, -⟩ := markEachEvicting_eq (c := c) hnodup
    rw [record_recordAll hrecord, hmark]
    rfl
  refine ⟨_, Audited.of_generation .chunkTombstoned (fun key => !c.tombstoned .chunk key) houtbox ?_⟩
  intro event' id'
  have htombstones : c'.tombstones = tombstones := by rw [heq]
  rw [shows_of_tombstones (by rw [heq]) (by rw [heq]) fun k row hrow => by
    rw [heq]; simp [evictRows, Table.get?_map, hrow]]
  simp only [Catalog.tombstoned, htombstones, hmem, decide_eq_true_eq, decide_eq_false_iff_not, Bool.not_eq_true',
    Prod.mk.injEq, reduceCtorEq, false_and, and_false, exists_false, or_false, true_and, exists_eq_right']
  grind

/-- A collection deletes the rows that are leaving and that nothing refers to. -/
theorem removeRows_get? (moved : List Moved) (c : Catalog) (key : Id32) :
    (removeRows moved c).1.chunks.get? key = none ↔ c.chunks.get? key = none ∨
      (key ∈ moved.map (·.objectKey) ∧
        (c.chunks.get? key).any (fun row => row.locationState.leaving && row.refcount = 0) = true) := by
  induction moved generalizing c with
  | nil => simp [removeRows]
  | cons m rest ih =>
    obtain ⟨chunks, freed, heq, hremoval⟩ := removeRow_eq m c
    have hcons : (removeRows (m :: rest) c).1 = (removeRows rest { c with chunks }).1 := by
      simp only [removeRows, heq]
    rw [hcons, ih, List.map_cons, List.mem_cons]
    cases hremoval with
    | kept hkept =>
      by_cases hkey : key = m.objectKey
      · subst hkey
        have hnot : (c.chunks.get? m.objectKey).any (fun row => row.locationState.leaving && row.refcount = 0) =
            false := by
          cases hrow : c.chunks.get? m.objectKey with
          | none => rfl
          | some row =>
            have hstate := hkept row hrow
            cases hs : row.locationState <;> simp_all [LocationState.leaving]
        simp [hnot]
      · simp [hkey]
    | deleted row hrow hstate hcount =>
      by_cases hkey : key = m.objectKey
      · subst hkey
        have hleaving : row.locationState.leaving = true := by
          rcases hstate with hs | hs <;> rw [hs] <;> rfl
        simp [hrow, hleaving, hcount]
      · simp [Table.get?_erase, hkey]
    | trashed row hrow hstate hcount =>
      by_cases hkey : key = m.objectKey
      · subst hkey
        simp [hrow, hcount]
      · simp [Table.get?_put, hkey]

theorem finishCollection_audited {moved : List Moved} (h : finishCollection moved now c = .ok c') :
    Recorded (collectOwes moved c) c c' := by
  obtain ⟨_, heq⟩ := finishCollection_eq_ok h
  obtain ⟨_, _, hremove⟩ := removeRows_frame moved c
  have hchunks : c'.chunks = (removeRows moved c).1.chunks := by rw [heq]
  have huploads : c'.uploads = c.uploads := by rw [heq, hremove]
  have hmanifests : c'.manifests = c.manifests := by rw [heq, hremove]
  have htombstones : c'.tombstones = c.tombstones := by rw [heq, hremove]
  have hshown : ∀ event' id', c.shows c' id' event' = true ↔ event' = .chunkCollected ∧
      id' ∈ moved.map (·.objectKey) ∧
      (c.chunks.get? id').any (fun row => row.locationState.leaving && row.refcount = 0) = true := by
    intro event' id'
    rw [shows_of_removal huploads htombstones fun k hk => by rw [hmanifests, hk], hmanifests, hchunks, removeRows_get?]
    cases hmanifest : c.manifests.get? id' <;> cases hrow : c.chunks.get? id' <;> simp <;> grind
  simp only [finishCollection, bind_eq_ok, exists_unit] at h
  obtain ⟨-, h⟩ := h
  have hdeleted : ((moved.map (·.objectKey)).filter fun key =>
      (c.chunks.get? key).isSome ∧ (removeRows moved c).1.chunks.get? key = none) =
      (moved.map (·.objectKey)).filter fun key =>
        (c.chunks.get? key).any fun row => row.locationState.leaving && row.refcount = 0 := by
    refine List.filter_congr fun key hkey => ?_
    rw [Bool.eq_iff_iff, decide_eq_true_eq, removeRows_get?]
    cases hrow : c.chunks.get? key <;> simp [hkey]
  rw [hdeleted] at h
  split at h
  · rename_i hempty
    refine Or.inl ⟨fun event id => ?_, ?_⟩
    · rw [Bool.eq_false_iff, ne_eq, hshown]
      rintro ⟨-, hmem, hany⟩
      exact List.filter_eq_nil_iff.mp hempty id hmem hany
    · simp [collectOwes, hempty]
  · have houtbox := congrArg Catalog.outbox (record_recordAll h)
    rw [hremove] at houtbox
    have howes : collectOwes moved c = (((moved.map (·.objectKey)).filter fun key => (c.chunks.get? key).any fun row =>
        row.locationState.leaving && row.refcount = 0).filter fun _ => true).map fun key =>
          ⟨.chunkCollected, key, 0⟩ := by
      rw [List.filter_true]
      rfl
    rw [howes]
    refine Or.inr ⟨_, Audited.of_generation .chunkCollected _ houtbox fun event' id' => ?_⟩
    rw [hshown, List.mem_filter]
    simp

/-! ## Puts, demotion and withdrawal -/

theorem catalogChunks_kept {objects : List ChunkObject} {keyEpoch : UInt64} {ledger : Option (Id32 × Nat)}
    {cataloged : List CatalogedChunk} (h : catalogChunks objects keyEpoch ledger c = .ok (c', cataloged)) :
    RowsKept c c' := by
  obtain ⟨c₁, heach, h⟩ := catalogChunks_eq_ok h
  have hrows := (catalogEach_rows heach).1
  obtain ⟨chunks, rfl⟩ := catalogEach_frame heach
  have hkept : RowsKept c { c with chunks } :=
    ⟨fun _ => rfl, rfl, rfl, fun id row hrow => Option.isSome_of_eq_some (hrows id row hrow)⟩
  obtain rfl | ⟨_, _, _, _, hget, rfl, -, hstate⟩ := h
  · exact hkept
  · exact hkept.put_upload hget hstate

theorem demoteVictims_kept {victims : List Demoted} (h : demoteVictims victims c = .ok c') : RowsKept c c' := by
  obtain ⟨chunks, _, rfl, -, hrows⟩ := demoteVictims_eq_ok
    (P := fun _ chunks _ => ∀ id row, c.chunks.get? id = some row → (chunks.get? id).isSome) h
    (fun id row hrow => Option.isSome_of_eq_some hrow) (by
      intro victim rest chunks chunks' freed durable hdemotion hrows id row hrow
      have hsome := hrows id row hrow
      cases hdemotion with
      | kept hkept => exact hsome
      | quantized row hrow hstate hrung hvictim =>
        rw [Table.get?_put]
        split
        · rfl
        · exact hsome
      | dropped row hrow hstate hrung hvictim =>
        rw [Table.get?_put]
        split
        · rfl
        · exact hsome)
  exact ⟨fun _ => rfl, rfl, rfl, hrows⟩

/-- A withdrawal collects an object unrecorded exactly when its row is leaving. -/
theorem cleanupPromotion_audit (key objectKey : Id32) (c : Catalog) :
    (Event.silent (.cleanupPromotion key objectKey) c = false ∧ Quiet c (cleanupPromotion key objectKey c)) ∨
      (Event.silent (.cleanupPromotion key objectKey) c = true ∧
        c.shows (cleanupPromotion key objectKey c) objectKey .chunkCollected = true) := by
  unfold cleanupPromotion
  cases hexclusive : c.exclusive key objectKey with
  | false => exact Or.inl ⟨by simp [Event.silent, hexclusive], (RowsKept.refl c).quiet⟩
  | true =>
    have hcount : ∀ row, c.chunks.get? objectKey = some row → row.refcount = 0 := by
      intro row hrow
      simp only [Catalog.exclusive, Bool.and_eq_true, Bool.not_eq_true', Table.any_eq_false] at hexclusive
      simpa using hexclusive.1.1 objectKey row hrow
    have hget : ∀ id, (c.chunks.filter fun k row => ¬ (k = objectKey ∧ row.refcount = 0)).get? id =
        if id = objectKey then none else c.chunks.get? id := by
      intro id
      rw [Table.get?_filter]
      by_cases hid : id = objectKey
      · subst hid
        cases hrow : c.chunks.get? id with
        | none => simp
        | some row => simp [hcount row hrow, Option.filter]
      · cases hrow : c.chunks.get? id <;> simp [hid]
    simp only [if_true]
    cases hleaving : (c.chunks.get? objectKey).any (·.locationState.leaving) with
    | false =>
      refine Or.inl ⟨by simp [Event.silent, hleaving], fun event id => ?_⟩
      have hshows : c.shows { c with chunks := c.chunks.filter fun k row => ¬ (k = objectKey ∧ row.refcount = 0) }
          id event = true ↔ _ := shows_of_removal rfl rfl fun _ hnone => hnone
      rw [Bool.eq_false_iff, ne_eq, hshows]
      rintro (⟨-, hsome, hnone⟩ | ⟨-, hany, hnone⟩)
      · have hnone' : c.manifests.get? id = none := hnone
        rw [hnone'] at hsome
        cases hsome
      · rw [hget] at hnone
        by_cases hid : id = objectKey
        · rw [hid, hleaving] at hany
          cases hany
        · rw [if_neg hid] at hnone
          rw [hnone] at hany
          cases hany
    | true =>
      refine Or.inr ⟨by simp [Event.silent, hexclusive, hleaving], ?_⟩
      simp only [Catalog.shows, Catalog.objectShows, hleaving, hget, if_true, Option.isNone_none, Bool.and_self,
        Bool.or_true]

/-! ## Steps -/

/-- What the audit says about a silent step. -/
def Missed (c c' : Catalog) : Prop := ∃ event id, c.shows c' id event = true ∧ c'.outbox = c.outbox

theorem Missed.not_complete (h : Missed c c') : ¬ AuditComplete c c' := by
  obtain ⟨event, id, hshows, houtbox⟩ := h
  intro hcomplete
  have hcount := hcomplete event id hshows
  rw [houtbox] at hcount
  omega

theorem Transaction.apply_audit {t : Transaction} (h : t.apply C config now c = .ok c') :
    (Event.silent (.transact t) c = false ∧ Recorded (Event.owes config (.transact t) c) c c') ∨
      (Event.silent (.transact t) c = true ∧ Missed c c') := by
  cases t with
  | reserve key reservation =>
    simp only [apply, map_eq_ok, Prod.exists, exists_and_right, exists_eq_right] at h
    obtain ⟨state, h⟩ := h
    exact Or.inl ⟨rfl, reserveUpload_audited h⟩
  | markReceiving key => exact Or.inl ⟨rfl, Or.inl ⟨markReceiving_quiet h, rfl⟩⟩
  | abort key => exact Or.inl ⟨rfl, abortUpload_audited h⟩
  | quarantine key => exact Or.inl ⟨rfl, quarantineUpload_audited h⟩
  | adoptSession key token =>
    exact Or.inl ⟨rfl, (RowsKept.of_resumed (Or.inr (adoptProvisionalSession_eq_ok h))).recorded⟩
  | stageBatch key token first staged =>
    exact Or.inl ⟨rfl, (RowsKept.of_resumed (commitProvisionalStageBatch_eq_ok h)).recorded⟩
  | sealProvisional key token expectedChunks digest =>
    obtain ⟨hstate, hquiet⟩ | ⟨hstate, hshows, houtbox⟩ := (sealProvisionalUpload_eq_ok h).1.audit
    · exact Or.inl ⟨by simp [Event.silent, hstate], Or.inl ⟨hquiet, rfl⟩⟩
    · exact Or.inr ⟨by simp [Event.silent, hstate], _, _, hshows, houtbox⟩
  | clearLedger key published =>
    exact Or.inl ⟨rfl, (RowsKept.of_resumed (Or.inr (clearProvisionalLedger_eq_ok h))).recorded⟩
  | bindImport key manifestId => exact Or.inl ⟨rfl, (RowsKept.of_resumed (bindImportManifest_eq_ok h)).recorded⟩
  | sealImport key expectedChunks digest =>
    obtain ⟨hstate, hquiet⟩ | ⟨hstate, hshows, houtbox⟩ := (sealAuthenticatedImport_eq_ok h).audit
    · exact Or.inl ⟨by simp [Event.silent, hstate], Or.inl ⟨hquiet, rfl⟩⟩
    · exact Or.inr ⟨by simp [Event.silent, hstate], _, _, hshows, houtbox⟩
  | publish key publications =>
    simp only [apply, map_eq_ok, Prod.exists, exists_and_right, exists_eq_right] at h
    obtain ⟨artifacts, h⟩ := h
    exact Or.inl ⟨rfl, publishManifestBatch_audited h⟩
  | retire maximumObjects => exact Or.inl ⟨rfl, Or.inr (retireKeyEpochsBefore_audited h)⟩
  | deletePrefix prefixId => exact Or.inl ⟨rfl, Or.inl ⟨deletePrefix_quiet h, rfl⟩⟩
  | pin references =>
    obtain ⟨pins, rfl⟩ := pinChunkRows_eq_ok h
    exact Or.inl ⟨rfl, RowsKept.recorded (.of_eq rfl rfl rfl rfl)⟩
  | unpin pinIds =>
    obtain ⟨pins, rfl⟩ := releaseRetainedSourcePins_eq_ok h
    exact Or.inl ⟨rfl, RowsKept.recorded (.of_eq rfl rfl rfl rfl)⟩
  | acquireLease request =>
    obtain rfl | ⟨_, _, -, rfl⟩ := acquireSourceLease_eq_ok h
    · exact Or.inl ⟨rfl, (RowsKept.refl _).recorded⟩
    · exact Or.inl ⟨rfl, RowsKept.recorded (.of_eq rfl rfl rfl rfl)⟩
  | reattachLease fence maximumDurationNs =>
    obtain ⟨_, -, -, rfl⟩ := reattachSourceLease_eq_ok h
    exact Or.inl ⟨rfl, RowsKept.recorded (.of_eq rfl rfl rfl rfl)⟩
  | releaseLease leaseId ownerId authorityTerm =>
    obtain ⟨_, rfl, -⟩ := releaseSourceLease_eq_ok h
    exact Or.inl ⟨rfl, RowsKept.recorded (.of_eq rfl rfl rfl rfl)⟩

/-- Every committed step records the transitions it owes, or is silent about one. -/
theorem exec_audit (h : exec C config s e = .ok s') :
    (e.silent s.catalog = false ∧ Recorded (e.owes config s.catalog) s.catalog s'.catalog) ∨
      (e.silent s.catalog = true ∧ Missed s.catalog s'.catalog) := by
  by_cases hreads : e.reads = true
  · obtain ⟨outbox, heq⟩ := exec_reads h hreads
    rw [heq]
    refine Or.inl ?_
    cases e with
    | _ => first | exact ⟨rfl, RowsKept.recorded (.of_eq rfl rfl rfl rfl)⟩ | cases hreads
  cases e with
  | transact t =>
    obtain ⟨c', happly, rfl⟩ := exec_transact h
    exact Transaction.apply_audit happly
  | catalogPut put =>
    obtain ⟨-, -, c', cataloged, hcataloged, rfl⟩ := exec_catalogPut h
    exact Or.inl ⟨rfl, (catalogChunks_kept hcataloged).recorded⟩
  | cleanupPromotion key objectKey =>
    cases h
    obtain ⟨hsilent, hquiet⟩ | ⟨hsilent, hshows⟩ := cleanupPromotion_audit key objectKey s.catalog
    · exact Or.inl ⟨hsilent, Or.inl ⟨hquiet, rfl⟩⟩
    · obtain ⟨_, heq, -⟩ := cleanupPromotion_eq s.catalog key objectKey
      exact Or.inr ⟨hsilent, _, _, hshows, by rw [heq]⟩
  | evict manifestId =>
    obtain ⟨c', eviction, hevict, rfl⟩ := exec_evict h
    exact Or.inl ⟨rfl, evictManifest_audited hevict⟩
  | finishEviction eviction =>
    obtain ⟨-, c', hfinish, rfl⟩ := exec_finishEviction h
    exact Or.inl ⟨rfl, finishManifestEviction_audited hfinish⟩
  | selectVictims keys =>
    obtain ⟨c', victims, hselect, rfl⟩ := exec_selectVictims h
    exact Or.inl ⟨rfl, Or.inr (selectVictims_audited hselect)⟩
  | finishCollection collection =>
    obtain ⟨-, -, -, c', hfinish, rfl⟩ := exec_finishCollection h
    exact Or.inl ⟨rfl, finishCollection_audited hfinish⟩
  | demoteVictims victims =>
    obtain ⟨-, c', hdemote, rfl⟩ := exec_demoteVictims h
    exact Or.inl ⟨rfl, (demoteVictims_kept hdemote).recorded⟩
  | _ => exact absurd rfl hreads

end Kvpack.Store
