import Kvpack.Store.Lemmas.Publish

/-!
# What one step does

A step changes the catalog by at most one transaction. Two views of it are enough for most invariants: what it does to
the uploads, and whether it leaves the objects alone.
-/

namespace Kvpack.Store

open Base Kvpack.Core

variable {C : Crypto} {config : StoreConfig} {c c' : Catalog} {now : Nat} {s s' : State} {e : Event}
variable {index : Nat} {key : Id32} {keys : List Id32} {P : State → Prop}

/-! ## One lemma per event -/

theorem exec_transact {t : Transaction} (h : exec C config s (.transact t) = .ok s') :
    ∃ catalog, t.apply C config s.clock s.catalog = .ok catalog ∧ s' = { s with catalog } := by
  simp only [exec, bind_eq_ok, pure_eq_ok] at h
  obtain ⟨catalog, happly, rfl⟩ := h
  exact ⟨catalog, happly, rfl⟩

theorem exec_lookUp {put : Put} {object : ChunkObject} (h : exec C config s (.lookUp put object) = .ok s') :
    put ∈ s.puts ∧ (s' = s ∨ s' = s.advancePut put { put with items := put.items ++ [⟨object, .inspect⟩] }) := by
  simp only [exec, lookUpChunk, bind_eq_ok, exists_unit, rejectIf_eq_ok, not_not] at h
  obtain ⟨hput, h⟩ := h
  split at h
  · cases h
    exact ⟨hput, Or.inl rfl⟩
  · cases h
    exact ⟨hput, Or.inr rfl⟩

theorem exec_inspectTarget {put : Put} (h : exec C config s (.inspectTarget put index) = .ok s') :
    put ∈ s.puts ∧ ∃ item, put.items[index]? = some item ∧ item.phase = .inspect ∧
      s' = s.advancePut put
        (put.setPhase index item (if item.object.objectKey ∈ s.files then .done false else .link)) := by
  simp only [exec, inspectTarget, bind_eq_ok, exists_unit, rejectIf_eq_ok, not_not, okOr_eq_ok, ne_eq,
    pure_eq_ok] at h
  obtain ⟨hput, item, hitem, hphase, rfl⟩ := h
  exact ⟨hput, item, hitem, hphase, rfl⟩

theorem exec_linkTarget {put : Put} (h : exec C config s (.linkTarget put index) = .ok s') :
    put ∈ s.puts ∧ ∃ item, put.items[index]? = some item ∧ item.phase = .link ∧
      ((item.object.objectKey ∈ s.files ∧ s' = s.advancePut put (put.setPhase index item (.done false))) ∨
        (item.object.objectKey ∉ s.files ∧ s' = { s.advancePut put (put.setPhase index item (.done true)) with
          files := item.object.objectKey :: s.files })) := by
  simp only [exec, linkTarget, bind_eq_ok, exists_unit, rejectIf_eq_ok, not_not, okOr_eq_ok, ne_eq] at h
  obtain ⟨hput, item, hitem, hphase, h⟩ := h
  refine ⟨hput, item, hitem, hphase, ?_⟩
  split at h
  · cases h
    exact Or.inl ⟨‹_›, rfl⟩
  · cases h
    exact Or.inr ⟨‹_›, rfl⟩

theorem exec_catalogPut {put : Put} (h : exec C config s (.catalogPut put) = .ok s') :
    put ∈ s.puts ∧ (∀ item ∈ put.items, item.isDone) ∧ ∃ catalog cataloged,
      catalogChunks (put.items.map (·.object)) put.keyEpoch put.ledger s.catalog = .ok (catalog, cataloged) ∧
      s' = { s with
        catalog
        puts := s.puts.erase put
        duplicates := supersededFiles put.items cataloged ++ s.duplicates } := by
  simp only [exec, catalogPut, bind_eq_ok, exists_unit, rejectIf_eq_ok, not_or, not_not, not_exists, not_and,
    Prod.exists, pure_eq_ok] at h
  obtain ⟨⟨hput, -, hdone⟩, catalog, cataloged, hcataloged, rfl⟩ := h
  exact ⟨hput, hdone, catalog, cataloged, hcataloged, rfl⟩

theorem exec_quarantineDuplicate (h : exec C config s (.quarantineDuplicate key) = .ok s') :
    key ∈ s.duplicates ∧ s' = { s.removeFile key with duplicates := s.duplicates.erase key } := by
  simp only [exec, bind_eq_ok, exists_unit, rejectIf_eq_ok, not_not, pure_eq_ok] at h
  exact ⟨h.1, h.2.symm⟩

theorem exec_evict {id : Id32} (h : exec C config s (.evict id) = .ok s') :
    ∃ catalog eviction, evictManifest id s.clock s.catalog = .ok (catalog, eviction) ∧
      s' = { s with catalog, evictions := eviction :: s.evictions } := by
  simp only [exec, bind_eq_ok, Prod.exists, pure_eq_ok] at h
  obtain ⟨catalog, eviction, hevict, rfl⟩ := h
  exact ⟨catalog, eviction, hevict, rfl⟩

theorem exec_finishEviction {eviction : Eviction} (h : exec C config s (.finishEviction eviction) = .ok s') :
    eviction ∈ s.evictions ∧ ∃ catalog, finishManifestEviction eviction s.clock s.catalog = .ok catalog ∧
      s' = { s with catalog, evictions := s.evictions.erase eviction } := by
  simp only [exec, bind_eq_ok, exists_unit, rejectIf_eq_ok, not_not, pure_eq_ok] at h
  obtain ⟨heviction, catalog, hfinish, rfl⟩ := h
  exact ⟨heviction, catalog, hfinish, rfl⟩

theorem exec_selectVictims (h : exec C config s (.selectVictims keys) = .ok s') :
    ∃ catalog victims, selectVictims keys s.clock s.catalog = .ok (catalog, victims) ∧
      s' = { s with catalog, collections := ⟨victims, none, []⟩ :: s.collections } := by
  simp only [exec, bind_eq_ok, Prod.exists, pure_eq_ok] at h
  obtain ⟨catalog, victims, hselect, rfl⟩ := h
  exact ⟨catalog, victims, hselect, rfl⟩

theorem exec_checkVictim {collection : Collection} (h : exec C config s (.checkVictim collection) = .ok s') :
    collection ∈ s.collections ∧ collection.current = none ∧ ∃ victim pending current,
      collection.pending = victim :: pending ∧ checkVictim victim s.catalog = .ok current ∧
      s' = { s with collections := { collection with pending, current } :: s.collections.erase collection } := by
  simp only [exec, checkNextVictim, bind_eq_ok, exists_unit, rejectIf_eq_ok, not_or, not_not, ne_eq] at h
  obtain ⟨⟨hcollection, hcurrent⟩, h⟩ := h
  split at h
  · cases h
  · rename_i victim pending hpending
    simp only [bind_eq_ok, pure_eq_ok] at h
    obtain ⟨current, hcheck, rfl⟩ := h
    exact ⟨hcollection, hcurrent, victim, pending, current, hpending, hcheck, rfl⟩

theorem exec_moveVictim {collection : Collection} (h : exec C config s (.moveVictim collection) = .ok s') :
    collection ∈ s.collections ∧ ∃ moved, collection.current = some moved ∧
      s' = { s.removeFile moved.objectKey with
        collections := { collection with current := none, moved := collection.moved ++ [moved] } ::
          s.collections.erase collection } := by
  simp only [exec, moveVictim, bind_eq_ok, exists_unit, rejectIf_eq_ok, not_not, okOr_eq_ok, pure_eq_ok] at h
  obtain ⟨hcollection, moved, hcurrent, rfl⟩ := h
  exact ⟨hcollection, moved, hcurrent, rfl⟩

theorem exec_finishCollection {collection : Collection} (h : exec C config s (.finishCollection collection) = .ok s') :
    collection ∈ s.collections ∧ collection.pending = [] ∧ collection.current = none ∧
      ∃ catalog, finishCollection collection.moved s.clock s.catalog = .ok catalog ∧
        s' = { s with catalog, collections := s.collections.erase collection } := by
  simp only [exec, bind_eq_ok, exists_unit, rejectIf_eq_ok, not_or, not_not, ne_eq, pure_eq_ok] at h
  obtain ⟨⟨hcollection, hpending, hcurrent⟩, catalog, hfinish, rfl⟩ := h
  exact ⟨hcollection, hpending, hcurrent, catalog, hfinish, rfl⟩

theorem exec_selectDemotions (h : exec C config s (.selectDemotions keys) = .ok s') :
    ∃ victims, selectDemotions keys s.clock s.catalog = .ok victims ∧
      s' = { s with demotions := victims :: s.demotions } := by
  simp only [exec, bind_eq_ok, pure_eq_ok] at h
  obtain ⟨victims, hselect, rfl⟩ := h
  exact ⟨victims, hselect, rfl⟩

theorem exec_demoteVictims {victims : List Demoted} (h : exec C config s (.demoteVictims victims) = .ok s') :
    victims ∈ s.demotions ∧ ∃ catalog, demoteVictims victims s.catalog = .ok catalog ∧
      s' = { s with
        catalog
        demotions := s.demotions.erase victims
        removals := droppedBytes victims :: s.removals } := by
  simp only [exec, bind_eq_ok, exists_unit, rejectIf_eq_ok, not_not, pure_eq_ok] at h
  obtain ⟨hvictims, catalog, hdemote, rfl⟩ := h
  exact ⟨hvictims, catalog, hdemote, rfl⟩

theorem exec_dropFile {removal : List Id32} (h : exec C config s (.dropFile removal) = .ok s') :
    removal ∈ s.removals ∧ ∃ key keys, removal = key :: keys ∧
      s' = { s.removeFile key with removals := keys :: s.removals.erase removal } := by
  cases removal with
  | nil => cases h
  | cons key keys =>
    simp only [exec, bind_eq_ok, exists_unit, rejectIf_eq_ok, not_not, pure_eq_ok] at h
    exact ⟨h.1, key, keys, rfl, h.2.symm⟩

/-! ## Uploads -/

/-- What a step does to the uploads, with its effect on the two byte ledgers. -/
inductive UploadStep (config : StoreConfig) (c c' : Catalog) : Prop
  | same (huploads : c'.uploads = c.uploads) (hreserved : c'.reservedBytes = c.reservedBytes)
      (hdurable : c'.durableBytes ≤ c.durableBytes)
  | kept (key : Id32) (upload upload' : Upload) (hget : c.uploads.get? key = some upload)
      (hkeeps : upload.Keeps upload') (huploads : c'.uploads = c.uploads.put key upload')
      (hreserved : c'.reservedBytes = c.reservedBytes) (hdurable : c'.durableBytes ≤ c.durableBytes)
  | reserved (key : Id32) (upload : Upload)
      (hget : ∀ upload', c.uploads.get? key = some upload' → upload'.state = .aborted)
      (hkey : isZeroId key = false) (hgeneration : upload.generation ≤ maxI64)
      (hstate : upload.state = .reserved) (huploads : c'.uploads = c.uploads.put key upload)
      (hreserved : c'.reservedBytes = c.reservedBytes + upload.reservedBytes)
      (hdurable : c'.durableBytes = c.durableBytes)
      (hstaging : c'.reservedBytes ≤ config.stagingQuotaBytes)
      (hquota : c'.durableBytes + c'.reservedBytes ≤ config.quotaBytes)
  | released (key : Id32) (upload upload' : Upload) (hget : c.uploads.get? key = some upload)
      (hactive : upload.state.active) (hended : upload'.state.active = false)
      (huploads : c'.uploads = c.uploads.put key upload') (hgeneration : upload'.generation = upload.generation)
      (hreserved : c'.reservedBytes = c.reservedBytes - upload.reservedBytes)
      (hdurable : c'.durableBytes ≤ c.durableBytes + upload.reservedBytes)

theorem publishManifestBatch_uploadStep {publications : List PendingManifest}
    {artifacts : List PublishedArtifact}
    (h : publishManifestBatch C config key publications now c = .ok (c', artifacts)) :
    UploadStep config c c' := by
  obtain ⟨_, _, upload, -, hget, -, ⟨-, -, _, rfl⟩ | ⟨tx, hcommit⟩⟩ := publishManifestBatch_eq_ok h
  · exact .same rfl rfl (le_refl _)
  · obtain ⟨_, rfl⟩ := hcommit.result
    exact .released key upload _ hget hcommit.active rfl rfl rfl rfl (Nat.add_le_add_left hcommit.fits _)

/-! ## The other single transactions -/

/-- The tables that a transaction on an upload may write to. -/
def OnlyUploads (c c' : Catalog) : Prop :=
  ∃ reservedBytes uploads uploadChunks writeTickets outbox,
    c' = { c with reservedBytes, uploads, uploadChunks, writeTickets, outbox }

def Transaction.onLeases : Transaction → Bool
  | .acquireLease _ | .reattachLease _ _ | .releaseLease _ _ _ => true
  | _ => false

/-- What a transaction other than a publication does. -/
inductive TransactionStep (config : StoreConfig) (now : Nat) (t : Transaction) (c : Catalog) : Catalog → Prop
  | recorded (outbox : AuditOutbox) : TransactionStep config now t c { c with outbox }
  | touched (key : Id32) (c' : Catalog) (honly : OnlyUploads c c') (upload upload' : Upload)
      (hget : c.uploads.get? key = some upload) (hkeeps : upload.Keeps upload')
      (huploads : c'.uploads = c.uploads.put key upload') (hreserved : c'.reservedBytes = c.reservedBytes) :
      TransactionStep config now t c c'
  | reserved (key : Id32) (reservation : UploadReservation) (ht : t = .reserve key reservation) (row : Upload)
      (hget : ∀ upload, c.uploads.get? key = some upload → upload.state = .aborted) (hstate : row.state = .reserved)
      (hbytes : row.reservedBytes = reservation.expectedBytes)
      (hgeneration : row.generation = reservation.publicationGeneration) (c' : Catalog)
      (h : admitReservation config key reservation row now c = .ok c') : TransactionStep config now t c c'
  | released (key : Id32) (ht : t = .abort key ∨ t = .quarantine key) (state : UploadState)
      (hstate : state.active = false) (c' : Catalog) (h : Released key state c c') : TransactionStep config now t c c'
  | retired (maximumObjects : Nat) (c' : Catalog) (ht : t = .retire maximumObjects)
      (h : retireKeyEpochsBefore config config.minimumReadableKeyEpoch maximumObjects now c = .ok c') :
      TransactionStep config now t c c'
  | deleted (prefixId : Id32) (c' : Catalog) (ht : t = .deletePrefix prefixId)
      (h : deletePrefix config prefixId config.catalogEpoch now c = .ok c') : TransactionStep config now t c c'
  | onPins (pins : Table Id32 Id32) : TransactionStep config now t c { c with pins }
  | onLeases (ht : t.onLeases) (sourceLeases : Table Id32 SourceLease) :
      TransactionStep config now t c { c with sourceLeases }

variable {t : Transaction}

theorem TransactionStep.of_touched (h : c' = c ∨ Touched key c c') : TransactionStep config now t c c' := by
  obtain rfl | ⟨upload, upload', uploadChunks, hget, rfl, hkeeps⟩ := h
  · exact .recorded _
  · exact .touched key _ ⟨_, _, _, _, _, rfl⟩ upload upload' hget hkeeps rfl rfl

theorem TransactionStep.of_resumed (h : c' = c ∨ Resumed key c c') : TransactionStep config now t c c' :=
  .of_touched (h.imp_right Resumed.touched)

theorem TransactionStep.of_released {state : UploadState} (ht : t = .abort key ∨ t = .quarantine key)
    (hstate : state.active = false) (h : (∃ outbox, c' = { c with outbox }) ∨ Released key state c c') :
    TransactionStep config now t c c' := by
  obtain ⟨outbox, rfl⟩ | h := h
  · exact .recorded outbox
  · exact .released key ht state hstate _ h

theorem Transaction.apply_eq_ok (h : t.apply C config now c = .ok c')
    (hpublish : ∀ key publications, t ≠ .publish key publications) : TransactionStep config now t c c' := by
  cases t with
  | reserve key reservation =>
    simp only [apply, map_eq_ok, Prod.exists, exists_and_right, exists_eq_right] at h
    obtain ⟨state, h⟩ := h
    obtain ⟨_, -, -, -, rfl⟩ | ⟨row, hget, hstate, hbytes, hgeneration, -, -, hadmit⟩ := reserveUpload_eq_ok h
    · exact .recorded _
    · exact .reserved key reservation rfl row hget hstate hbytes hgeneration _ hadmit
  | markReceiving key =>
    obtain ⟨upload, _, hget, hstate, rfl⟩ := markReceiving_eq_ok h
    have hactive : upload.state.active := by rcases hstate with hstate | hstate <;> rw [hstate] <;> rfl
    exact .touched key _ ⟨_, _, _, _, _, rfl⟩ upload { upload with state := .receiving } hget
      (.of_active rfl rfl rfl hactive rfl) rfl rfl
  | abort key => exact .of_released (Or.inl rfl) rfl (abortUpload_eq_ok h)
  | quarantine key => exact .of_released (Or.inr rfl) rfl (quarantineUpload_eq_ok h)
  | adoptSession key token => exact .of_resumed (Or.inr (adoptProvisionalSession_eq_ok h))
  | stageBatch key token first staged => exact .of_resumed (commitProvisionalStageBatch_eq_ok h)
  | sealProvisional key token expectedChunks digest => exact .of_touched (sealProvisionalUpload_eq_ok h).1.touched
  | clearLedger key published => exact .of_resumed (Or.inr (clearProvisionalLedger_eq_ok h))
  | bindImport key manifestId => exact .of_resumed (bindImportManifest_eq_ok h)
  | sealImport key expectedChunks digest => exact .of_touched (sealAuthenticatedImport_eq_ok h).touched
  | publish key publications => exact absurd rfl (hpublish key publications)
  | retire maximumObjects => exact .retired maximumObjects _ rfl h
  | deletePrefix prefixId => exact .deleted prefixId _ rfl h
  | pin references =>
    obtain ⟨pins, rfl⟩ := pinChunkRows_eq_ok h
    exact .onPins pins
  | unpin pinIds =>
    obtain ⟨pins, rfl⟩ := releaseRetainedSourcePins_eq_ok h
    exact .onPins pins
  | acquireLease request =>
    obtain rfl | ⟨_, _, -, rfl⟩ := acquireSourceLease_eq_ok h
    · exact .onLeases rfl _
    · exact .onLeases rfl _
  | reattachLease fence maximumDurationNs =>
    obtain ⟨_, -, -, rfl⟩ := reattachSourceLease_eq_ok h
    exact .onLeases rfl _
  | releaseLease leaseId ownerId authorityTerm =>
    obtain ⟨_, rfl, -⟩ := releaseSourceLease_eq_ok h
    exact .onLeases rfl _

theorem Transaction.apply_cases (h : t.apply C config now c = .ok c') :
    (∃ key publications artifacts, t = .publish key publications ∧
      publishManifestBatch C config key publications now c = .ok (c', artifacts)) ∨
      ((∀ key publications, t ≠ .publish key publications) ∧ TransactionStep config now t c c') := by
  by_cases hpublish : ∃ key publications, t = .publish key publications
  · obtain ⟨key, publications, rfl⟩ := hpublish
    simp only [apply, map_eq_ok, Prod.exists, exists_and_right, exists_eq_right] at h
    obtain ⟨artifacts, h⟩ := h
    exact Or.inl ⟨key, publications, artifacts, rfl, h⟩
  · have hnot : ∀ key publications, t ≠ .publish key publications := fun key publications heq =>
      hpublish ⟨key, publications, heq⟩
    exact Or.inr ⟨hnot, t.apply_eq_ok h hnot⟩

/-- A catalog whose objects are as they were. -/
structure KeepsObjects (c c' : Catalog) : Prop where
  chunks : c'.chunks = c.chunks
  manifests : c'.manifests = c.manifests
  manifestChunks : c'.manifestChunks = c.manifestChunks
  locations : c'.locations = c.locations
  durableBytes : c'.durableBytes = c.durableBytes
  tombstones : c.tombstones ⊆ c'.tombstones

/-- Publication is the only single transaction that changes the objects, and only those on leases change leases. -/
theorem TransactionStep.frame (h : TransactionStep config now t c c') :
    KeepsObjects c c' ∧ (c'.sourceLeases = c.sourceLeases ∨ t.onLeases) := by
  have hrefl := List.Subset.refl c.tombstones
  cases h with
  | recorded outbox => exact ⟨⟨rfl, rfl, rfl, rfl, rfl, hrefl⟩, Or.inl rfl⟩
  | touched key _ honly upload upload' hget hkeeps huploads hreserved =>
    obtain ⟨_, _, _, _, _, rfl⟩ := honly
    exact ⟨⟨rfl, rfl, rfl, rfl, rfl, hrefl⟩, Or.inl rfl⟩
  | reserved key reservation ht row hget hstate hbytes hgeneration _ hadmit =>
    obtain ⟨-, -, _, _, rfl⟩ := admitReservation_eq_ok hadmit
    exact ⟨⟨rfl, rfl, rfl, rfl, rfl, hrefl⟩, Or.inl rfl⟩
  | released key ht state hstate _ h =>
    obtain ⟨_, _, -, -, rfl⟩ := h
    exact ⟨⟨rfl, rfl, rfl, rfl, rfl, hrefl⟩, Or.inl rfl⟩
  | retired maximumObjects _ ht h =>
    obtain ⟨_, _, _, rfl, hmem, -⟩ := retireKeyEpochsBefore_eq_ok h
    exact ⟨⟨rfl, rfl, rfl, rfl, rfl, fun x hx => (hmem x).mpr (Or.inl hx)⟩, Or.inl rfl⟩
  | deleted prefixId _ ht h =>
    obtain ⟨_, rfl⟩ := deletePrefix_eq_ok h
    exact ⟨⟨rfl, rfl, rfl, rfl, rfl, fun x hx => List.mem_insert_of_mem hx⟩, Or.inl rfl⟩
  | onPins _ => exact ⟨⟨rfl, rfl, rfl, rfl, rfl, hrefl⟩, Or.inl rfl⟩
  | onLeases ht _ => exact ⟨⟨rfl, rfl, rfl, rfl, rfl, hrefl⟩, Or.inr ht⟩

theorem TransactionStep.keepsObjects (h : TransactionStep config now t c c') : KeepsObjects c c' := h.frame.1

theorem TransactionStep.uploadStep (h : TransactionStep config now t c c') : UploadStep config c c' := by
  cases h with
  | recorded outbox => exact .same rfl rfl (le_refl _)
  | touched key _ honly upload upload' hget hkeeps huploads hreserved =>
    obtain ⟨_, _, _, _, _, rfl⟩ := honly
    exact .kept key upload upload' hget hkeeps huploads hreserved (le_refl _)
  | reserved key reservation ht row hget hstate hbytes hgeneration _ hadmit =>
    obtain ⟨hkey, hvalid⟩ := admitReservation_valid hadmit
    obtain ⟨hstaging, hquota, _, _, rfl⟩ := admitReservation_eq_ok hadmit
    exact .reserved key row hget hkey (hgeneration ▸ hvalid) hstate rfl (by rw [hbytes]) rfl hstaging
      (by rwa [← Nat.add_assoc])
  | released key ht state hstate _ h =>
    obtain ⟨upload, _, hget, hactive, rfl⟩ := h
    exact .released key upload _ hget hactive hstate rfl rfl rfl (Nat.le_add_right _ _)
  | retired maximumObjects _ ht h =>
    obtain ⟨_, _, _, rfl, -, -⟩ := retireKeyEpochsBefore_eq_ok h
    exact .same rfl rfl (le_refl _)
  | deleted prefixId _ ht h =>
    obtain ⟨_, rfl⟩ := deletePrefix_eq_ok h
    exact .same rfl rfl (le_refl _)
  | onPins _ | onLeases _ _ => exact .same rfl rfl (le_refl _)

/-! ## One transaction per step -/

def Event.publications : Event → List PendingManifest
  | .transact (.publish _ publications) => publications
  | _ => []

/-- The steps that leave the manifests alone and change chunk rows at most. -/
inductive ObjectStep (now : Nat) (e : Event) (c : Catalog) : Catalog → Prop
  | exported (outbox : AuditOutbox) : ObjectStep now e c { c with outbox }
  | cataloged (objects : List ChunkObject) (keyEpoch : UInt64) (ledger : Option (Id32 × Nat)) (c' : Catalog)
      (result : List CatalogedChunk) (h : catalogChunks objects keyEpoch ledger c = .ok (c', result)) :
      ObjectStep now e c c'
  | withdrawn (key objectKey : Id32) : ObjectStep now e c (cleanupPromotion key objectKey c)
  | selected (keys : List Id32) (c' : Catalog) (victims : List Victim)
      (h : selectVictims keys now c = .ok (c', victims)) : ObjectStep now e c c'
  | collected (moved : List Moved) (c' : Catalog) (h : finishCollection moved now c = .ok c') : ObjectStep now e c c'
  | demoted (victims : List Demoted) (he : e = .demoteVictims victims) (c' : Catalog)
      (h : demoteVictims victims c = .ok c') : ObjectStep now e c c'

/-- The transaction of a step. -/
inductive CatalogStep (C : Crypto) (config : StoreConfig) (now : Nat) (e : Event) (c : Catalog) : Catalog → Prop
  | transacted (t : Transaction) (he : e = .transact t) (c' : Catalog) (h : TransactionStep config now t c c') :
      CatalogStep C config now e c c'
  | published (key : Id32) (publications : List PendingManifest) (he : e = .transact (.publish key publications))
      (artifacts : List PublishedArtifact) (c' : Catalog)
      (h : publishManifestBatch C config key publications now c = .ok (c', artifacts)) : CatalogStep C config now e c c'
  | evicted (id : Id32) (he : e = .evict id) (c' : Catalog) (eviction : Eviction)
      (h : evictManifest id now c = .ok (c', eviction)) : CatalogStep C config now e c c'
  | evictionFinished (eviction : Eviction) (he : e = .finishEviction eviction) (c' : Catalog)
      (h : finishManifestEviction eviction now c = .ok c') : CatalogStep C config now e c c'
  | onObjects (c' : Catalog) (h : ObjectStep now e c c') : CatalogStep C config now e c c'

/-- Besides the rows, such a step may advance an import. -/
theorem ObjectStep.frame (h : ObjectStep now e c c') : ∃ chunks durableBytes tombstones outbox,
    durableBytes ≤ c.durableBytes ∧
    (∀ id, (ObjectKind.manifest, id) ∈ tombstones ↔ (ObjectKind.manifest, id) ∈ c.tombstones) ∧
    (c' = { c with chunks, durableBytes, tombstones, outbox } ∨
      ∃ key, Resumed key { c with chunks, durableBytes, tombstones, outbox } c') := by
  cases h with
  | exported outbox => exact ⟨_, _, _, _, le_rfl, fun _ => Iff.rfl, Or.inl rfl⟩
  | cataloged objects keyEpoch ledger _ result h =>
    obtain ⟨c₁, heach, hresumed⟩ := catalogChunks_eq_ok h
    obtain ⟨chunks, rfl⟩ := catalogEach_frame heach
    exact ⟨chunks, _, _, _, le_rfl, fun _ => Iff.rfl, hresumed⟩
  | withdrawn key objectKey =>
    obtain ⟨chunks, heq, -⟩ := cleanupPromotion_eq c key objectKey
    exact ⟨chunks, _, _, _, le_rfl, fun _ => Iff.rfl, Or.inl heq⟩
  | selected keys _ victims h =>
    obtain ⟨-, -, -, -, _, _, rfl, hmem⟩ := selectVictims_eq_ok h
    exact ⟨_, _, _, _, le_rfl, fun id => (hmem _).trans (by simp), Or.inl rfl⟩
  | collected moved _ h =>
    obtain ⟨outbox, rfl⟩ := finishCollection_eq_ok h
    obtain ⟨chunks, freed, heq⟩ := removeRows_frame moved c
    rw [heq]
    exact ⟨chunks, _, _, _, Nat.sub_le _ _, fun _ => Iff.rfl, Or.inl rfl⟩
  | demoted victims he _ h =>
    obtain ⟨_, _, rfl, hle, -⟩ := demoteVictims_eq_ok (P := fun _ _ _ => True) h trivial
      fun _ _ _ _ _ _ _ _ => trivial
    exact ⟨_, _, _, _, hle, fun _ => Iff.rfl, Or.inl rfl⟩

/-- The events that only export, look, or move a put on. -/
def Event.passive : Event → Bool
  | .tick _ | .exportAudit .. | .beginPut .. | .lookUp .. | .inspectTarget .. | .linkTarget ..
  | .quarantineDuplicate _ => true
  | _ => false

theorem exec_passive (h : exec C config s e = .ok s') (he : e.passive = true) :
    ∃ clock outbox files puts duplicates, s.clock ≤ clock ∧
      s' = { s with clock, catalog := { s.catalog with outbox }, files, puts, duplicates } := by
  cases e with
  | tick elapsedNs =>
    cases h
    exact ⟨_, _, _, _, _, Nat.le_add_right _ _, rfl⟩
  | exportAudit _ _ | beginPut _ _ =>
    cases h
    exact ⟨_, _, _, _, _, le_rfl, rfl⟩
  | lookUp put object =>
    obtain ⟨-, rfl | rfl⟩ := exec_lookUp h
    · exact ⟨_, _, _, _, _, le_rfl, rfl⟩
    · exact ⟨_, _, _, _, _, le_rfl, rfl⟩
  | inspectTarget put index =>
    obtain ⟨-, item, -, -, rfl⟩ := exec_inspectTarget h
    exact ⟨_, _, _, _, _, le_rfl, rfl⟩
  | linkTarget put index =>
    obtain ⟨-, item, -, -, ⟨-, rfl⟩ | ⟨-, rfl⟩⟩ := exec_linkTarget h
    · exact ⟨_, _, _, _, _, le_rfl, rfl⟩
    · exact ⟨_, _, _, _, _, le_rfl, rfl⟩
  | quarantineDuplicate objectKey =>
    obtain ⟨-, rfl⟩ := exec_quarantineDuplicate h
    exact ⟨_, _, _, _, _, le_rfl, rfl⟩
  | _ => cases he

/-- The events without a transaction, but for the export. -/
def Event.reads : Event → Bool
  | .checkVictim _ | .moveVictim _ | .selectDemotions _ | .dropFile _ => true
  | e => e.passive

theorem exec_reads (h : exec C config s e = .ok s') (he : e.reads = true) :
    ∃ outbox, s'.catalog = { s.catalog with outbox } := by
  by_cases hpassive : e.passive = true
  · obtain ⟨_, outbox, _, _, _, -, rfl⟩ := exec_passive h hpassive
    exact ⟨outbox, rfl⟩
  cases e with
  | checkVictim collection =>
    obtain ⟨-, -, _, _, _, -, -, rfl⟩ := exec_checkVictim h
    exact ⟨_, rfl⟩
  | moveVictim collection =>
    obtain ⟨-, moved, -, rfl⟩ := exec_moveVictim h
    exact ⟨_, rfl⟩
  | selectDemotions keys =>
    obtain ⟨victims, -, rfl⟩ := exec_selectDemotions h
    exact ⟨_, rfl⟩
  | dropFile removal =>
    obtain ⟨-, key, keys, -, rfl⟩ := exec_dropFile h
    exact ⟨_, rfl⟩
  | _ => exact absurd he hpassive

theorem exec_catalogStep (h : exec C config s e = .ok s') :
    CatalogStep C config s.clock e s.catalog s'.catalog := by
  by_cases hreads : e.reads = true
  · obtain ⟨outbox, heq⟩ := exec_reads h hreads
    rw [heq]
    exact .onObjects _ (.exported outbox)
  cases e with
  | transact t =>
    obtain ⟨c', happly, rfl⟩ := exec_transact h
    obtain ⟨key, publications, artifacts, rfl, hpublish⟩ | ⟨-, htransaction⟩ := Transaction.apply_cases happly
    · exact .published key publications rfl artifacts c' hpublish
    · exact .transacted t rfl c' htransaction
  | catalogPut put =>
    obtain ⟨-, -, c', cataloged, hcataloged, rfl⟩ := exec_catalogPut h
    exact .onObjects _ (.cataloged _ _ _ c' cataloged hcataloged)
  | cleanupPromotion key objectKey =>
    cases h
    exact .onObjects _ (.withdrawn key objectKey)
  | evict manifestId =>
    obtain ⟨c', eviction, hevict, rfl⟩ := exec_evict h
    exact .evicted manifestId rfl c' eviction hevict
  | finishEviction eviction =>
    obtain ⟨-, c', hfinish, rfl⟩ := exec_finishEviction h
    exact .evictionFinished eviction rfl c' hfinish
  | selectVictims keys =>
    obtain ⟨c', victims, hselect, rfl⟩ := exec_selectVictims h
    exact .onObjects _ (.selected keys c' victims hselect)
  | finishCollection collection =>
    obtain ⟨-, -, -, c', hfinish, rfl⟩ := exec_finishCollection h
    exact .onObjects _ (.collected _ c' hfinish)
  | demoteVictims victims =>
    obtain ⟨-, c', hdemote, rfl⟩ := exec_demoteVictims h
    exact .onObjects _ (.demoted victims rfl c' hdemote)
  | _ => exact absurd rfl hreads

/-- What every step that commits preserves is preserved by every step. -/
theorem step_preserves (hexec : ∀ s', exec C config s e = .ok s' → P s → P s') (hs : P s) :
    P (step C config s e) := by
  unfold step
  split
  · rename_i s' h
    exact hexec s' h hs
  · exact hs

/-- What every committed step of a run preserves holds after it. -/
theorem along_preserves {ok : State → Event → Prop} {es : List Event} (h : Along (step C config) ok s es)
    (hexec : ∀ s e s', ok s e → exec C config s e = .ok s' → P s → P s') (hs : P s) : P (run (step C config) s es) :=
  h.invariant (fun s e hok => step_preserves fun s' => hexec s e s' hok) hs

theorem run_preserves {es : List Event} (hexec : ∀ s e s', exec C config s e = .ok s' → P s → P s') (hs : P s) :
    P (run (step C config) s es) :=
  run_invariant (fun s e => step_preserves (hexec s e)) hs

theorem step_of_ok (h : exec C config s e = .ok s') : step C config s e = s' := by rw [step, h]

/-- A step after which something holds that did not hold before has committed. -/
theorem step_onset (hbefore : ¬ P s) (hafter : P (step C config s e)) :
    ∃ s', exec C config s e = .ok s' ∧ step C config s e = s' := by
  cases h : exec C config s e with
  | ok s' => exact ⟨s', rfl, step_of_ok h⟩
  | error error =>
    rw [step, h] at hafter
    exact absurd hafter hbefore

/-- An invariant that every transaction preserves holds after every run. -/
theorem run_catalog_invariant {P : Catalog → Prop} {Q : Event → Prop} {es : List Event}
    (hstep : ∀ now e c c', CatalogStep C config now e c c' → Q e → P c → P c') (hevents : ∀ e ∈ es, Q e)
    (hinitial : P Catalog.initial) : P (run (step C config) State.initial es).catalog := by
  have halong : Along (step C config) (fun _ e => Q e) State.initial es := along_of_forall fun e he _ => hevents e he
  exact along_preserves (P := fun s => P s.catalog) halong
    (fun _ _ _ hQ hexec => hstep _ _ _ _ (exec_catalogStep hexec) hQ) hinitial

theorem CatalogStep.uploadStep (h : CatalogStep C config now e c c') : UploadStep config c c' := by
  cases h with
  | transacted t he _ h => exact h.uploadStep
  | published key publications he artifacts _ h => exact publishManifestBatch_uploadStep h
  | evicted id he _ eviction h =>
    obtain ⟨_, _, -, -, -, rfl⟩ := evictManifest_eq_ok h
    exact .same rfl rfl (le_refl _)
  | evictionFinished eviction he _ h =>
    obtain ⟨-, rfl⟩ | ⟨_, _, -, rfl⟩ := finishManifestEviction_eq_ok h
    · exact .same rfl rfl (le_refl _)
    · exact .same rfl rfl (Nat.sub_le _ _)
  | onObjects _ h =>
    obtain ⟨_, _, _, _, hdurable, -, rfl | ⟨key, upload, upload', _, hget, rfl, hkeeps, -⟩⟩ := h.frame
    · exact .same rfl rfl hdurable
    · exact .kept key upload upload' hget hkeeps rfl rfl hdurable

/-! ## Chunk rows -/

inductive ChunkChange (chunks : Table Id32 ChunkRow) : Table Id32 ChunkRow → Prop
  | recounted (count : Id32 → ChunkRow → Nat)
      (hcount : ∀ key row, chunks.get? key = some row → row.locationState ≠ .available → row.refcount = 0 →
        count key row = 0) :
      ChunkChange chunks (chunks.map fun key row => { row with refcount := count key row })
  | inserted (object : ChunkObject) (keyEpoch : UInt64) (hnone : chunks.get? object.objectKey = none)
      (hnew : ∀ key row, chunks.get? key = some row → ¬ (row.chunkId = object.chunkId ∧ row.keyEpoch = keyEpoch)) :
      ChunkChange chunks (chunks.put object.objectKey (ChunkRow.ofObject object keyEpoch))
  | filtered (keep : Id32 → ChunkRow → Bool) : ChunkChange chunks (chunks.filter keep)
  | selected (keys : List Id32) (hnonzero : ∀ key ∈ keys, isZeroId key = false)
      (hloose : ∀ key ∈ keys, ∀ row, chunks.get? key = some row → row.refcount = 0) :
      ChunkChange chunks (evictRows keys chunks)
  | removed (moved : Moved) (chunks' : Table Id32 ChunkRow) (freed : Nat)
      (h : RowRemoval moved chunks chunks' freed) : ChunkChange chunks chunks'
  | demoted (victim : Demoted) (chunks' : Table Id32 ChunkRow) (freed : Nat)
      (h : RowDemotion victim chunks chunks' freed) : ChunkChange chunks chunks'

theorem ObjectStep.chunkChanges (h : ObjectStep now e c c') :
    Relation.ReflTransGen ChunkChange c.chunks c'.chunks := by
  cases h with
  | exported _ => exact .refl
  | cataloged objects keyEpoch ledger _ result hcatalog =>
    obtain ⟨c₁, heach, htouched⟩ := catalogChunks_eq_ok hcatalog
    obtain ⟨chunks, rfl, hchunks⟩ := catalogEach_eq_ok (P := Relation.ReflTransGen ChunkChange c.chunks) heach .refl
      fun object _ c₂ htaken hP => hP.tail (.inserted object keyEpoch (chunkTaken_eq_false htaken).1
        fun _ _ hrow => canonicalChunk_eq_none (chunkTaken_eq_false htaken).2 hrow)
    obtain rfl | ⟨_, _, _, _, -, rfl, -⟩ := htouched
    · exact hchunks
    · exact hchunks
  | withdrawn upload objectKey =>
    obtain ⟨chunks, heq, rfl | ⟨-, rfl⟩⟩ := cleanupPromotion_eq c upload objectKey
    · rw [heq]
    · rw [heq]
      exact .single (.filtered fun k row => ¬ (k = objectKey ∧ row.refcount = 0))
  | selected keys _ victims hselect =>
    have hnonzero := selectVictims_valid hselect
    obtain ⟨-, -, hcollectable, -, _, _, rfl, -⟩ := selectVictims_eq_ok hselect
    refine .single (.selected keys hnonzero fun key hkey row hrow => ?_)
    obtain ⟨row', hrow', hcount, -⟩ := Catalog.collectable_eq_true.mp (hcollectable key hkey)
    rw [hrow, Option.some.injEq] at hrow'
    rwa [hrow']
  | collected moved _ hfinish =>
    obtain ⟨outbox, rfl⟩ := finishCollection_eq_ok hfinish
    obtain ⟨chunks, freed, heq, hchunks⟩ := removeRows_eq moved c 0
      (P := fun _ chunks _ => Relation.ReflTransGen ChunkChange c.chunks chunks) .refl
      fun m _ _ chunks' freed _ hremoval hP => hP.tail (.removed m chunks' freed hremoval)
    rwa [heq]
  | demoted victims he _ hdemote =>
    obtain ⟨chunks, durableBytes, rfl, -, hchunks⟩ := demoteVictims_eq_ok
      (P := fun _ chunks _ => Relation.ReflTransGen ChunkChange c.chunks chunks) hdemote .refl
      fun victim _ _ chunks' freed _ hdemotion hP => hP.tail (.demoted victim chunks' freed hdemotion)
    exact hchunks

/-- A step changes the chunk rows by some of these changes in turn. -/
theorem CatalogStep.chunkChanges (h : CatalogStep C config now e c c') :
    Relation.ReflTransGen ChunkChange c.chunks c'.chunks := by
  cases h with
  | transacted t he _ htransaction => rw [htransaction.keepsObjects.chunks]
  | published key publications he artifacts _ hpublish =>
    obtain ⟨_, _, upload, -, -, -, ⟨-, -, _, rfl⟩ | ⟨tx, hcommit⟩⟩ := publishManifestBatch_eq_ok hpublish
    · exact .refl
    · obtain ⟨_, rfl⟩ := hcommit.result
      refine .single (.recounted (fun key row => row.refcount + refcountIncrement tx.inserted key) ?_)
      intro key row hrow hstate hcount
      rw [hcount, (publishEach_inserted hcommit.each).refcountIncrement_eq_zero hrow hstate]
  | evicted id he _ eviction hevict =>
    obtain ⟨_, _, -, -, -, rfl⟩ := evictManifest_eq_ok hevict
    have hcount : (c.chunks.map fun key row =>
        if key ∈ c.objectsOf id then { row with refcount := row.refcount - 1 } else row) =
        c.chunks.map fun key row =>
          { row with refcount := if key ∈ c.objectsOf id then row.refcount - 1 else row.refcount } := by
      congr 1
      funext key row
      split <;> rfl
    rw [hcount]
    refine .single (.recounted (fun key row => if key ∈ c.objectsOf id then row.refcount - 1 else row.refcount) ?_)
    intro key row hrow hstate hcount
    simp [hcount]
  | evictionFinished eviction he _ hfinish =>
    obtain ⟨-, rfl⟩ | ⟨_, _, -, rfl⟩ := finishManifestEviction_eq_ok hfinish
    · exact .refl
    · exact .refl
  | onObjects _ hobjects => exact hobjects.chunkChanges

/-- What every change to the chunk rows preserves is preserved by every step. -/
theorem CatalogStep.chunks_induct {P : Table Id32 ChunkRow → Prop} (h : CatalogStep C config now e c c')
    (hchange : ∀ chunks chunks', ChunkChange chunks chunks' → P chunks → P chunks') (hP : P c.chunks) :
    P c'.chunks := by
  have hchanges := h.chunkChanges
  generalize c'.chunks = chunks' at hchanges
  induction hchanges with
  | refl => exact hP
  | tail _ hlast ih => exact hchange _ _ hlast ih

end Kvpack.Store
