import Kvpack.Store.Lemmas.Recovery

/-!
# What opening the store does

Each part of recovery has two lemmas: what it has done when it succeeds, and that it succeeds within its bounds. The
resource they share is the audit outbox, since every removal records one event.
-/

namespace Kvpack.Store

open Base Kvpack.Core

variable {C : Crypto} {config : StoreConfig} {c c' : Catalog} {now bound : Nat} {d d' : Disk} {s s' : State}
  {key : Id32} {supportsEpoch : UInt64 → Bool}
variable {ν : Type} {t : Table Id32 ν} {row : ManifestRow} {files : List Nat} {upload : Upload} {keys : List Id32}
  {k id : Id32} {entries : Table Id32 QuarantineEntry} {limit : Nat} {e : WorkEvent}

/-! ## Room in the outbox -/

/-- The recorded events that have not been delivered. -/
def Catalog.pendingAudit (c : Catalog) : Nat := (c.outbox.rows.filter fun record => record.2 = false).length

theorem requireCapacity_of_room {events : List AuditEventKey}
    (hvalid : ∀ event ∈ events, isZeroId event.objectId = false ∧ event.generation ≤ maxI64)
    (hroom : c.pendingAudit + events.length ≤ maxPendingAuditRecords) : requireCapacity c.outbox events = .ok () := by
  have hneeded : (events.dedup.filter fun event => c.outbox.get? event = none).length ≤ events.length :=
    (List.length_filter_le _ _).trans (List.dedup_sublist events).length_le
  have hids : ¬ ∃ event ∈ events.dedup, isZeroId event.objectId = true ∨ maxI64 < event.generation := by
    rintro ⟨event, hmem, hbad⟩
    obtain ⟨hid, hgeneration⟩ := hvalid event (List.mem_dedup.mp hmem)
    cases hbad with
    | inl hzero => rw [hid] at hzero; cases hzero
    | inr hlarge => exact absurd hgeneration (Nat.not_le.mpr hlarge)
  have hfits : ¬ maxPendingAuditRecords < (c.outbox.rows.filter fun record => record.2 = false).length +
      (events.dedup.filter fun event => c.outbox.get? event = none).length := by
    rw [Catalog.pendingAudit] at hroom
    omega
  simp only [requireCapacity, preflightEvents, rejectIf_of_not hids, ok_bind, if_neg hfits]
  rfl

theorem requireCapacity_one {event : AuditEventKey} (hid : isZeroId event.objectId = false)
    (hgeneration : event.generation ≤ maxI64) (hroom : c.pendingAudit < maxPendingAuditRecords) :
    requireCapacity c.outbox [event] = .ok () :=
  requireCapacity_of_room (by simpa using ⟨hid, hgeneration⟩) hroom

theorem record_of_now (events : List AuditEventKey) (hnow : now ≠ 0) :
    ∃ outbox, c.record events now = .ok { c with outbox } ∧
      Catalog.pendingAudit { c with outbox } ≤ c.pendingAudit + events.length := by
  have hadd (events : List AuditEventKey) (outbox : AuditOutbox) :
      Catalog.pendingAudit { c with outbox := (events.foldl (fun outbox event =>
        if outbox.get? event = none then outbox.put event false else outbox) outbox) } ≤
        Catalog.pendingAudit { c with outbox } + events.length := by
    induction events generalizing outbox with
    | nil => exact Nat.le_refl _
    | cons event events ih =>
      have hone : Catalog.pendingAudit { c with
          outbox := if outbox.get? event = none then outbox.put event false else outbox } ≤
          Catalog.pendingAudit { c with outbox } + 1 := by
        split
        · rename_i hnone
          have hrows : (outbox.put event false).rows = (event, false) :: outbox.rows :=
            congrArg _ (Table.erase_rows_of_none hnone)
          simp [Catalog.pendingAudit, hrows]
        · exact Nat.le_succ _
      have hrest := ih (if outbox.get? event = none then outbox.put event false else outbox)
      rw [List.foldl_cons, List.length_cons]
      omega
  refine ⟨_, ?_, (hadd events.dedup c.outbox).trans
    (Nat.add_le_add_left (List.dedup_sublist events).length_le _)⟩
  simp only [Catalog.record, appendEvents, rejectIf_of_not hnow, ok_bind]
  rfl

theorem record_one (event : AuditEventKey) (hnow : now ≠ 0) :
    ∃ outbox, c.record [event] now = .ok { c with outbox } ∧
      Catalog.pendingAudit { c with outbox } ≤ c.pendingAudit + 1 :=
  record_of_now [event] hnow

/-! ## Evictions -/

theorem firstRow_eq_some {p : Id32 → ν → Bool} {r : Id32 × ν}
    (h : firstRow t p = some r) : t.get? r.1 = some r.2 ∧ p r.1 r.2 := by
  have hmem : r ∈ (t.filter p).rows := (List.perm_insertionSort _ _).subset (List.mem_of_mem_head? h)
  exact ⟨Table.get?_eq_some_iff.mpr (List.mem_filter.mp hmem).1, (List.mem_filter.mp hmem).2⟩

/-- The evictions that recovery has to complete. -/
def Catalog.leavingCount (c : Catalog) : Nat :=
  (c.manifests.sum fun id _ => if c.leavingManifest id then 1 else 0) +
    c.chunks.sum fun _ row => if row.locationState.leaving then 1 else 0

theorem leavingCount_pos_of_manifest (hrow : c.manifests.get? key = some row)
    (hleaving : c.leavingManifest key) : 1 ≤ c.leavingCount := by
  have hle := Table.le_sum (w := fun id _ => if c.leavingManifest id then 1 else 0) hrow
  rw [if_pos hleaving] at hle
  exact hle.trans (Nat.le_add_right _ _)

theorem leavingCount_pos_of_chunk {row : ChunkRow} (hrow : c.chunks.get? key = some row)
    (hleaving : row.locationState.leaving) : 1 ≤ c.leavingCount := by
  have hle := Table.le_sum (w := fun _ (row : ChunkRow) => if row.locationState.leaving then 1 else 0) hrow
  rw [if_pos hleaving] at hle
  exact hle.trans (Nat.le_add_left _ _)

/-- An eviction has been completed with at most one event. -/
structure EvictionCompleted (c c' : Catalog) : Prop where
  leaving : c'.leavingCount + 1 ≤ c.leavingCount
  pending : c'.pendingAudit ≤ c.pendingAudit + 1

theorem finishManifestEviction_ok (fileBytes : Nat) (h : RecoverySound c)
    (hrow : c.manifests.get? key = some row) (hleaving : c.leavingManifest key) (hnow : now ≠ 0)
    (hroom : c.pendingAudit < maxPendingAuditRecords) :
    ∃ c', finishManifestEviction ⟨key, fileBytes⟩ now c = .ok c' ∧ EvictionCompleted c c' := by
  let after := { c with
    locations := c.locations.erase key
    manifests := c.manifests.erase key
    durableBytes := c.durableBytes - fileBytes }
  obtain ⟨outbox, hrecord, hpending⟩ := record_one (c := after) ⟨.collected, .manifest, key, 0⟩ hnow
  refine ⟨{ after with outbox }, ?_, ?_, hpending⟩
  · have hcapacity : requireCapacity c.outbox [⟨.collected, .manifest, key, 0⟩] = .ok () :=
      requireCapacity_one (h.manifests key hleaving) (Nat.zero_le _) hroom
    simp only [finishManifestEviction, hcapacity, ok_bind, hrow, reduceCtorEq, if_false]
    exact hrecord
  · have hsum : c.manifests.sum (fun id _ => if c.leavingManifest id then 1 else 0) =
        1 + (c.manifests.erase key).sum fun id _ => if c.leavingManifest id then 1 else 0 := by
      rw [Table.sum_eq_add_erase hrow, if_pos hleaving]
    have hrest : (c.manifests.erase key).sum (fun id _ =>
        if Catalog.leavingManifest { after with outbox } id then 1 else 0) =
      (c.manifests.erase key).sum fun id _ => if c.leavingManifest id then 1 else 0 := by
      refine Table.sum_congr fun id row hget => ?_
      have hne : id ≠ key := by
        rintro rfl
        rw [Table.get?_erase_self] at hget
        cases hget
      have hsame : Catalog.leavingManifest { after with outbox } id = c.leavingManifest id := by
        simp only [Catalog.leavingManifest, after, Table.get?_erase, if_neg hne]
      rw [hsame]
    simp only [Catalog.leavingCount, after] at hrest ⊢
    omega

/-- The bytes that the removal of a row frees. -/
def Moved.freed (moved : Moved) : Nat := if moved.wasTombstoned then 0 else moved.objectBytes

/-- The last step of a collection, for objects that are on their way out. -/
theorem removeRows_leaving {moved : List Moved} (hnodup : (moved.map (·.objectKey)).Nodup)
    (h : ∀ m ∈ moved, ∃ row, c.chunks.get? m.objectKey = some row ∧ row.locationState.leaving ∧ row.refcount = 0) :
    removeRows moved c = ({ c with chunks := c.chunks.filter fun key _ => key ∉ moved.map (·.objectKey) },
      (moved.map Moved.freed).sum) := by
  induction moved generalizing c with
  | nil => simp [removeRows, Table.filter]
  | cons m rest ih =>
    rw [List.map_cons, List.nodup_cons] at hnodup
    obtain ⟨row, hrow, hleaving, hzero⟩ := h m List.mem_cons_self
    have hremove : removeRow m c = ({ c with chunks := c.chunks.erase m.objectKey }, m.freed) := by
      simp only [removeRow, hrow, if_pos (leaving_iff.mp hleaving), if_pos hzero, Moved.freed]
    have hrest : ∀ m' ∈ rest, ∃ row, (c.chunks.erase m.objectKey).get? m'.objectKey = some row ∧
        row.locationState.leaving ∧ row.refcount = 0 := by
      intro m' hm'
      have hne : m'.objectKey ≠ m.objectKey := fun heq => hnodup.1 (heq ▸ List.mem_map_of_mem hm')
      rw [Table.get?_erase, if_neg hne]
      exact h m' (List.mem_cons_of_mem _ hm')
    have hfilter : (c.chunks.erase m.objectKey).filter (fun key _ => key ∉ rest.map (·.objectKey)) =
        c.chunks.filter fun key _ => key ∉ (m :: rest).map (·.objectKey) := by
      rw [Table.erase, Table.filter_filter]
      exact Table.filter_congr fun key _ _ => by simp
    have htail := ih (c := { c with chunks := c.chunks.erase m.objectKey }) hnodup.2 hrest
    simp only [removeRows, hremove, htail, hfilter, List.map_cons, List.sum_cons]

theorem finishCollection_leaving (moved : List Moved) (hnodup : (moved.map (·.objectKey)).Nodup)
    (h : ∀ m ∈ moved, isZeroId m.objectKey = false ∧
      ∃ row, c.chunks.get? m.objectKey = some row ∧ row.locationState.leaving ∧ row.refcount = 0)
    (hnow : now ≠ 0) (hroom : c.pendingAudit + moved.length ≤ maxPendingAuditRecords) :
    ∃ outbox, finishCollection moved now c = .ok { c with
        chunks := c.chunks.filter fun key _ => key ∉ moved.map (·.objectKey)
        durableBytes := c.durableBytes - (moved.map Moved.freed).sum
        outbox } ∧
      Catalog.pendingAudit { c with outbox } ≤ c.pendingAudit + moved.length := by
  let kept := c.chunks.filter fun key _ => key ∉ moved.map fun m => m.objectKey
  have hrows := removeRows_leaving hnodup fun m hm => (h m hm).2
  have hcapacity : requireCapacity c.outbox
      (collectionEvents .collected (fun _ => 0) (moved.map (·.objectKey))) = .ok () := by
    refine requireCapacity_of_room (fun event hevent => ?_) (by simpa [collectionEvents] using hroom)
    simp only [collectionEvents, List.map_map, List.mem_map] at hevent
    obtain ⟨m, hm, rfl⟩ := hevent
    exact ⟨(h m hm).1, Nat.zero_le _⟩
  have hdeleted : (moved.map (·.objectKey)).filter (fun key =>
      (c.chunks.get? key).isSome ∧ kept.get? key = none) = moved.map (·.objectKey) := by
    refine List.filter_eq_self.mpr fun key hkey => ?_
    obtain ⟨m, hm, rfl⟩ := List.mem_map.mp hkey
    obtain ⟨row, hrow, -⟩ := (h m hm).2
    have hgone : kept.get? m.objectKey = none := by
      rw [Table.get?_filter, Option.filter_eq_none_iff]
      exact fun _ _ => by simpa using hkey
    simp [hrow, hgone]
  simp only [kept] at hdeleted
  simp only [finishCollection, hrows, hcapacity, ok_bind, hdeleted]
  split
  · exact ⟨c.outbox, rfl, Nat.le_add_right _ _⟩
  · obtain ⟨outbox, hrecord, hpending⟩ := record_of_now
      (c := { c with chunks := kept, durableBytes := c.durableBytes - (moved.map Moved.freed).sum })
      (collectionEvents .collected (fun _ => 0) (moved.map (·.objectKey))) hnow
    rw [collectionEvents, List.length_map, List.length_map] at hpending
    exact ⟨outbox, hrecord, hpending⟩

theorem finishChunkEviction_ok {row : ChunkRow} (h : RecoverySound c) (hrow : c.chunks.get? key = some row)
    (hleaving : row.locationState.leaving) (hnow : now ≠ 0) (hroom : c.pendingAudit < maxPendingAuditRecords) :
    ∃ c', finishChunkEviction key now c = .ok c' ∧ EvictionCompleted c c' := by
  obtain ⟨hzero, hkey⟩ := h.chunks key row hrow hleaving
  obtain ⟨outbox, hfinish, hpending⟩ := finishCollection_leaving (c := c)
    [⟨key, row.objectBytes, row.fidelityRung = .tombstone⟩] (by simp) (by simp [hkey, hrow, hleaving, hzero])
    hnow hroom
  have herase : (c.chunks.filter fun k _ => k ∉ [key]) = c.chunks.erase key :=
    Table.filter_congr fun k _ _ => by simp
  simp only [List.map_cons, List.map_nil, herase] at hfinish
  have hchunk : finishChunkEviction key now c =
      finishCollection [⟨key, row.objectBytes, row.fidelityRung = .tombstone⟩] now c := by
    rw [finishChunkEviction, hrow]
    simp only [hzero, hleaving, ne_eq, not_true_eq_false, or_self, rejectIf_of_not not_false, ok_bind]
  refine ⟨_, hchunk.trans hfinish, ?_, hpending⟩
  have hsum := Table.sum_eq_add_erase (w := fun _ (row : ChunkRow) => if row.locationState.leaving then 1 else 0) hrow
  rw [if_pos hleaving] at hsum
  change (c.manifests.sum fun id _ => if c.leavingManifest id then 1 else 0) + (c.chunks.erase key).sum _ + 1 ≤ _
  rw [Catalog.leavingCount, hsum]
  omega

/-- What the recovery of evictions leaves alone. -/
structure EvictionsRecovered (C : Crypto) (config : StoreConfig) (s s' : State) : Prop where
  steps : CatalogSteps C config s.catalog s'.catalog
  uploads : s'.catalog.uploads = s.catalog.uploads
  clock : s'.clock = s.clock

theorem finishManifestEviction_uploads {eviction : Eviction} (h : finishManifestEviction eviction now c = .ok c') :
    c'.uploads = c.uploads := by
  obtain ⟨-, rfl⟩ | ⟨_, _, -, rfl⟩ := finishManifestEviction_eq_ok h
  · rfl
  · rfl

theorem finishChunkEviction_eq_ok (h : finishChunkEviction key now c = .ok c') :
    CatalogSteps C config c c' ∧ c'.uploads = c.uploads := by
  unfold finishChunkEviction at h
  split at h
  · cases h
    exact ⟨.refl, rfl⟩
  · simp only [bind_eq_ok, exists_unit] at h
    obtain ⟨-, h⟩ := h
    refine ⟨(CatalogStep.onObjects (e := .tick 0) _ (.collected _ _ h)).steps, ?_⟩
    obtain ⟨outbox, rfl⟩ := finishCollection_eq_ok h
    obtain ⟨chunks, freed, heq⟩ := removeRows_frame _ c
    rw [heq]

theorem reconcileEvictions_eq_ok (h : reconcileEvictions now bound s = .ok s') : EvictionsRecovered C config s s' := by
  induction bound generalizing s with
  | zero =>
    cases h
    exact ⟨.refl, rfl, rfl⟩
  | succ bound ih =>
    simp only [reconcileEvictions] at h
    split at h
    · simp only [bind_eq_ok] at h
      obtain ⟨c₁, hfinish, h⟩ := h
      obtain ⟨hsteps, huploads, hclock⟩ := ih h
      exact ⟨(CatalogStep.evictionFinished _ rfl _ hfinish).steps.trans hsteps,
        huploads.trans (finishManifestEviction_uploads hfinish), hclock⟩
    · split at h
      · simp only [bind_eq_ok] at h
        obtain ⟨c₁, hfinish, h⟩ := h
        obtain ⟨hsteps, huploads, hclock⟩ := ih h
        obtain ⟨hsteps₁, huploads₁⟩ : CatalogSteps C config s.catalog c₁ ∧ _ := finishChunkEviction_eq_ok hfinish
        exact ⟨hsteps₁.trans hsteps, huploads.trans huploads₁, hclock⟩
      · cases h
        exact ⟨.refl, rfl, rfl⟩

/-- With room for an event per eviction, all of them are completed. -/
theorem reconcileEvictions_ok (C : Crypto) (config : StoreConfig) (bound : Nat) (h : RecoverySound s.catalog)
    (hnow : now ≠ 0) (hroom : s.catalog.pendingAudit + s.catalog.leavingCount ≤ maxPendingAuditRecords) :
    ∃ s', reconcileEvictions now bound s = .ok s' ∧
      s'.catalog.pendingAudit ≤ s.catalog.pendingAudit + s.catalog.leavingCount := by
  induction bound generalizing s with
  | zero => exact ⟨s, rfl, Nat.le_add_right _ _⟩
  | succ bound ih =>
    -- what is left to do after one completed eviction
    have hnext {s₁ : State} (hstep : CatalogSteps C config s.catalog s₁.catalog)
        (hdone : EvictionCompleted s.catalog s₁.catalog) :
        ∃ s', reconcileEvictions now bound s₁ = .ok s' ∧
          s'.catalog.pendingAudit ≤ s.catalog.pendingAudit + s.catalog.leavingCount := by
      have hleaving := hdone.leaving
      have hpending := hdone.pending
      obtain ⟨s', hs', hle⟩ := ih (s := s₁)
        (hstep.invariant (P := RecoverySound) (fun _ _ _ _ h => h.recoverySound) h) (by omega)
      exact ⟨s', hs', by omega⟩
    simp only [reconcileEvictions]
    split
    · rename_i id row hfirst
      obtain ⟨hrow, hleaving⟩ := firstRow_eq_some hfirst
      have hpos := leavingCount_pos_of_manifest hrow hleaving
      obtain ⟨c₁, hfinish, hdone⟩ := finishManifestEviction_ok row.fileBytes h hrow hleaving hnow
        (by omega)
      rw [hfinish, ok_bind]
      exact hnext (CatalogStep.evictionFinished _ rfl _ hfinish).steps hdone
    · split
      · rename_i id row hfirst
        obtain ⟨hrow, hleaving⟩ := firstRow_eq_some hfirst
        have hpos := leavingCount_pos_of_chunk hrow hleaving
        obtain ⟨c₁, hfinish, hdone⟩ := finishChunkEviction_ok h hrow hleaving hnow (by omega)
        rw [hfinish, ok_bind]
        exact hnext (finishChunkEviction_eq_ok hfinish).1 hdone
      · exact ⟨s, rfl, Nat.le_add_right _ _⟩

/-! ## Uploads -/

/-- The states of an upload that recovery can abort. -/
def Upload.abortable (upload : Upload) : Prop := upload.state ≠ .published ∧ upload.state ≠ .quarantined

/-- The upload of `key` has been aborted and the others are as they were. -/
structure UploadAborted (C : Crypto) (config : StoreConfig) (key : Id32) (c c' : Catalog) : Prop where
  steps : CatalogSteps C config c c'
  before : ∃ upload, c.uploads.get? key = some upload ∧ upload.abortable
  after : ∃ upload, c'.uploads.get? key = some upload ∧ upload.state = .aborted
  others : ∀ k, k ≠ key → c'.uploads.get? k = c.uploads.get? k

theorem reconcileDirectory_eq_ok (h : reconcileDirectory key files now c = .ok c') :
    UploadAborted C config key c c' := by
  simp only [reconcileDirectory, bind_eq_ok, exists_unit] at h
  obtain ⟨-, c₁, habort, hclear⟩ := h
  have hsteps : CatalogSteps C config c c' :=
    .trans (.single ⟨now, _, .transacted (.abort key) rfl c₁ (Transaction.apply_eq_ok (C := C) habort (by simp))⟩)
      (.single ⟨now, _, .transacted (.clearLedger key false) rfl c'
        (Transaction.apply_eq_ok (C := C) hclear (by simp))⟩)
  simp only [clearProvisionalLedger, bind_eq_ok, exists_unit, okOr_eq_ok, rejectIf_eq_ok, not_not, ne_eq,
    pure_eq_ok] at hclear
  obtain ⟨upload₁, hget₁, hstate₁, rfl⟩ := hclear
  have hbefore : ∃ upload, c.uploads.get? key = some upload ∧ upload.abortable ∧
      ∀ k, k ≠ key → c₁.uploads.get? k = c.uploads.get? k := by
    obtain ⟨_, rfl⟩ | ⟨upload, _, hget, hactive, rfl⟩ := abortUpload_eq_ok habort
    · exact ⟨upload₁, hget₁, by simp [Upload.abortable, hstate₁], fun _ _ => rfl⟩
    · refine ⟨upload, hget, ⟨?_, ?_⟩, fun k hk => by rw [Table.get?_put, if_neg hk]⟩
      · intro hstate
        rw [hstate] at hactive
        cases hactive
      · intro hstate
        rw [hstate] at hactive
        cases hactive
  obtain ⟨upload, hget, habortable, hothers⟩ := hbefore
  refine ⟨hsteps, ⟨upload, hget, habortable⟩, ⟨_, Table.get?_put_self, hstate₁⟩, fun k hk => ?_⟩
  exact (Table.get?_put.trans (if_neg hk)).trans (hothers k hk)

theorem clearProvisionalLedger_ok (hget : c.uploads.get? key = some upload)
    (hstate : upload.state = .aborted) :
    ∃ c', clearProvisionalLedger key false c = .ok c' ∧ c'.outbox = c.outbox := by
  simp only [clearProvisionalLedger, bind_eq_ok, exists_unit, okOr_eq_ok, rejectIf_eq_ok, not_not, ne_eq, pure_eq_ok]
  exact ⟨_, ⟨upload, hget, hstate, rfl⟩, rfl⟩

theorem reconcileDirectory_ok (h : RecoverySound c)
    (hget : c.uploads.get? key = some upload) (habortable : upload.abortable)
    (hfiles : files.length ≤ provisionalDirectoryEntryBound) (hnow : now ≠ 0)
    (hroom : c.pendingAudit < maxPendingAuditRecords) :
    ∃ c', reconcileDirectory key files now c = .ok c' ∧ c'.pendingAudit ≤ c.pendingAudit + 1 := by
  obtain ⟨hkey, hgeneration⟩ := h.uploads key upload hget
  have hcapacity : requireCapacity c.outbox [⟨.aborted, .upload, key, upload.generation⟩] = .ok () :=
    requireCapacity_one hkey hgeneration hroom
  have hopen : ¬ (upload.state = .published ∨ upload.state = .quarantined) := not_or.mpr habortable
  let after := if upload.state = .aborted then c else releaseUpload key upload .aborted c
  have hafter : after.pendingAudit = c.pendingAudit := by
    simp only [after]
    split <;> rfl
  obtain ⟨outbox, hrecord, hpending⟩ := record_one (c := after) ⟨.aborted, .upload, key, upload.generation⟩ hnow
  have habort : abortUpload key now c = .ok { after with outbox } := by
    simp only [abortUpload, hget, if_neg hopen, hcapacity, ok_bind]
    exact hrecord
  have haborted : ∃ upload', after.uploads.get? key = some upload' ∧ upload'.state = .aborted := by
    simp only [after]
    split
    · exact ⟨upload, hget, ‹_›⟩
    · exact ⟨_, Table.get?_put_self, rfl⟩
  obtain ⟨upload', hget', hstate'⟩ := haborted
  obtain ⟨c', hclear, houtbox⟩ := clearProvisionalLedger_ok (c := { after with outbox }) hget' hstate'
  refine ⟨c', ?_, ?_⟩
  · rw [reconcileDirectory, rejectIf_of_not (not_lt.mpr hfiles), ok_bind, habort, ok_bind, hclear]
  · rw [hafter] at hpending
    rwa [Catalog.pendingAudit, houtbox]

def directoryKeys (entries : List UploadEntry) : List Id32 :=
  entries.filterMap fun
    | .directory key _ => some key
    | .stagedManifest _ => none

/-- The uploads with a directory have been aborted, the others not touched. -/
structure UploadsAborted (C : Crypto) (config : StoreConfig) (keys : List Id32) (c c' : Catalog) : Prop where
  steps : CatalogSteps C config c c'
  before : ∀ key ∈ keys, ∃ upload, c.uploads.get? key = some upload ∧ upload.abortable
  after : ∀ key ∈ keys, ∃ upload, c'.uploads.get? key = some upload ∧ upload.state = .aborted
  others : ∀ key, key ∉ keys → c'.uploads.get? key = c.uploads.get? key

theorem UploadAborted.cons {c₁ : Catalog} (h : UploadAborted C config key c c₁)
    (hrest : UploadsAborted C config keys c₁ c') : UploadsAborted C config (key :: keys) c c' := by
  refine ⟨h.steps.trans hrest.steps, fun k hk => ?_, fun k hk => ?_, fun k hk => ?_⟩
  · by_cases heq : k = key
    · exact heq ▸ h.before
    · rw [← h.others k heq]
      exact hrest.before k ((List.mem_cons.mp hk).resolve_left heq)
  · by_cases hmem : k ∈ keys
    · exact hrest.after k hmem
    · rw [hrest.others k hmem, (List.mem_cons.mp hk).resolve_right hmem]
      exact h.after
  · rw [List.mem_cons, not_or] at hk
    rw [hrest.others k hk.2, h.others k hk.1]

theorem reconcileProvisionalUploads_eq_ok {seen : Nat} {entries : List UploadEntry}
    (h : reconcileProvisionalUploads bound now seen entries c = .ok c') :
    UploadsAborted C config (directoryKeys entries) c c' := by
  induction entries generalizing seen c with
  | nil =>
    cases h
    exact ⟨.refl, by simp [directoryKeys], by simp [directoryKeys], fun _ _ => rfl⟩
  | cons entry entries ih =>
    simp only [reconcileProvisionalUploads, bind_eq_ok, exists_unit] at h
    obtain ⟨-, h⟩ := h
    cases entry with
    | stagedManifest key => exact ih h
    | directory key files =>
      simp only [bind_eq_ok] at h
      obtain ⟨c₁, hone, h⟩ := h
      exact (reconcileDirectory_eq_ok hone).cons (ih h)

/-- Within the bounds, recovery aborts the upload of every directory if it can. -/
theorem reconcileProvisionalUploads_ok (C : Crypto) (config : StoreConfig) (bound seen : Nat)
    (entries : List UploadEntry) (h : RecoverySound c) (hnow : now ≠ 0) (hseen : seen + entries.length ≤ bound)
    (hfiles : ∀ key files, .directory key files ∈ entries → files.length ≤ provisionalDirectoryEntryBound)
    (huploads : ∀ key ∈ directoryKeys entries, ∃ upload, c.uploads.get? key = some upload ∧ upload.abortable)
    (hroom : c.pendingAudit + (directoryKeys entries).length ≤ maxPendingAuditRecords) :
    ∃ c', reconcileProvisionalUploads bound now seen entries c = .ok c' ∧
      c'.pendingAudit ≤ c.pendingAudit + (directoryKeys entries).length := by
  induction entries generalizing seen c with
  | nil => exact ⟨c, rfl, Nat.le_add_right _ _⟩
  | cons entry entries ih =>
    rw [List.length_cons] at hseen
    have hbound : ¬ bound < seen + 1 := by omega
    have hfiles' : ∀ key files, .directory key files ∈ entries → files.length ≤ provisionalDirectoryEntryBound :=
      fun key files hmem => hfiles key files (List.mem_cons_of_mem _ hmem)
    simp only [reconcileProvisionalUploads, rejectIf_of_not hbound, ok_bind]
    cases entry with
    | stagedManifest key => exact ih (seen + 1) h (by omega) hfiles' huploads hroom
    | directory key files =>
      obtain ⟨upload, hget, habortable⟩ := huploads key List.mem_cons_self
      change c.pendingAudit + (key :: directoryKeys entries).length ≤ _ at hroom
      change ∃ c' : Catalog, _ ∧ c'.pendingAudit ≤ c.pendingAudit + (key :: directoryKeys entries).length
      rw [List.length_cons] at hroom ⊢
      obtain ⟨c₁, hone, hpending⟩ := reconcileDirectory_ok h hget habortable
        (hfiles key files List.mem_cons_self) hnow (by omega)
      have haborted : UploadAborted C config key c c₁ := reconcileDirectory_eq_ok hone
      obtain ⟨c', hrest, hle⟩ := ih (seen + 1)
        (haborted.steps.invariant (P := RecoverySound) (fun _ _ _ _ h => h.recoverySound) h) (by omega) hfiles'
        (fun k hk => by
          by_cases heq : k = key
          · obtain ⟨upload', hget', hstate'⟩ := haborted.after
            exact ⟨upload', heq ▸ hget', by simp [Upload.abortable, hstate']⟩
          · rw [haborted.others k heq]
            exact huploads k (List.mem_cons_of_mem _ hk)) (by omega)
      refine ⟨c', ?_, by omega⟩
      simp only [hone, ok_bind]
      exact hrest

/-! ## Partial and quarantined files -/

/-- The identities of the entries of the quarantine and of the partial files. -/
def Disk.workNames (d : Disk) : List Id32 :=
  d.quarantineEntries.rows.map (·.1) ++ (d.partials.rows.map (·.1) ++ d.quarantined.rows.map (·.1))

theorem mem_keys_put {v : ν} (h : key ∈ (t.put k v).rows.map (·.1)) :
    key = k ∨ key ∈ t.rows.map (·.1) := by
  rcases List.mem_cons.mp h with h | h
  · exact Or.inl h
  · exact Or.inr (List.map_subset _ List.filter_sublist.subset h)

theorem mem_keys_insertQuarantineEntry {bytes : Nat}
    (h : key ∈ (insertQuarantineEntry now id bytes entries).rows.map (·.1)) :
    key = id ∨ key ∈ entries.rows.map (·.1) := by
  unfold insertQuarantineEntry at h
  split at h
  · exact mem_keys_put h
  · exact Or.inr h

/-- A disk with the store and directories of another, and quarantine entries named by its work files. -/
structure Requarantined (d d' : Disk) : Prop where
  store : d'.store = d.store
  directories : d'.directories = d.directories
  stagedManifests : d'.stagedManifests = d.stagedManifests
  entries : ∀ id ∈ d'.quarantineEntries.rows.map (·.1), id ∈ d.workNames
  quarantined : ∀ id ∈ d'.quarantined.rows.map (·.1), id ∈ d.workNames
  partials : ∀ id ∈ d'.partials.rows.map (·.1), id ∈ d.workNames

theorem reconcilePartials_requarantined (bound now : Nat) (d : Disk) :
    Requarantined d (reconcilePartials bound now d) := by
  have hrows : ∀ r ∈ d.partials.rows.take bound, r.1 ∈ d.workNames := fun r hr =>
    List.mem_append_right _ (List.mem_append_left _ (List.mem_map_of_mem (List.take_subset _ _ hr)))
  refine List.foldlRecOn (motive := Requarantined d) _ _
    ⟨rfl, rfl, rfl, fun id h => List.mem_append_left _ h,
      fun id h => List.mem_append_right _ (List.mem_append_right _ h),
      fun id h => List.mem_append_right _ (List.mem_append_left _ h)⟩ fun d₁ h r hr => ?_
  refine ⟨h.store, h.directories, h.stagedManifests, fun id hid => ?_, fun id hid => ?_, fun id hid => ?_⟩
  · rcases mem_keys_insertQuarantineEntry hid with rfl | hid
    · exact hrows r hr
    · exact h.entries id hid
  · rcases mem_keys_put hid with rfl | hid
    · exact hrows r hr
    · exact h.quarantined id hid
  · exact h.partials id (List.map_subset _ List.filter_sublist.subset hid)

theorem Requarantined.reconcileQuarantine (bound now : Nat) (h : Requarantined d d') :
    Requarantined d (reconcileQuarantine bound now d') := by
  refine ⟨h.store, h.directories, h.stagedManifests, ?_, h.quarantined, h.partials⟩
  refine List.foldlRecOn (motive := fun entries : Table Id32 QuarantineEntry =>
    ∀ id ∈ entries.rows.map (·.1), id ∈ d.workNames) _ _ h.entries fun entries hentries r hr id hid => ?_
  rcases mem_keys_insertQuarantineEntry hid with rfl | hid
  · exact h.quarantined _ (List.mem_map_of_mem (List.take_subset _ _ hr))
  · exact hentries id hid

theorem Requarantined.length_le (h : Requarantined d d') :
    d'.quarantineEntries.rows.length ≤ d.workNames.dedup.length := by
  rw [← List.length_map (f := (·.1))]
  exact (List.subperm_of_subset d'.quarantineEntries.nodup fun id hid =>
    List.mem_dedup.mpr (h.entries id hid)).length_le

theorem pruneCandidate_mem
    (h : pruneCandidate limit now entries = some id) : id ∈ entries.rows.map (·.1) := by
  simp only [pruneCandidate, Option.map_eq_some_iff] at h
  obtain ⟨r, hr, rfl⟩ := h
  refine List.mem_map_of_mem ?_
  split at hr
  · exact (List.perm_insertionSort _ _).subset (List.mem_of_mem_head? hr)
  · exact List.filter_sublist.subset ((List.perm_insertionSort _ _).subset (List.mem_of_mem_head? hr))

/-- Nothing is left to remove only when the entries are below the limit. -/
theorem quarantineBytes_le_of_none
    (h : pruneCandidate limit now entries = none) : quarantineBytes entries ≤ limit := by
  by_contra hlimit
  simp only [pruneCandidate, if_pos (not_le.mp hlimit), Option.map_eq_none_iff, List.head?_eq_none_iff] at h
  have hnil : entries.rows = [] :=
    List.eq_nil_of_length_eq_zero ((List.length_insertionSort _ _).symm.trans (congrArg List.length h))
  exact hlimit (by rw [quarantineBytes, Table.sum, hnil]; exact Nat.zero_le _)

/-- What the removal of quarantined files leaves alone. -/
structure QuarantinePruned (C : Crypto) (config : StoreConfig) (d d' : Disk) : Prop where
  steps : CatalogSteps C config d.store.catalog d'.store.catalog
  uploads : d'.store.catalog.uploads = d.store.catalog.uploads
  clock : d'.store.clock = d.store.clock
  directories : d'.directories = d.directories
  workNames : ∀ id ∈ d'.workNames, id ∈ d.workNames

theorem QuarantinePruned.refl : QuarantinePruned C config d d :=
  ⟨.refl, rfl, rfl, rfl, fun _ h => h⟩

theorem QuarantinePruned.trans {d₁ d₂ : Disk} (h : QuarantinePruned C config d d₁)
    (h' : QuarantinePruned C config d₁ d₂) : QuarantinePruned C config d d₂ :=
  ⟨h.steps.trans h'.steps, h'.uploads.trans h.uploads, h'.clock.trans h.clock, h'.directories.trans h.directories,
    fun id hid => h.workNames id (h'.workNames id hid)⟩

theorem removeQuarantined_eq_ok (h : d.removeQuarantined now key = .ok d') : QuarantinePruned C config d d' := by
  simp only [Disk.removeQuarantined, bind_eq_ok, exists_unit, pure_eq_ok] at h
  obtain ⟨-, c₁, hrecord, rfl⟩ := h
  obtain ⟨outbox, rfl⟩ := record_eq_ok hrecord
  refine ⟨.single ⟨now, .tick 0, .onObjects _ (.exported outbox)⟩, rfl, rfl, rfl, fun id hid => ?_⟩
  simp only [Disk.workNames, List.mem_append] at hid ⊢
  rcases hid with hid | hid | hid
  · exact Or.inl (List.map_subset _ List.filter_sublist.subset hid)
  · exact Or.inr (Or.inl hid)
  · exact Or.inr (Or.inr (List.map_subset _ List.filter_sublist.subset hid))

theorem pruneQuarantineBounded_eq_ok (h : pruneQuarantineBounded limit now bound d = .ok d') :
    QuarantinePruned C config d d' := by
  induction bound generalizing d with
  | zero =>
    cases h
    exact .refl
  | succ bound ih =>
    simp only [pruneQuarantineBounded] at h
    split at h
    · cases h
      exact .refl
    · simp only [bind_eq_ok] at h
      obtain ⟨d₁, hone, h⟩ := h
      exact (removeQuarantined_eq_ok hone).trans (ih h)

theorem removeQuarantined_ok (hkey : isZeroId key = false) (hnow : now ≠ 0)
    (hroom : d.store.catalog.pendingAudit < maxPendingAuditRecords) :
    ∃ d', d.removeQuarantined now key = .ok d' ∧ d'.quarantineEntries = d.quarantineEntries.erase key ∧
      d'.store.catalog.pendingAudit ≤ d.store.catalog.pendingAudit + 1 := by
  have hcapacity : requireCapacity d.store.catalog.outbox [⟨.collected, .quarantine, key, 0⟩] = .ok () :=
    requireCapacity_one hkey (Nat.zero_le _) hroom
  obtain ⟨outbox, hrecord, hpending⟩ := record_one (c := d.store.catalog) ⟨.collected, .quarantine, key, 0⟩ hnow
  simp only [Disk.removeQuarantined, hcapacity, ok_bind, hrecord, pure_eq_ok, exists_eq_left', true_and]
  exact hpending

/-- With an operation and room per entry, the quarantine ends below its limit. -/
theorem pruneQuarantineBounded_ok (limit : Nat) (hbound : d.quarantineEntries.rows.length ≤ bound) (hnow : now ≠ 0)
    (hnames : ∀ id ∈ d.quarantineEntries.rows.map (·.1), isZeroId id = false)
    (hroom : d.store.catalog.pendingAudit + d.quarantineEntries.rows.length ≤ maxPendingAuditRecords) :
    ∃ d', pruneQuarantineBounded limit now bound d = .ok d' ∧ quarantineBytes d'.quarantineEntries ≤ limit := by
  induction bound generalizing d with
  | zero =>
    refine ⟨d, rfl, ?_⟩
    rw [quarantineBytes, Table.sum, List.eq_nil_of_length_eq_zero (Nat.le_zero.mp hbound)]
    exact Nat.zero_le _
  | succ bound ih =>
    simp only [pruneQuarantineBounded]
    split
    · rename_i hnone
      exact ⟨d, rfl, quarantineBytes_le_of_none hnone⟩
    · rename_i id hid
      have hmem := pruneCandidate_mem hid
      obtain ⟨entry, hentry⟩ : ∃ entry, d.quarantineEntries.get? id = some entry :=
        Option.ne_none_iff_exists'.mp fun hnone => Table.get?_eq_none_iff.mp hnone hmem
      have hshorter := Table.length_erase_lt hentry
      obtain ⟨d₁, hone, hentries, hpending⟩ := removeQuarantined_ok (d := d) (hnames id hmem) hnow (by omega)
      rw [← hentries] at hshorter
      rw [hone, ok_bind]
      refine ih (by omega) (fun k hk => hnames k ?_) (by omega)
      rw [hentries] at hk
      exact List.map_subset _ List.filter_sublist.subset hk

/-! ## Opening the store -/

theorem directoryKeys_uploadEntries : directoryKeys d.uploadEntries = d.directories.rows.map (·.1) := by
  simp only [directoryKeys, Disk.uploadEntries, List.filterMap_append, List.filterMap_map, Function.comp_def,
    List.filterMap_none, List.nil_append, List.filterMap_eq_map']

/-- What a successful opening has done to the uploads with a directory. -/
structure Opened (C : Crypto) (config : StoreConfig) (d d' : Disk) : Prop where
  uploads : UploadsAborted C config (d.directories.rows.map (·.1)) d.store.catalog d'.store.catalog
  clock : d'.store.clock = d.store.clock
  directories : d'.directories = Table.empty
  workNames : ∀ id ∈ d'.workNames, id ∈ d.workNames

theorem UploadsAborted.of_steps {c₁ c₂ : Catalog} (hbefore : CatalogSteps C config c c₁)
    (huploads : c₁.uploads = c.uploads) (h : UploadsAborted C config keys c₁ c₂)
    (hafter : CatalogSteps C config c₂ c') (huploads' : c'.uploads = c₂.uploads) :
    UploadsAborted C config keys c c' := by
  refine ⟨(hbefore.trans h.steps).trans hafter, ?_, ?_, ?_⟩
  · rw [← huploads]
    exact h.before
  · rw [huploads']
    exact h.after
  · rw [huploads', ← huploads]
    exact h.others

theorem markActiveSourceLeasesUncertain_steps :
    CatalogSteps C config c (markActiveSourceLeasesUncertain c) :=
  .single ⟨0, _, .transacted (.releaseLease zeroId zeroId 0) rfl _ (.onLeases rfl _)⟩

theorem reconcileWorkDirs_eq_ok (h : reconcileWorkDirs bound now d = .ok d') : Opened C config d d' := by
  simp only [reconcileWorkDirs, bind_eq_ok, pure_eq_ok] at h
  obtain ⟨s₁, hevictions, c₂, huploads, rfl⟩ := h
  have hrecovered : EvictionsRecovered C config d.store s₁ := reconcileEvictions_eq_ok hevictions
  have haborted : UploadsAborted C config _ s₁.catalog c₂ := reconcileProvisionalUploads_eq_ok huploads
  rw [directoryKeys_uploadEntries] at haborted
  have hquarantine := (reconcilePartials_requarantined bound now
    { d with store := { s₁ with catalog := c₂ }, directories := Table.empty }).reconcileQuarantine bound now
  refine ⟨?_, ?_, hquarantine.directories, fun id hid => ?_⟩
  · rw [hquarantine.store]
    exact .of_steps hrecovered.steps hrecovered.uploads haborted .refl rfl
  · rw [hquarantine.store]
    exact hrecovered.clock
  · rw [Disk.workNames, List.mem_append, List.mem_append] at hid
    rcases hid with hid | hid | hid
    · exact hquarantine.entries id hid
    · exact hquarantine.partials id hid
    · exact hquarantine.quarantined id hid

theorem openStore_eq_ok (h : openStore config supportsEpoch d = .ok d') : Opened C config d d' := by
  simp only [openStore, enforceQuarantineCap, bind_eq_ok, exists_unit, pure_eq_ok] at h
  obtain ⟨-, d₁, hwork, d₂, hprune, -, rfl⟩ := h
  have hopened : Opened C config _ d₁ := reconcileWorkDirs_eq_ok hwork
  have hpruned : QuarantinePruned C config d₁ d₂ := pruneQuarantineBounded_eq_ok hprune
  refine ⟨.of_steps markActiveSourceLeasesUncertain_steps rfl hopened.uploads hpruned.steps hpruned.uploads,
    hpruned.clock.trans hopened.clock, hpruned.directories.trans hopened.directories, fun id hid => ?_⟩
  exact hopened.workNames id (hpruned.workNames id hid)

/-- Within the bounds, the leftovers are worked off if every such upload can be aborted. -/
theorem reconcileWorkDirs_ok (C : Crypto) (config : StoreConfig) (now : Nat) (hsound : RecoverySound d.store.catalog)
    (hnow : now ≠ 0) (hentries : d.uploadEntries.length ≤ reconcileBound)
    (hfiles : ∀ r ∈ d.directories.rows, r.2.length ≤ provisionalDirectoryEntryBound)
    (hroom : d.store.catalog.pendingAudit + d.store.catalog.leavingCount + d.directories.rows.length ≤
      maxPendingAuditRecords)
    (huploads : ∀ key ∈ d.directories.rows.map (·.1),
      ∃ upload, d.store.catalog.uploads.get? key = some upload ∧ upload.abortable) :
    ∃ d', reconcileWorkDirs reconcileBound now d = .ok d' ∧
      d'.quarantineEntries.rows.length ≤ d.workNames.dedup.length ∧
      d'.store.catalog.pendingAudit ≤
        d.store.catalog.pendingAudit + d.store.catalog.leavingCount + d.directories.rows.length := by
  obtain ⟨s₁, hevictions, hpending₁⟩ := reconcileEvictions_ok C config reconcileBound hsound hnow (by omega)
  have hrecovered : EvictionsRecovered C config d.store s₁ := reconcileEvictions_eq_ok hevictions
  have hkeys : (directoryKeys d.uploadEntries).length = d.directories.rows.length := by
    rw [directoryKeys_uploadEntries, List.length_map]
  obtain ⟨c₂, haborts, hpending₂⟩ := reconcileProvisionalUploads_ok C config reconcileBound 0 d.uploadEntries
    (hrecovered.steps.invariant (fun _ _ _ _ h => h.recoverySound) hsound) hnow (by omega)
    (fun key files hmem => by
      simp only [Disk.uploadEntries, List.mem_append, List.mem_map, reduceCtorEq, and_false, exists_false, false_or,
        UploadEntry.directory.injEq] at hmem
      obtain ⟨r, hr, rfl, rfl⟩ := hmem
      exact hfiles r hr)
    (by rw [directoryKeys_uploadEntries, hrecovered.uploads]; exact huploads) (by omega)
  have hquarantine := (reconcilePartials_requarantined reconcileBound now
    { d with store := { s₁ with catalog := c₂ }, directories := Table.empty }).reconcileQuarantine reconcileBound now
  refine ⟨_, ?_, hquarantine.length_le, ?_⟩
  · rw [reconcileWorkDirs, hevictions, ok_bind, haborts, ok_bind]
    rfl
  · rw [hquarantine.store]
    change c₂.pendingAudit ≤ _
    omega

/-! ## Reachable disks -/

inductive WorkStep (C : Crypto) (config : StoreConfig) (d : Disk) : Disk → Prop
  | stored (e : Event) (store : State) (h : exec C config d.store e = .ok store) : WorkStep C config d { d with store }
  | onDirectories (directories : Table Id32 (List Nat))
      (hkeys : ∀ key ∈ directories.rows.map (·.1),
        (d.store.catalog.uploads.get? key).isSome ∨ key ∈ d.directories.rows.map (·.1)) :
      WorkStep C config d { d with directories }
  | onManifests (stagedManifests : List Id32) : WorkStep C config d { d with stagedManifests }
  | onFiles (partials quarantined : Table Id32 Nat) (quarantineEntries : Table Id32 QuarantineEntry)
      (hnames : ∀ id ∈ Disk.workNames { d with partials, quarantined, quarantineEntries },
        isZeroId id = false ∨ id ∈ d.workNames) :
      WorkStep C config d { d with partials, quarantined, quarantineEntries }
  | pruned (id : Id32) (d' : Disk) (h : d.removeQuarantined d.store.clock id = .ok d') : WorkStep C config d d'

theorem Disk.mem_workNames : id ∈ d.workNames ↔ id ∈ d.quarantineEntries.rows.map (·.1) ∨
    id ∈ d.partials.rows.map (·.1) ∨ id ∈ d.quarantined.rows.map (·.1) := by
  rw [workNames, List.mem_append, List.mem_append]

theorem mem_keys_of_get? {v : ν} (h : t.get? key = some v) :
    key ∈ t.rows.map (·.1) := List.mem_map_of_mem (Table.get?_eq_some_iff.mp h)

theorem mem_keys_of_erase (h : key ∈ (t.erase k).rows.map (·.1)) :
    key ∈ t.rows.map (·.1) := List.map_subset _ List.filter_sublist.subset h

theorem WorkStep.of_contents {files' : List Nat} (h : d.directories.get? key = some files) :
    WorkStep C config d { d with directories := d.directories.put key files' } := by
  refine .onDirectories _ fun k hk => Or.inr ?_
  rcases mem_keys_put hk with rfl | hk
  · exact mem_keys_of_get? h
  · exact hk

theorem Disk.exec_workStep (h : d.exec C config e = .ok d') : WorkStep C config d d' := by
  cases e <;>
    simp only [Disk.exec, bind_eq_ok, exists_unit, okOr_eq_ok, rejectIf_eq_ok, Bool.not_eq_true, pure_eq_ok] at h
  case store e =>
    obtain ⟨s', hexec, rfl⟩ := h
    exact .stored e s' hexec
  case makeDirectory key =>
    obtain ⟨hrow, rfl⟩ := h
    split
    · refine .onDirectories _ fun k hk => ?_
      rcases mem_keys_put hk with rfl | hk
      · exact Or.inl (Option.isSome_iff_ne_none.mpr hrow)
      · exact Or.inr hk
    · exact .onDirectories d.directories fun k hk => Or.inr hk
  case stageChunk | removeChunk =>
    obtain ⟨files, hfiles, rfl⟩ := h
    exact .of_contents hfiles
  case removeDirectory key =>
    obtain ⟨_, -, -, rfl⟩ := h
    exact .onDirectories _ fun k hk => Or.inr (mem_keys_of_erase hk)
  case stageManifest | removeManifest =>
    cases h
    exact .onManifests _
  case writePartial id bytes =>
    obtain ⟨hid, rfl⟩ := h
    refine .onFiles _ _ _ fun k hk => ?_
    rcases Disk.mem_workNames.mp hk with hk | hk | hk
    · exact Or.inr (Disk.mem_workNames.mpr (Or.inl hk))
    · rcases mem_keys_put hk with rfl | hk
      · exact Or.inl hid
      · exact Or.inr (Disk.mem_workNames.mpr (Or.inr (Or.inl hk)))
    · exact Or.inr (Disk.mem_workNames.mpr (Or.inr (Or.inr hk)))
  case removePartial id =>
    cases h
    refine .onFiles _ _ _ fun k hk => Or.inr (Disk.mem_workNames.mpr ?_)
    rcases Disk.mem_workNames.mp hk with hk | hk | hk
    · exact Or.inl hk
    · exact Or.inr (Or.inl (mem_keys_of_erase hk))
    · exact Or.inr (Or.inr hk)
  case moveToQuarantine id bytes =>
    obtain ⟨hid, rfl⟩ := h
    refine .onFiles _ _ _ fun k hk => ?_
    rcases Disk.mem_workNames.mp hk with hk | hk | hk
    · exact Or.inr (Disk.mem_workNames.mpr (Or.inl hk))
    · exact Or.inr (Disk.mem_workNames.mpr (Or.inr (Or.inl hk)))
    · rcases mem_keys_put hk with rfl | hk
      · exact Or.inl hid
      · exact Or.inr (Disk.mem_workNames.mpr (Or.inr (Or.inr hk)))
  case catalogQuarantine id =>
    obtain ⟨bytes, hbytes, rfl⟩ := h
    refine .onFiles _ _ _ fun k hk => Or.inr (Disk.mem_workNames.mpr ?_)
    rcases Disk.mem_workNames.mp hk with hk | hk | hk
    · rcases mem_keys_insertQuarantineEntry hk with rfl | hk
      · exact Or.inr (Or.inr (mem_keys_of_get? hbytes))
      · exact Or.inl hk
    · exact Or.inr (Or.inl hk)
    · exact Or.inr (Or.inr hk)
  case pruneQuarantine id => exact .pruned id d' h

theorem WorkStep.steps (h : WorkStep C config d d') : CatalogSteps C config d.store.catalog d'.store.catalog := by
  cases h with
  | stored e store hexec => exact (exec_catalogStep hexec).steps
  | onDirectories _ _ | onManifests _ | onFiles _ _ _ _ => exact .refl
  | pruned id _ h => exact (removeQuarantined_eq_ok h).steps

theorem Disk.step_preserves {P : Disk → Prop} (hstep : ∀ d', WorkStep C config d d' → P d → P d')
    (hd : P d) : P (d.step C config e) := by
  unfold Disk.step
  split
  · rename_i d' h
    exact hstep d' (Disk.exec_workStep h) hd
  · exact hd

/-- An invariant that every transaction preserves holds on every reachable disk. -/
theorem Reachable.catalog_invariant {P : Catalog → Prop} (h : Reachable C config supportsEpoch d)
    (hstep : ∀ now e c c', CatalogStep C config now e c c' → P c → P c') (hinitial : P Catalog.initial) :
    P d.store.catalog := by
  induction h with
  | created hconfig => exact hinitial
  | step d e _ ih =>
    exact Disk.step_preserves (P := fun d => P d.store.catalog) (fun _ h => h.steps.invariant hstep) ih
  | reopened d d' _ hopen ih => exact (openStore_eq_ok hopen).uploads.steps.invariant hstep ih

/-- What recovery relies on. -/
structure Disk.Sound (d : Disk) : Prop where
  clock : d.store.clock ≠ 0
  directories : ∀ key ∈ d.directories.rows.map (·.1), (d.store.catalog.uploads.get? key).isSome
  names : ∀ id ∈ d.workNames, isZeroId id = false

theorem WorkStep.sound (h : WorkStep C config d d') (hd : d.Sound) : d'.Sound := by
  have hrows : ∀ key ∈ d.directories.rows.map (·.1), (d'.store.catalog.uploads.get? key).isSome :=
    fun key hkey => h.steps.invariant (P := fun c => (c.uploads.get? key).isSome)
      (fun _ _ _ _ hstep => hstep.uploadStep.isSome) (hd.directories key hkey)
  cases h with
  | stored e store hexec =>
    exact ⟨Nat.ne_of_gt (Nat.lt_of_lt_of_le (Nat.pos_of_ne_zero hd.clock) (exec_advanced hexec).clock), hrows, hd.names⟩
  | onDirectories directories hkeys =>
    exact ⟨hd.clock, fun key hkey => (hkeys key hkey).elim id (hd.directories key), hd.names⟩
  | onManifests stagedManifests => exact ⟨hd.clock, hrows, hd.names⟩
  | onFiles partials quarantined quarantineEntries hnames =>
    exact ⟨hd.clock, hrows, fun id hid => (hnames id hid).elim (fun h => h) (hd.names id)⟩
  | pruned id _ h =>
    have hpruned : QuarantinePruned C config d d' := removeQuarantined_eq_ok h
    refine ⟨?_, ?_, fun k hk => hd.names k (hpruned.workNames k hk)⟩
    · rw [hpruned.clock]
      exact hd.clock
    · rw [hpruned.directories]
      exact hrows

theorem Reachable.sound (h : Reachable C config supportsEpoch d) : d.Sound := by
  induction h with
  | created hconfig => exact ⟨Nat.one_ne_zero, fun _ h => (by cases h), fun _ h => (by cases h)⟩
  | step d e _ ih => exact Disk.step_preserves (P := Disk.Sound) (fun _ h => h.sound) ih
  | reopened d d' _ hopen ih =>
    have hopened : Opened C config d d' := openStore_eq_ok hopen
    refine ⟨?_, ?_, fun id hid => ih.names id (hopened.workNames id hid)⟩
    · rw [hopened.clock]
      exact ih.clock
    · rw [hopened.directories]
      exact fun _ h => by cases h

theorem Reachable.recoverySound (h : Reachable C config supportsEpoch d) : RecoverySound d.store.catalog :=
  h.catalog_invariant (fun _ _ _ _ hstep => hstep.recoverySound) .initial

theorem Reachable.checkConfig (h : Reachable C config supportsEpoch d) :
    checkConfig config supportsEpoch = .ok () := by
  induction h with
  | created hconfig => exact hconfig
  | step d e _ ih => exact ih
  | reopened d d' _ hopen ih => exact ih

end Kvpack.Store
