import Kvpack.Store.Lemmas.Uploads

/-!
# What the other transactions do

For each transaction that is not about an upload: the conditions under which it commits, and the catalog it leaves.
-/

namespace Kvpack.Store

open Base Kvpack.Core

variable {config : StoreConfig} {c c' : Catalog} {key : Id32} {now : Nat}
variable {eviction : Eviction} {keys : List Id32} {keyEpoch : UInt64} {objects : List ChunkObject}
  {cataloged : List CatalogedChunk}

/-! ## Tombstones -/

theorem addTombstone_eq (kind : ObjectKind) (id : Id32) :
    c.addTombstone kind id = { c with tombstones := c.tombstones.insert (kind, id) } := by
  unfold Catalog.addTombstone List.insert
  by_cases h : (kind, id) ∈ c.tombstones
  · simp [h]
  · simp [h]

theorem addTombstones_eq (kind : ObjectKind) (ids : List Id32) :
    ∃ tombstones, addTombstones kind ids c = { c with tombstones } ∧
      ∀ x, x ∈ tombstones ↔ x ∈ c.tombstones ∨ ∃ id ∈ ids, x = (kind, id) := by
  induction ids generalizing c with
  | nil => exact ⟨c.tombstones, rfl, by simp⟩
  | cons id ids ih =>
    obtain ⟨tombstones, heq, hmem⟩ := ih (c := c.addTombstone kind id)
    refine ⟨tombstones, ?_, fun x => ?_⟩
    · rw [show addTombstones kind (id :: ids) c = addTombstones kind ids (c.addTombstone kind id) from rfl, heq,
        addTombstone_eq]
    · rw [hmem, addTombstone_eq, List.mem_insert_iff]
      simp only [List.mem_cons, exists_eq_or_imp]
      tauto

/-! ## Eviction -/

theorem evictManifest_valid {id : Id32} (h : evictManifest id now c = .ok (c', eviction)) :
    isZeroId id = false := by
  simp only [evictManifest, bind_eq_ok, exists_unit] at h
  obtain ⟨_, -, -, hroom, -⟩ := h
  exact (requireCapacity_valid hroom _ List.mem_cons_self).1

theorem evictManifest_eq_ok {id : Id32} (h : evictManifest id now c = .ok (c', eviction)) :
    ∃ row outbox, c.manifests.get? id = some row ∧ c.evictable now id ∧ eviction = ⟨id, row.fileBytes⟩ ∧
      c' = { c with
        tombstones := c.tombstones.insert (.manifest, id)
        checkpoints := c.checkpoints.filter fun _ checkpoint => checkpoint.manifestId ≠ id
        locations := c.locations.modify id fun _ => .evicting
        chunks := c.chunks.map fun key row =>
          if key ∈ c.objectsOf id then { row with refcount := row.refcount - 1 } else row
        manifestChunks := c.manifestChunks.filter fun key _ => key.manifestId ≠ id
        outbox } := by
  simp only [evictManifest, bind_eq_ok, exists_unit, okOr_eq_ok, rejectIf_eq_ok, not_not, pure_eq_ok,
    Prod.mk.injEq] at h
  obtain ⟨row, hrow, hevictable, -, after, hrecord, rfl, rfl⟩ := h
  obtain ⟨outbox, rfl⟩ := record_eq_ok hrecord
  refine ⟨row, outbox, hrow, hevictable, rfl, ?_⟩
  simp only [addTombstone_eq]

theorem finishManifestEviction_eq_ok (h : finishManifestEviction eviction now c = .ok c') :
    (c.manifests.get? eviction.manifestId = none ∧
      c' = { c with locations := c.locations.erase eviction.manifestId }) ∨
    (∃ row outbox, c.manifests.get? eviction.manifestId = some row ∧
      c' = { c with
        locations := c.locations.erase eviction.manifestId
        manifests := c.manifests.erase eviction.manifestId
        durableBytes := c.durableBytes - eviction.fileBytes
        outbox }) := by
  simp only [finishManifestEviction, bind_eq_ok, exists_unit] at h
  obtain ⟨-, h⟩ := h
  split at h
  · rename_i hnone
    cases h
    exact Or.inl ⟨hnone, rfl⟩
  · rename_i hsome
    obtain ⟨row, hrow⟩ := Option.ne_none_iff_exists'.mp hsome
    obtain ⟨outbox, rfl⟩ := record_eq_ok h
    exact Or.inr ⟨row, outbox, hrow, rfl⟩

/-! ## Collection -/

def ChunkRow.evict (row : ChunkRow) : ChunkRow := { row with locationState := .evicting }

def evictRows (keys : List Id32) (chunks : Table Id32 ChunkRow) : Table Id32 ChunkRow :=
  chunks.map fun key row => if key ∈ keys then row.evict else row

theorem markEachEvicting_eq (hnodup : keys.Nodup) :
    ∃ tombstones, markEachEvicting keys c = ({ c with tombstones, chunks := evictRows keys c.chunks },
        keys.map fun key => ⟨key, decide ((c.chunks.get? key).map (·.locationState) = some .tombstoned)⟩) ∧
      ∀ x, x ∈ tombstones ↔ x ∈ c.tombstones ∨ ∃ key ∈ keys, x = (.chunk, key) := by
  induction keys generalizing c with
  | nil =>
    refine ⟨c.tombstones, ?_, by simp⟩
    simp [markEachEvicting, evictRows, Table.map]
  | cons key keys ih =>
    rw [List.nodup_cons] at hnodup
    have hmark : markEvicting c key = ({ c with
        tombstones := c.tombstones.insert (.chunk, key)
        chunks := c.chunks.modify key ChunkRow.evict },
        ⟨key, decide ((c.chunks.get? key).map (·.locationState) = some .tombstoned)⟩) := by
      simp only [markEvicting, addTombstone_eq]
      rfl
    obtain ⟨tombstones, heq, hmem⟩ := ih (c := (markEvicting c key).1) hnodup.2
    rw [hmark] at heq hmem
    refine ⟨tombstones, ?_, fun x => ?_⟩
    · have hrows : evictRows keys (c.chunks.modify key ChunkRow.evict) = evictRows (key :: keys) c.chunks := by
        simp only [evictRows, Table.modify, Table.map_map]
        congr 1
        funext k row
        by_cases hk : k = key <;> simp [hk, ChunkRow.evict]
      have hvictims : ∀ k ∈ keys, (c.chunks.modify key ChunkRow.evict).get? k = c.chunks.get? k := by
        intro k hk
        have hne : k ≠ key := by
          rintro rfl
          exact hnodup.1 hk
        rw [Table.get?_modify, if_neg hne]
      simp only [markEachEvicting, hmark, heq, hrows, List.map_cons]
      congr 2
      exact List.map_congr_left fun k hk => by rw [hvictims k hk]
    · rw [hmem, List.mem_insert_iff]
      simp only [List.mem_cons, exists_eq_or_imp]
      tauto

theorem Catalog.collectable_eq_true {key : Id32} :
    c.collectable now key = true ↔ ∃ row, c.chunks.get? key = some row ∧ row.refcount = 0 ∧
      (row.locationState = .available ∨ row.locationState = .tombstoned) ∧ c.guarded now key = false ∧
      c.anyActive = false := by
  unfold collectable
  split
  · rename_i row hrow
    simp only [Bool.and_eq_true, decide_eq_true_eq, Bool.not_eq_true', hrow, Option.some.injEq, exists_eq_left',
      and_assoc]
  · rename_i hnone
    simp [hnone]

theorem selectVictims_valid {victims : List Victim}
    (h : selectVictims keys now c = .ok (c', victims)) : ∀ key ∈ keys, isZeroId key = false := by
  simp only [selectVictims, bind_eq_ok, exists_unit] at h
  obtain ⟨-, hroom, -⟩ := h
  intro key hkey
  exact (requireCapacity_valid hroom _ (List.mem_map.mpr ⟨key, hkey, rfl⟩)).1

theorem selectVictims_eq_ok {victims : List Victim}
    (h : selectVictims keys now c = .ok (c', victims)) :
    keys ≠ [] ∧ keys.Nodup ∧ (∀ key ∈ keys, c.collectable now key) ∧
      victims = (keys.map fun key => ⟨key, decide ((c.chunks.get? key).map (·.locationState) = some .tombstoned)⟩) ∧
      ∃ tombstones outbox, c' = { c with tombstones, chunks := evictRows keys c.chunks, outbox } ∧
        ∀ x, x ∈ tombstones ↔ x ∈ c.tombstones ∨ ∃ key ∈ keys, x = (.chunk, key) := by
  simp only [selectVictims, bind_eq_ok, exists_unit, rejectIf_eq_ok, not_or, not_not, not_exists, not_and,
    pure_eq_ok, Prod.mk.injEq] at h
  obtain ⟨⟨hne, hnodup, hkeys⟩, -, after, hrecord, rfl, rfl⟩ := h
  obtain ⟨tombstones, heq, hmem⟩ := markEachEvicting_eq (c := c) hnodup
  rw [heq] at hrecord ⊢
  obtain ⟨outbox, rfl⟩ := record_eq_ok hrecord
  exact ⟨hne, hnodup, hkeys, rfl, tombstones, outbox, rfl, hmem⟩

theorem checkVictim_eq_ok {victim : Victim} {current : Option Moved} (h : checkVictim victim c = .ok current) :
    (c.chunks.get? victim.objectKey = none ∧ current = none) ∨
      ∃ row, c.chunks.get? victim.objectKey = some row ∧
        current = some ⟨victim.objectKey, row.objectBytes, victim.wasTombstoned⟩ := by
  unfold checkVictim at h
  split at h
  · rename_i hnone
    cases h
    exact Or.inl ⟨hnone, rfl⟩
  · rename_i row hrow
    simp only [bind_eq_ok, exists_unit, pure_eq_ok] at h
    exact Or.inr ⟨row, hrow, h.2.symm⟩

/-- What the removal of one row does to the chunk rows, and the bytes it frees. -/
inductive RowRemoval (moved : Moved) (chunks : Table Id32 ChunkRow) : Table Id32 ChunkRow → Nat → Prop
  | kept (hkept : ∀ row, chunks.get? moved.objectKey = some row →
      ¬ (row.locationState = .evicting ∨ row.locationState = .trashed)) : RowRemoval moved chunks chunks 0
  | deleted (row : ChunkRow) (hrow : chunks.get? moved.objectKey = some row)
      (hstate : row.locationState = .evicting ∨ row.locationState = .trashed) (hcount : row.refcount = 0) :
      RowRemoval moved chunks (chunks.erase moved.objectKey) (if moved.wasTombstoned then 0 else moved.objectBytes)
  | trashed (row : ChunkRow) (hrow : chunks.get? moved.objectKey = some row)
      (hstate : row.locationState = .evicting ∨ row.locationState = .trashed) (hcount : row.refcount ≠ 0) :
      RowRemoval moved chunks (chunks.put moved.objectKey { row with locationState := .trashed }) 0

theorem removeRow_eq (moved : Moved) (c : Catalog) :
    ∃ chunks freed, removeRow moved c = ({ c with chunks }, freed) ∧ RowRemoval moved c.chunks chunks freed := by
  unfold removeRow
  split
  · rename_i hnone
    refine ⟨c.chunks, 0, rfl, .kept fun row hrow => ?_⟩
    rw [hnone] at hrow
    cases hrow
  · rename_i row hrow
    split
    · rename_i hstate
      split
      · rename_i hcount
        exact ⟨_, _, rfl, .deleted row hrow hstate hcount⟩
      · rename_i hcount
        exact ⟨_, _, rfl, .trashed row hrow hstate hcount⟩
    · rename_i hstate
      refine ⟨c.chunks, 0, rfl, .kept fun row' hrow' => ?_⟩
      rw [hrow, Option.some.injEq] at hrow'
      rwa [← hrow']

/-- What every removal of a row preserves holds after all of them. -/
theorem removeRows_eq {P : List Moved → Table Id32 ChunkRow → Nat → Prop} (moved : List Moved) (c : Catalog)
    (freed₀ : Nat) (hP : P moved c.chunks freed₀)
    (hstep : ∀ m rest chunks chunks' freed freed', RowRemoval m chunks chunks' freed → P (m :: rest) chunks freed' →
      P rest chunks' (freed' + freed)) :
    ∃ chunks freed, removeRows moved c = ({ c with chunks }, freed) ∧ P [] chunks (freed₀ + freed) := by
  induction moved generalizing c freed₀ with
  | nil => exact ⟨c.chunks, 0, rfl, hP⟩
  | cons m rest ih =>
    obtain ⟨chunks, freed, heq, hremoval⟩ := removeRow_eq m c
    obtain ⟨chunks', freed', heq', hP'⟩ :=
      ih { c with chunks } (freed₀ + freed) (hstep m rest c.chunks chunks freed freed₀ hremoval hP)
    refine ⟨chunks', freed + freed', ?_, ?_⟩
    · simp only [removeRows, heq, heq']
    · rwa [← Nat.add_assoc]

theorem removeRows_frame (moved : List Moved) (c : Catalog) :
    ∃ chunks freed, removeRows moved c = ({ c with chunks }, freed) := by
  obtain ⟨chunks, freed, heq, -⟩ := removeRows_eq (P := fun _ _ _ => True) moved c 0 trivial
    fun _ _ _ _ _ _ _ _ => trivial
  exact ⟨chunks, freed, heq⟩

theorem finishCollection_eq_ok {moved : List Moved} (h : finishCollection moved now c = .ok c') :
    ∃ outbox, c' = { (removeRows moved c).1 with
      durableBytes := (removeRows moved c).1.durableBytes - (removeRows moved c).2
      outbox } := by
  simp only [finishCollection, bind_eq_ok, exists_unit] at h
  obtain ⟨-, h⟩ := h
  split at h
  · cases h
    exact ⟨_, rfl⟩
  · obtain ⟨outbox, rfl⟩ := record_eq_ok h
    exact ⟨outbox, rfl⟩

/-! ## Demotion -/

theorem selectDemotions_eq_ok {victims : List Demoted}
    (h : selectDemotions keys now c = .ok victims) :
    keys.Nodup ∧ (∀ key ∈ keys, c.demotable now key) ∧ victims.map (·.objectKey) = keys ∧
      ∀ victim ∈ victims, ∃ row, c.chunks.get? victim.objectKey = some row ∧ victim.rung = row.fidelityRung ∧
        victim.objectBytes = row.objectBytes := by
  simp only [selectDemotions, bind_eq_ok, exists_unit, rejectIf_eq_ok, not_or, not_not, not_exists, not_and,
    collect_eq_ok, okOr_eq_ok, pure_eq_ok] at h
  obtain ⟨⟨-, hnodup, hkeys⟩, h⟩ := h
  refine ⟨hnodup, hkeys, ?_, fun victim hvictim => ?_⟩
  · refine (forall₂_map_eq (f := id) h ?_).symm.trans (List.map_id _)
    rintro key victim ⟨row, -, rfl⟩
    rfl
  · obtain ⟨key, -, row, hrow, rfl⟩ := forall₂_exists_left h hvictim
    exact ⟨row, hrow, rfl, rfl⟩

/-- What the demotion of one victim does to the rows, and the bytes it takes off. -/
inductive RowDemotion (victim : Demoted) (chunks : Table Id32 ChunkRow) : Table Id32 ChunkRow → Nat → Prop
  | kept (hkept : ∀ row, chunks.get? victim.objectKey = some row → row.locationState = .available →
      victim.rung = .restQuantized → row.fidelityRung ≠ .restQuantized) : RowDemotion victim chunks chunks 0
  | quantized (row : ChunkRow) (hrow : chunks.get? victim.objectKey = some row)
      (hstate : row.locationState = .available) (hrung : row.fidelityRung = .residentFp16)
      (hvictim : victim.rung = .residentFp16) :
      RowDemotion victim chunks (chunks.put victim.objectKey { row with fidelityRung := .restQuantized }) 0
  | dropped (row : ChunkRow) (hrow : chunks.get? victim.objectKey = some row)
      (hstate : row.locationState = .available) (hrung : row.fidelityRung = .restQuantized)
      (hvictim : victim.rung = .restQuantized) :
      RowDemotion victim chunks
        (chunks.put victim.objectKey { row with fidelityRung := .tombstone, locationState := .tombstoned })
        victim.objectBytes

theorem demoteRow_eq (victim : Demoted) (c : Catalog) :
    ∃ chunks freed, demoteRow victim c = { c with chunks, durableBytes := c.durableBytes - freed } ∧
      RowDemotion victim c.chunks chunks freed := by
  unfold demoteRow
  split
  · rename_i hnone
    refine ⟨c.chunks, 0, rfl, .kept fun row hrow => ?_⟩
    rw [hnone] at hrow
    cases hrow
  · rename_i row hrow
    split
    · rename_i hmatch
      split
      · rename_i hrung
        exact ⟨_, 0, rfl, .quantized row hrow hmatch.2 (hmatch.1.trans hrung) hrung⟩
      · rename_i hrung
        exact ⟨_, _, rfl, .dropped row hrow hmatch.2 (hmatch.1.trans hrung) hrung⟩
      · rename_i hrung
        refine ⟨c.chunks, 0, rfl, .kept fun _ _ _ h => ?_⟩
        rw [hrung] at h
        cases h
    · rename_i hmismatch
      refine ⟨c.chunks, 0, rfl, .kept fun row' hrow' hstate hvictim hrung => ?_⟩
      rw [hrow, Option.some.injEq] at hrow'
      exact hmismatch ⟨by rw [hrow', hrung, hvictim], by rw [hrow', hstate]⟩

/-- What the demotion of each victim preserves holds after the transaction. -/
theorem demoteVictims_eq_ok {P : List Demoted → Table Id32 ChunkRow → Nat → Prop} {victims : List Demoted}
    (h : demoteVictims victims c = .ok c') (hP : P victims c.chunks c.durableBytes)
    (hstep : ∀ victim rest chunks chunks' freed durable, RowDemotion victim chunks chunks' freed →
      P (victim :: rest) chunks durable → P rest chunks' (durable - freed)) :
    ∃ chunks durableBytes, c' = { c with chunks, durableBytes } ∧ durableBytes ≤ c.durableBytes ∧
      P [] chunks durableBytes := by
  simp only [demoteVictims, bind_eq_ok, exists_unit, pure_eq_ok] at h
  obtain ⟨-, rfl⟩ := h
  induction victims generalizing c with
  | nil => exact ⟨c.chunks, c.durableBytes, rfl, le_refl _, hP⟩
  | cons victim rest ih =>
    obtain ⟨chunks, freed, heq, hdemotion⟩ := demoteRow_eq victim c
    obtain ⟨chunks', durable', heq', hle, hP'⟩ := ih (c := demoteRow victim c) (by
      rw [heq]
      exact hstep victim rest c.chunks chunks freed c.durableBytes hdemotion hP)
    refine ⟨chunks', durable', ?_, ?_, hP'⟩
    · rw [List.foldl_cons, heq', heq]
    · rw [heq] at hle
      exact hle.trans (Nat.sub_le _ _)

/-! ## Retirement, deletion and withdrawal -/

theorem retireKeyEpochsBefore_eq_ok {minimum : UInt64} {maximumObjects : Nat}
    (h : retireKeyEpochsBefore config minimum maximumObjects now c = .ok c') :
    ∃ tombstones checkpoints outbox, c' = { c with tombstones, checkpoints, outbox } ∧
      (∀ x, x ∈ tombstones ↔ x ∈ c.tombstones ∨
        (∃ id ∈ (retiringManifests c minimum maximumObjects).map (·.1), x = (.manifest, id)) ∨
        ∃ id ∈ (retiringChunks c minimum
          (maximumObjects - (retiringManifests c minimum maximumObjects).length)).map (·.1), x = (.chunk, id)) ∧
      checkpoints = c.checkpoints.filter fun _ checkpoint =>
        checkpoint.manifestId ∉ (retiringManifests c minimum maximumObjects).map (·.1) := by
  simp only [retireKeyEpochsBefore, bind_eq_ok, exists_unit] at h
  obtain ⟨-, -, -, h⟩ := h
  obtain ⟨outbox, rfl⟩ := record_eq_ok h
  obtain ⟨tombstones, heq, hmem⟩ := addTombstones_eq (c := c) .manifest
    ((retiringManifests c minimum maximumObjects).map (·.1))
  obtain ⟨tombstones', heq', hmem'⟩ := addTombstones_eq (c := { c with tombstones }) .chunk
    ((retiringChunks c minimum (maximumObjects - (retiringManifests c minimum maximumObjects).length)).map (·.1))
  refine ⟨tombstones', _, outbox, ?_, fun x => ?_, rfl⟩
  · simp only [heq, heq']
  · rw [hmem', hmem, or_assoc]

theorem deletePrefix_eq_ok {prefixId : Id32} {catalogEpoch : Nat}
    (h : deletePrefix config prefixId catalogEpoch now c = .ok c') :
    ∃ outbox, c' = { c with
      tombstones := c.tombstones.insert (.prefixNode, prefixId)
      checkpoints := c.checkpoints.filter fun key _ => key.prefixId ≠ prefixId
      outbox } := by
  simp only [deletePrefix, bind_eq_ok, exists_unit] at h
  obtain ⟨-, -, h⟩ := h
  obtain ⟨outbox, rfl⟩ := record_eq_ok h
  exact ⟨outbox, by simp only [addTombstone_eq]⟩

theorem cleanupPromotion_eq (c : Catalog) (key objectKey : Id32) :
    ∃ chunks, cleanupPromotion key objectKey c = { c with chunks } ∧
      (chunks = c.chunks ∨ (c.exclusive key objectKey ∧
        chunks = c.chunks.filter fun k row => ¬ (k = objectKey ∧ row.refcount = 0))) := by
  unfold cleanupPromotion
  split
  · rename_i h
    exact ⟨_, rfl, Or.inr ⟨h, rfl⟩⟩
  · exact ⟨c.chunks, rfl, Or.inl rfl⟩

/-! ## Chunk rows of a put -/

theorem chunkTaken_eq_false {object : ChunkObject} (h : c.chunkTaken object keyEpoch = false) :
    c.chunks.get? object.objectKey = none ∧ c.canonicalChunk object.chunkId keyEpoch = none := by
  simpa [Catalog.chunkTaken] using h

theorem canonicalChunk_eq_none {chunkId : Id32} (h : c.canonicalChunk chunkId keyEpoch = none)
    {row : ChunkRow} (hrow : c.chunks.get? key = some row) : ¬ (row.chunkId = chunkId ∧ row.keyEpoch = keyEpoch) := by
  have hnone := List.find?_eq_none.mp h (key, row) (Table.get?_eq_some_iff.mp hrow)
  simpa using hnone

theorem catalogChunk_eq_ok {object : ChunkObject} {cataloged : CatalogedChunk}
    (h : catalogChunk object keyEpoch c = .ok (c', cataloged)) :
    (∃ key row, c'.canonicalChunk object.chunkId keyEpoch = some (key, row) ∧
      cataloged = ⟨!c.chunkTaken object keyEpoch, row.reference key⟩) ∧
    ((c.chunkTaken object keyEpoch = true ∧ c' = c) ∨
      (c.chunkTaken object keyEpoch = false ∧
        c' = { c with chunks := c.chunks.put object.objectKey (ChunkRow.ofObject object keyEpoch) })) := by
  simp only [catalogChunk, bind_eq_ok, okOr_eq_ok, Prod.exists, pure_eq_ok, Prod.mk.injEq] at h
  obtain ⟨key, row, hcanonical, rfl, rfl⟩ := h
  refine ⟨⟨key, row, hcanonical, rfl⟩, ?_⟩
  cases htaken : c.chunkTaken object keyEpoch with
  | true => exact Or.inl ⟨rfl, by simp⟩
  | false => exact Or.inr ⟨rfl, by simp⟩

/-- What every insertion of a row preserves holds after the batch. -/
theorem catalogEach_eq_ok {P : Table Id32 ChunkRow → Prop}
    (h : catalogEach keyEpoch objects c = .ok (c', cataloged)) (hP : P c.chunks)
    (hinsert : ∀ object ∈ objects, ∀ c : Catalog, c.chunkTaken object keyEpoch = false → P c.chunks →
      P (c.chunks.put object.objectKey (ChunkRow.ofObject object keyEpoch))) :
    ∃ chunks, c' = { c with chunks } ∧ P chunks := by
  induction objects generalizing c c' cataloged with
  | nil =>
    cases h
    exact ⟨c.chunks, rfl, hP⟩
  | cons object objects ih =>
    simp only [catalogEach, bind_eq_ok, Prod.exists, pure_eq_ok, Prod.mk.injEq] at h
    obtain ⟨c₁, first, hfirst, c₂, rest, hrest, rfl, -⟩ := h
    have hrestP (chunks : Table Id32 ChunkRow) (heq : c₁ = { c with chunks }) (hP : P chunks) :
        ∃ chunks, c₂ = { c with chunks } ∧ P chunks := by
      subst heq
      obtain ⟨chunks', heq', hP'⟩ := ih hrest hP fun o ho => hinsert o (List.mem_cons_of_mem _ ho)
      exact ⟨chunks', heq', hP'⟩
    obtain ⟨-, ⟨-, heq⟩ | ⟨htaken, heq⟩⟩ := catalogChunk_eq_ok hfirst
    · exact hrestP c.chunks heq hP
    · exact hrestP _ heq (hinsert object List.mem_cons_self c htaken hP)

theorem catalogEach_frame (h : catalogEach keyEpoch objects c = .ok (c', cataloged)) :
    ∃ chunks, c' = { c with chunks } := by
  obtain ⟨chunks, heq, -⟩ := catalogEach_eq_ok (P := fun _ => True) h trivial fun _ _ _ _ _ => trivial
  exact ⟨chunks, heq⟩

/-- The rows after a batch are those before it and rows of its objects. -/
theorem catalogEach_rows
    (h : catalogEach keyEpoch objects c = .ok (c', cataloged)) :
    (∀ key row, c.chunks.get? key = some row → c'.chunks.get? key = some row) ∧
      ∀ key row, c'.chunks.get? key = some row → c.chunks.get? key = some row ∨
        ∃ object ∈ objects, object.objectKey = key ∧ row = ChunkRow.ofObject object keyEpoch := by
  obtain ⟨chunks, rfl, hrows⟩ := catalogEach_eq_ok (P := fun chunks =>
    (∀ key row, c.chunks.get? key = some row → chunks.get? key = some row) ∧
      ∀ key row, chunks.get? key = some row → c.chunks.get? key = some row ∨
        ∃ object ∈ objects, object.objectKey = key ∧ row = ChunkRow.ofObject object keyEpoch) h
    ⟨fun _ _ hrow => hrow, fun _ _ hrow => Or.inl hrow⟩ (by
      intro object hobject c₂ htaken ⟨hold, hnew⟩
      obtain ⟨hnone, -⟩ := chunkTaken_eq_false htaken
      refine ⟨fun key row hrow => ?_, fun key row hrow => ?_⟩
      · have hget := hold key row hrow
        rw [Table.get?_put, if_neg, hget]
        rintro rfl
        rw [hnone] at hget
        cases hget
      · rw [Table.get?_put] at hrow
        split at hrow
        · rename_i hkey
          cases hrow
          exact Or.inr ⟨object, hobject, hkey.symm, rfl⟩
        · exact hnew key row hrow)
  exact hrows

/-- Each object of a batch is answered with the row that holds its content. -/
theorem catalogEach_references
    (h : catalogEach keyEpoch objects c = .ok (c', cataloged)) :
    List.Forall₂ (fun object result => ∃ row, c'.chunks.get? result.reference.objectKey = some row ∧
      row.chunkId = object.chunkId ∧ row.keyEpoch = keyEpoch) objects cataloged := by
  induction objects generalizing c cataloged with
  | nil =>
    cases h
    exact .nil
  | cons object objects ih =>
    simp only [catalogEach, bind_eq_ok, Prod.exists, pure_eq_ok, Prod.mk.injEq] at h
    obtain ⟨c₁, first, hfirst, c₂, rest, hrest, rfl, rfl⟩ := h
    refine .cons ?_ (ih hrest)
    obtain ⟨⟨key, row, hcanonical, rfl⟩, -⟩ := catalogChunk_eq_ok hfirst
    have hcontent := List.find?_some hcanonical
    simp only [decide_eq_true_eq] at hcontent
    have hrow := Table.get?_eq_some_iff.mpr (List.mem_of_find?_eq_some hcanonical)
    exact ⟨row, (catalogEach_rows hrest).1 key row hrow, hcontent⟩

theorem catalogChunks_eq_ok {ledger : Option (Id32 × Nat)}
    (h : catalogChunks objects keyEpoch ledger c = .ok (c', cataloged)) :
    ∃ c₁, catalogEach keyEpoch objects c = .ok (c₁, cataloged) ∧ (c' = c₁ ∨ ∃ key, Resumed key c₁ c') := by
  simp only [catalogChunks, bind_eq_ok, Prod.exists] at h
  obtain ⟨c₁, each, heach, h⟩ := h
  split at h
  · simp only [bind_eq_ok, pure_eq_ok, Prod.mk.injEq] at h
    obtain ⟨_, hadvance, rfl, rfl⟩ := h
    exact ⟨c₁, heach, Or.inr ⟨_, advanceImportCursor_eq_ok hadvance⟩⟩
  · simp only [pure_eq_ok, Prod.mk.injEq] at h
    obtain ⟨rfl, rfl⟩ := h
    exact ⟨c₁, heach, Or.inl rfl⟩

/-! ## Pins and leases -/

theorem pinChunkRows_eq_ok {references : List (ChunkRef × Id32)} (h : pinChunkRows references c = .ok c') :
    ∃ pins, c' = { c with pins } := by
  induction references generalizing c with
  | nil =>
    cases h
    exact ⟨_, rfl⟩
  | cons reference rest ih =>
    simp only [pinChunkRows, bind_eq_ok, exists_unit] at h
    obtain ⟨pins, rfl⟩ := ih h.2.2
    exact ⟨pins, rfl⟩

theorem releaseRetainedSourcePins_eq_ok {pinIds : List Id32} (h : releaseRetainedSourcePins pinIds c = .ok c') :
    ∃ pins, c' = { c with pins } := by
  simp only [releaseRetainedSourcePins, bind_eq_ok, exists_unit, pure_eq_ok] at h
  obtain ⟨-, rfl⟩ := h
  exact ⟨_, rfl⟩

theorem acquireSourceLease_eq_ok {request : LeaseRequest} (h : acquireSourceLease config request now c = .ok c') :
    c' = c ∨ ∃ id lease, c.sourceLeases.get? id = none ∧
      c' = { c with sourceLeases := c.sourceLeases.put id lease } := by
  simp only [acquireSourceLease, bind_eq_ok, exists_unit] at h
  obtain ⟨-, -, h⟩ := h
  split at h
  · simp only [bind_eq_ok, exists_unit, pure_eq_ok] at h
    exact Or.inl h.2.symm
  · rename_i hnone
    simp only [bind_eq_ok, exists_unit, pure_eq_ok] at h
    obtain ⟨manifest, -, -, -, rfl⟩ := h
    exact Or.inr ⟨request.leaseId, _, hnone, rfl⟩

theorem reattachSourceLease_eq_ok {fence : LeaseFence} {maximumDurationNs : Nat}
    (h : reattachSourceLease fence maximumDurationNs now c = .ok c') :
    ∃ lease, c.sourceLeases.get? fence.leaseId = some lease ∧ lease.state ≠ .released ∧
      let lease' := { lease with state := .active, maximumDurationNs, expiresNs := now + maximumDurationNs }
      c' = { c with sourceLeases := c.sourceLeases.put fence.leaseId lease' } := by
  simp only [reattachSourceLease, bind_eq_ok, exists_unit, okOr_eq_ok, rejectIf_eq_ok, not_or, pure_eq_ok] at h
  obtain ⟨-, lease, hget, hfence, -, rfl⟩ := h
  exact ⟨lease, hget, hfence.2.2.2, rfl⟩

theorem releaseSourceLease_eq_ok {leaseId ownerId : Id32} {authorityTerm : Nat}
    (h : releaseSourceLease leaseId ownerId authorityTerm c = .ok c') :
    ∃ lease, c' = { c with sourceLeases := c.sourceLeases.put leaseId { lease with state := .released } } ∧
      c.sourceLeases.get? leaseId = some lease := by
  simp only [releaseSourceLease, bind_eq_ok, exists_unit, okOr_eq_ok, pure_eq_ok] at h
  obtain ⟨lease, hget, -, rfl⟩ := h
  exact ⟨lease, rfl, hget⟩

end Kvpack.Store
