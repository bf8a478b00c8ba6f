import Kvpack.Store.Lemmas.Progress

/-!
# Files behind available rows

An available row has a file as long as the operations that are going to remove a file are kept apart from the puts
that count on it. `fileStep` is the condition under which no step brings them together.
-/

namespace Kvpack.Store

open Base Kvpack.Core

variable {C : Crypto} {config : StoreConfig} {c c' : Catalog} {now : Nat} {key : Id32} {s s' : State}
  {chunks chunks' : Table Id32 ChunkRow}
variable {freed : Nat} {victims : List Demoted} {cataloged : List CatalogedChunk}
variable {f : Id32 → ChunkRow → ChunkRow} {k : Id32} {moved : Moved} {victim : Demoted} {keys : List Id32}
  {puts : List Put} {index : Nat} {item : PutItem} {phase : PutPhase}

/-! ## Available rows -/

def isAvailable (chunks : Table Id32 ChunkRow) (key : Id32) : Bool :=
  (chunks.get? key).any fun row => row.locationState = .available

theorem isAvailable_iff : isAvailable chunks key ↔
    ∃ row, chunks.get? key = some row ∧ row.locationState = .available := by
  simp [isAvailable, Option.any_eq_true]

theorem isAvailable_map
    (hf : ∀ row, (f key row).locationState = .available → row.locationState = .available)
    (h : isAvailable (chunks.map f) key) : isAvailable chunks key := by
  obtain ⟨row, hrow, hstate⟩ := isAvailable_iff.mp h
  rw [Table.get?_map, Option.map_eq_some_iff] at hrow
  obtain ⟨row', hrow', rfl⟩ := hrow
  exact isAvailable_iff.mpr ⟨row', hrow', hf row' hstate⟩

theorem isAvailable_put {row : ChunkRow}
    (hrow : row.locationState = .available → isAvailable chunks k)
    (h : isAvailable (chunks.put k row) key) : isAvailable chunks key := by
  obtain ⟨row', hrow', hstate⟩ := isAvailable_iff.mp h
  rw [Table.get?_put] at hrow'
  split at hrow'
  · rename_i hk
    cases hrow'
    rw [hk]
    exact hrow hstate
  · exact isAvailable_iff.mpr ⟨row', hrow', hstate⟩

theorem isAvailable_erase (h : isAvailable (chunks.erase k) key) : isAvailable chunks key := by
  obtain ⟨row, hrow, hstate⟩ := isAvailable_iff.mp h
  rw [Table.get?_erase] at hrow
  split at hrow
  · cases hrow
  · exact isAvailable_iff.mpr ⟨row, hrow, hstate⟩

theorem RowRemoval.isAvailable (hremoval : RowRemoval moved chunks chunks' freed)
    (h : isAvailable chunks' key) : isAvailable chunks key := by
  cases hremoval with
  | kept hkept => exact h
  | deleted row hrow hstate hcount => exact isAvailable_erase h
  | trashed row hrow hstate hcount => exact isAvailable_put (by simp) h

theorem RowDemotion.isAvailable (hdemotion : RowDemotion victim chunks chunks' freed)
    (h : isAvailable chunks' key) : isAvailable chunks key := by
  cases hdemotion with
  | kept hkept => exact h
  | quantized row hrow hstate hrung hvictim =>
    exact isAvailable_put (fun _ => isAvailable_iff.mpr ⟨row, hrow, hstate⟩) h
  | dropped row hrow hstate hrung hvictim => exact isAvailable_put (by simp) h

/-- Whether the rows that are available in `chunks'` were so in `chunks`. -/
def NoneMadeAvailable (chunks chunks' : Table Id32 ChunkRow) : Prop :=
  ∀ key, isAvailable chunks' key → isAvailable chunks key

theorem NoneMadeAvailable.refl : NoneMadeAvailable chunks chunks := fun _ h => h

theorem evictRows_noneMade (keys : List Id32) : NoneMadeAvailable chunks (evictRows keys chunks) := by
  refine fun key h => isAvailable_map (fun row hstate => ?_) h
  split at hstate
  · cases hstate
  · exact hstate

theorem evictRows_unavailable (hkey : key ∈ keys) : ¬ isAvailable (evictRows keys chunks) key := by
  intro h
  obtain ⟨row, hrow, hstate⟩ := isAvailable_iff.mp h
  rw [evictRows, Table.get?_map, Option.map_eq_some_iff] at hrow
  obtain ⟨row', -, rfl⟩ := hrow
  rw [if_pos hkey] at hstate
  cases hstate

theorem demoteVictims_noneMade (h : demoteVictims victims c = .ok c') :
    NoneMadeAvailable c.chunks c'.chunks := by
  obtain ⟨chunks, durableBytes, rfl, -, hchunks⟩ := demoteVictims_eq_ok
    (P := fun _ chunks _ => NoneMadeAvailable c.chunks chunks) h .refl
    fun _ _ _ _ _ _ hdemotion hP key h => hP key (hdemotion.isAvailable h)
  exact hchunks

theorem publishManifestBatch_noneMade {publications : List PendingManifest} {artifacts : List PublishedArtifact}
    (h : publishManifestBatch C config key publications now c = .ok (c', artifacts)) :
    NoneMadeAvailable c.chunks c'.chunks := by
  obtain ⟨_, _, upload, -, -, -, ⟨-, -, _, rfl⟩ | ⟨tx, hcommit⟩⟩ := publishManifestBatch_eq_ok h
  · exact .refl
  · obtain ⟨_, rfl⟩ := hcommit.result
    exact fun _ h => isAvailable_map (fun _ hstate => hstate) h

theorem Transaction.apply_noneMade {t : Transaction} (h : t.apply C config now c = .ok c') :
    NoneMadeAvailable c.chunks c'.chunks := by
  obtain ⟨key, publications, artifacts, rfl, hpublish⟩ | ⟨-, htransaction⟩ := apply_cases h
  · exact publishManifestBatch_noneMade hpublish
  · rw [htransaction.keepsObjects.chunks]
    exact .refl

theorem evictManifest_noneMade {id : Id32} {eviction : Eviction} (h : evictManifest id now c = .ok (c', eviction)) :
    NoneMadeAvailable c.chunks c'.chunks := by
  obtain ⟨_, _, -, -, -, rfl⟩ := evictManifest_eq_ok h
  refine fun key hkey => isAvailable_map (fun row hstate => ?_) hkey
  split at hstate <;> exact hstate

theorem finishCollection_noneMade {moved : List Moved} (h : finishCollection moved now c = .ok c') :
    NoneMadeAvailable c.chunks c'.chunks := by
  obtain ⟨outbox, rfl⟩ := finishCollection_eq_ok h
  obtain ⟨chunks, freed, heq, hchunks⟩ := removeRows_eq moved c 0
    (P := fun _ chunks _ => NoneMadeAvailable c.chunks chunks) .refl
    fun _ _ _ _ _ _ hremoval hP key h => hP key (hremoval.isAvailable h)
  rw [heq]
  exact hchunks

/-! ## One row for a content -/

def ContentUnique (chunks : Table Id32 ChunkRow) : Prop :=
  ∀ key key' row row', chunks.get? key = some row → chunks.get? key' = some row' → row.chunkId = row'.chunkId →
    row.keyEpoch = row'.keyEpoch → key = key'

/-- Every row has the content it had before, if it was there. -/
def SameContent (chunks chunks' : Table Id32 ChunkRow) : Prop :=
  ∀ key row', chunks'.get? key = some row' → ∃ row, chunks.get? key = some row ∧ row.chunkId = row'.chunkId ∧
    row.keyEpoch = row'.keyEpoch

theorem SameContent.refl : SameContent chunks chunks := fun _ row hrow => ⟨row, hrow, rfl, rfl⟩

theorem SameContent.map
    (hf : ∀ k row, (f k row).chunkId = row.chunkId ∧ (f k row).keyEpoch = row.keyEpoch) :
    SameContent chunks (chunks.map f) := by
  intro key row' hrow'
  rw [Table.get?_map, Option.map_eq_some_iff] at hrow'
  obtain ⟨row, hrow, rfl⟩ := hrow'
  exact ⟨row, hrow, (hf key row).1.symm, (hf key row).2.symm⟩

theorem SameContent.put {row row' : ChunkRow} (hrow : chunks.get? k = some row)
    (hid : row.chunkId = row'.chunkId) (hepoch : row.keyEpoch = row'.keyEpoch) :
    SameContent chunks (chunks.put k row') := by
  intro key row₁ hrow₁
  rw [Table.get?_put] at hrow₁
  split at hrow₁
  · rename_i hk
    cases hrow₁
    exact ⟨row, hk ▸ hrow, hid, hepoch⟩
  · exact ⟨row₁, hrow₁, rfl, rfl⟩

theorem SameContent.erase : SameContent chunks (chunks.erase k) := by
  intro key row hrow
  rw [Table.get?_erase] at hrow
  split at hrow
  · cases hrow
  · exact ⟨row, hrow, rfl, rfl⟩

theorem SameContent.filter {keep : Id32 → ChunkRow → Bool} : SameContent chunks (chunks.filter keep) := by
  intro key row hrow
  rw [Table.get?_filter, Option.filter_eq_some_iff] at hrow
  exact ⟨row, hrow.1, rfl, rfl⟩

theorem SameContent.trans {chunks'' : Table Id32 ChunkRow} (h : SameContent chunks chunks')
    (h' : SameContent chunks' chunks'') : SameContent chunks chunks'' := by
  intro key row'' hrow''
  obtain ⟨row', hrow', hid', hepoch'⟩ := h' key row'' hrow''
  obtain ⟨row, hrow, hid, hepoch⟩ := h key row' hrow'
  exact ⟨row, hrow, hid.trans hid', hepoch.trans hepoch'⟩

theorem RowRemoval.sameContent (h : RowRemoval moved chunks chunks' freed) :
    SameContent chunks chunks' := by
  cases h with
  | kept hkept => exact .refl
  | deleted row hrow hstate hcount => exact .erase
  | trashed row hrow hstate hcount => exact .put hrow rfl rfl

theorem RowDemotion.sameContent (h : RowDemotion victim chunks chunks' freed) :
    SameContent chunks chunks' := by
  cases h with
  | kept hkept => exact .refl
  | quantized row hrow hstate hrung hvictim => exact .put hrow rfl rfl
  | dropped row hrow hstate hrung hvictim => exact .put hrow rfl rfl

theorem SameContent.unique (h : SameContent chunks chunks') (hunique : ContentUnique chunks) :
    ContentUnique chunks' := by
  intro key key' row row' hrow hrow' hid hepoch
  obtain ⟨row₁, hrow₁, hid₁, hepoch₁⟩ := h key row hrow
  obtain ⟨row₂, hrow₂, hid₂, hepoch₂⟩ := h key' row' hrow'
  exact hunique key key' row₁ row₂ hrow₁ hrow₂ (by rw [hid₁, hid, hid₂]) (by rw [hepoch₁, hepoch, hepoch₂])

theorem ChunkChange.contentUnique (h : ChunkChange chunks chunks') (hunique : ContentUnique chunks) :
    ContentUnique chunks' := by
  cases h with
  | recounted count hcount => exact SameContent.unique (.map fun _ _ => ⟨rfl, rfl⟩) hunique
  | inserted object keyEpoch hnone hnew =>
    intro key key' row row' hrow hrow' hid hepoch
    rw [Table.get?_put] at hrow hrow'
    split at hrow <;> split at hrow'
    · rename_i hkey hkey'
      rw [hkey, hkey']
    · cases hrow
      exact absurd ⟨hid.symm, hepoch.symm⟩ (hnew key' row' hrow')
    · cases hrow'
      exact absurd ⟨hid, hepoch⟩ (hnew key row hrow)
    · exact hunique key key' row row' hrow hrow' hid hepoch
  | filtered keep => exact SameContent.filter.unique hunique
  | selected keys hnonzero hloose =>
    refine SameContent.unique (.map fun key row => ?_) hunique
    split <;> exact ⟨rfl, rfl⟩
  | removed moved _ freed h => exact h.sameContent.unique hunique
  | demoted victim _ freed h => exact h.sameContent.unique hunique

/-! ## Puts and removals in progress -/

/-- Whether the put has linked or found the file of the object. -/
def Put.countsOn (put : Put) (key : Id32) : Bool :=
  put.items.any fun item => item.isDone && decide (item.object.objectKey = key)

def countedOn (puts : List Put) (key : Id32) : Bool := puts.any fun put => put.countsOn key

/-- The files that operations in progress are going to remove. -/
def State.removing (s : State) : List Id32 :=
  s.collections.flatMap Collection.waiting ++ (s.removals.flatten ++ s.duplicates)

theorem State.mem_removing : key ∈ s.removing ↔
    (∃ collection ∈ s.collections, key ∈ collection.waiting) ∨ (∃ removal ∈ s.removals, key ∈ removal) ∨
      key ∈ s.duplicates := by
  simp only [removing, List.mem_append, List.mem_flatMap, List.mem_flatten]

theorem State.removing_mono
    (hcollections : s'.collections.flatMap Collection.waiting ⊆ s.collections.flatMap Collection.waiting)
    (hremovals : s'.removals.flatten ⊆ s.removals.flatten) (hduplicates : s'.duplicates ⊆ s.duplicates) :
    s'.removing ⊆ s.removing := by
  intro key hkey
  simp only [removing, List.mem_append] at hkey ⊢
  exact hkey.imp (@hcollections key) (Or.imp (@hremovals key) (@hduplicates key))

theorem Put.countsOn_iff {put : Put} :
    put.countsOn key ↔ ∃ item ∈ put.items, item.isDone ∧ item.object.objectKey = key := by
  simp [countsOn]

theorem countedOn_iff : countedOn puts key ↔ ∃ put ∈ puts, put.countsOn key := by
  simp [countedOn]

theorem countedOn_erase {put : Put} (h : countedOn (puts.erase put) key) : countedOn puts key := by
  obtain ⟨put', hput', hcounts⟩ := countedOn_iff.mp h
  exact countedOn_iff.mpr ⟨put', List.mem_of_mem_erase hput', hcounts⟩

/-- A put that advances counts on what it did and on the object just dealt with. -/
theorem countedOn_advance {put put' : Put} {Q : Prop} (hput : put ∈ puts)
    (hcounts : put'.countsOn key → put.countsOn key ∨ Q) (h : countedOn (put' :: puts.erase put) key) :
    countedOn puts key ∨ Q := by
  obtain ⟨put₁, hput₁, hcounts₁⟩ := countedOn_iff.mp h
  rcases List.mem_cons.mp hput₁ with rfl | hput₁
  · exact (hcounts hcounts₁).imp_left fun hold => countedOn_iff.mpr ⟨put, hput, hold⟩
  · exact Or.inl (countedOn_iff.mpr ⟨put₁, List.mem_of_mem_erase hput₁, hcounts₁⟩)

theorem Put.countsOn_setPhase {put : Put}
    (h : (put.setPhase index item phase).countsOn key) :
    put.countsOn key ∨ (item.object.objectKey = key ∧ ∃ published, phase = .done published) := by
  obtain ⟨item', hitem', hdone, hkey⟩ := countsOn_iff.mp h
  rcases List.mem_or_eq_of_mem_set hitem' with hitem' | rfl
  · exact Or.inl (countsOn_iff.mpr ⟨item', hitem', hdone, hkey⟩)
  · refine Or.inr ⟨hkey, ?_⟩
    cases phase with
    | done published => exact ⟨published, rfl⟩
    | inspect | link => cases hdone

theorem Put.countsOn_append {put : Put} {object : ChunkObject}
    (h : Put.countsOn { put with items := put.items ++ [⟨object, .inspect⟩] } key) : put.countsOn key := by
  obtain ⟨item, hitem, hdone, hkey⟩ := countsOn_iff.mp h
  rcases List.mem_append.mp hitem with hitem | hitem
  · exact countsOn_iff.mpr ⟨item, hitem, hdone, hkey⟩
  · cases List.mem_singleton.mp hitem
    cases hdone

/-! ## The steps that keep files and rows together -/

/-- Whether the content is held under another key, before the put or by another object of it. -/
def heldElsewhere (chunks : Table Id32 ChunkRow) (put : Put) (object : ChunkObject) : Bool :=
  chunks.any (fun key row =>
      decide (key ≠ object.objectKey ∧ row.chunkId = object.chunkId ∧ row.keyEpoch = put.keyEpoch)) ||
    put.items.any fun item =>
      decide (item.object.objectKey ≠ object.objectKey ∧ item.object.chunkId = object.chunkId)

/-- An object key stands for one content. -/
def Put.keyed (put : Put) (chunks : Table Id32 ChunkRow) : Bool :=
  put.items.all fun item =>
    (chunks.get? item.object.objectKey).all (fun row =>
      decide (row.chunkId = item.object.chunkId ∧ row.keyEpoch = put.keyEpoch)) &&
    put.items.all fun item' =>
      decide (item'.object.objectKey = item.object.objectKey → item'.object.chunkId = item.object.chunkId)

/-- The condition on a step: a put looks at or links a file only while nobody is about to remove it, a removal begins
only while no put counts on it, and a demotion finds the rows it selected or none available. -/
def fileStep (s : State) : Event → Bool
  | .inspectTarget put index | .linkTarget put index =>
    (put.items[index]?).all fun item => decide (item.object.objectKey ∉ s.removing)
  | .catalogPut put =>
    put.keyed s.catalog.chunks && put.items.all fun item =>
      !(heldElsewhere s.catalog.chunks put item.object && countedOn (s.puts.erase put) item.object.objectKey)
  | .cleanupPromotion _ objectKey => !countedOn s.puts objectKey
  | .selectVictims keys => keys.all fun key => !countedOn s.puts key
  | .demoteVictims victims => victims.all fun victim =>
    decide (victim.rung = .restQuantized → ¬ countedOn s.puts victim.objectKey) &&
    (s.catalog.chunks.get? victim.objectKey).all fun row =>
      decide (victim.rung = .restQuantized → row.locationState = .available → row.fidelityRung = .restQuantized)
  | _ => true

structure FilesSound (s : State) : Prop where
  served : ∀ key, isAvailable s.catalog.chunks key → key ∈ s.files
  counted : ∀ key, countedOn s.puts key → key ∈ s.files
  removing : ∀ key ∈ s.removing, ¬ isAvailable s.catalog.chunks key ∧ ¬ countedOn s.puts key

/-- Nothing more is available, counted on or about to be removed. -/
theorem FilesSound.mono (h : FilesSound s) (hfiles : s.files ⊆ s'.files)
    (havailable : NoneMadeAvailable s.catalog.chunks s'.catalog.chunks)
    (hcounted : ∀ key, countedOn s'.puts key → countedOn s.puts key) (hremoving : s'.removing ⊆ s.removing) :
    FilesSound s' where
  served key hkey := hfiles (h.served key (havailable key hkey))
  counted key hkey := hfiles (h.counted key (hcounted key hkey))
  removing key hkey :=
    ⟨fun h' => (h.removing key (hremoving hkey)).1 (havailable key h'),
      fun h' => (h.removing key (hremoving hkey)).2 (hcounted key h')⟩

/-- Steps that only change the catalog, and make nothing available. -/
theorem FilesSound.of_catalog {c' : Catalog} (h : FilesSound s)
    (havailable : NoneMadeAvailable s.catalog.chunks c'.chunks) : FilesSound { s with catalog := c' } :=
  h.mono (List.Subset.refl _) havailable (fun _ h => h) (List.Subset.refl _)

/-- The removal of a file that an operation in progress was going to remove. -/
theorem FilesSound.removeFile (h : FilesSound s) (hkey : key ∈ s.removing) : FilesSound (s.removeFile key) where
  served k hk := by
    refine List.mem_filter.mpr ⟨h.served k hk, decide_eq_true ?_⟩
    rintro rfl
    exact (h.removing _ hkey).1 hk
  counted k hk := by
    refine List.mem_filter.mpr ⟨h.counted k hk, decide_eq_true ?_⟩
    rintro rfl
    exact (h.removing _ hkey).2 hk
  removing := h.removing

/-- A put that has dealt with one object, whose file is there if the put counts on it. -/
theorem FilesSound.advancePut {put : Put} {files : List Id32}
    (h : FilesSound s) (hput : put ∈ s.puts) (hfiles : s.files ⊆ files)
    (hitem : (∃ published, phase = .done published) → item.object.objectKey ∈ files)
    (hremoving : item.object.objectKey ∉ s.removing) :
    FilesSound { s.advancePut put (put.setPhase index item phase) with files } := by
  have hcounted : ∀ key, countedOn (put.setPhase index item phase :: s.puts.erase put) key →
      countedOn s.puts key ∨ (item.object.objectKey = key ∧ ∃ published, phase = .done published) :=
    fun key hkey => countedOn_advance hput Put.countsOn_setPhase hkey
  refine ⟨fun key hkey => hfiles (h.served key hkey), fun key hkey => ?_, fun key hkey => ?_⟩
  · rcases hcounted key hkey with hold | ⟨rfl, hdone⟩
    · exact hfiles (h.counted key hold)
    · exact hitem hdone
  · refine ⟨(h.removing key hkey).1, fun hcount => ?_⟩
    rcases hcounted key hcount with hold | ⟨rfl, -⟩
    · exact (h.removing key hkey).2 hold
    · exact hremoving hkey

theorem mem_supersededFiles {items : List PutItem}
    (h : key ∈ supersededFiles items cataloged) :
    ∃ item result, (item, result) ∈ items.zip cataloged ∧ item.object.objectKey = key ∧
      result.reference.objectKey ≠ key := by
  simp only [supersededFiles, List.mem_map, List.mem_filter, Bool.and_eq_true, decide_eq_true_eq] at h
  obtain ⟨⟨item, result⟩, ⟨hmem, -, hne⟩, rfl⟩ := h
  exact ⟨item, result, hmem, rfl, hne⟩

/-- A file that lost to another object of the same content has no row. -/
theorem superseded_unavailable {put : Put}
    (hcatalog : catalogEach put.keyEpoch (put.items.map (·.object)) c = .ok (c', cataloged))
    (hunique : ContentUnique c'.chunks) (hkeyed : put.keyed c.chunks)
    (hkey : key ∈ supersededFiles put.items cataloged) :
    ∃ item ∈ put.items, item.object.objectKey = key ∧ ¬ isAvailable c'.chunks key ∧
      heldElsewhere c.chunks put item.object := by
  obtain ⟨item, result, hmem, rfl, hne⟩ := mem_supersededFiles hkey
  have hitem := (List.of_mem_zip hmem).1
  have hreferences := catalogEach_references hcatalog
  rw [List.forall₂_map_left_iff, List.forall₂_iff_zip] at hreferences
  obtain ⟨row, hrow, hid, hepoch⟩ := hreferences.2 hmem
  simp only [Put.keyed, List.all_eq_true, Bool.and_eq_true, decide_eq_true_eq] at hkeyed
  obtain ⟨-, hrows⟩ := catalogEach_rows hcatalog
  refine ⟨item, hitem, rfl, fun havailable => ?_, ?_⟩
  · obtain ⟨row', hrow', -⟩ := isAvailable_iff.mp havailable
    have hcontent : row'.chunkId = item.object.chunkId ∧ row'.keyEpoch = put.keyEpoch := by
      rcases hrows _ row' hrow' with hold | ⟨object, hobject, hobjectKey, rfl⟩
      · have hrowKeyed := (hkeyed item hitem).1
        rw [hold, Option.all_some] at hrowKeyed
        exact of_decide_eq_true hrowKeyed
      · obtain ⟨item', hitem', rfl⟩ := List.mem_map.mp hobject
        exact ⟨(hkeyed item hitem).2 item' hitem' hobjectKey, rfl⟩
    exact hne (hunique _ _ row row' hrow hrow' (hid.trans hcontent.1.symm) (hepoch.trans hcontent.2.symm))
  · simp only [heldElsewhere, Bool.or_eq_true, Table.any_eq_true, List.any_eq_true, decide_eq_true_eq]
    rcases hrows _ row hrow with hold | ⟨object, hobject, hobjectKey, rfl⟩
    · exact Or.inl ⟨_, row, hold, hne, hid, hepoch⟩
    · obtain ⟨item', hitem', rfl⟩ := List.mem_map.mp hobject
      exact Or.inr ⟨item', hitem', by rw [hobjectKey]; exact hne, hid⟩

theorem FilesSound.catalogPut {put : Put} (h : FilesSound s)
    (hok : fileStep s (.catalogPut put)) (hput : put ∈ s.puts) (hdone : ∀ item ∈ put.items, item.isDone)
    (hunique : ContentUnique c'.chunks)
    (hcatalog : catalogChunks (put.items.map (·.object)) put.keyEpoch put.ledger s.catalog = .ok (c', cataloged)) :
    FilesSound { s with
      catalog := c'
      puts := s.puts.erase put
      duplicates := supersededFiles put.items cataloged ++ s.duplicates } := by
  obtain ⟨c₁, heach, htouched⟩ := catalogChunks_eq_ok hcatalog
  have hchunks : c'.chunks = c₁.chunks := by
    obtain rfl | ⟨_, _, _, _, -, rfl, -⟩ := htouched
    · rfl
    · rfl
  rw [hchunks] at hunique
  simp only [fileStep, Bool.and_eq_true, List.all_eq_true, Bool.not_eq_true', Bool.and_eq_false_iff] at hok
  have havailable : ∀ key, isAvailable c'.chunks key → isAvailable s.catalog.chunks key ∨ countedOn s.puts key := by
    intro key hkey
    rw [hchunks] at hkey
    obtain ⟨row, hrow, hstate⟩ := isAvailable_iff.mp hkey
    rcases (catalogEach_rows heach).2 key row hrow with hold | ⟨object, hobject, rfl, -⟩
    · exact Or.inl (isAvailable_iff.mpr ⟨row, hold, hstate⟩)
    · obtain ⟨item, hitem, rfl⟩ := List.mem_map.mp hobject
      exact Or.inr (countedOn_iff.mpr ⟨put, hput, Put.countsOn_iff.mpr ⟨item, hitem, hdone item hitem, rfl⟩⟩)
  refine ⟨fun key hkey => (havailable key hkey).elim (h.served key) (h.counted key),
    fun key hkey => h.counted key (countedOn_erase hkey), fun key hkey => ?_⟩
  have hold : key ∈ s.removing →
      ¬ isAvailable c'.chunks key ∧ ¬ countedOn (s.puts.erase put) key := fun hmem =>
    ⟨fun hkey => (havailable key hkey).elim (h.removing key hmem).1 (h.removing key hmem).2,
      fun hcount => (h.removing key hmem).2 (countedOn_erase hcount)⟩
  rcases State.mem_removing.mp hkey with hcollection | hremoval | hduplicate
  · exact hold (State.mem_removing.mpr (Or.inl hcollection))
  · exact hold (State.mem_removing.mpr (Or.inr (Or.inl hremoval)))
  · rcases List.mem_append.mp hduplicate with hnew | hduplicate
    · obtain ⟨item, hitem, rfl, hunavailable, hheld⟩ := superseded_unavailable heach hunique hok.1 hnew
      refine ⟨by rw [hchunks]; exact hunavailable, ?_⟩
      rcases hok.2 item hitem with hnot | hnot
      · rw [hheld] at hnot
        cases hnot
      · rw [hnot]
        exact Bool.false_ne_true
    · exact hold (State.mem_removing.mpr (Or.inr (Or.inr hduplicate)))

theorem FilesSound.selectVictims {victims : List Victim} (h : FilesSound s)
    (hok : fileStep s (.selectVictims keys)) (hselect : selectVictims keys now s.catalog = .ok (c', victims)) :
    FilesSound { s with catalog := c', collections := ⟨victims, none, []⟩ :: s.collections } := by
  obtain ⟨-, -, -, rfl, _, _, rfl, -⟩ := selectVictims_eq_ok hselect
  simp only [fileStep, List.all_eq_true, Bool.not_eq_true'] at hok
  have havailable : ∀ key, isAvailable (evictRows keys s.catalog.chunks) key →
      isAvailable s.catalog.chunks key ∧ key ∉ keys := fun key hkey =>
    ⟨evictRows_noneMade keys key hkey, fun hmem => evictRows_unavailable hmem hkey⟩
  refine ⟨fun key hkey => h.served key (havailable key hkey).1, h.counted, fun key hkey => ?_⟩
  have hold : key ∈ s.removing → ¬ isAvailable (evictRows keys s.catalog.chunks) key ∧ ¬ countedOn s.puts key :=
    fun hmem => ⟨fun hkey => (h.removing key hmem).1 (havailable key hkey).1, (h.removing key hmem).2⟩
  rcases State.mem_removing.mp hkey with ⟨collection, hcollection, hwaiting⟩ | hother
  · rcases List.mem_cons.mp hcollection with rfl | hcollection
    · have hmem : key ∈ keys := by simpa [Collection.waiting, Function.comp_def] using hwaiting
      exact ⟨fun hkey => (havailable key hkey).2 hmem, by rw [hok key hmem]; exact Bool.false_ne_true⟩
    · exact hold (State.mem_removing.mpr (Or.inl ⟨collection, hcollection, hwaiting⟩))
  · exact hold (State.mem_removing.mpr (Or.inr hother))

/-- After a demotion none of the victims whose files it drops is available. -/
theorem demoteVictims_unavailable (hdemote : demoteVictims victims c = .ok c')
    (hok : ∀ victim ∈ victims, victim.rung = .restQuantized → ∀ row, c.chunks.get? victim.objectKey = some row →
      row.locationState = .available → row.fidelityRung = .restQuantized) (hkey : key ∈ droppedBytes victims) :
    ¬ isAvailable c'.chunks key := by
  -- each victim is either still to come, with its row available on its rung only, or its row is not available
  obtain ⟨chunks, durableBytes, rfl, -, hrest⟩ := demoteVictims_eq_ok
    (P := fun rest chunks _ => (∀ row, chunks.get? key = some row → row.locationState = .available →
        row.fidelityRung = .restQuantized) ∧
      (key ∈ droppedBytes rest ∨ ¬ isAvailable chunks key)) hdemote
    ⟨fun row hrow => by
        simp only [droppedBytes, List.mem_map, List.mem_filter, decide_eq_true_eq] at hkey
        obtain ⟨victim, ⟨hvictim, hrung⟩, rfl⟩ := hkey
        exact hok victim hvictim hrung row hrow, Or.inl hkey⟩ (by
      rintro victim rest chunks chunks' freed durable hdemotion ⟨hrows, hkey⟩
      refine ⟨fun row hrow hstate => ?_, ?_⟩
      · cases hdemotion with
        | kept hkept => exact hrows row hrow hstate
        | quantized row' hrow' hstate' hrung hvictim =>
          rw [Table.get?_put] at hrow
          split at hrow
          · cases hrow
            rfl
          · exact hrows row hrow hstate
        | dropped row' hrow' hstate' hrung hvictim =>
          rw [Table.get?_put] at hrow
          split at hrow
          · cases hrow
            cases hstate
          · exact hrows row hrow hstate
      · rcases hkey with hkey | hkey
        · simp only [droppedBytes, List.mem_map, List.mem_filter, decide_eq_true_eq, List.mem_cons] at hkey ⊢
          obtain ⟨victim', ⟨rfl | hvictim', hrung⟩, rfl⟩ := hkey
          · refine Or.inr fun havailable => ?_
            obtain ⟨row, hrow, hstate⟩ := isAvailable_iff.mp (hdemotion.isAvailable havailable)
            have hquantized := hrows row hrow hstate
            cases hdemotion with
            | kept hkept => exact hkept row hrow hstate hrung hquantized
            | quantized row' hrow' hstate' hrung' hvictim =>
              rw [hvictim] at hrung
              cases hrung
            | dropped row' hrow' hstate' hrung' hvictim =>
              obtain ⟨row₁, hrow₁, hstate₁⟩ := isAvailable_iff.mp havailable
              rw [Table.get?_put_self, Option.some.injEq] at hrow₁
              rw [← hrow₁] at hstate₁
              cases hstate₁
          · exact Or.inl ⟨victim', ⟨hvictim', hrung⟩, rfl⟩
        · exact Or.inr fun havailable => hkey (hdemotion.isAvailable havailable))
  exact hrest.2.resolve_left (by simp [droppedBytes])

theorem FilesSound.demoteVictims (h : FilesSound s) (hok : fileStep s (.demoteVictims victims))
    (hdemote : demoteVictims victims s.catalog = .ok c') :
    FilesSound { s with
      catalog := c'
      demotions := s.demotions.erase victims
      removals := droppedBytes victims :: s.removals } := by
  simp only [fileStep, List.all_eq_true, Bool.and_eq_true, decide_eq_true_eq] at hok
  have havailable := demoteVictims_noneMade hdemote
  refine ⟨fun key hkey => h.served key (havailable key hkey), h.counted, fun key hkey => ?_⟩
  have hold : key ∈ s.removing → ¬ isAvailable c'.chunks key ∧ ¬ countedOn s.puts key :=
    fun hmem => ⟨fun hkey => (h.removing key hmem).1 (havailable key hkey), (h.removing key hmem).2⟩
  rcases State.mem_removing.mp hkey with hcollection | ⟨removal, hremoval, hmem⟩ | hduplicate
  · exact hold (State.mem_removing.mpr (Or.inl hcollection))
  · rcases List.mem_cons.mp hremoval with rfl | hremoval
    · refine ⟨demoteVictims_unavailable hdemote (fun victim hvictim hrung row hrow hstate => ?_) hmem, ?_⟩
      · have hrows := (hok victim hvictim).2
        rw [hrow, Option.all_some] at hrows
        exact of_decide_eq_true hrows hrung hstate
      · simp only [droppedBytes, List.mem_map, List.mem_filter, decide_eq_true_eq] at hmem
        obtain ⟨victim, ⟨hvictim, hrung⟩, rfl⟩ := hmem
        exact (hok victim hvictim).1 hrung
    · exact hold (State.mem_removing.mpr (Or.inr (Or.inl ⟨removal, hremoval, hmem⟩)))
  · exact hold (State.mem_removing.mpr (Or.inr (Or.inr hduplicate)))

/-! ## Runs -/

theorem FilesSound.cleanupPromotion {objectKey : Id32} (h : FilesSound s)
    (hok : fileStep s (.cleanupPromotion key objectKey)) :
    FilesSound { (if s.catalog.exclusive key objectKey then s.removeFile objectKey else s) with
      catalog := Store.cleanupPromotion key objectKey s.catalog } := by
  simp only [fileStep, Bool.not_eq_true'] at hok
  by_cases hexclusive : s.catalog.exclusive key objectKey
  · have hrows : (Store.cleanupPromotion key objectKey s.catalog).chunks =
        s.catalog.chunks.filter fun k row => ¬ (k = objectKey ∧ row.refcount = 0) := by
      rw [Store.cleanupPromotion, if_pos hexclusive]
    have havailable : ∀ k, isAvailable (Store.cleanupPromotion key objectKey s.catalog).chunks k →
        isAvailable s.catalog.chunks k ∧ k ≠ objectKey := by
      intro k hk
      obtain ⟨row, hrow, hstate⟩ := isAvailable_iff.mp hk
      rw [hrows, Table.get?_filter, Option.filter_eq_some_iff] at hrow
      refine ⟨isAvailable_iff.mpr ⟨row, hrow.1, hstate⟩, ?_⟩
      rintro rfl
      -- an exclusive object has no row with a reference
      have hcount : row.refcount ≠ 0 := by simpa using hrow.2
      simp only [Catalog.exclusive, Bool.and_eq_true, Bool.not_eq_true', Table.any_eq_false,
        decide_eq_false_iff_not] at hexclusive
      exact hexclusive.1.1 k row hrow.1 ⟨rfl, hcount⟩
    rw [if_pos hexclusive]
    refine ⟨fun k hk => List.mem_filter.mpr ⟨h.served k (havailable k hk).1, decide_eq_true (havailable k hk).2⟩,
      fun k hk => List.mem_filter.mpr ⟨h.counted k hk, decide_eq_true ?_⟩,
      fun k hk => ⟨fun hk' => (h.removing k hk).1 (havailable k hk').1, (h.removing k hk).2⟩⟩
    rintro rfl
    rw [show countedOn s.puts k = true from hk] at hok
    cases hok
  · rw [if_neg hexclusive, Store.cleanupPromotion, if_neg hexclusive]
    exact h

theorem exec_filesSound {e : Event} (hexec : exec C config s e = .ok s') (hok : fileStep s e)
    (hunique : ContentUnique s'.catalog.chunks) (h : FilesSound s) : FilesSound s' := by
  cases e with
  | tick elapsedNs =>
    cases hexec
    exact h.mono (List.Subset.refl _) .refl (fun _ h => h) (List.Subset.refl _)
  | exportAudit delivered pruned =>
    cases hexec
    exact h.of_catalog .refl
  | transact t =>
    obtain ⟨c', happly, rfl⟩ := exec_transact hexec
    exact h.of_catalog (t.apply_noneMade happly)
  | beginPut keyEpoch ledger =>
    cases hexec
    refine h.mono (List.Subset.refl _) .refl (fun key hkey => ?_) (List.Subset.refl _)
    simpa [countedOn, Put.countsOn] using hkey
  | lookUp put object =>
    obtain ⟨hput, rfl | rfl⟩ := exec_lookUp hexec
    · exact h
    · refine h.mono (List.Subset.refl _) .refl (fun key hkey => ?_) (List.Subset.refl _)
      exact (countedOn_advance (Q := False) hput (fun hcounts => Or.inl (Put.countsOn_append hcounts)) hkey).elim id
        False.elim
  | inspectTarget put index =>
    obtain ⟨hput, item, hitem, -, rfl⟩ := exec_inspectTarget hexec
    simp only [fileStep, hitem, Option.all_some, decide_eq_true_eq] at hok
    refine h.advancePut hput (List.Subset.refl _) (fun hdone => ?_) hok
    obtain ⟨published, hphase⟩ := hdone
    split at hphase
    · assumption
    · cases hphase
  | linkTarget put index =>
    obtain ⟨hput, item, hitem, -, ⟨hfile, rfl⟩ | ⟨hfile, rfl⟩⟩ := exec_linkTarget hexec
    · simp only [fileStep, hitem, Option.all_some, decide_eq_true_eq] at hok
      exact h.advancePut hput (List.Subset.refl _) (fun _ => hfile) hok
    · simp only [fileStep, hitem, Option.all_some, decide_eq_true_eq] at hok
      exact h.advancePut hput (List.subset_cons_self _ _) (fun _ => List.mem_cons_self) hok
  | catalogPut put =>
    obtain ⟨hput, hdone, c', cataloged, hcataloged, rfl⟩ := exec_catalogPut hexec
    exact h.catalogPut hok hput hdone hunique hcataloged
  | quarantineDuplicate objectKey =>
    obtain ⟨hduplicate, rfl⟩ := exec_quarantineDuplicate hexec
    exact (h.removeFile (State.mem_removing.mpr (Or.inr (Or.inr hduplicate)))).mono (List.Subset.refl _) .refl
      (fun _ h => h) (State.removing_mono (List.Subset.refl _) (List.Subset.refl _) List.erase_subset)
  | cleanupPromotion key objectKey =>
    cases hexec
    exact h.cleanupPromotion hok
  | evict manifestId =>
    obtain ⟨c', eviction, hevict, rfl⟩ := exec_evict hexec
    exact h.mono (List.Subset.refl _) (evictManifest_noneMade hevict) (fun _ h => h) (List.Subset.refl _)
  | finishEviction eviction =>
    obtain ⟨-, c', hfinish, rfl⟩ := exec_finishEviction hexec
    obtain ⟨-, rfl⟩ | ⟨_, _, -, rfl⟩ := finishManifestEviction_eq_ok hfinish
    · exact h.mono (List.Subset.refl _) .refl (fun _ h => h) (List.Subset.refl _)
    · exact h.mono (List.Subset.refl _) .refl (fun _ h => h) (List.Subset.refl _)
  | selectVictims keys =>
    obtain ⟨c', victims, hselect, rfl⟩ := exec_selectVictims hexec
    exact h.selectVictims hok hselect
  | checkVictim collection =>
    obtain ⟨hcollection, hcurrent, victim, pending, current, hpending, hcheck, rfl⟩ := exec_checkVictim hexec
    exact h.mono (List.Subset.refl _) .refl (fun _ h => h) (State.removing_mono
      (waiting_advance hcollection (Collection.waiting_check hcurrent hpending hcheck)) (List.Subset.refl _)
      (List.Subset.refl _))
  | moveVictim collection =>
    obtain ⟨hcollection, moved, hcurrent, rfl⟩ := exec_moveVictim hexec
    have hmem : moved.objectKey ∈ s.removing :=
      State.mem_removing.mpr (Or.inl ⟨collection, hcollection, by simp [Collection.waiting, hcurrent]⟩)
    exact (h.removeFile hmem).mono (List.Subset.refl _) .refl (fun _ h => h) (State.removing_mono
      (waiting_advance hcollection Collection.waiting_move) (List.Subset.refl _) (List.Subset.refl _))
  | finishCollection collection =>
    obtain ⟨-, -, -, c', hfinish, rfl⟩ := exec_finishCollection hexec
    exact h.mono (List.Subset.refl _) (finishCollection_noneMade hfinish) (fun _ h => h)
      (State.removing_mono waiting_erase (List.Subset.refl _) (List.Subset.refl _))
  | selectDemotions keys =>
    obtain ⟨victims, -, rfl⟩ := exec_selectDemotions hexec
    exact h.mono (List.Subset.refl _) .refl (fun _ h => h) (List.Subset.refl _)
  | demoteVictims victims =>
    obtain ⟨-, c', hdemote, rfl⟩ := exec_demoteVictims hexec
    exact h.demoteVictims hok hdemote
  | dropFile removal =>
    obtain ⟨hremoval, key, keys, rfl, rfl⟩ := exec_dropFile hexec
    have hmem : key ∈ s.removing :=
      State.mem_removing.mpr (Or.inr (Or.inl ⟨_, hremoval, List.mem_cons_self⟩))
    exact (h.removeFile hmem).mono (List.Subset.refl _) .refl (fun _ h => h) (State.removing_mono
      (List.Subset.refl _) (flatten_advance hremoval) (List.Subset.refl _))

theorem filesSound_initial : FilesSound State.initial where
  served _ h := by cases h
  counted _ h := by cases h
  removing _ h := by cases h

theorem run_filesSound {es : List Event} (h : Along (step C config) (fun s e => fileStep s e) State.initial es) :
    FilesSound (run (step C config) State.initial es) := by
  refine (along_preserves (P := fun s => ContentUnique s.catalog.chunks ∧ FilesSound s) h
    (fun s e s' hok hexec hs => ?_) ⟨fun _ _ _ _ hrow => (by cases hrow), filesSound_initial⟩).2
  have hunique := (exec_catalogStep hexec).chunks_induct (P := ContentUnique) (fun _ _ h => h.contentUnique) hs.1
  exact ⟨hunique, exec_filesSound hexec hok hunique hs.2⟩

end Kvpack.Store
