import Kvpack.Store.Handing

/-!
# Rows that stay available

A row stops being available in three ways only: it is selected for collection, a demotion drops its file, or an upload
withdraws it. The first needs that no upload is active.
-/

namespace Kvpack.Store

open Base Kvpack.Core

variable {C : Crypto} {config : StoreConfig} {c c' : Catalog} {now : Nat} {key objectKey : Id32} {s s' : State}
  {h : Handing} {chunks chunks' : Table Id32 ChunkRow}
variable {objects : List ChunkObject} {keyEpoch : UInt64} {ledger : Option (Id32 × Nat)}
  {cataloged : List CatalogedChunk}
variable {freed : Nat} {e : Event}

theorem isAvailable_mapped {f : Id32 → ChunkRow → ChunkRow}
    (hf : ∀ row, row.locationState = .available → (f key row).locationState = .available)
    (h : isAvailable chunks key) : isAvailable (chunks.map f) key := by
  obtain ⟨row, hrow, hstate⟩ := isAvailable_iff.mp h
  exact isAvailable_iff.mpr ⟨f key row, by rw [Table.get?_map, hrow]; rfl, hf row hstate⟩

theorem RowRemoval.keeps_available {moved : Moved} (hremoval : RowRemoval moved chunks chunks' freed)
    (h : Store.isAvailable chunks key) : Store.isAvailable chunks' key := by
  obtain ⟨row, hrow, hstate⟩ := isAvailable_iff.mp h
  -- the row that goes or is marked is leaving, so it is another one
  have hother : ∀ row', chunks.get? moved.objectKey = some row' →
      (row'.locationState = .evicting ∨ row'.locationState = .trashed) → key ≠ moved.objectKey := by
    rintro row' hrow' hleaving rfl
    rw [hrow, Option.some.injEq] at hrow'
    rw [← hrow', hstate] at hleaving
    rcases hleaving with hleaving | hleaving <;> cases hleaving
  cases hremoval with
  | kept hkept => exact h
  | deleted row' hrow' hleaving hcount =>
    exact isAvailable_iff.mpr ⟨row, by rw [Table.get?_erase, if_neg (hother row' hrow' hleaving), hrow], hstate⟩
  | trashed row' hrow' hleaving hcount =>
    exact isAvailable_iff.mpr ⟨row, by rw [Table.get?_put, if_neg (hother row' hrow' hleaving), hrow], hstate⟩

theorem RowDemotion.keeps_available {victim : Demoted}
    (hdemotion : RowDemotion victim chunks chunks' freed)
    (hvictim : victim.rung = .restQuantized → victim.objectKey ≠ key) (h : Store.isAvailable chunks key) :
    Store.isAvailable chunks' key := by
  obtain ⟨row, hrow, hstate⟩ := isAvailable_iff.mp h
  cases hdemotion with
  | kept hkept => exact h
  | quantized row' hrow' hstate' hrung hresident =>
    by_cases hkey : key = victim.objectKey
    · subst hkey
      exact isAvailable_iff.mpr ⟨_, Table.get?_put_self, hstate'⟩
    · exact isAvailable_iff.mpr ⟨row, by rw [Table.get?_put, if_neg hkey, hrow], hstate⟩
  | dropped row' hrow' hstate' hrung hquantized =>
    have hkey : key ≠ victim.objectKey := fun heq => hvictim hquantized heq.symm
    exact isAvailable_iff.mpr ⟨row, by rw [Table.get?_put, if_neg hkey, hrow], hstate⟩

theorem finishCollection_keeps_available {moved : List Moved} (hfinish : finishCollection moved now c = .ok c')
    (h : isAvailable c.chunks key) : isAvailable c'.chunks key := by
  obtain ⟨_, rfl⟩ := finishCollection_eq_ok hfinish
  obtain ⟨chunks, _, heq, hchunks⟩ := removeRows_eq (P := fun _ chunks _ => isAvailable chunks key) moved c 0 h
    fun _ _ _ _ _ _ hremoval hP => hremoval.keeps_available hP
  rw [heq]
  exact hchunks

theorem demoteVictims_keeps_available {victims : List Demoted} (hdemote : demoteVictims victims c = .ok c')
    (hvictims : ∀ victim ∈ victims, victim.rung = .restQuantized → victim.objectKey ≠ key)
    (h : isAvailable c.chunks key) : isAvailable c'.chunks key := by
  obtain ⟨chunks, _, rfl, -, hchunks⟩ := demoteVictims_eq_ok
    (P := fun rest chunks _ => rest ⊆ victims ∧ isAvailable chunks key) hdemote ⟨List.Subset.refl _, h⟩ (by
      rintro victim rest chunks chunks' freed durable hdemotion ⟨hsubset, hP⟩
      exact ⟨fun v hv => hsubset (List.mem_cons_of_mem _ hv),
        hdemotion.keeps_available (hvictims victim (hsubset List.mem_cons_self)) hP⟩)
  exact hchunks.2

theorem Transaction.apply_keeps_available {t : Transaction} (happly : t.apply C config now c = .ok c')
    (h : isAvailable c.chunks key) : isAvailable c'.chunks key := by
  obtain ⟨upload, publications, artifacts, rfl, hpublish⟩ | ⟨-, htransaction⟩ := apply_cases happly
  · obtain ⟨_, _, upload, -, -, -, ⟨-, -, _, rfl⟩ | ⟨tx, hcommit⟩⟩ := publishManifestBatch_eq_ok hpublish
    · exact h
    · obtain ⟨_, rfl⟩ := hcommit.result
      exact isAvailable_mapped (fun _ hstate => hstate) h
  · rw [htransaction.keepsObjects.chunks]
    exact h

theorem catalogChunks_rows (hcatalog : catalogChunks objects keyEpoch ledger c = .ok (c', cataloged)) :
    ∃ c₁, catalogEach keyEpoch objects c = .ok (c₁, cataloged) ∧ c'.chunks = c₁.chunks := by
  obtain ⟨c₁, heach, rfl | ⟨_, _, _, _, -, rfl, -⟩⟩ := catalogChunks_eq_ok hcatalog
  · exact ⟨_, heach, rfl⟩
  · exact ⟨c₁, heach, rfl⟩

theorem catalogChunks_keeps_available (hcatalog : catalogChunks objects keyEpoch ledger c = .ok (c', cataloged))
    (h : isAvailable c.chunks key) : isAvailable c'.chunks key := by
  obtain ⟨c₁, heach, hchunks⟩ := catalogChunks_rows hcatalog
  obtain ⟨row, hrow, hstate⟩ := isAvailable_iff.mp h
  rw [hchunks]
  exact isAvailable_iff.mpr ⟨row, (catalogEach_rows heach).1 key row hrow, hstate⟩

theorem cleanupPromotion_keeps_available (upload : Id32)
    (hother : c.exclusive upload objectKey = true → objectKey ≠ key) (h : isAvailable c.chunks key) :
    isAvailable (cleanupPromotion upload objectKey c).chunks key := by
  obtain ⟨chunks, heq, rfl | ⟨hexclusive, rfl⟩⟩ := cleanupPromotion_eq c upload objectKey
  · rw [heq]
    exact h
  · obtain ⟨row, hrow, hstate⟩ := isAvailable_iff.mp h
    have hkey : key ≠ objectKey := (hother hexclusive).symm
    rw [heq]
    exact isAvailable_iff.mpr ⟨row, by rw [Table.get?_filter, hrow]; simp [hkey], hstate⟩

/-- The steps that can make a row unavailable. -/
def Event.takes (e : Event) (c : Catalog) (key : Id32) : Bool :=
  match e with
  | .selectVictims keys => decide (key ∈ keys)
  | .demoteVictims victims => victims.any fun victim => decide (victim.rung = .restQuantized ∧ victim.objectKey = key)
  | .cleanupPromotion upload objectKey => c.exclusive upload objectKey && decide (objectKey = key)
  | _ => false

theorem exec_keeps_available (hexec : exec C config s e = .ok s') (htakes : e.takes s.catalog key = false)
    (h : isAvailable s.catalog.chunks key) : isAvailable s'.catalog.chunks key := by
  by_cases hreads : e.reads = true
  · obtain ⟨outbox, heq⟩ := exec_reads hexec hreads
    rwa [heq]
  cases e with
  | transact t =>
    obtain ⟨c', happly, rfl⟩ := exec_transact hexec
    exact t.apply_keeps_available happly h
  | catalogPut put =>
    obtain ⟨-, -, c', _, hcataloged, rfl⟩ := exec_catalogPut hexec
    exact catalogChunks_keeps_available hcataloged h
  | cleanupPromotion upload objectKey =>
    cases hexec
    refine cleanupPromotion_keeps_available upload (fun hexclusive => ?_) h
    simpa [Event.takes, hexclusive] using htakes
  | evict manifestId =>
    obtain ⟨c', _, hevict, rfl⟩ := exec_evict hexec
    obtain ⟨_, _, -, -, -, rfl⟩ := evictManifest_eq_ok hevict
    refine isAvailable_mapped (fun row hstate => ?_) h
    split <;> exact hstate
  | finishEviction eviction =>
    obtain ⟨-, c', hfinish, rfl⟩ := exec_finishEviction hexec
    obtain ⟨-, rfl⟩ | ⟨_, _, -, rfl⟩ := finishManifestEviction_eq_ok hfinish <;> exact h
  | selectVictims keys =>
    obtain ⟨c', _, hselect, rfl⟩ := exec_selectVictims hexec
    obtain ⟨-, -, -, -, _, _, rfl, -⟩ := selectVictims_eq_ok hselect
    have hkey : key ∉ keys := by simpa [Event.takes] using htakes
    refine isAvailable_mapped (fun row hstate => ?_) h
    rw [if_neg hkey]
    exact hstate
  | finishCollection collection =>
    obtain ⟨-, -, -, c', hfinish, rfl⟩ := exec_finishCollection hexec
    exact finishCollection_keeps_available hfinish h
  | demoteVictims victims =>
    obtain ⟨-, c', hdemote, rfl⟩ := exec_demoteVictims hexec
    refine demoteVictims_keeps_available hdemote (fun victim hvictim hrung hkey => ?_) h
    have hany : (victims.any fun victim => decide (victim.rung = .restQuantized ∧ victim.objectKey = key)) = true :=
      List.any_eq_true.mpr ⟨victim, hvictim, decide_eq_true ⟨hrung, hkey⟩⟩
    rw [Event.takes, hany] at htakes
    cases htakes
  | _ => exact absurd rfl hreads

/-! ## References that are handed out -/

theorem findChunk_available {chunkId : Id32} {reference : ChunkRef}
    (h : findChunk c chunkId keyEpoch = some reference) : isAvailable c.chunks reference.objectKey := by
  unfold findChunk at h
  split at h
  · rename_i key row hcanonical
    split at h
    · rename_i hserved
      cases h
      exact isAvailable_iff.mpr
        ⟨row, Table.get?_eq_some_iff.mpr (List.mem_of_find?_eq_some hcanonical), hserved.1⟩
    · cases h
  · cases h

theorem catalogChunks_uploadActive (hcatalog : catalogChunks objects keyEpoch ledger c = .ok (c', cataloged)) :
    c'.uploadActive key = c.uploadActive key := by
  obtain ⟨c₁, heach, htouched⟩ := catalogChunks_eq_ok hcatalog
  obtain ⟨_, rfl⟩ := catalogEach_frame heach
  obtain rfl | ⟨other, upload, upload', _, hget, rfl, hkeeps, -⟩ := htouched
  · rfl
  · unfold Catalog.uploadActive
    rw [Table.get?_put]
    split
    · rename_i hkey
      have hget' : c.uploads.get? other = some upload := hget
      rw [hkey, hget', Option.any_some, Option.any_some, hkeeps.active]
    · rfl

/-- A put that finds available rows only answers with available rows. -/
theorem Put.answers_available {put : Put} (hservable : put.servable c = true)
    (hcatalog : catalogChunks (put.items.map (·.object)) put.keyEpoch put.ledger c = .ok (c', cataloged)) :
    ∀ objectKey ∈ put.answers c, isAvailable c'.chunks objectKey := by
  intro objectKey hanswer
  simp only [answers, hcatalog, List.mem_map] at hanswer
  obtain ⟨result, hresult, rfl⟩ := hanswer
  obtain ⟨c₁, heach, hchunks⟩ := catalogChunks_rows hcatalog
  obtain ⟨object, hobject, row, hrow, hcontent, hepoch⟩ := forall₂_exists_left (catalogEach_references heach) hresult
  rw [hchunks]
  refine isAvailable_iff.mpr ⟨row, hrow, ?_⟩
  obtain hold | ⟨_, -, -, rfl⟩ := (catalogEach_rows heach).2 _ row hrow
  · obtain ⟨item, hitem, rfl⟩ := List.mem_map.mp hobject
    have hitem' := List.all_eq_true.mp hservable item hitem
    rw [Bool.not_eq_true', Table.any_eq_false] at hitem'
    have hstate := hitem' _ row hold
    simpa [hcontent, hepoch] using hstate
  · rfl

/-! ## The invariant -/

structure HandingSound (h : Handing) : Prop where
  unique : ContentUnique h.store.catalog.chunks
  files : FilesSound h.store
  active : ∀ hold ∈ h.holds, h.store.catalog.uploadActive hold.1 = true
  available : ∀ hold ∈ h.holds, isAvailable h.store.catalog.chunks hold.2

theorem handingSound_initial : HandingSound .initial where
  unique _ _ _ _ hrow := by cases hrow
  files := filesSound_initial
  active _ hmem := by cases hmem
  available _ hmem := by cases hmem

theorem HandingSound.settle (hunique : ContentUnique h.store.catalog.chunks) (hfiles : FilesSound h.store)
    (havailable : ∀ hold ∈ h.holds, h.store.catalog.uploadActive hold.1 = true →
      isAvailable h.store.catalog.chunks hold.2) : HandingSound h.settle where
  unique := hunique
  files := hfiles
  active _ hmem := (List.mem_filter.mp hmem).2
  available hold hmem := havailable hold (List.mem_filter.mp hmem).1 (List.mem_filter.mp hmem).2

theorem HandingSound.hand {objects : List Id32} (hs : HandingSound h)
    (hobjects : h.store.catalog.uploadActive key = true →
      ∀ objectKey ∈ objects, isAvailable h.store.catalog.chunks objectKey) :
    HandingSound (h.hand key objects) := by
  refine .settle hs.unique hs.files fun hold hmem hactive => ?_
  rcases List.mem_append.mp hmem with hmem | hmem
  · obtain ⟨objectKey, hobject, rfl⟩ := List.mem_map.mp hmem
    exact hobjects hactive objectKey hobject
  · exact hs.available hold hmem

theorem HandingSound.not_taken (hs : HandingSound h) (hexec : exec C config h.store e = .ok s')
    (hok : handingStep h (.store e) = true) {hold : Id32 × Id32} (hmem : hold ∈ h.holds) :
    e.takes h.store.catalog hold.2 = false := by
  have hheld : h.held hold.2 = true := List.any_eq_true.mpr ⟨hold, hmem, decide_eq_true rfl⟩
  cases e with
  | selectVictims keys =>
    -- a collection is not selected while an upload is active
    obtain ⟨c', _, hselect, rfl⟩ := exec_selectVictims hexec
    obtain ⟨-, -, hkeys, -⟩ := selectVictims_eq_ok hselect
    simp only [Event.takes, decide_eq_false_iff_not]
    intro hkey
    obtain ⟨_, -, -, -, -, hinactive⟩ := Catalog.collectable_eq_true.mp (hkeys _ hkey)
    have hactive := hs.active hold hmem
    rw [Catalog.uploadActive, Option.any_eq_true] at hactive
    obtain ⟨upload, hupload, hstate⟩ := hactive
    rw [Catalog.anyActive, Table.any_eq_false] at hinactive
    rw [hinactive _ upload hupload] at hstate
    cases hstate
  | demoteVictims victims =>
    simp only [handingStep, Bool.and_eq_true] at hok
    simp only [Event.takes, List.any_eq_false, decide_eq_true_eq, not_and]
    intro victim hvictim hrung hkey
    have hfree := of_decide_eq_true (List.all_eq_true.mp hok.2 victim hvictim) hrung
    rw [hkey, hheld] at hfree
    cases hfree
  | cleanupPromotion upload objectKey =>
    simp only [handingStep, Bool.and_eq_true] at hok
    simp only [Event.takes, Bool.and_eq_false_iff, decide_eq_false_iff_not]
    by_cases hkey : objectKey = hold.2
    · rw [hkey, hheld] at hok
      exact Or.inl (by simpa [hkey] using hok.2)
    · exact Or.inr hkey
  | _ => rfl

theorem handingStep_fileStep (hok : handingStep h (.store e) = true) : fileStep h.store e = true := by
  cases e with
  | demoteVictims _ | cleanupPromotion _ _ =>
    simp only [handingStep, Bool.and_eq_true] at hok
    exact hok.1
  | _ => exact hok

theorem HandingSound.exec (hs : HandingSound h) (hexec : exec C config h.store e = .ok s')
    (hok : fileStep h.store e = true) (htakes : ∀ hold ∈ h.holds, e.takes h.store.catalog hold.2 = false) :
    ContentUnique s'.catalog.chunks ∧ FilesSound s' ∧ ∀ hold ∈ h.holds, isAvailable s'.catalog.chunks hold.2 := by
  have hunique := (exec_catalogStep hexec).chunks_induct (P := ContentUnique) (fun _ _ h => h.contentUnique) hs.unique
  exact ⟨hunique, exec_filesSound hexec hok hunique hs.files,
    fun hold hmem => exec_keeps_available hexec (htakes hold hmem) (hs.available hold hmem)⟩

theorem HandingSound.step {e : HandingEvent} (hs : HandingSound h) (hok : handingStep h e = true) :
    HandingSound (h.step C config e) := by
  cases e with
  | store e =>
    cases hexec : Store.exec C config h.store e with
    | error err =>
      simp only [Handing.step, Store.step, hexec]
      exact .settle hs.unique hs.files fun hold hmem _ => hs.available hold hmem
    | ok s' =>
      obtain ⟨hunique, hfiles, havailable⟩ := hs.exec hexec (handingStep_fileStep hok)
        fun hold hmem => hs.not_taken hexec hok hmem
      simp only [Handing.step, Store.step, hexec]
      exact .settle hunique hfiles fun hold hmem _ => havailable hold hmem
  | deduplicate key chunkId keyEpoch =>
    simp only [Handing.step]
    cases hfind : findChunk h.store.catalog chunkId keyEpoch with
    | none => exact hs
    | some reference =>
      refine hs.hand fun _ objectKey hobject => ?_
      cases List.mem_singleton.mp hobject
      exact findChunk_available hfind
  | put key put =>
    simp only [Handing.step]
    simp only [handingStep, Bool.and_eq_true, Bool.or_eq_true, Bool.not_eq_true'] at hok
    cases hexec : Store.exec C config h.store (.catalogPut put) with
    | error err => exact hs
    | ok s' =>
      obtain ⟨hunique, hfiles, havailable⟩ := hs.exec hexec hok.1 fun _ _ => rfl
      obtain ⟨-, -, c', cataloged, hcataloged, rfl⟩ := exec_catalogPut hexec
      refine .settle hunique hfiles fun hold hmem hactive => ?_
      rcases List.mem_append.mp hmem with hmem | hmem
      · obtain ⟨objectKey, hobject, rfl⟩ := List.mem_map.mp hmem
        have hbefore : h.store.catalog.uploadActive key = true :=
          (catalogChunks_uploadActive hcataloged).symm.trans hactive
        rcases hok.2 with hinactive | hservable
        · rw [hbefore] at hinactive
          cases hinactive
        · exact put.answers_available hservable hcataloged objectKey hobject
      · exact havailable hold hmem

theorem run_handingSound {es : List HandingEvent}
    (hsteps : Along (Handing.step C config) (fun h e => handingStep h e = true) .initial es) :
    HandingSound (run (Handing.step C config) .initial es) :=
  hsteps.invariant (P := HandingSound) (fun _ _ hok hs => hs.step hok) handingSound_initial

end Kvpack.Store
