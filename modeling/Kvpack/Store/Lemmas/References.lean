import Kvpack.Store.Lemmas.Steps

/-!
# Reference counts

The reference count of an object is the number of manifests with a `manifest_chunks` row for it. An object without a
row counts as zero, so referenced objects keep their rows.
-/

namespace Kvpack.Store

open Base Kvpack.Core

variable {C : Crypto} {config : StoreConfig} {c c' : Catalog} {now : Nat} {key : Id32} {es : List Event}
  {chunks chunks' : Table Id32 ChunkRow}
variable {p : PendingManifest}
variable {manifestChunks : Table ManifestChunkKey Id32} {m k semantic family : Id32} {freed : Nat}
  {inserted publications : List PendingManifest}

def referrers (manifestChunks : Table ManifestChunkKey Id32) (objectKey : Id32) : Finset Id32 :=
  ((manifestChunks.rows.filter fun r => r.2 = objectKey).map (·.1.manifestId)).toFinset

theorem mem_referrers :
    m ∈ referrers manifestChunks key ↔ ∃ k, manifestChunks.get? k = some key ∧ k.manifestId = m := by
  simp only [referrers, List.mem_toFinset, List.mem_map, List.mem_filter, Prod.exists, Table.get?_eq_some_iff,
    decide_eq_true_eq]
  constructor
  · rintro ⟨k, _, ⟨hk, rfl⟩, rfl⟩
    exact ⟨k, hk, rfl⟩
  · rintro ⟨k, hk, rfl⟩
    exact ⟨k, key, ⟨hk, rfl⟩, rfl⟩

theorem Catalog.mem_objectsOf : key ∈ c.objectsOf m ↔ m ∈ referrers c.manifestChunks key := by
  rw [mem_referrers]
  simp only [objectsOf, List.mem_dedup, List.mem_map, List.mem_filter, Prod.exists, Table.get?_eq_some_iff,
    decide_eq_true_eq]
  constructor
  · rintro ⟨k, _, ⟨hk, rfl⟩, rfl⟩
    exact ⟨k, hk, rfl⟩
  · rintro ⟨k, hk, rfl⟩
    exact ⟨k, key, ⟨hk, rfl⟩, rfl⟩

/-! ## The count of a key -/

def refcountOf (chunks : Table Id32 ChunkRow) (key : Id32) : Nat := ((chunks.get? key).map (·.refcount)).getD 0

theorem refcountOf_some {row : ChunkRow} (h : chunks.get? key = some row) : refcountOf chunks key = row.refcount := by
  rw [refcountOf, h]
  rfl

theorem refcountOf_none (h : chunks.get? key = none) : refcountOf chunks key = 0 := by
  rw [refcountOf, h]
  rfl

theorem refcountOf_put {row : ChunkRow} (h : row.refcount = refcountOf chunks k) :
    refcountOf (chunks.put k row) key = refcountOf chunks key := by
  by_cases hk : key = k
  · subst hk
    rw [refcountOf_some Table.get?_put_self, h]
  · simp only [refcountOf, Table.get?_put, if_neg hk]

theorem refcountOf_erase (h : refcountOf chunks k = 0) :
    refcountOf (chunks.erase k) key = refcountOf chunks key := by
  by_cases hk : key = k
  · subst hk
    rw [refcountOf_none Table.get?_erase_self, h]
  · simp only [refcountOf, Table.get?_erase, if_neg hk]

theorem refcountOf_evictRows (keys : List Id32) : refcountOf (evictRows keys chunks) key = refcountOf chunks key := by
  rw [refcountOf, refcountOf, evictRows, Table.get?_map, Option.map_map]
  congr 2
  funext row
  simp only [Function.comp_apply]
  split <;> rfl

theorem RowRemoval.refcountOf {moved : Moved} (h : RowRemoval moved chunks chunks' freed) :
    refcountOf chunks' key = refcountOf chunks key := by
  cases h with
  | kept hkept => rfl
  | deleted row hrow hstate hcount => exact refcountOf_erase (by rw [refcountOf_some hrow, hcount])
  | trashed row hrow hstate hcount => exact refcountOf_put (by rw [refcountOf_some hrow])

theorem RowDemotion.refcountOf {victim : Demoted} (h : RowDemotion victim chunks chunks' freed) :
    refcountOf chunks' key = refcountOf chunks key := by
  cases h with
  | kept hkept => rfl
  | quantized row hrow hstate hrung hvictim => exact refcountOf_put (by rw [refcountOf_some hrow])
  | dropped row hrow hstate hrung hvictim => exact refcountOf_put (by rw [refcountOf_some hrow])

theorem refcountOf_withdrawn {objectKey : Id32} :
    refcountOf (chunks.filter fun k row => ¬ (k = objectKey ∧ row.refcount = 0)) key = refcountOf chunks key := by
  rw [refcountOf, refcountOf, Table.get?_filter]
  cases chunks.get? key with
  | none => rfl
  | some row => by_cases hrow : key = objectKey ∧ row.refcount = 0 <;> simp [Option.filter, hrow]

theorem refcountOf_referencedChunks :
    refcountOf (referencedChunks inserted chunks) key =
      refcountOf chunks key + if (chunks.get? key).isSome then refcountIncrement inserted key else 0 := by
  rw [refcountOf, refcountOf, referencedChunks, Table.get?_map]
  cases chunks.get? key <;> simp

/-! ## The invariant -/

theorem refcountIncrement_append :
    refcountIncrement (inserted ++ [p]) key = refcountIncrement inserted key + if key ∈ p.objects then 1 else 0 := by
  simp only [refcountIncrement, List.filter_append, List.length_append, List.filter_singleton]
  split <;> simp_all

theorem PendingManifest.mem_objects :
    key ∈ p.objects ↔ ∃ r ∈ p.references, r.2.objectKey = key := by
  simp only [objects, List.mem_dedup, List.mem_map]

theorem PendingManifest.references_manifestId {r : ManifestChunkKey × ChunkRef}
    (h : r ∈ p.references) : r.1.manifestId = p.id := by
  simp only [references, List.mem_flatMap, List.mem_map] at h
  obtain ⟨_, -, _, -, rfl⟩ := h
  rfl

/-- Given the references of every manifest: the counts are exact, only these have rows, and a present manifest that is
not tombstoned has all of its rows. -/
structure ReferencesExact (references : Id32 → List (ManifestChunkKey × ChunkRef)) (c : Catalog) : Prop where
  counted : ∀ key, refcountOf c.chunks key = (referrers c.manifestChunks key).card
  known : ∀ k v, c.manifestChunks.get? k = some v → ∃ r ∈ references k.manifestId, r.1 = k
  complete : ∀ m row, c.manifests.get? m = some row → (.manifest, m) ∉ c.tombstones →
    ∀ r ∈ references m, c.manifestChunks.get? r.1 = some r.2.objectKey

variable {references : Id32 → List (ManifestChunkKey × ChunkRef)}

theorem ReferencesExact.of_counts (h : ReferencesExact references c)
    (hcounts : ∀ key, refcountOf c'.chunks key = refcountOf c.chunks key)
    (hrows : c'.manifestChunks = c.manifestChunks) (hmanifests : c'.manifests = c.manifests)
    (htombstones : c.tombstones ⊆ c'.tombstones) : ReferencesExact references c' where
  counted key := by rw [hcounts, h.counted, hrows]
  known := by rw [hrows]; exact h.known
  complete m row hrow htomb := by
    rw [hrows]
    rw [hmanifests] at hrow
    exact h.complete m row hrow fun hmem => htomb (htombstones hmem)

/-- The rows of an inserted manifest are new, and its objects gain a referrer. -/
theorem ReferencesExact.referrers_insert (h : ReferencesExact references c) (hp : references p.id = p.references)
    (hreferenced : Referenced p.references c manifestChunks) :
    p.id ∉ referrers c.manifestChunks key ∧
      referrers manifestChunks key =
        if key ∈ p.objects then insert p.id (referrers c.manifestChunks key) else referrers c.manifestChunks key := by
  refine ⟨fun hmem => ?_, ?_⟩
  · obtain ⟨k, hk, hid⟩ := mem_referrers.mp hmem
    obtain ⟨r, hr, rfl⟩ := h.known k _ hk
    rw [hid, hp] at hr
    rw [hreferenced.fresh r hr] at hk
    cases hk
  · ext m
    have hnew : (∃ k, (∃ r ∈ p.references, r.1 = k ∧ r.2.objectKey = key) ∧ k.manifestId = m) ↔
        key ∈ p.objects ∧ m = p.id := by
      rw [PendingManifest.mem_objects]
      constructor
      · rintro ⟨k, ⟨r, hr, rfl, hkey⟩, rfl⟩
        exact ⟨⟨r, hr, hkey⟩, PendingManifest.references_manifestId hr⟩
      · rintro ⟨⟨r, hr, hkey⟩, rfl⟩
        exact ⟨r.1, ⟨r, hr, rfl, hkey⟩, PendingManifest.references_manifestId hr⟩
    rw [mem_referrers]
    simp only [hreferenced.get?, or_and_right, exists_or, hnew, ← mem_referrers]
    split
    · rename_i hkey
      simp only [hkey, true_and, Finset.mem_insert]
      tauto
    · rename_i hkey
      simp only [hkey, false_and, or_false]

/-- A transaction in progress, with the counts it will add. -/
def Publishing.settled (tx : Publishing) : Catalog :=
  { tx.catalog with chunks := referencedChunks tx.inserted tx.catalog.chunks }

theorem PublishedOne.referencesExact {generation : Nat}
    {tx tx' : Publishing} (hone : PublishedOne semantic family generation p tx tx')
    (hp : references p.id = p.references) (h : ReferencesExact references tx.settled) :
    ReferencesExact references tx'.settled := by
  cases hone with
  | existing row hrow hagrees => exact ⟨h.counted, h.known, h.complete⟩
  | inserted manifestChunks hnone hreferenced =>
    have hsettled : Referenced p.references tx.settled manifestChunks := by
      refine ⟨fun r hr => ?_, hreferenced.fresh, hreferenced.get?⟩
      obtain ⟨row, hrow, hserves⟩ := hreferenced.served r hr
      refine ⟨{ row with refcount := row.refcount + refcountIncrement tx.inserted r.2.objectKey }, ?_, hserves⟩
      rw [Publishing.settled, referencedChunks, Table.get?_map, hrow]
      rfl
    refine ⟨fun key => ?_, fun k v hk => ?_, fun m row hrow htomb r hr => ?_⟩
    · obtain ⟨hnew, hinsert⟩ : _ ∧ referrers manifestChunks key = _ := h.referrers_insert hp hsettled
      have hcount : refcountOf (referencedChunks tx.inserted tx.catalog.chunks) key = _ := h.counted key
      change refcountOf (referencedChunks (tx.inserted ++ [p]) tx.catalog.chunks) key =
        (referrers manifestChunks key).card
      rw [refcountOf_referencedChunks] at hcount ⊢
      rw [hinsert, refcountIncrement_append]
      by_cases hkey : key ∈ p.objects
      · -- a referenced object has a row, whose count the transaction will raise
        obtain ⟨r, hr, rfl⟩ := PendingManifest.mem_objects.mp hkey
        obtain ⟨row, hrow, -⟩ := hreferenced.served r hr
        rw [if_pos hkey, if_pos hkey, Finset.card_insert_of_notMem hnew, ← hcount, hrow]
        exact (Nat.add_assoc _ _ _).symm
      · rw [if_neg hkey, if_neg hkey, Nat.add_zero]
        exact hcount
    · rcases (hreferenced.get? k v).mp hk with hk | ⟨r, hr, rfl, rfl⟩
      · exact h.known k v hk
      · exact ⟨r, by rwa [PendingManifest.references_manifestId hr, hp], rfl⟩
    · refine (hreferenced.get? _ _).mpr ?_
      by_cases hm : m = p.id
      · rw [hm, hp] at hr
        exact Or.inr ⟨r, hr, rfl, rfl⟩
      · replace hrow : (tx.catalog.manifests.put p.id _).get? m = some row := hrow
        rw [Table.get?_put, if_neg hm] at hrow
        exact Or.inl (h.complete m row hrow htomb r hr)

theorem Committed.referencesExact {upload : Upload}
    {tx : Publishing} (hcommit : Committed key semantic family publications upload tx c c')
    (hp : ∀ p ∈ publications, references p.id = p.references) (h : ReferencesExact references c) :
    ReferencesExact references c' := by
  have hstart : ReferencesExact references (Publishing.settled ⟨c, []⟩) := by
    refine h.of_counts (fun key => ?_) rfl rfl (List.Subset.refl _)
    simp [Publishing.settled, refcountOf_referencedChunks, refcountIncrement]
  have hend := publishEach_induct (P := fun _ tx => ReferencesExact references tx.settled) hcommit.each hstart
    fun done p rest _ _ heq hone => hone.referencesExact (hp p (by rw [heq]; simp))
  obtain ⟨manifests, manifestChunks, locations, heq⟩ := publishEach_frame hcommit.each
  obtain ⟨outbox, rfl⟩ := hcommit.result
  have hsettled : tx.settled = { c with
      manifests, manifestChunks, locations, chunks := referencedChunks tx.inserted c.chunks } := by
    rw [Publishing.settled, heq]
  rw [hsettled] at hend
  rw [heq]
  exact ⟨hend.counted, hend.known, hend.complete⟩

theorem evictManifest_referencesExact {id : Id32} {eviction : Eviction}
    (hkeys : ∀ m, ∀ r ∈ references m, r.1.manifestId = m) (hevict : evictManifest id now c = .ok (c', eviction))
    (h : ReferencesExact references c) : ReferencesExact references c' := by
  obtain ⟨row, outbox, hrow, -, -, rfl⟩ := evictManifest_eq_ok hevict
  refine ⟨fun key => ?_, fun k v hk => ?_, fun m row hrow htomb r hr => ?_⟩
  · have hreferrers : referrers (c.manifestChunks.filter fun key _ => key.manifestId ≠ id) key =
        (referrers c.manifestChunks key).erase id := by
      ext m
      simp only [mem_referrers, Finset.mem_erase, Table.get?_filter, Option.filter_eq_some_iff,
        decide_eq_true_eq]
      constructor
      · rintro ⟨k, ⟨hk, hne⟩, rfl⟩
        exact ⟨hne, k, hk, rfl⟩
      · rintro ⟨hne, k, hk, rfl⟩
        exact ⟨k, ⟨hk, hne⟩, rfl⟩
    have hcount := h.counted key
    rw [hreferrers, refcountOf, Table.get?_map]
    rw [refcountOf] at hcount
    by_cases hkey : key ∈ c.objectsOf id
    · rw [Finset.card_erase_of_mem (Catalog.mem_objectsOf.mp hkey), ← hcount]
      cases c.chunks.get? key <;> simp [hkey]
    · rw [Finset.erase_eq_of_notMem fun hmem => hkey (Catalog.mem_objectsOf.mpr hmem), ← hcount]
      cases c.chunks.get? key <;> simp [hkey]
  · simp only [Table.get?_filter, Option.filter_eq_some_iff] at hk
    exact h.known k v hk.1
  · simp only [List.mem_insert_iff, Prod.mk.injEq, true_and, not_or] at htomb
    simp only [Table.get?_filter, Option.filter_eq_some_iff, decide_eq_true_eq]
    exact ⟨h.complete m row hrow htomb.2 r hr, by rw [hkeys m r hr]; exact htomb.1⟩

theorem CatalogStep.referencesExact {e : Event} (hstep : CatalogStep C config now e c c')
    (hkeys : ∀ m, ∀ r ∈ references m, r.1.manifestId = m) (hp : ∀ p ∈ e.publications, references p.id = p.references)
    (h : ReferencesExact references c) : ReferencesExact references c' := by
  cases hstep with
  | transacted t he _ htransaction =>
    have hkept := htransaction.keepsObjects
    exact h.of_counts (fun key => by rw [hkept.chunks]) hkept.manifestChunks hkept.manifests hkept.tombstones
  | published key publications he artifacts _ hpublish =>
    obtain ⟨_, _, upload, -, -, -, ⟨-, -, _, rfl⟩ | ⟨tx, hcommit⟩⟩ := publishManifestBatch_eq_ok hpublish
    · exact ⟨h.counted, h.known, h.complete⟩
    · rw [he] at hp
      exact hcommit.referencesExact hp h
  | evicted id he _ eviction hevict => exact evictManifest_referencesExact hkeys hevict h
  | evictionFinished eviction he _ hfinish =>
    obtain ⟨-, rfl⟩ | ⟨_, _, -, rfl⟩ := finishManifestEviction_eq_ok hfinish
    · exact ⟨h.counted, h.known, h.complete⟩
    · refine ⟨h.counted, h.known, fun m row hrow => ?_⟩
      rw [Table.get?_erase] at hrow
      split at hrow
      · cases hrow
      · exact h.complete m row hrow
  | onObjects _ hobjects =>
    cases hobjects with
    | exported outbox => exact ⟨h.counted, h.known, h.complete⟩
    | cataloged objects keyEpoch ledger _ result hcatalog =>
      obtain ⟨c₁, heach, htouched⟩ := catalogChunks_eq_ok hcatalog
      obtain ⟨chunks, rfl, hcounts⟩ := catalogEach_eq_ok
        (P := fun chunks => ∀ key, refcountOf chunks key = refcountOf c.chunks key) heach (fun _ => rfl)
        fun object _ c₂ htaken hP key => by
          have hnone := (chunkTaken_eq_false htaken).1
          rw [← hP]
          exact refcountOf_put (refcountOf_none hnone).symm
      have hcataloged : ReferencesExact references { c with chunks } :=
        h.of_counts hcounts rfl rfl (List.Subset.refl _)
      obtain rfl | ⟨_, _, _, _, -, rfl, -⟩ := htouched
      · exact hcataloged
      · exact ⟨hcataloged.counted, hcataloged.known, hcataloged.complete⟩
    | withdrawn upload objectKey =>
      obtain ⟨chunks, heq, rfl | ⟨-, rfl⟩⟩ := cleanupPromotion_eq c upload objectKey
      · rw [heq]
        exact h
      · rw [heq]
        exact h.of_counts (fun key => refcountOf_withdrawn) rfl rfl (List.Subset.refl _)
    | selected keys _ victims hselect =>
      obtain ⟨-, -, -, -, tombstones, outbox, rfl, hmem⟩ := selectVictims_eq_ok hselect
      exact h.of_counts (fun key => refcountOf_evictRows keys) rfl rfl fun x hx => (hmem x).mpr (Or.inl hx)
    | collected moved _ hfinish =>
      obtain ⟨outbox, rfl⟩ := finishCollection_eq_ok hfinish
      obtain ⟨chunks, freed, heq, hcounts⟩ := removeRows_eq moved c 0
        (P := fun _ chunks _ => ∀ key, refcountOf chunks key = refcountOf c.chunks key) (fun _ => rfl)
        fun _ _ _ _ _ _ hremoval hP key => hremoval.refcountOf.trans (hP key)
      rw [heq]
      exact h.of_counts hcounts rfl rfl (List.Subset.refl _)
    | demoted victims he _ hdemote =>
      obtain ⟨chunks, durableBytes, rfl, -, hcounts⟩ := demoteVictims_eq_ok
        (P := fun _ chunks _ => ∀ key, refcountOf chunks key = refcountOf c.chunks key) hdemote (fun _ => rfl)
        fun _ _ _ _ _ _ hdemotion hP key => hdemotion.refcountOf.trans (hP key)
      exact h.of_counts hcounts rfl rfl (List.Subset.refl _)

/-! ## Runs -/

/-- Collision freedom of a run: one identity, one manifest. -/
def ManifestIdsBind (publications : List PendingManifest) : Prop :=
  ∀ p ∈ publications, ∀ q ∈ publications, p.id = q.id → p.manifest = q.manifest

/-- The references of a manifest, as the first publication of it gives them. -/
def referencesIn (publications : List PendingManifest) (m : Id32) : List (ManifestChunkKey × ChunkRef) :=
  ((publications.find? fun p => p.id = m).map (·.references)).getD []

theorem referencesIn_manifestId (publications : List PendingManifest) :
    ∀ m, ∀ r ∈ referencesIn publications m, r.1.manifestId = m := by
  intro m r hr
  unfold referencesIn at hr
  cases hfind : publications.find? fun p => p.id = m with
  | none =>
    rw [hfind] at hr
    cases hr
  | some p =>
    rw [hfind] at hr
    rw [PendingManifest.references_manifestId (p := p) hr]
    simpa using List.find?_some hfind

theorem ManifestIdsBind.referencesIn (h : ManifestIdsBind publications) (hp : p ∈ publications) :
    referencesIn publications p.id = p.references := by
  unfold Store.referencesIn
  cases hfind : publications.find? fun q => q.id = p.id with
  | none =>
    have := List.find?_eq_none.mp hfind p hp
    simp at this
  | some q =>
    have hid : q.id = p.id := by simpa using List.find?_some hfind
    have hmanifest := h q (List.mem_of_find?_eq_some hfind) p hp hid
    simp only [Option.map_some, Option.getD_some, PendingManifest.references, hid, hmanifest]

theorem referencesExact_initial : ReferencesExact references Catalog.initial where
  counted _ := rfl
  known _ _ h := by cases h
  complete _ _ h := by cases h

theorem run_referencesExact (hids : ManifestIdsBind (es.flatMap Event.publications)) :
    ReferencesExact (referencesIn (es.flatMap Event.publications)) (run (step C config) State.initial es).catalog :=
  run_catalog_invariant
    (Q := fun e => ∀ p ∈ e.publications, referencesIn (es.flatMap Event.publications) p.id = p.references)
    (fun _ _ _ _ hstep hp => hstep.referencesExact (referencesIn_manifestId _) hp)
    (fun e he _ hp => hids.referencesIn (List.mem_flatMap.mpr ⟨e, he, hp⟩)) referencesExact_initial

theorem ReferencesExact.selected {keys : List Id32} {victims : List Victim} (h : ReferencesExact references c)
    (hselect : selectVictims keys now c = .ok (c', victims)) (hkey : key ∈ keys) {k : ManifestChunkKey} :
    c.manifestChunks.get? k ≠ some key := by
  intro hk
  obtain ⟨-, -, hcollectable, -⟩ := selectVictims_eq_ok hselect
  obtain ⟨row, hrow, hzero, -⟩ := Catalog.collectable_eq_true.mp (hcollectable key hkey)
  have hcount := h.counted key
  rw [refcountOf_some hrow, hzero, eq_comm, Finset.card_eq_zero] at hcount
  have hmem : k.manifestId ∈ referrers c.manifestChunks key := mem_referrers.mpr ⟨k, hk, rfl⟩
  rw [hcount] at hmem
  exact absurd hmem (Finset.notMem_empty _)

end Kvpack.Store
