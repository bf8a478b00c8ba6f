import Kvpack.Store.Lemmas.Transactions

/-!
# What a publication does

A publication that commits is either a replay, which only records its events again, or the first one of its upload:
then every new manifest is inserted with all of its references, the counts of its objects go up, and the reservation
is exchanged for the bytes that are new.
-/

namespace Kvpack.Store

open Base Kvpack.Core

variable {C : Crypto} {config : StoreConfig} {c c' : Catalog} {key semantic family : Id32} {now generation : Nat}
  {p : PendingManifest} {publications : List PendingManifest} {tx tx' : Publishing}
variable {several : Bool} {previous : List PendingManifest} {checkpoints : Table CheckpointKey Checkpoint}
  {k : CheckpointKey}

/-! ## References -/

/-- The row a reference needs before it can be inserted. -/
def ChunkRow.Serves (row : ChunkRow) (reference : ChunkRef) : Prop :=
  row.locationState = .available ∧ row.chunkId = reference.chunkId ∧ row.objectDigest = reference.objectDigest ∧
    row.objectBytes = reference.objectBytes.toNat

theorem insertReference_eq_ok {reference : ManifestChunkKey × ChunkRef} (h : insertReference reference c = .ok c') :
    (∃ row, c.chunks.get? reference.2.objectKey = some row ∧ row.Serves reference.2) ∧
      c.manifestChunks.get? reference.1 = none ∧
      c' = { c with manifestChunks := c.manifestChunks.put reference.1 reference.2.objectKey } := by
  simp only [insertReference, bind_eq_ok, exists_unit, okOr_eq_ok, rejectIf_eq_ok, ne_eq, not_not, not_or,
    pure_eq_ok] at h
  obtain ⟨row, hrow, havailable, hmatch, hnone, rfl⟩ := h
  exact ⟨⟨row, hrow, havailable, hmatch⟩, hnone, rfl⟩

structure Referenced (references : List (ManifestChunkKey × ChunkRef)) (c : Catalog)
    (manifestChunks : Table ManifestChunkKey Id32) : Prop where
  served : ∀ r ∈ references, ∃ row, c.chunks.get? r.2.objectKey = some row ∧ row.Serves r.2
  fresh : ∀ r ∈ references, c.manifestChunks.get? r.1 = none
  get? : ∀ k v, manifestChunks.get? k = some v ↔
    c.manifestChunks.get? k = some v ∨ ∃ r ∈ references, r.1 = k ∧ r.2.objectKey = v

theorem insertReferences_eq_ok {references : List (ManifestChunkKey × ChunkRef)}
    (h : insertReferences references c = .ok c') :
    ∃ manifestChunks, c' = { c with manifestChunks } ∧ Referenced references c manifestChunks := by
  induction references generalizing c with
  | nil =>
    cases h
    exact ⟨_, rfl, by simp, by simp, by simp⟩
  | cons r rest ih =>
    simp only [insertReferences, bind_eq_ok] at h
    obtain ⟨c₁, hfirst, h⟩ := h
    obtain ⟨hserved, hnone, rfl⟩ := insertReference_eq_ok hfirst
    obtain ⟨manifestChunks, rfl, hrest⟩ := ih h
    have hfresh : ∀ r' ∈ rest, r'.1 ≠ r.1 ∧ c.manifestChunks.get? r'.1 = none := by
      intro r' hr'
      have hnone' := hrest.fresh r' hr'
      rw [Table.get?_put] at hnone'
      split at hnone'
      · cases hnone'
      · exact ⟨‹_›, hnone'⟩
    refine ⟨manifestChunks, rfl, ?_, ?_, fun k v => ?_⟩
    · simpa using ⟨hserved, fun a b hab => hrest.served (a, b) hab⟩
    · intro r' hr'
      rcases List.mem_cons.mp hr' with rfl | hr'
      · exact hnone
      · exact (hfresh r' hr').2
    · rw [hrest.get?, Table.get?_put]
      simp only [List.mem_cons, exists_eq_or_imp]
      by_cases hk : k = r.1
      · subst hk
        simp only [if_true, Option.some.injEq, hnone, reduceCtorEq, true_and, false_or]
      · simp only [hk, if_false, Ne.symm hk, false_and, false_or]

/-! ## One manifest -/

inductive PublishedOne (semantic family : Id32) (generation : Nat) (p : PendingManifest) (tx : Publishing) :
    Publishing → Prop
  | existing (row : ManifestRow) (hrow : tx.catalog.manifests.get? p.id = some row)
      (hagrees : row = p.row semantic family row.generation) :
      PublishedOne semantic family generation p tx
        { tx with catalog := { tx.catalog with locations := tx.catalog.locations.put p.id .available } }
  | inserted (manifestChunks : Table ManifestChunkKey Id32) (hnone : tx.catalog.manifests.get? p.id = none)
      (hreferences : Referenced p.references tx.catalog manifestChunks) :
      PublishedOne semantic family generation p tx {
        catalog := { tx.catalog with
          manifestChunks
          manifests := tx.catalog.manifests.put p.id (p.row semantic family generation)
          locations := tx.catalog.locations.put p.id .available }
        inserted := tx.inserted ++ [p] }

theorem publishOne_eq_ok (h : publishOne semantic family generation p tx = .ok tx') :
    PublishedOne semantic family generation p tx tx' := by
  unfold publishOne at h
  dsimp only at h
  split at h
  · rename_i row hrow
    simp only [bind_eq_ok, exists_unit, rejectIf_eq_ok, not_not, ManifestRow.agrees, decide_eq_true_eq,
      pure_eq_ok] at h
    obtain ⟨hagrees, rfl⟩ := h
    exact .existing row hrow hagrees
  · rename_i hnone
    simp only [bind_eq_ok, pure_eq_ok] at h
    obtain ⟨c₁, hinsert, rfl⟩ := h
    obtain ⟨manifestChunks, rfl, hreferences⟩ := insertReferences_eq_ok hinsert
    exact .inserted manifestChunks hnone hreferences

/-- What each publication preserves holds after the batch; `done` are those so far. -/
theorem publishEach_induct {P : List PendingManifest → Publishing → Prop}
    (h : publishEach semantic family generation publications tx = .ok tx') (hP : P [] tx)
    (hstep : ∀ done p rest tx tx', publications = done ++ p :: rest →
      PublishedOne semantic family generation p tx tx' → P done tx → P (done ++ [p]) tx') :
    P publications tx' := by
  suffices hrest : ∀ rest done tx, publications = done ++ rest →
      publishEach semantic family generation rest tx = .ok tx' → P done tx → P publications tx' from
    hrest publications [] tx rfl h hP
  intro rest
  induction rest with
  | nil =>
    intro done tx hdone h hP
    cases h
    rwa [hdone, List.append_nil]
  | cons p rest ih =>
    intro done tx hdone h hP
    simp only [publishEach, bind_eq_ok] at h
    obtain ⟨tx₁, hfirst, h⟩ := h
    refine ih (done ++ [p]) tx₁ (by rw [hdone, List.append_assoc]; rfl) h ?_
    exact hstep done p rest tx tx₁ hdone (publishOne_eq_ok hfirst) hP

theorem publishEach_frame (h : publishEach semantic family generation publications ⟨c, []⟩ = .ok tx) :
    ∃ manifests manifestChunks locations, tx.catalog = { c with manifests, manifestChunks, locations } := by
  refine publishEach_induct
    (P := fun _ tx => ∃ manifests manifestChunks locations,
      tx.catalog = { c with manifests, manifestChunks, locations }) h ⟨_, _, _, rfl⟩ ?_
  rintro _ p _ tx tx' - hone ⟨manifests, manifestChunks, locations, heq⟩
  cases hone with
  | existing _ _ _ | inserted _ _ _ => exact ⟨_, _, _, by rw [heq]⟩

/-- What a batch has done to the manifests once it has published `done`. -/
structure Inserted (semantic family : Id32) (generation : Nat) (c : Catalog) (done : List PendingManifest)
    (tx : Publishing) : Prop where
  chunks : tx.catalog.chunks = c.chunks
  subset : ∀ q ∈ tx.inserted, q ∈ done
  absent : ∀ q ∈ tx.inserted, c.manifests.get? q.id = none
  served : ∀ q ∈ tx.inserted, ∀ r ∈ q.references, ∃ row, c.chunks.get? r.2.objectKey = some row ∧ row.Serves r.2
  manifests : ∀ m row, tx.catalog.manifests.get? m = some row ↔
    c.manifests.get? m = some row ∨ ∃ q ∈ tx.inserted, q.id = m ∧ row = q.row semantic family generation
  present : ∀ p ∈ done, ∃ row, tx.catalog.manifests.get? p.id = some row ∧ row = p.row semantic family row.generation
  locations : ∀ m, tx.catalog.locations.get? m = if m ∈ done.map (·.id) then some .available else c.locations.get? m

theorem Inserted.initial : Inserted semantic family generation c [] ⟨c, []⟩ where
  chunks := rfl
  subset _ h := h
  absent _ h := by cases h
  served _ h := by cases h
  manifests := by simp
  present _ h := by cases h
  locations _ := by simp

theorem Inserted.publishOne {done : List PendingManifest} (h : Inserted semantic family generation c done tx)
    (hone : PublishedOne semantic family generation p tx tx') :
    Inserted semantic family generation c (done ++ [p]) tx' := by
  have hlocations : ∀ m, (tx.catalog.locations.put p.id .available).get? m =
      if m ∈ (done ++ [p]).map (·.id) then some .available else c.locations.get? m := by
    intro m
    rw [Table.get?_put, h.locations, List.map_append, List.map_singleton]
    simp only [List.mem_append, List.mem_singleton]
    by_cases hm : m = p.id <;> simp [hm]
  cases hone with
  | existing row hrow hagrees =>
    refine ⟨h.chunks, fun q hq => List.mem_append_left _ (h.subset q hq), h.absent, h.served, h.manifests,
      fun q hq => ?_, hlocations⟩
    rcases List.mem_append.mp hq with hq | hq
    · exact h.present q hq
    · cases List.mem_singleton.mp hq
      exact ⟨row, hrow, hagrees⟩
  | inserted manifestChunks hnone hreferenced =>
    have hget : ∀ m row, (tx.catalog.manifests.put p.id (p.row semantic family generation)).get? m = some row ↔
        tx.catalog.manifests.get? m = some row ∨ (p.id = m ∧ row = p.row semantic family generation) := by
      intro m row
      rw [Table.get?_put]
      by_cases hm : m = p.id
      · subst hm
        simp [hnone, eq_comm]
      · simp [hm, Ne.symm hm]
    refine ⟨h.chunks, fun q hq => ?_, fun q hq => ?_, fun q hq r hr => ?_, fun m row => ?_, fun q hq => ?_,
      hlocations⟩
    · rcases List.mem_append.mp hq with hq | hq
      · exact List.mem_append_left _ (h.subset q hq)
      · exact List.mem_append_right _ hq
    · rcases List.mem_append.mp hq with hq | hq
      · exact h.absent q hq
      · cases List.mem_singleton.mp hq
        rw [Option.eq_none_iff_forall_ne_some]
        intro row hrow
        rw [(h.manifests _ _).mpr (Or.inl hrow)] at hnone
        cases hnone
    · rcases List.mem_append.mp hq with hq | hq
      · exact h.served q hq r hr
      · cases List.mem_singleton.mp hq
        rw [← h.chunks]
        exact hreferenced.served r hr
    · refine (hget m row).trans ?_
      rw [h.manifests, or_assoc]
      simp only [List.mem_append, List.mem_singleton, or_and_right, exists_or, exists_eq_left]
    · rcases List.mem_append.mp hq with hq | hq
      · obtain ⟨row, hrow, hagrees⟩ := h.present q hq
        exact ⟨row, (hget _ _).mpr (Or.inl hrow), hagrees⟩
      · cases List.mem_singleton.mp hq
        exact ⟨_, (hget _ _).mpr (Or.inr ⟨rfl, rfl⟩), rfl⟩

theorem refcountIncrement_ne_zero {inserted : List PendingManifest} :
    refcountIncrement inserted key ≠ 0 ↔ ∃ q ∈ inserted, key ∈ q.objects := by
  rw [refcountIncrement, ne_eq, List.length_eq_zero_iff, List.filter_eq_nil_iff]
  simp

theorem Inserted.refcountIncrement_eq_zero {row : ChunkRow} (h : Inserted semantic family generation c publications tx)
    (hrow : c.chunks.get? key = some row) (hstate : row.locationState ≠ .available) :
    refcountIncrement tx.inserted key = 0 := by
  by_contra hne
  obtain ⟨q, hq, hkey⟩ := refcountIncrement_ne_zero.mp hne
  obtain ⟨r, hr, rfl⟩ := List.mem_map.mp (List.mem_dedup.mp hkey)
  obtain ⟨row', hrow', hserves⟩ := h.served q hq r hr
  rw [hrow, Option.some.injEq] at hrow'
  exact hstate (hrow' ▸ hserves.1)

theorem publishEach_inserted (h : publishEach semantic family generation publications ⟨c, []⟩ = .ok tx) :
    Inserted semantic family generation c publications tx :=
  publishEach_induct h .initial fun _ _ _ _ _ _ hone hdone => hdone.publishOne hone

/-! ## Checks on the batch -/

/-- What the checks on a batch establish for each of its manifests. -/
structure PendingManifest.Checked (C : Crypto) (config : StoreConfig) (semantic family : Id32) (p : PendingManifest) :
    Prop where
  semantic : semanticModelId C p.manifest.semanticModel = semantic
  family : representationFamilyId C p.manifest.family = .ok family
  tokenCount : p.prefixNode.tokenCount = p.manifest.inputCut.tokenCount
  prefixId : p.prefixNode.id = p.manifest.inputCut.tokenRoot

theorem checkPublication_eq_ok
    (h : checkPublication C config semantic family several previous p = .ok ()) :
    p.Checked C config semantic family ∧ p.id ∉ previous.map (·.id) ∧ (several → chained previous.head? p) := by
  simp only [checkPublication, bind_eq_ok, exists_unit, rejectIf_eq_ok, liftPack_eq_ok, not_or, not_not, ne_eq,
    not_and] at h
  obtain ⟨⟨-, hsemantic⟩, familyId, hfamily, ⟨rfl, htokens, hstart, -⟩, _, -, ⟨-, hid⟩, hchained⟩ := h
  exact ⟨⟨hsemantic, hfamily, htokens, hstart⟩, hid, hchained⟩

theorem checkPublications_eq_ok
    (h : checkPublications C config semantic family several previous publications = .ok ()) :
    (∀ p ∈ publications, p.Checked C config semantic family) ∧ (publications.map (·.id)).Nodup ∧
      ∀ p ∈ publications, p.id ∉ previous.map (·.id) := by
  induction publications generalizing previous with
  | nil => simp
  | cons p rest ih =>
    simp only [checkPublications, bind_eq_ok, exists_unit] at h
    obtain ⟨hchecked, hid, -⟩ := checkPublication_eq_ok h.1
    obtain ⟨hrest, hnodup, hids⟩ := ih h.2
    refine ⟨List.forall_mem_cons.mpr ⟨hchecked, hrest⟩, ?_, List.forall_mem_cons.mpr ⟨hid, fun q hq hmem => ?_⟩⟩
    · rw [List.map_cons, List.nodup_cons]
      refine ⟨fun hmem => ?_, hnodup⟩
      obtain ⟨q, hq, hqid⟩ := List.mem_map.mp hmem
      exact hids q hq (by rw [List.map_cons, hqid]; exact List.mem_cons_self)
    · exact hids q hq (List.mem_cons_of_mem _ hmem)

theorem validateManifestBatch_eq_ok (h : validateManifestBatch C config publications = .ok (semantic, family)) :
    publications ≠ [] ∧ (∀ p ∈ publications, p.Checked C config semantic family) ∧ (publications.map (·.id)).Nodup := by
  unfold validateManifestBatch at h
  split at h
  · cases h
  · simp only [bind_eq_ok, exists_unit, liftPack_eq_ok, pure_eq_ok, Prod.mk.injEq] at h
    obtain ⟨-, _, -, hcheck, rfl, rfl⟩ := h
    obtain ⟨hchecked, hnodup, -⟩ := checkPublications_eq_ok hcheck
    exact ⟨by simp, hchecked, hnodup⟩

theorem eq_of_id_eq {q : PendingManifest} (hnodup : (publications.map (·.id)).Nodup) (hp : p ∈ publications)
    (hq : q ∈ publications) (hid : p.id = q.id) : p = q := List.inj_on_of_nodup_map hnodup hp hq hid

/-! ## The batch -/

def checkpointsWith (semantic family : Id32) (publications : List PendingManifest)
    (checkpoints : Table CheckpointKey Checkpoint) : Table CheckpointKey Checkpoint :=
  publications.foldl (fun checkpoints p => checkpoints.put (p.checkpointKey semantic family) p.checkpoint) checkpoints

/-- A checkpoint after a batch is one of the batch or was there before. -/
theorem checkpointsWith_get? {checkpoint : Checkpoint}
    (h : (checkpointsWith semantic family publications checkpoints).get? k = some checkpoint) :
    checkpoints.get? k = some checkpoint ∨
      ∃ p ∈ publications, k = p.checkpointKey semantic family ∧ checkpoint = p.checkpoint := by
  induction publications generalizing checkpoints with
  | nil => exact Or.inl h
  | cons p rest ih =>
    rcases ih h with hold | ⟨q, hq, hkey, hcheckpoint⟩
    · rw [Table.get?_put] at hold
      split at hold
      · rename_i hk
        exact Or.inr ⟨p, List.mem_cons_self, hk, (Option.some.inj hold).symm⟩
      · exact Or.inl hold
    · exact Or.inr ⟨q, List.mem_cons_of_mem _ hq, hkey, hcheckpoint⟩

theorem checkpointsWith_get?_of_ne
    (h : ∀ p ∈ publications, p.checkpointKey semantic family ≠ k) :
    (checkpointsWith semantic family publications checkpoints).get? k = checkpoints.get? k := by
  induction publications generalizing checkpoints with
  | nil => rfl
  | cons p rest ih =>
    refine (ih fun q hq => h q (List.mem_cons_of_mem _ hq)).trans ?_
    rw [Table.get?_put, if_neg fun hk => h p List.mem_cons_self hk.symm]

/-- With distinct prefixes, every publication has its own checkpoint. -/
theorem checkpointsWith_get?_of_mem
    (hnodup : (publications.map (·.prefixNode.id)).Nodup) (hp : p ∈ publications) :
    (checkpointsWith semantic family publications checkpoints).get? (p.checkpointKey semantic family) =
      some p.checkpoint := by
  induction publications generalizing checkpoints with
  | nil => cases hp
  | cons q rest ih =>
    rw [List.map_cons, List.nodup_cons] at hnodup
    rcases List.mem_cons.mp hp with rfl | hp
    · have hrest : ∀ r ∈ rest, r.checkpointKey semantic family ≠ p.checkpointKey semantic family := fun r hr hkey =>
        hnodup.1 (List.mem_map.mpr ⟨r, hr, congrArg CheckpointKey.prefixId hkey⟩)
      exact (checkpointsWith_get?_of_ne hrest).trans Table.get?_put_self
    · exact ih hnodup.2 hp

def referencedChunks (inserted : List PendingManifest) (chunks : Table Id32 ChunkRow) : Table Id32 ChunkRow :=
  chunks.map fun key row => { row with refcount := row.refcount + refcountIncrement inserted key }

/-- The first publication of an upload. -/
structure Committed (key semantic family : Id32) (publications : List PendingManifest) (upload : Upload)
    (tx : Publishing) (c c' : Catalog) : Prop where
  active : upload.state.active
  each : publishEach semantic family upload.generation publications ⟨c, []⟩ = .ok tx
  fits : newChunkBytes c tx.inserted + newManifestBytes tx.inserted ≤ upload.reservedBytes
  result : ∃ outbox, c' = { c with
    manifests := tx.catalog.manifests
    manifestChunks := tx.catalog.manifestChunks
    locations := tx.catalog.locations
    chunks := referencedChunks tx.inserted c.chunks
    checkpoints := checkpointsWith semantic family publications c.checkpoints
    uploads := c.uploads.put key
      { upload with state := .published, manifestId := publications.getLast?.map (·.id) }
    reservedBytes := c.reservedBytes - upload.reservedBytes
    durableBytes := c.durableBytes + (newChunkBytes c tx.inserted + newManifestBytes tx.inserted)
    outbox }

theorem commitPublication_eq_ok {upload : Upload}
    (h : commitPublication key upload semantic family publications c = .ok c') :
    ∃ tx, Committed key semantic family publications upload tx c c' := by
  simp only [commitPublication, bind_eq_ok, exists_unit, rejectIf_eq_ok, not_lt, pure_eq_ok] at h
  obtain ⟨hstate, tx, heach, hfits, rfl⟩ := h
  obtain ⟨manifests, manifestChunks, locations, heq⟩ := publishEach_frame heach
  have hbytes : newChunkBytes tx.catalog tx.inserted = newChunkBytes c tx.inserted := by
    rw [heq]
    rfl
  rw [hbytes] at hfits
  refine ⟨tx, ?_, heach, hfits, c.outbox, ?_⟩
  · cases hs : upload.state <;> simp_all [UploadState.active]
  · rw [hbytes, heq]
    rfl

theorem publishManifestBatch_eq_ok {artifacts : List PublishedArtifact}
    (h : publishManifestBatch C config key publications now c = .ok (c', artifacts)) :
    ∃ semantic family upload, validateManifestBatch C config publications = .ok (semantic, family) ∧
      c.uploads.get? key = some upload ∧ artifacts = publishedArtifacts config upload.generation publications ∧
      ((upload.state = .published ∧ checkReplay upload semantic family publications c = .ok () ∧
          ∃ outbox, c' = { c with outbox }) ∨
        ∃ tx, Committed key semantic family publications upload tx c c') := by
  simp only [publishManifestBatch, bind_eq_ok, exists_unit, Prod.exists, okOr_eq_ok, pure_eq_ok, Prod.mk.injEq] at h
  obtain ⟨semantic, family, hvalidate, upload, hupload, -, c₁, hrows, c₂, hrecord, rfl, rfl⟩ := h
  obtain ⟨outbox, rfl⟩ := record_eq_ok hrecord
  refine ⟨semantic, family, upload, hvalidate, hupload, rfl, ?_⟩
  unfold publishRows at hrows
  split at hrows
  · rename_i hstate
    simp only [bind_eq_ok, exists_unit, pure_eq_ok] at hrows
    obtain ⟨hreplay, rfl⟩ := hrows
    exact Or.inl ⟨hstate, hreplay, outbox, rfl⟩
  · obtain ⟨tx, hactive, heach, hfits, outbox', rfl⟩ := commitPublication_eq_ok hrows
    exact Or.inr ⟨tx, hactive, heach, hfits, outbox, rfl⟩

end Kvpack.Store
