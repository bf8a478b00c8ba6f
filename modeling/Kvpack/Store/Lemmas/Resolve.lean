import Kvpack.Store.Lemmas.Manifests

/-!
# What a published batch can count on

After its publication a batch is resolved by its prefixes and its objects can be pinned, as far as nothing stood
against it, and it is answered again as long as its checkpoints are still its own.
-/

namespace Kvpack.Store

open Base Kvpack.Core

variable {C : Crypto} {config : StoreConfig} {c c' : Catalog} {now : Nat} {key semantic family : Id32}
  {p : PendingManifest} {publications history : List PendingManifest} {es : List Event}
variable {minimum : UInt64} {nodes : List PrefixNode} {bound : Nat}

/-! ## The checkpoints of a history -/

/-- Every checkpoint was written by a publication of the history. -/
def CheckpointsFrom (history : List PendingManifest) (c : Catalog) : Prop :=
  ∀ k checkpoint, c.checkpoints.get? k = some checkpoint →
    ∃ q ∈ history, k.prefixId = q.prefixNode.id ∧ checkpoint.tokenCount = q.prefixNode.tokenCount

theorem CheckpointsFrom.mono {history' : List PendingManifest} (h : CheckpointsFrom history c)
    (hsubset : history ⊆ history') : CheckpointsFrom history' c := by
  intro k checkpoint hk
  obtain ⟨q, hq, hwritten⟩ := h k checkpoint hk
  exact ⟨q, hsubset hq, hwritten⟩

theorem CheckpointsFrom.filter (h : CheckpointsFrom history c) (keep : CheckpointKey → Checkpoint → Bool)
    (hc : c'.checkpoints = c.checkpoints.filter keep) : CheckpointsFrom history c' := by
  intro k checkpoint hk
  rw [hc, Table.get?_filter, Option.filter_eq_some_iff] at hk
  exact h k checkpoint hk.1

theorem CheckpointsFrom.batch (h : CheckpointsFrom history c) (hmem : publications ⊆ history)
    (hc : c'.checkpoints = checkpointsWith semantic family publications c.checkpoints) :
    CheckpointsFrom history c' := by
  intro k checkpoint hk
  rw [hc] at hk
  rcases checkpointsWith_get? hk with hold | ⟨q, hq, rfl, rfl⟩
  · exact h k checkpoint hold
  · exact ⟨q, hmem hq, rfl, rfl⟩

theorem ManifestStep.checkpointsFrom {e : Event} (hstep : ManifestStep C config now e c c')
    (he : e.publications ⊆ history) (h : CheckpointsFrom history c) : CheckpointsFrom history c' := by
  cases hstep with
  | kept _ hkept =>
    unfold CheckpointsFrom
    rw [hkept.checkpoints]
    exact h
  | published key publications hevent semantic family hvalidate upload tx _ hcommit =>
    obtain ⟨_, rfl⟩ := hcommit.result
    subst hevent
    exact h.batch he rfl
  | prefixDeleted prefixId hevent outbox => exact h.filter (fun key _ => key.prefixId ≠ prefixId) rfl
  | retired maximumObjects hevent _ hretire =>
    obtain ⟨_, _, _, rfl, -, hcheckpoints⟩ := retireKeyEpochsBefore_eq_ok hretire
    exact h.filter _ hcheckpoints
  | evicted id hevent _ eviction hevict =>
    obtain ⟨_, _, -, -, -, rfl⟩ := evictManifest_eq_ok hevict
    exact h.filter (fun _ checkpoint => checkpoint.manifestId ≠ id) rfl
  | evictionFinished eviction hevent _ hfinish =>
    obtain ⟨-, rfl⟩ | ⟨_, _, -, rfl⟩ := finishManifestEviction_eq_ok hfinish
    · exact h
    · exact h

theorem run_checkpointsFrom :
    CheckpointsFrom (es.flatMap Event.publications) (run (step C config) State.initial es).catalog :=
  run_catalog_invariant (Q := fun e => e.publications ⊆ es.flatMap Event.publications)
    (fun _ _ _ _ hstep he => hstep.manifestStep.checkpointsFrom he)
    (fun e he _ hp => List.mem_flatMap.mpr ⟨e, he, hp⟩) fun _ _ h => (by cases h)

/-! ## After a publication -/

/-- The key epoch that the row of a manifest has, or gets when it is inserted. -/
def Catalog.epochOf (c : Catalog) (p : PendingManifest) : UInt64 :=
  ((c.manifests.get? p.id).map (·.keyEpoch)).getD p.manifest.keyEpoch

/-- What a publication that commits leaves behind, first or repeated. -/
structure Served (semantic family : Id32) (publications : List PendingManifest) (c c' : Catalog) : Prop where
  tombstones : c'.tombstones = c.tombstones
  pinnable : ∀ reference, c'.pinnable reference = c.pinnable reference
  epoch : ∀ p ∈ publications, ∀ row, c'.manifests.get? p.id = some row → row.keyEpoch = c.epochOf p
  checkpoint : (publications.map (·.prefixNode.id)).Nodup → ∀ p ∈ publications,
    c'.checkpoints.get? (p.checkpointKey semantic family) = some p.checkpoint
  present : ∀ p ∈ publications, (ObjectKind.manifest, p.id) ∉ c.tombstones →
    (∃ row, c'.manifests.get? p.id = some row) ∧ c'.locations.get? p.id = some .available
  written : c'.checkpoints = c.checkpoints ∨ c'.checkpoints = checkpointsWith semantic family publications c.checkpoints

theorem pinnable_referenced {inserted : List PendingManifest} {reference : ChunkRef}
    (hchunks : c'.chunks = referencedChunks inserted c.chunks) (htombstones : c'.tombstones = c.tombstones) :
    c'.pinnable reference = c.pinnable reference := by
  unfold Catalog.pinnable Catalog.tombstoned
  rw [hchunks, htombstones, referencedChunks, Table.get?_map]
  cases c.chunks.get? reference.objectKey <;> rfl

theorem checkReplay_eq_ok {upload : Upload} (h : checkReplay upload semantic family publications c = .ok ()) :
    upload.manifestId = publications.getLast?.map (·.id) ∧
      ∀ p ∈ publications, c.checkpoints.get? (p.checkpointKey semantic family) = some p.checkpoint := by
  simpa only [checkReplay, bind_eq_ok, exists_unit, rejectIf_eq_ok, ne_eq, not_not, not_exists, not_and] using h

theorem publishManifestBatch_served {artifacts : List PublishedArtifact} (hserved : CheckpointsServed c)
    (hpublish : publishManifestBatch C config key publications now c = .ok (c', artifacts))
    (hids : validateManifestBatch C config publications = .ok (semantic, family)) :
    Served semantic family publications c c' := by
  obtain ⟨_, _, upload, hvalidate, -, -, hcase⟩ := publishManifestBatch_eq_ok hpublish
  rw [hids, Except.ok.injEq, Prod.mk.injEq] at hvalidate
  obtain ⟨rfl, rfl⟩ := hvalidate
  obtain ⟨-, hreplay, outbox, rfl⟩ | ⟨tx, hcommit⟩ := hcase
  · obtain ⟨-, hcheckpoints⟩ := checkReplay_eq_ok hreplay
    refine ⟨rfl, fun _ => rfl, fun p _ row hrow => ?_, fun _ => hcheckpoints, fun p hp htomb => ?_, Or.inl rfl⟩
    · change c.manifests.get? p.id = some row at hrow
      rw [Catalog.epochOf, hrow]
      rfl
    · exact hserved _ p.checkpoint (hcheckpoints p hp) htomb
  · have hinserted := publishEach_inserted hcommit.each
    obtain ⟨_, rfl⟩ := hcommit.result
    refine ⟨rfl, fun _ => pinnable_referenced rfl rfl, fun p hp row hrow => ?_,
      fun hnodup p hp => checkpointsWith_get?_of_mem hnodup hp, fun p hp _ => ?_, Or.inr rfl⟩
    · obtain ⟨row', hrow', hagrees⟩ := hinserted.present p hp
      have heq : row = row' := Option.some.inj (hrow.symm.trans hrow')
      rw [Catalog.epochOf]
      cases hold : c.manifests.get? p.id with
      | none =>
        rw [heq, hagrees]
        rfl
      | some row₀ =>
        have heq₀ : row₀ = row := Option.some.inj
          (((hinserted.manifests _ _).mpr (Or.inl hold)).symm.trans hrow)
        rw [heq₀]
        rfl
    · obtain ⟨row, hrow, -⟩ := hinserted.present p hp
      refine ⟨⟨row, hrow⟩, ?_⟩
      simp only [hinserted.locations]
      exact if_pos (List.mem_map.mpr ⟨p, hp, rfl⟩)

/-! ## Resolution -/

/-- A query that ends at the prefix of a publication, after shorter prefixes. -/
def PendingManifest.ExactQuery (p : PendingManifest) (history : List PendingManifest) (nodes : List PrefixNode) :
    Prop :=
  nodes.getLast? = some p.prefixNode ∧
    ∀ q ∈ history, q.prefixNode.id ∈ nodes.map (·.id) → q.prefixNode.id ≠ p.prefixNode.id →
      q.prefixNode.tokenCount < p.prefixNode.tokenCount

theorem PendingManifest.exactQuery_singleton : p.ExactQuery history [p.prefixNode] := by
  refine ⟨rfl, fun q _ hmem hne => absurd ?_ hne⟩
  simpa using hmem

theorem head?_deepest {rows : List (CheckpointKey × Checkpoint)} {r : CheckpointKey × Checkpoint} (hr : r ∈ rows)
    (hdeepest : ∀ r' ∈ rows, r' = r ∨ r'.2.tokenCount < r.2.tokenCount) :
    (rows.insertionSort fun a b => b.2.tokenCount ≤ a.2.tokenCount).head? = some r := by
  let le (a b : CheckpointKey × Checkpoint) : Prop := b.2.tokenCount ≤ a.2.tokenCount
  have : Std.Total le := ⟨fun a b => UInt64.le_total b.2.tokenCount a.2.tokenCount⟩
  have : IsTrans _ le := ⟨fun a b c hab hbc => UInt64.le_trans hbc hab⟩
  have hsorted := List.pairwise_insertionSort le rows
  have hmem : r ∈ rows.insertionSort le := (List.mem_insertionSort le).mpr hr
  have hrows : ∀ r' ∈ rows.insertionSort le, r' ∈ rows := fun r' => (List.mem_insertionSort le).mp
  change (rows.insertionSort le).head? = some r
  cases hlist : rows.insertionSort le with
  | nil =>
    rw [hlist] at hmem
    cases hmem
  | cons first rest =>
    rw [hlist] at hsorted hmem hrows
    rcases List.mem_cons.mp hmem with rfl | hrest
    · rfl
    · rcases hdeepest first (hrows first List.mem_cons_self) with rfl | hlt
      · rfl
      · exact absurd (List.rel_of_pairwise_cons hsorted hrest) (UInt64.not_le.mpr hlt)

theorem resolvable_iff {checkpoint : Checkpoint} :
    c.resolvable config minimum checkpoint ↔ ∃ row, c.manifests.get? checkpoint.manifestId = some row ∧
      minimum ≤ row.keyEpoch ∧ row.keyEpoch ≤ config.keyEpoch ∧
      c.locations.get? checkpoint.manifestId = some .available ∧
      (ObjectKind.manifest, checkpoint.manifestId) ∉ c.tombstones := by
  unfold Catalog.resolvable Catalog.tombstoned
  cases c.manifests.get? checkpoint.manifestId <;> simp

/-- A checkpoint that may be served answers every query that ends at its prefix. -/
theorem resolve_exact (hfrom : CheckpointsFrom history c)
    (hquery : p.ExactQuery history nodes) (hbound : 0 < bound)
    (hcheckpoint : c.checkpoints.get? (p.checkpointKey semantic family) = some p.checkpoint)
    (hresolvable : c.resolvable config minimum p.checkpoint) :
    (resolvePrefixCandidates config nodes semantic family bound minimum c).head?.map (·.manifestId) = some p.id := by
  obtain ⟨hlast, hshorter⟩ := hquery
  unfold resolvePrefixCandidates
  rw [hlast]
  have hcandidate : p.prefixNode.id ∈ (nodes.drop (nodes.length - 900)).map (·.id) := by
    refine List.mem_map.mpr ⟨p.prefixNode, List.mem_of_getLast? ?_, rfl⟩
    have hne : nodes ≠ [] := by
      rintro rfl
      cases hlast
    have hlength := List.length_pos_iff.mpr hne
    rw [List.getLast?_drop, if_neg (by omega), hlast]
  have hrow : (p.checkpointKey semantic family, p.checkpoint) ∈ c.checkpoints.rows.filter fun r =>
      decide (r.1.semanticId = semantic ∧ r.1.familyId = family ∧
        r.1.prefixId ∈ (nodes.drop (nodes.length - 900)).map (·.id)) && c.resolvable config minimum r.2 := by
    refine List.mem_filter.mpr ⟨Table.get?_eq_some_iff.mp hcheckpoint, ?_⟩
    rw [Bool.and_eq_true, decide_eq_true_eq]
    exact ⟨⟨rfl, rfl, hcandidate⟩, hresolvable⟩
  have hfirst := head?_deepest hrow fun r hr => by
    obtain ⟨hmem, hr⟩ := List.mem_filter.mp hr
    rw [Bool.and_eq_true, decide_eq_true_eq] at hr
    obtain ⟨⟨hsemantic, hfamily, hmatch⟩, -⟩ := hr
    have hget := Table.get?_eq_some_iff.mpr hmem
    by_cases hid : r.1.prefixId = p.prefixNode.id
    · have hkey : r.1 = p.checkpointKey semantic family := by
        obtain ⟨⟨prefixId, semanticId, familyId⟩, checkpoint⟩ := r
        cases hid
        cases hsemantic
        cases hfamily
        rfl
      rw [hkey, hcheckpoint, Option.some.injEq] at hget
      exact Or.inl (Prod.ext hkey hget.symm)
    · obtain ⟨q, hq, hqnode, htokens⟩ := hfrom _ _ hget
      right
      rw [htokens]
      refine hshorter q hq ?_ (hqnode ▸ hid)
      rw [← hqnode]
      exact ((List.drop_sublist _ _).map _).subset hmatch
  have htake : min bound 64 ≠ 0 := by omega
  simp only [List.head?_map, List.head?_take, if_neg htake, hfirst, Option.map_some]
  rfl

theorem resolve_exact_inv
    (h : (resolvePrefixCandidates config [p.prefixNode] semantic family bound minimum c).head?.map (·.manifestId) =
      some p.id) :
    ∃ checkpoint, c.checkpoints.get? (p.checkpointKey semantic family) = some checkpoint ∧
      checkpoint.manifestId = p.id ∧ c.resolvable config minimum checkpoint := by
  obtain ⟨hit, hhit, hid⟩ := Option.map_eq_some_iff.mp h
  have hmem := List.mem_of_mem_head? hhit
  simp only [resolvePrefixCandidates, List.getLast?_singleton, List.mem_map] at hmem
  obtain ⟨r, hr, rfl⟩ := hmem
  obtain ⟨hrow, hcheck⟩ := List.mem_filter.mp ((List.mem_insertionSort _).mp (List.mem_of_mem_take hr))
  rw [Bool.and_eq_true, decide_eq_true_eq] at hcheck
  obtain ⟨⟨hsemantic, hfamily, node, hnode, hmatch⟩, hresolvable⟩ := hcheck
  rw [List.mem_singleton.mp (List.mem_of_mem_drop hnode)] at hmatch
  obtain ⟨⟨prefixId, semanticId, familyId⟩, checkpoint⟩ := r
  cases hmatch
  cases hsemantic
  cases hfamily
  exact ⟨checkpoint, Table.get?_eq_some_iff.mpr hrow, hid, hresolvable⟩

/-- What a batch needs to be found after its publication. -/
structure Findable (config : StoreConfig) (publications : List PendingManifest) (c : Catalog) : Prop where
  prefixes : (publications.map (·.prefixNode.id)).Nodup
  live : ∀ p ∈ publications, ¬ c.tombstoned .manifest p.id
  readable : ∀ p ∈ publications, config.minimumReadableKeyEpoch ≤ c.epochOf p ∧ c.epochOf p ≤ config.keyEpoch
  pinnable : ∀ p ∈ publications, ∀ r ∈ p.references, c.pinnable r.2

theorem Served.resolves (hserved : Served semantic family publications c c')
    (hfindable : Findable config publications c) (hfrom : CheckpointsFrom history c') (hp : p ∈ publications)
    (hquery : p.ExactQuery history nodes) (hbound : 0 < bound) :
    (resolvePrefixCandidates config nodes semantic family bound config.minimumReadableKeyEpoch c').head?.map
      (·.manifestId) = some p.id := by
  have hlive : (ObjectKind.manifest, p.id) ∉ c.tombstones := fun h => hfindable.live p hp (decide_eq_true h)
  obtain ⟨⟨row, hrow⟩, hlocation⟩ := hserved.present p hp hlive
  have hepoch := hserved.epoch p hp row hrow
  refine resolve_exact hfrom hquery hbound (hserved.checkpoint hfindable.prefixes p hp) (resolvable_iff.mpr ?_)
  refine ⟨row, hrow, ?_, ?_, hlocation, by rw [hserved.tombstones]; exact hlive⟩
  · rw [hepoch]
    exact (hfindable.readable p hp).1
  · rw [hepoch]
    exact (hfindable.readable p hp).2

theorem Served.findable (hserved : Served semantic family publications c c')
    (hnodup : (publications.map (·.id)).Nodup)
    (hresolves : ∀ p ∈ publications, (resolvePrefixCandidates config [p.prefixNode] semantic family 1
      config.minimumReadableKeyEpoch c').head?.map (·.manifestId) = some p.id)
    (hpinnable : ∀ p ∈ publications, ∀ r ∈ p.references, c'.pinnable r.2) : Findable config publications c := by
  have hresolvable : ∀ p ∈ publications, ∃ row, c'.manifests.get? p.id = some row ∧
      config.minimumReadableKeyEpoch ≤ row.keyEpoch ∧ row.keyEpoch ≤ config.keyEpoch ∧
      c'.locations.get? p.id = some .available ∧ (ObjectKind.manifest, p.id) ∉ c'.tombstones := by
    intro p hp
    obtain ⟨checkpoint, -, hid, hresolvable⟩ := resolve_exact_inv (hresolves p hp)
    rw [← hid]
    exact resolvable_iff.mp hresolvable
  refine ⟨?_, fun p hp htomb => ?_, fun p hp => ?_, fun p hp r hr => ?_⟩
  · -- two publications of one prefix would share a checkpoint, and it names one of them
    refine List.Nodup.map_on (fun p hp q hq hmatch => ?_) (List.Nodup.of_map _ hnodup)
    obtain ⟨checkpoint, hget, hid, -⟩ := resolve_exact_inv (hresolves p hp)
    obtain ⟨checkpoint', hget', hid', -⟩ := resolve_exact_inv (hresolves q hq)
    have hkey : p.checkpointKey semantic family = q.checkpointKey semantic family :=
      congrArg (fun prefixId => (⟨prefixId, semantic, family⟩ : CheckpointKey)) hmatch
    rw [hkey, hget', Option.some.injEq] at hget
    exact eq_of_id_eq hnodup hp hq (by rw [← hid, ← hid', hget])
  · obtain ⟨row, -, -, -, -, hlive⟩ := hresolvable p hp
    rw [hserved.tombstones] at hlive
    exact hlive (of_decide_eq_true htomb)
  · obtain ⟨row, hrow, hminimum, hactive, -⟩ := hresolvable p hp
    rw [← hserved.epoch p hp row hrow]
    exact ⟨hminimum, hactive⟩
  · rw [← hserved.pinnable]
    exact hpinnable p hp r hr

end Kvpack.Store
