import Kvpack.Store.Lemmas.Resolve
import Kvpack.Store.Theorems.Ledgers

/-!
# What the catalog never takes back

An upload that was published or quarantined stays so. The row of a manifest never changes while it may be served, and
an evicted manifest is not served again. A query lists the deepest checkpoints that may be served, and only those.
-/

namespace Kvpack.Store

open Base Kvpack.Core

variable {C : Crypto} {config : StoreConfig} {c c' : Catalog} {s s' : State} {e : Event} {es es' : List Event}
variable {key id semantic family : Id32} {upload : Upload} {row : ManifestRow} {nodes : List PrefixNode} {bound : Nat}
  {minimum : UInt64} {hit : PrefixHit}

/-! ## Uploads -/

/-- The row of an upload that ended as `upload` did. -/
def Upload.EndsAs (upload upload' : Upload) : Prop :=
  upload'.state = upload.state ∧ upload'.generation = upload.generation ∧
    (upload.manifestId.isSome → upload'.manifestId = upload.manifestId)

theorem UploadStep.endsAs {upload' : Upload} (h : UploadStep config c c') (hended : upload.state.active = false)
    (hnot : upload.state ≠ .aborted) (hget : c.uploads.get? key = some upload') (hends : upload.EndsAs upload') :
    ∃ upload'', c'.uploads.get? key = some upload'' ∧ upload.EndsAs upload'' := by
  obtain ⟨hstate, hgeneration, hmanifest⟩ := hends
  have hended' : upload'.state.active = false := by rw [hstate, hended]
  cases h with
  | same huploads => exact ⟨upload', by rw [huploads, hget], hstate, hgeneration, hmanifest⟩
  | kept k before after hbefore hkeeps huploads =>
    rw [huploads, Table.get?_put]
    split
    · rename_i heq
      rw [← heq, hget, Option.some.injEq] at hbefore
      subst hbefore
      refine ⟨after, rfl, (hkeeps.ended hended').trans hstate, hkeeps.generation.trans hgeneration, fun hsome => ?_⟩
      exact (hkeeps.manifestId (hmanifest hsome ▸ hsome)).trans (hmanifest hsome)
    · exact ⟨upload', hget, hstate, hgeneration, hmanifest⟩
  | reserved k after hbefore _ _ _ huploads =>
    -- only the row of an aborted upload is reserved again
    rw [huploads, Table.get?_put, if_neg]
    · exact ⟨upload', hget, hstate, hgeneration, hmanifest⟩
    · rintro rfl
      exact hnot (hstate ▸ hbefore upload' hget)
  | released k before after hbefore hactive _ huploads =>
    rw [huploads, Table.get?_put, if_neg]
    · exact ⟨upload', hget, hstate, hgeneration, hmanifest⟩
    · rintro rfl
      rw [hget, Option.some.injEq] at hbefore
      rw [← hbefore, hended'] at hactive
      cases hactive

/-- An upload that was published or quarantined keeps its state, its generation and its manifest, whatever happens. -/
theorem ended_upload_final (hget : s.catalog.uploads.get? key = some upload) (hended : upload.state.active = false)
    (hnot : upload.state ≠ .aborted) :
    ∃ upload', (run (step C config) s es).catalog.uploads.get? key = some upload' ∧ upload.EndsAs upload' := by
  refine run_preserves (P := fun s => ∃ upload', s.catalog.uploads.get? key = some upload' ∧ upload.EndsAs upload')
    (fun s e s' hexec hs => ?_) ⟨upload, hget, rfl, rfl, fun _ => rfl⟩
  obtain ⟨upload', hget', hends⟩ := hs
  exact (exec_catalogStep hexec).uploadStep.endsAs hended hnot hget' hends

abbrev byteEvents : List Event := uploadEvents (repeatedId 20) byteObject [bytePublication]

/-- The same publication under another key. -/
abbrev byteSequel : List Event := uploadEvents (repeatedId 21) byteObject [bytePublication]

set_option maxRecDepth 20000 in
theorem byteEvents_final :
    ∃ upload', (run (step checksumCrypto byteConfig) (run (step checksumCrypto byteConfig) State.initial byteEvents)
      [.transact (.reserve (repeatedId 20) byteReservation), .transact (.abort (repeatedId 20))]).catalog.uploads.get?
        (repeatedId 20) = some upload' ∧ upload'.state = .published := by
  have hpublished : ((run (step checksumCrypto byteConfig) State.initial byteEvents).catalog.uploads.get?
      (repeatedId 20)).map (·.state) = some .published := by decide +kernel
  obtain ⟨upload, hget, hstate⟩ := Option.map_eq_some_iff.mp hpublished
  obtain ⟨upload', hget', hstate', -⟩ :=
    ended_upload_final hget (by rw [hstate]; rfl) (by rw [hstate]; decide)
  exact ⟨upload', hget', hstate'.trans hstate⟩

/-! ## Manifests -/

/-- The row of a manifest stays as it is until its tombstone is there. -/
theorem exec_manifest_row (hexec : exec C config s e = .ok s') (hevictions : EvictionsTombstoned s)
    (hrow : s.catalog.manifests.get? id = some row) (hlive : (ObjectKind.manifest, id) ∉ s.catalog.tombstones) :
    s'.catalog.manifests.get? id = some row := by
  have hstep := exec_manifestStep hexec
  generalize s'.catalog = c' at hstep ⊢
  cases hstep with
  | kept _ hkept => rw [hkept.manifests, hrow]
  | published key publications he semantic family hvalidate upload tx _ hcommit =>
    have hinserted := publishEach_inserted hcommit.each
    obtain ⟨_, rfl⟩ := hcommit.result
    exact (hinserted.manifests _ _).mpr (Or.inl hrow)
  | prefixDeleted prefixId he outbox => exact hrow
  | retired maximumObjects he _ hretire =>
    obtain ⟨_, _, _, rfl, -⟩ := retireKeyEpochsBefore_eq_ok hretire
    exact hrow
  | evicted m he _ eviction hevict =>
    obtain ⟨_, _, -, -, -, rfl⟩ := evictManifest_eq_ok hevict
    exact hrow
  | evictionFinished eviction he _ hfinish =>
    rw [he] at hexec
    obtain ⟨heviction, -⟩ := exec_finishEviction hexec
    -- an eviction in progress has its tombstone, so it removes another row
    have hne : id ≠ eviction.manifestId := fun heq => hlive (heq ▸ hevictions eviction heviction)
    obtain ⟨-, rfl⟩ | ⟨_, _, -, rfl⟩ := finishManifestEviction_eq_ok hfinish
    · exact hrow
    · rw [Table.get?_erase, if_neg hne, hrow]

theorem run_manifest_row (hevictions : EvictionsTombstoned s) (hrow : s.catalog.manifests.get? id = some row) :
    (run (step C config) s es).catalog.manifests.get? id = some row ∨
      (ObjectKind.manifest, id) ∈ (run (step C config) s es).catalog.tombstones := by
  refine (run_preserves (P := fun s => EvictionsTombstoned s ∧
    (s.catalog.manifests.get? id = some row ∨ (ObjectKind.manifest, id) ∈ s.catalog.tombstones))
    (fun s e s' hexec hs => ?_) ⟨hevictions, Or.inl hrow⟩).2
  refine ⟨exec_evictionsTombstoned hexec hs.1, ?_⟩
  by_cases hlive : (ObjectKind.manifest, id) ∈ s.catalog.tombstones
  · exact Or.inr ((exec_manifestStep hexec).tombstones hlive)
  · exact Or.inl (exec_manifest_row hexec hs.1 (hs.2.resolve_right hlive) hlive)

theorem run_tombstones (h : (ObjectKind.manifest, id) ∈ s.catalog.tombstones) :
    (ObjectKind.manifest, id) ∈ (run (step C config) s es).catalog.tombstones :=
  run_preserves (P := fun s => (ObjectKind.manifest, id) ∈ s.catalog.tombstones)
    (fun _ _ _ hexec => (exec_manifestStep hexec).tombstones) h

/-! ## Queries -/

section Answers

variable (c config semantic family nodes bound minimum)

/-- The checkpoints that may answer a query. -/
def Catalog.Answers (r : CheckpointKey × Checkpoint) : Prop :=
  c.checkpoints.get? r.1 = some r.2 ∧ r.1.semanticId = semantic ∧ r.1.familyId = family ∧
    r.1.prefixId ∈ (nodes.drop (nodes.length - 900)).map (·.id) ∧ c.resolvable config minimum r.2

/-- A list of the deepest of them, at most as many as are asked for. -/
structure Catalog.Deepest (listed : List (CheckpointKey × Checkpoint)) : Prop where
  nodup : listed.Nodup
  length : listed.length ≤ min bound 64
  sorted : listed.Pairwise fun a b => b.2.tokenCount ≤ a.2.tokenCount
  sound : ∀ r ∈ listed, c.Answers config semantic family nodes minimum r
  complete : ∀ r, c.Answers config semantic family nodes minimum r → r ∉ listed →
    listed.length = min bound 64 ∧ ∀ r' ∈ listed, r.2.tokenCount ≤ r'.2.tokenCount

end Answers

/-- The first `k` of a sorted list: each once, in order, and nothing left out comes before one of them. -/
theorem take_insertionSort {α : Type} (le : α → α → Prop) [DecidableRel le] [Std.Total le] [IsTrans α le]
    {rows : List α} (hnodup : rows.Nodup) (k : Nat) :
    let best := (rows.insertionSort le).take k
    best.Nodup ∧ best.length ≤ k ∧ best.Pairwise le ∧ (∀ r ∈ best, r ∈ rows) ∧
      ∀ r ∈ rows, r ∉ best → best.length = k ∧ ∀ r' ∈ best, le r' r := by
  intro best
  have hsorted := List.pairwise_insertionSort le rows
  have hperm := List.perm_insertionSort le rows
  have hlength : best.length = min k rows.length := by rw [List.length_take, List.length_insertionSort]
  refine ⟨(List.take_sublist _ _).nodup (hperm.nodup_iff.mpr hnodup), by omega,
    hsorted.sublist (List.take_sublist _ _), fun r hr => hperm.subset (List.mem_of_mem_take hr), fun r hr hnot => ?_⟩
  rw [← List.take_append_drop k (rows.insertionSort le), List.pairwise_append] at hsorted
  have hmem := hperm.symm.subset hr
  rw [← List.take_append_drop k (rows.insertionSort le)] at hmem
  have hdropped := (List.mem_append.mp hmem).resolve_left hnot
  have hpos := List.length_pos_of_mem hdropped
  rw [List.length_drop, List.length_insertionSort] at hpos
  exact ⟨by omega, fun r' hr' => hsorted.2.2 r' hr' r hdropped⟩

/-- A query is answered with the deepest checkpoints that may answer it, each once and in descending order, and with
the tokens that remain to be computed. -/
theorem resolve_deepest (earlier : List PrefixNode) (requested : PrefixNode) :
    let nodes := earlier ++ [requested]
    ∃ listed, c.Deepest config semantic family nodes bound minimum listed ∧
      resolvePrefixCandidates config nodes semantic family bound minimum c = listed.map fun r =>
        ⟨r.2.manifestId, r.2.tokenCount,
          if requested.tokenCount < r.2.tokenCount then 0 else requested.tokenCount - r.2.tokenCount⟩ := by
  intro nodes
  have hlast : nodes.getLast? = some requested := List.getLast?_concat
  let le (a b : CheckpointKey × Checkpoint) : Prop := b.2.tokenCount ≤ a.2.tokenCount
  have : Std.Total le := ⟨fun a b => UInt64.le_total b.2.tokenCount a.2.tokenCount⟩
  have : IsTrans _ le := ⟨fun a b c hab hbc => UInt64.le_trans hbc hab⟩
  let rows := c.checkpoints.rows.filter fun r =>
    decide (r.1.semanticId = semantic ∧ r.1.familyId = family ∧
      r.1.prefixId ∈ (nodes.drop (nodes.length - 900)).map (·.id)) && c.resolvable config minimum r.2
  have hrows : ∀ r, r ∈ rows ↔ c.Answers config semantic family nodes minimum r := by
    intro r
    simp only [rows, Catalog.Answers, List.mem_filter, Bool.and_eq_true, decide_eq_true_eq, Table.get?_eq_some_iff,
      and_assoc]
  have hnodup : rows.Nodup := (List.Nodup.of_map _ c.checkpoints.nodup).filter _
  obtain ⟨hbest, hlength, hsorted, hmem, hleft⟩ := take_insertionSort le hnodup (min bound 64)
  refine ⟨_, ⟨hbest, hlength, hsorted, fun r hr => (hrows r).mp (hmem r hr),
    fun r hr hnot => hleft r ((hrows r).mpr hr) hnot⟩, ?_⟩
  unfold resolvePrefixCandidates
  rw [hlast]

theorem resolve_live (hhit : hit ∈ resolvePrefixCandidates config nodes semantic family bound minimum c) :
    (ObjectKind.manifest, hit.manifestId) ∉ c.tombstones := by
  unfold resolvePrefixCandidates at hhit
  split at hhit
  · cases hhit
  · obtain ⟨r, hr, rfl⟩ := List.mem_map.mp hhit
    have hanswers := List.of_mem_filter ((List.mem_insertionSort _).mp (List.mem_of_mem_take hr))
    rw [Bool.and_eq_true] at hanswers
    obtain ⟨-, -, -, -, -, hlive⟩ := resolvable_iff.mp hanswers.2
    exact hlive

/-- An evicted manifest answers no query again. No step clears its tombstone, so this is true even of one that is
published again, which a reader of its prefix should find. -/
theorem evicted_never_resolved (hevict : exec C config s (.evict id) = .ok s') :
    id ∉ (resolvePrefixCandidates config nodes semantic family bound minimum
      (run (step C config) s' es).catalog).map (·.manifestId) := by
  intro hmem
  obtain ⟨hit, hhit, rfl⟩ := List.mem_map.mp hmem
  refine resolve_live hhit (run_tombstones ?_)
  simp only [exec, bind_eq_ok, Prod.exists, pure_eq_ok] at hevict
  obtain ⟨c', eviction, hevict, rfl⟩ := hevict
  obtain ⟨_, _, -, -, -, rfl⟩ := evictManifest_eq_ok hevict
  exact List.mem_insert_self

set_option maxRecDepth 20000 in
theorem byteEvents_never_resolved :
    ∃ s', exec checksumCrypto byteConfig (run (step checksumCrypto byteConfig) State.initial byteEvents)
        (.evict (repeatedId 81)) = .ok s' ∧
      repeatedId 81 ∉ (resolvePrefixCandidates byteConfig [bytePublication.prefixNode] (repeatedId 1) (repeatedId 2) 1 0
        (run (step checksumCrypto byteConfig) s' byteSequel).catalog).map (·.manifestId) := by
  obtain ⟨s', hevict⟩ := exists_ok_of_isOk
    (x := exec checksumCrypto byteConfig (run (step checksumCrypto byteConfig) State.initial byteEvents)
      (.evict (repeatedId 81))) (by decide +kernel)
  exact ⟨s', hevict, evicted_never_resolved hevict⟩

/-- A manifest that answers a query still has the row it was first seen with. -/
theorem resolved_row_unchanged (hrow : (run (step C config) State.initial es).catalog.manifests.get? id = some row) :
    ∀ hit ∈ resolvePrefixCandidates config nodes semantic family bound minimum
        (run (step C config) State.initial (es ++ es')).catalog,
      hit.manifestId = id →
        (run (step C config) State.initial (es ++ es')).catalog.manifests.get? id = some row := by
  rintro hit hhit rfl
  have hevictions : EvictionsTombstoned (run (step C config) State.initial es) :=
    run_preserves (fun _ _ _ hexec => exec_evictionsTombstoned hexec) fun _ h => (by cases h)
  rw [run_append] at hhit ⊢
  exact (run_manifest_row hevictions hrow).resolve_right (resolve_live hhit)

set_option maxRecDepth 20000 in
theorem byteEvents_row_unchanged :
    ∃ row, (run (step checksumCrypto byteConfig) State.initial byteEvents).catalog.manifests.get? (repeatedId 81) =
      some row ∧ (run (step checksumCrypto byteConfig) State.initial (byteEvents ++ byteSequel)).catalog.manifests.get?
        (repeatedId 81) = some row := by
  have hthere : ((run (step checksumCrypto byteConfig) State.initial byteEvents).catalog.manifests.get?
      (repeatedId 81)).isSome := by decide +kernel
  let ids := (validateManifestBatch checksumCrypto byteConfig [bytePublication]).toOption.getD (zeroId, zeroId)
  have hfound : (resolvePrefixCandidates byteConfig [bytePublication.prefixNode] ids.1 ids.2 1 0
      (run (step checksumCrypto byteConfig) State.initial (byteEvents ++ byteSequel)).catalog).head?.map
        (·.manifestId) = some (repeatedId 81) := by decide +kernel
  obtain ⟨row, hrow⟩ := Option.isSome_iff_exists.mp hthere
  obtain ⟨hit, hhead, hid⟩ := Option.map_eq_some_iff.mp hfound
  have hhit := List.mem_of_mem_head? hhead
  exact ⟨row, hrow, resolved_row_unchanged hrow hit hhit hid⟩

end Kvpack.Store
