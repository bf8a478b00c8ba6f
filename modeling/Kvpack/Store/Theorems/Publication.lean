import Kvpack.Store.Lemmas.Replay
import Kvpack.Store.Theorems.Ledgers

/-!
# What a publication promises

That what has been published is found, that the same batch is answered again, and that a manifest is never without its
parents.
-/

namespace Kvpack.Store

open Base Kvpack.Core

variable {C : Crypto} {config : StoreConfig} {es : List Event} {key semantic family : Id32} {now : Nat} {c' : Catalog}
  {publications : List PendingManifest} {artifacts : List PublishedArtifact}

/-! ## Resolution -/

/-- Right after its publication every manifest of a batch answers the query of its prefix, and its objects can be
pinned, exactly when the batch was findable before. -/
theorem published_found_iff
    (hpublish : publishManifestBatch C config key publications now (run (step C config) State.initial es).catalog =
      .ok (c', artifacts))
    (hids : validateManifestBatch C config publications = .ok (semantic, family)) :
    (∀ p ∈ publications,
      (∀ nodes bound, p.ExactQuery (es.flatMap Event.publications ++ publications) nodes → 0 < bound →
        (resolvePrefixCandidates config nodes semantic family bound config.minimumReadableKeyEpoch c').head?.map
          (·.manifestId) = some p.id) ∧
      ∀ r ∈ p.references, c'.pinnable r.2) ↔
    Findable config publications (run (step C config) State.initial es).catalog := by
  have hserved := publishManifestBatch_served run_checkpointsServed hpublish hids
  constructor
  · intro h
    obtain ⟨-, -, hnodup⟩ := validateManifestBatch_eq_ok hids
    exact hserved.findable hnodup
      (fun p hp => (h p hp).1 [p.prefixNode] 1 PendingManifest.exactQuery_singleton Nat.one_pos)
      fun p hp => (h p hp).2
  · intro hfindable p hp
    have hbefore : CheckpointsFrom (es.flatMap Event.publications ++ publications)
        (run (step C config) State.initial es).catalog :=
      run_checkpointsFrom.mono (List.subset_append_left _ _)
    have hfrom : CheckpointsFrom (es.flatMap Event.publications ++ publications) c' := by
      rcases hserved.written with hsame | hbatch
      · unfold CheckpointsFrom
        rw [hsame]
        exact hbefore
      · exact hbefore.batch (List.subset_append_right _ _) hbatch
    refine ⟨fun nodes bound hquery hbound => hserved.resolves hfindable hfrom hp hquery hbound, fun r hr => ?_⟩
    rw [hserved.pinnable]
    exact hfindable.pinnable p hp r hr

/-- One object written under a reservation, ready to be published. -/
def byteReady : List Event := .transact (.reserve (repeatedId 20) byteReservation) :: putEvents byteObject

set_option maxRecDepth 20000 in
theorem byteReady_found :
    ∃ c' artifacts semantic family,
      publishManifestBatch checksumCrypto byteConfig (repeatedId 20) [bytePublication] 1
        (run (step checksumCrypto byteConfig) State.initial byteReady).catalog = .ok (c', artifacts) ∧
      (resolvePrefixCandidates byteConfig [bytePublication.prefixNode] semantic family 1
        byteConfig.minimumReadableKeyEpoch c').head?.map (·.manifestId) = some bytePublication.id := by
  have hfindable : Findable byteConfig [bytePublication]
      (run (step checksumCrypto byteConfig) State.initial byteReady).catalog :=
    ⟨by decide +kernel, by decide +kernel, by decide +kernel, by decide +kernel⟩
  obtain ⟨⟨c', artifacts⟩, hpublish⟩ := exists_ok_of_isOk
    (x := publishManifestBatch checksumCrypto byteConfig (repeatedId 20) [bytePublication] 1
      (run (step checksumCrypto byteConfig) State.initial byteReady).catalog) (by decide +kernel)
  obtain ⟨semantic, family, upload, hids, -⟩ := publishManifestBatch_eq_ok hpublish
  have hfound := (published_found_iff hpublish hids).mpr hfindable bytePublication List.mem_cons_self
  exact ⟨c', artifacts, semantic, family, hpublish, hfound.1 _ 1 PendingManifest.exactQuery_singleton Nat.one_pos⟩

set_option maxRecDepth 20000 in
/-- A manifest published again after its eviction keeps its tombstone and is not found. -/
theorem republished_not_found :
    let ids := (validateManifestBatch checksumCrypto byteConfig [bytePublication]).toOption.getD (zeroId, zeroId)
    let c := (run (step checksumCrypto byteConfig) State.initial
      (byteLife ++ [.transact (.reserve (repeatedId 21) byteReservation)])).catalog
    ((publishManifestBatch checksumCrypto byteConfig (repeatedId 21) [bytePublication] 1 c).toOption.map fun result =>
      resolvePrefixCandidates byteConfig [bytePublication.prefixNode] ids.1 ids.2 1 byteConfig.minimumReadableKeyEpoch
        result.1) = some [] := by
  decide +kernel

/-! ## Repeated publication -/

theorem run_clock_pos : 0 < (run (step C config) State.initial es).clock :=
  run_preserves (P := fun s => 0 < s.clock)
    (fun _ _ _ hexec hs => Nat.lt_of_lt_of_le hs (exec_advanced hexec).clock) Nat.one_pos

/-- A published batch is answered again with the same artifacts, and only the outbox changes, if the later events meet
the condition and the outbox has room. -/
theorem publication_idempotent {es' : List Event}
    (hpublish : publishManifestBatch C config key publications (run (step C config) State.initial es).clock
      (run (step C config) State.initial es).catalog = .ok (c', artifacts))
    (hprefixes : (publications.map (·.prefixNode.id)).Nodup) (hlater : ∀ e ∈ es', replayStep C publications e) :
    let s := run (step C config) State.initial (es ++ .transact (.publish key publications) :: es')
    (∀ upload, s.catalog.uploads.get? key = some upload →
      requireCapacity s.catalog.outbox (publicationEvents key upload.generation publications) = .ok ()) →
    ∃ outbox, publishManifestBatch C config key publications s.clock s.catalog =
      .ok ({ s.catalog with outbox }, artifacts) := by
  intro s hroom
  obtain ⟨semantic, family, generation, hids, rfl, hreplayable⟩ := publishManifestBatch_replayable hpublish hprefixes
  have hexec : exec C config (run (step C config) State.initial es) (.transact (.publish key publications)) =
      .ok { run (step C config) State.initial es with catalog := c' } := by
    simp only [exec, Transaction.apply, hpublish]
    rfl
  have hs : s = run (step C config) { run (step C config) State.initial es with catalog := c' } es' := by
    change run (step C config) State.initial (es ++ _ :: es') = _
    rw [run_append, run_cons, step_of_ok hexec]
  have hreplayable' : Replayable key semantic family generation publications s.catalog := by
    rw [hs]
    exact run_replayable hlater hids hreplayable
  obtain ⟨upload, hget, -, hgeneration, -⟩ := hreplayable'.upload
  have hcapacity := hroom upload hget
  rw [hgeneration] at hcapacity
  exact hreplayable'.publishManifestBatch hids hcapacity (Nat.ne_of_gt run_clock_pos)

/-- A delta on the full manifest, and the batch of both. -/
def byteStep : CutManifest :=
  byteManifest (.delta (repeatedId 81) (byteCut 10 2) 1) 11 2 3 byteDelta_stop byteDelta_count
    [byteState ⟨0, "k"⟩ []] [⟨1, [⟨0, "k"⟩]⟩]

def byteChain : List PendingManifest :=
  [{ bytePublication with exactFinal := false },
    { encoded := ⟨List.replicate 9020 0, repeatedId 255⟩
      manifest := byteStep
      prefixNode := ⟨5, repeatedId 11, true⟩
      exactFinal := true }]

/-- Time passes, and another upload publishes the same manifest. -/
def byteLater : List Event :=
  [.tick 5, .transact (.reserve (repeatedId 21) byteReservation),
    .transact (.publish (repeatedId 21) [bytePublication])]

set_option maxRecDepth 20000 in
theorem byteReady_idempotent :
    ∃ s c' artifacts outbox,
      s = run (step checksumCrypto byteConfig) State.initial
        (byteReady ++ .transact (.publish (repeatedId 20) [bytePublication]) :: byteLater) ∧
      publishManifestBatch checksumCrypto byteConfig (repeatedId 20) [bytePublication]
        (run (step checksumCrypto byteConfig) State.initial byteReady).clock
        (run (step checksumCrypto byteConfig) State.initial byteReady).catalog = .ok (c', artifacts) ∧
      publishManifestBatch checksumCrypto byteConfig (repeatedId 20) [bytePublication] s.clock s.catalog =
        .ok ({ s.catalog with outbox }, artifacts) := by
  have hlater : ∀ e ∈ byteLater, replayStep checksumCrypto [bytePublication] e := by decide
  have hroom : ((run (step checksumCrypto byteConfig) State.initial
      (byteReady ++ .transact (.publish (repeatedId 20) [bytePublication]) :: byteLater)).catalog.uploads.get?
        (repeatedId 20)).all fun upload =>
      (requireCapacity (run (step checksumCrypto byteConfig) State.initial
        (byteReady ++ .transact (.publish (repeatedId 20) [bytePublication]) :: byteLater)).catalog.outbox
          (publicationEvents (repeatedId 20) upload.generation [bytePublication])).isOk := by decide +kernel
  obtain ⟨⟨c', artifacts⟩, hpublish⟩ := exists_ok_of_isOk
    (x := publishManifestBatch checksumCrypto byteConfig (repeatedId 20) [bytePublication]
      (run (step checksumCrypto byteConfig) State.initial byteReady).clock
      (run (step checksumCrypto byteConfig) State.initial byteReady).catalog) (by decide +kernel)
  obtain ⟨outbox, hagain⟩ := publication_idempotent hpublish (by decide) hlater
    fun upload hget => by
      obtain ⟨_, hcapacity⟩ := exists_ok_of_isOk ((Option.all_eq_true _ _).mp hroom upload hget)
      exact hcapacity
  exact ⟨_, c', artifacts, outbox, rfl, hpublish, hagain⟩

set_option maxRecDepth 20000 in
/-- Another upload publishes a longer chain over the same prefix; the first is refused its batch. -/
theorem overwritten_checkpoint_refused :
    let s := run (step checksumCrypto byteConfig) State.initial
      (uploadEvents (repeatedId 20) byteObject [bytePublication] ++
        [.transact (.reserve (repeatedId 21) byteReservation), .transact (.publish (repeatedId 21) byteChain)])
    (s.catalog.uploads.get? (repeatedId 20)).map (·.state) = some .published ∧
      (s.catalog.uploads.get? (repeatedId 21)).map (·.state) = some .published ∧
      (publishManifestBatch checksumCrypto byteConfig (repeatedId 20) [bytePublication] s.clock s.catalog).toOption =
        none := by
  decide +kernel

/-! ## Parents -/

/-- A manifest that is not tombstoned has its parent, and its chain ends at a full manifest, as long as every step met
the condition. -/
theorem parents_present (hsteps : Along (step C config) (fun s e => parentStep config s e) State.initial es) :
    let c := (run (step C config) State.initial es).catalog
    ∀ m row, c.manifests.get? m = some row → ¬ c.tombstoned .manifest m →
      (∀ parent, row.parentId = some parent →
        ¬ c.tombstoned .manifest parent ∧ ∃ row', c.manifests.get? parent = some row') ∧ ChainToFull c m := by
  intro c m row hrow hlive
  have hclosed : ParentsClosed c := run_parentsClosed hsteps
  have htomb : (ObjectKind.manifest, m) ∉ c.tombstones := fun h => hlive (decide_eq_true h)
  refine ⟨fun parent hparent => ?_, hclosed.chainToFull hrow htomb⟩
  obtain ⟨htomb', row', hrow', -⟩ := hclosed m row parent hrow htomb hparent
  exact ⟨fun h => htomb' (of_decide_eq_true h), row', hrow'⟩

set_option maxRecDepth 20000 in
theorem byteChain_parents :
    let es := uploadEvents (repeatedId 20) byteObject byteChain
    Along (step checksumCrypto byteConfig) (fun s e => parentStep byteConfig s e) State.initial es ∧
      ChainToFull (run (step checksumCrypto byteConfig) State.initial es).catalog (repeatedId 255) := by
  intro es
  have hsteps : Along (step checksumCrypto byteConfig) (fun s e => parentStep byteConfig s e) State.initial es := by
    decide +kernel
  have hthere : ((run (step checksumCrypto byteConfig) State.initial es).catalog.manifests.get?
      (repeatedId 255)).isSome := by decide +kernel
  obtain ⟨row, hrow⟩ := Option.isSome_iff_exists.mp hthere
  exact ⟨hsteps, (parents_present hsteps (repeatedId 255) row hrow (by decide +kernel)).2⟩

/-- The import of one manifest with one object. -/
def importEvents (key : Id32) (object : ChunkObject) (p : PendingManifest) : List Event :=
  let put (phase : Option PutPhase) : Put := ⟨1, some (key, 0), phase.toList.map fun phase => ⟨object, phase⟩⟩
  [.transact (.reserve key byteReservation), .transact (.bindImport key p.id), .transact (.markReceiving key),
    .beginPut 1 (some (key, 0)), .lookUp (put none) object, .inspectTarget (put (some .inspect)) 0,
    .linkTarget (put (some .link)) 0, .catalogPut (put (some (.done true))),
    .transact (.sealImport key 1 (repeatedId 90)), .transact (.publish key [p])]

set_option maxRecDepth 20000 in
/-- An import publishes a delta whose parent the catalog has never seen. -/
theorem imported_delta_without_parent :
    let c := (run (step checksumCrypto byteConfig) State.initial
      (byteChain.flatMap fun p => if p.exactFinal then importEvents (repeatedId 22) byteObject p else [])).catalog
    ¬ c.tombstoned .manifest (repeatedId 255) ∧
      (c.manifests.get? (repeatedId 255)).map (·.parentId) = some (some (repeatedId 81)) ∧
      c.manifests.get? (repeatedId 81) = none := by
  decide +kernel

end Kvpack.Store
