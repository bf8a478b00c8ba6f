import Kvpack.Store.Lemmas.Resolve

/-!
# Repeated publication

A published upload answers its batch again from its row and from the checkpoints of the batch. The row stays as it is;
the checkpoints stay as they are while `replayStep` holds.
-/

namespace Kvpack.Store

open Base Kvpack.Core

variable {C : Crypto} {config : StoreConfig} {c c' : Catalog} {now generation : Nat} {key semantic family : Id32}
  {publications : List PendingManifest} {e : Event} {es : List Event}

/-- The condition on a later event: nothing is evicted, retired or deleted, and a publication for the same prefix
writes the same checkpoint. -/
def replayStep (C : Crypto) (publications : List PendingManifest) : Event → Bool
  | .evict _ | .transact (.retire _) | .transact (.deletePrefix _) => false
  | .transact (.publish _ others) => others.all fun q => publications.all fun p =>
    decide (semanticModelId C q.manifest.semanticModel = semanticModelId C p.manifest.semanticModel →
      representationFamilyId C q.manifest.family = representationFamilyId C p.manifest.family →
      q.prefixNode.id = p.prefixNode.id → q.checkpoint = p.checkpoint)
  | _ => true

/-- The rows that answer a batch again. -/
structure Replayable (key semantic family : Id32) (generation : Nat) (publications : List PendingManifest)
    (c : Catalog) : Prop where
  upload : ∃ upload, c.uploads.get? key = some upload ∧ upload.state = .published ∧ upload.generation = generation ∧
    upload.manifestId = publications.getLast?.map (·.id)
  checkpoints : ∀ p ∈ publications, c.checkpoints.get? (p.checkpointKey semantic family) = some p.checkpoint

theorem UploadStep.published {upload : Upload} (h : UploadStep config c c') (hget : c.uploads.get? key = some upload)
    (hstate : upload.state = .published) :
    ∃ upload', c'.uploads.get? key = some upload' ∧ upload.Keeps upload' := by
  have hkept : c'.uploads.get? key = some upload → ∃ upload', c'.uploads.get? key = some upload' ∧
      upload.Keeps upload' := fun h => ⟨upload, h, .of_state rfl rfl rfl fun _ => rfl⟩
  cases h with
  | same huploads hreserved hdurable => exact hkept (by rw [huploads, hget])
  | kept key' old new hold hkeeps huploads hreserved hdurable =>
    by_cases hkey : key = key'
    · subst hkey
      rw [hget, Option.some.injEq] at hold
      exact ⟨new, by rw [huploads, Table.get?_put_self], hold ▸ hkeeps⟩
    · exact hkept (by rw [huploads, Table.get?_put, if_neg hkey, hget])
  | reserved key' new hold hzero hgeneration hnew huploads hreserved hdurable hstaging hquota =>
    by_cases hkey : key = key'
    · subst hkey
      rw [hold upload hget] at hstate
      cases hstate
    · exact hkept (by rw [huploads, Table.get?_put, if_neg hkey, hget])
  | released key' old new hold hactive hended huploads hgeneration hreserved hdurable =>
    by_cases hkey : key = key'
    · subst hkey
      rw [hget, Option.some.injEq] at hold
      rw [← hold, hstate] at hactive
      cases hactive
    · exact hkept (by rw [huploads, Table.get?_put, if_neg hkey, hget])

/-- A batch that writes the same checkpoint where it writes one of another batch. -/
theorem checkpointsWith_get?_agree {checkpoints : Table CheckpointKey Checkpoint} {k : CheckpointKey}
    {checkpoint : Checkpoint} (h : checkpoints.get? k = some checkpoint)
    (hagree : ∀ q ∈ publications, q.checkpointKey semantic family = k → q.checkpoint = checkpoint) :
    (checkpointsWith semantic family publications checkpoints).get? k = some checkpoint := by
  induction publications generalizing checkpoints with
  | nil => exact h
  | cons q rest ih =>
    refine ih ?_ fun q' hq' => hagree q' (List.mem_cons_of_mem _ hq')
    rw [Table.get?_put]
    split
    · rename_i hk
      rw [hagree q List.mem_cons_self hk.symm]
    · exact h

theorem CatalogStep.replayable (hstep : CatalogStep C config now e c c') (hok : replayStep C publications e)
    (hids : validateManifestBatch C config publications = .ok (semantic, family))
    (h : Replayable key semantic family generation publications c) :
    Replayable key semantic family generation publications c' := by
  obtain ⟨hne, hchecked, -⟩ := validateManifestBatch_eq_ok hids
  refine ⟨?_, fun p hp => ?_⟩
  · obtain ⟨upload, hget, hstate, hgeneration, hmanifest⟩ := h.upload
    obtain ⟨upload', hget', hkeeps⟩ := hstep.uploadStep.published hget hstate
    have hsome : upload.manifestId.isSome := by
      rw [hmanifest, Option.isSome_map, List.getLast?_isSome]
      exact hne
    refine ⟨upload', hget', ?_, hkeeps.generation.trans hgeneration, (hkeeps.manifestId hsome).trans hmanifest⟩
    rw [hkeeps.ended (by rw [hstate]; rfl), hstate]
  · have hcheckpoint := h.checkpoints p hp
    cases hstep.manifestStep with
    | kept _ hkept => rw [hkept.checkpoints, hcheckpoint]
    | published key' others he semantic' family' hids' upload tx _ hcommit =>
      obtain ⟨_, rfl⟩ := hcommit.result
      obtain ⟨-, hchecked', -⟩ := validateManifestBatch_eq_ok hids'
      subst he
      simp only [replayStep, List.all_eq_true, decide_eq_true_eq] at hok
      refine checkpointsWith_get?_agree hcheckpoint fun q hq hkey => ?_
      simp only [PendingManifest.checkpointKey, CheckpointKey.mk.injEq] at hkey
      obtain ⟨hnode, rfl, rfl⟩ := hkey
      refine hok q hq p hp ?_ ?_ hnode
      · rw [(hchecked' q hq).semantic, (hchecked p hp).semantic]
      · rw [(hchecked' q hq).family, (hchecked p hp).family]
    | prefixDeleted prefixId he outbox =>
      subst he
      cases hok
    | retired maximumObjects he _ hretire =>
      subst he
      cases hok
    | evicted id he _ eviction hevict =>
      subst he
      cases hok
    | evictionFinished eviction he _ hfinish =>
      obtain ⟨-, rfl⟩ | ⟨_, _, -, rfl⟩ := finishManifestEviction_eq_ok hfinish
      · exact hcheckpoint
      · exact hcheckpoint

theorem run_replayable {s : State} (hok : ∀ e ∈ es, replayStep C publications e)
    (hids : validateManifestBatch C config publications = .ok (semantic, family))
    (h : Replayable key semantic family generation publications s.catalog) :
    Replayable key semantic family generation publications (run (step C config) s es).catalog := by
  have halong : Along (step C config) (fun _ e => replayStep C publications e) s es :=
    along_of_forall fun e he _ => hok e he
  exact along_preserves (P := fun s => Replayable key semantic family generation publications s.catalog) halong
    (fun _ _ _ hok hexec => (exec_catalogStep hexec).replayable hok hids) h

theorem publishManifestBatch_replayable {artifacts : List PublishedArtifact}
    (hpublish : publishManifestBatch C config key publications now c = .ok (c', artifacts))
    (hnodup : (publications.map (·.prefixNode.id)).Nodup) :
    ∃ semantic family generation, validateManifestBatch C config publications = .ok (semantic, family) ∧
      artifacts = publishedArtifacts config generation publications ∧
      Replayable key semantic family generation publications c' := by
  obtain ⟨semantic, family, upload, hids, hget, hartifacts, ⟨hstate, hreplay, outbox, rfl⟩ | ⟨tx, hcommit⟩⟩ :=
    publishManifestBatch_eq_ok hpublish
  · obtain ⟨hmanifest, hcheckpoints⟩ := checkReplay_eq_ok hreplay
    exact ⟨semantic, family, upload.generation, hids, hartifacts, ⟨upload, hget, hstate, rfl, hmanifest⟩, hcheckpoints⟩
  · obtain ⟨_, rfl⟩ := hcommit.result
    exact ⟨semantic, family, upload.generation, hids, hartifacts, ⟨_, Table.get?_put_self, rfl, rfl, rfl⟩,
      fun p hp => checkpointsWith_get?_of_mem hnodup hp⟩

/-- A batch that can be answered again is, if its events have room, without other change. -/
theorem Replayable.publishManifestBatch (h : Replayable key semantic family generation publications c)
    (hids : validateManifestBatch C config publications = .ok (semantic, family))
    (hroom : requireCapacity c.outbox (publicationEvents key generation publications) = .ok ()) (hnow : now ≠ 0) :
    ∃ outbox, publishManifestBatch C config key publications now c =
      .ok ({ c with outbox }, publishedArtifacts config generation publications) := by
  obtain ⟨upload, hget, hstate, rfl, hmanifest⟩ := h.upload
  have hreplay : checkReplay upload semantic family publications c = .ok () := by
    simpa only [checkReplay, bind_eq_ok, exists_unit, rejectIf_eq_ok, ne_eq, not_not, not_exists, not_and] using
      ⟨hmanifest, h.checkpoints⟩
  have hrows : publishRows key upload semantic family publications c = .ok c := by
    rw [publishRows, if_pos hstate, hreplay]
    rfl
  obtain ⟨outbox, hrecord⟩ := record_ok (c := c) (publicationEvents key upload.generation publications) hnow
  refine ⟨outbox, ?_⟩
  simp only [Store.publishManifestBatch, bind_eq_ok, exists_unit, Prod.exists, okOr_eq_ok, pure_eq_ok]
  exact ⟨semantic, family, hids, upload, hget, hroom, c, hrows, _, hrecord, rfl⟩

end Kvpack.Store
