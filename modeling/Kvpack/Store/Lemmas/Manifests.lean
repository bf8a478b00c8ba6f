import Kvpack.Store.Lemmas.Progress

/-!
# Manifests, checkpoints and parents

The steps that touch manifests, and two invariants: a checkpoint names an available manifest unless it has been
tombstoned, and, under `parentStep`, a manifest that may be served has its whole chain of parents.
-/

namespace Kvpack.Store

open Base Kvpack.Core

variable {C : Crypto} {config : StoreConfig} {c c' : Catalog} {now : Nat} {s s' : State} {e : Event} {es : List Event}
variable {minimum : UInt64} {limit : Nat} {r : Id32 × ManifestRow}

/-! ## The steps that touch manifests -/

/-- A catalog with the manifests, checkpoints and manifest tombstones of another. -/
structure KeepsManifests (c c' : Catalog) : Prop where
  manifests : c'.manifests = c.manifests
  locations : c'.locations = c.locations
  checkpoints : c'.checkpoints = c.checkpoints
  tombstones : ∀ id, (.manifest, id) ∈ c'.tombstones ↔ (.manifest, id) ∈ c.tombstones

theorem KeepsManifests.of_eq (hmanifests : c'.manifests = c.manifests) (hlocations : c'.locations = c.locations)
    (hcheckpoints : c'.checkpoints = c.checkpoints) (htombstones : c'.tombstones = c.tombstones) :
    KeepsManifests c c' :=
  ⟨hmanifests, hlocations, hcheckpoints, fun _ => by rw [htombstones]⟩

inductive ManifestStep (C : Crypto) (config : StoreConfig) (now : Nat) (e : Event) (c : Catalog) : Catalog → Prop
  | kept (c' : Catalog) (h : KeepsManifests c c') : ManifestStep C config now e c c'
  | published (key : Id32) (publications : List PendingManifest) (he : e = .transact (.publish key publications))
      (semantic family : Id32) (hvalidate : validateManifestBatch C config publications = .ok (semantic, family))
      (upload : Upload) (tx : Publishing) (c' : Catalog)
      (hcommit : Committed key semantic family publications upload tx c c') : ManifestStep C config now e c c'
  | prefixDeleted (prefixId : Id32) (he : e = .transact (.deletePrefix prefixId)) (outbox : AuditOutbox) :
      ManifestStep C config now e c { c with
        tombstones := c.tombstones.insert (.prefixNode, prefixId)
        checkpoints := c.checkpoints.filter fun key _ => key.prefixId ≠ prefixId
        outbox }
  | retired (maximumObjects : Nat) (he : e = .transact (.retire maximumObjects)) (c' : Catalog)
      (h : retireKeyEpochsBefore config config.minimumReadableKeyEpoch maximumObjects now c = .ok c') :
      ManifestStep C config now e c c'
  | evicted (id : Id32) (he : e = .evict id) (c' : Catalog) (eviction : Eviction)
      (h : evictManifest id now c = .ok (c', eviction)) : ManifestStep C config now e c c'
  | evictionFinished (eviction : Eviction) (he : e = .finishEviction eviction) (c' : Catalog)
      (h : finishManifestEviction eviction now c = .ok c') : ManifestStep C config now e c c'

theorem CatalogStep.manifestStep (h : CatalogStep C config now e c c') : ManifestStep C config now e c c' := by
  cases h with
  | transacted t he _ htransaction =>
    cases htransaction with
    | recorded outbox => exact .kept _ (.of_eq rfl rfl rfl rfl)
    | touched key _ honly upload upload' hget hkeeps huploads hreserved =>
      obtain ⟨_, _, _, _, _, rfl⟩ := honly
      exact .kept _ (.of_eq rfl rfl rfl rfl)
    | reserved key reservation ht row hget hstate hbytes hgeneration _ hadmit =>
      obtain ⟨-, -, _, _, rfl⟩ := admitReservation_eq_ok hadmit
      exact .kept _ (.of_eq rfl rfl rfl rfl)
    | released key ht state hstate _ h =>
      obtain ⟨_, _, -, -, rfl⟩ := h
      exact .kept _ (.of_eq rfl rfl rfl rfl)
    | retired maximumObjects _ ht h => exact .retired maximumObjects (ht ▸ he) _ h
    | deleted prefixId _ ht h =>
      obtain ⟨outbox, rfl⟩ := deletePrefix_eq_ok h
      exact .prefixDeleted prefixId (ht ▸ he) outbox
    | onPins _ | onLeases _ _ => exact .kept _ (.of_eq rfl rfl rfl rfl)
  | published key publications he artifacts _ hpublish =>
    obtain ⟨semantic, family, upload, hvalidate, -, -, ⟨-, -, _, rfl⟩ | ⟨tx, hcommit⟩⟩ :=
      publishManifestBatch_eq_ok hpublish
    · exact .kept _ (.of_eq rfl rfl rfl rfl)
    · exact .published key publications he semantic family hvalidate upload tx _ hcommit
  | evicted id he _ eviction hevict => exact .evicted id he _ eviction hevict
  | evictionFinished eviction he _ hfinish => exact .evictionFinished eviction he _ hfinish
  | onObjects _ hobjects =>
    obtain ⟨_, _, _, _, -, htombstones, rfl | ⟨_, _, _, _, -, rfl, -⟩⟩ := hobjects.frame
    · exact .kept _ ⟨rfl, rfl, rfl, htombstones⟩
    · exact .kept _ ⟨rfl, rfl, rfl, htombstones⟩

theorem exec_manifestStep (h : exec C config s e = .ok s') : ManifestStep C config s.clock e s.catalog s'.catalog :=
  (exec_catalogStep h).manifestStep

/-! ## Tombstones -/

theorem ManifestStep.tombstones {id : Id32} (h : ManifestStep C config now e c c')
    (hid : (ObjectKind.manifest, id) ∈ c.tombstones) : (ObjectKind.manifest, id) ∈ c'.tombstones := by
  cases h with
  | kept _ h => exact (h.tombstones id).mpr hid
  | published key publications he semantic family hvalidate upload tx _ hcommit =>
    obtain ⟨_, rfl⟩ := hcommit.result
    exact hid
  | prefixDeleted prefixId he outbox => exact List.mem_insert_of_mem hid
  | retired maximumObjects he _ h =>
    obtain ⟨_, _, _, rfl, hmem, -⟩ := retireKeyEpochsBefore_eq_ok h
    exact (hmem _).mpr (Or.inl hid)
  | evicted m he _ eviction h =>
    obtain ⟨_, _, -, -, -, rfl⟩ := evictManifest_eq_ok h
    exact List.mem_insert_of_mem hid
  | evictionFinished eviction he _ h =>
    obtain ⟨-, rfl⟩ | ⟨_, _, -, rfl⟩ := finishManifestEviction_eq_ok h
    · exact hid
    · exact hid

/-- A manifest whose eviction is in progress is tombstoned. -/
def EvictionsTombstoned (s : State) : Prop :=
  ∀ eviction ∈ s.evictions, (ObjectKind.manifest, eviction.manifestId) ∈ s.catalog.tombstones

theorem exec_evictionsTombstoned (hexec : exec C config s e = .ok s') (h : EvictionsTombstoned s) :
    EvictionsTombstoned s' := by
  intro eviction heviction
  rcases (exec_advanced hexec).evictions eviction heviction with hold | ⟨id, -, hevict⟩
  · exact (exec_manifestStep hexec).tombstones (h eviction hold)
  · obtain ⟨_, _, -, -, rfl, heq⟩ := evictManifest_eq_ok hevict
    rw [heq]
    exact List.mem_insert_self

/-! ## Checkpoints -/

/-- A checkpoint names a manifest that is available, unless it has been tombstoned. -/
def CheckpointsServed (c : Catalog) : Prop :=
  ∀ k checkpoint, c.checkpoints.get? k = some checkpoint →
    (ObjectKind.manifest, checkpoint.manifestId) ∉ c.tombstones →
      (∃ row, c.manifests.get? checkpoint.manifestId = some row) ∧
        c.locations.get? checkpoint.manifestId = some .available

theorem exec_checkpointsServed (hexec : exec C config s e = .ok s') (hevictions : EvictionsTombstoned s)
    (h : CheckpointsServed s.catalog) : CheckpointsServed s'.catalog := by
  intro k checkpoint hk htomb
  have hbefore : (ObjectKind.manifest, checkpoint.manifestId) ∉ s.catalog.tombstones := fun hold =>
    htomb ((exec_manifestStep hexec).tombstones hold)
  have hstep := exec_manifestStep hexec
  generalize s'.catalog = c' at hk htomb hstep ⊢
  cases hstep with
  | kept _ hkept =>
    rw [hkept.checkpoints] at hk
    rw [hkept.manifests, hkept.locations]
    exact h k checkpoint hk hbefore
  | published key publications he semantic family hvalidate upload tx _ hcommit =>
    have hinserted := publishEach_inserted hcommit.each
    obtain ⟨_, rfl⟩ := hcommit.result
    simp only [hinserted.locations]
    rcases checkpointsWith_get? hk with hold | ⟨p, hp, -, rfl⟩
    · obtain ⟨⟨row, hrow⟩, hlocation⟩ := h k checkpoint hold hbefore
      refine ⟨⟨row, (hinserted.manifests _ _).mpr (Or.inl hrow)⟩, ?_⟩
      split
      · rfl
      · exact hlocation
    · obtain ⟨row, hrow, -⟩ := hinserted.present p hp
      exact ⟨⟨row, hrow⟩, if_pos (List.mem_map.mpr ⟨p, hp, rfl⟩)⟩
  | prefixDeleted prefixId he outbox =>
    rw [Table.get?_filter, Option.filter_eq_some_iff] at hk
    exact h k checkpoint hk.1 hbefore
  | retired maximumObjects he _ hretire =>
    obtain ⟨_, _, _, rfl, -, rfl⟩ := retireKeyEpochsBefore_eq_ok hretire
    rw [Table.get?_filter, Option.filter_eq_some_iff] at hk
    exact h k checkpoint hk.1 hbefore
  | evicted id he _ eviction hevict =>
    obtain ⟨_, _, -, -, -, rfl⟩ := evictManifest_eq_ok hevict
    rw [Table.get?_filter, Option.filter_eq_some_iff, decide_eq_true_eq] at hk
    obtain ⟨hrow, hlocation⟩ := h k checkpoint hk.1 hbefore
    refine ⟨hrow, ?_⟩
    rw [Table.modify, Table.get?_map, hlocation, Option.map_some, if_neg hk.2]
  | evictionFinished eviction he _ hfinish =>
    rw [he] at hexec
    obtain ⟨heviction, -⟩ := exec_finishEviction hexec
    -- the manifest that goes is tombstoned, so it is another one
    have hne : checkpoint.manifestId ≠ eviction.manifestId := fun heq =>
      hbefore (heq ▸ hevictions eviction heviction)
    obtain ⟨-, rfl⟩ | ⟨_, _, -, rfl⟩ := finishManifestEviction_eq_ok hfinish
    · obtain ⟨hrow, hlocation⟩ := h k checkpoint hk hbefore
      exact ⟨hrow, by rw [Table.get?_erase, if_neg hne, hlocation]⟩
    · obtain ⟨⟨row, hrow⟩, hlocation⟩ := h k checkpoint hk hbefore
      exact ⟨⟨row, by rw [Table.get?_erase, if_neg hne, hrow]⟩, by rw [Table.get?_erase, if_neg hne, hlocation]⟩

theorem run_checkpointsServed : CheckpointsServed (run (step C config) State.initial es).catalog := by
  refine (run_preserves (P := fun s => EvictionsTombstoned s ∧ CheckpointsServed s.catalog)
    (fun s e s' hexec hs => ?_) ⟨fun _ h => (by cases h), fun _ _ h => (by cases h)⟩).2
  exact ⟨exec_evictionsTombstoned hexec hs.1, exec_checkpointsServed hexec hs.1 hs.2⟩

/-! ## Parents -/

/-- Whether the catalog or the batch has the parent, one level up and not tombstoned. -/
def Catalog.hasParent (c : Catalog) (publications : List PendingManifest) (kind : ManifestKind) : Bool :=
  kind.parent.all fun parent => !c.tombstoned .manifest parent &&
    ((c.manifests.get? parent).any (fun row => row.parentDepth.toNat + 1 = kind.depth.toNat) ||
      publications.any fun q => decide (q.id = parent ∧ q.kind.depth.toNat + 1 = kind.depth.toNat))

/-- The manifests that need a retired key and are not tombstoned yet. -/
def Catalog.retirable (c : Catalog) (minimum : UInt64) : Table Id32 ManifestRow :=
  c.manifests.filter fun m row => c.needsEpochBelow minimum m row && !c.tombstoned .manifest m

/-- The condition on a step: a manifest is published only where its parent is, and a retirement takes everything built
on what it takes. -/
def parentStep (config : StoreConfig) (s : State) : Event → Bool
  | .transact (.publish _ publications) => publications.all fun p =>
    (s.catalog.manifests.get? p.id).isSome || s.catalog.tombstoned .manifest p.id ||
      s.catalog.hasParent publications p.kind
  | .transact (.retire maximumObjects) =>
    let retirable := s.catalog.retirable config.minimumReadableKeyEpoch
    decide (retirable.rows.length ≤ maximumObjects) && !s.catalog.manifests.any fun m row =>
      !s.catalog.tombstoned .manifest m && (retirable.get? m).isNone &&
        row.parentId.any fun parent => (retirable.get? parent).isSome
  | _ => true

/-- A manifest that is not tombstoned has its parent, one level up. -/
def ParentsClosed (c : Catalog) : Prop :=
  ∀ m row parent, c.manifests.get? m = some row → (ObjectKind.manifest, m) ∉ c.tombstones →
    row.parentId = some parent → (ObjectKind.manifest, parent) ∉ c.tombstones ∧
      ∃ row', c.manifests.get? parent = some row' ∧ row'.parentDepth.toNat + 1 = row.parentDepth.toNat

/-- The chain of a manifest ends at a full one, and nothing on it is tombstoned. -/
inductive ChainToFull (c : Catalog) : Id32 → Prop
  | full (m : Id32) (row : ManifestRow) (hrow : c.manifests.get? m = some row)
      (htomb : (ObjectKind.manifest, m) ∉ c.tombstones) (hparent : row.parentId = none) : ChainToFull c m
  | delta (m parent : Id32) (row : ManifestRow) (hrow : c.manifests.get? m = some row)
      (htomb : (ObjectKind.manifest, m) ∉ c.tombstones) (hparent : row.parentId = some parent)
      (h : ChainToFull c parent) : ChainToFull c m

theorem ParentsClosed.chainToFull (h : ParentsClosed c) {m : Id32} {row : ManifestRow}
    (hrow : c.manifests.get? m = some row) (htomb : (ObjectKind.manifest, m) ∉ c.tombstones) : ChainToFull c m := by
  generalize hdepth : row.parentDepth.toNat = depth
  -- the parent is one level up, so the induction is on the depth
  induction depth generalizing m row with
  | zero =>
    cases hparent : row.parentId with
    | none => exact .full m row hrow htomb hparent
    | some parent =>
      obtain ⟨-, row', -, hlevel⟩ := h m row parent hrow htomb hparent
      omega
  | succ depth ih =>
    cases hparent : row.parentId with
    | none => exact .full m row hrow htomb hparent
    | some parent =>
      obtain ⟨htomb', row', hrow', hlevel⟩ := h m row parent hrow htomb hparent
      exact .delta m parent row hrow htomb hparent (ih hrow' htomb' (by omega))

theorem mem_retiringManifests
    (h : r ∈ retiringManifests c minimum limit) : r ∈ (c.retirable minimum).rows := by
  exact (List.mem_insertionSort _).mp (List.mem_of_mem_take h)

theorem retiringManifests_all (hlimit : (c.retirable minimum).rows.length ≤ limit)
    (h : r ∈ (c.retirable minimum).rows) : r ∈ retiringManifests c minimum limit := by
  unfold retiringManifests
  rw [List.take_of_length_le]
  · exact (List.mem_insertionSort _).mpr h
  · rw [List.length_insertionSort]
    exact hlimit

theorem retire_parentsClosed {maximumObjects : Nat} (hok : parentStep config s (.transact (.retire maximumObjects)))
    (hretire : retireKeyEpochsBefore config config.minimumReadableKeyEpoch maximumObjects now s.catalog = .ok c')
    (h : ParentsClosed s.catalog) : ParentsClosed c' := by
  obtain ⟨_, _, _, rfl, hmem, -⟩ := retireKeyEpochsBefore_eq_ok hretire
  simp only [parentStep, Bool.and_eq_true, decide_eq_true_eq, Bool.not_eq_true', Table.any_eq_false] at hok
  obtain ⟨hlimit, hchildren⟩ := hok
  have htombstoned : ∀ id, (ObjectKind.manifest, id) ∉ _ ↔ _ := fun id => not_congr (hmem (.manifest, id))
  intro m row parent hrow htomb hparent
  rw [htombstoned, not_or, not_or] at htomb
  obtain ⟨htomb', row', hrow', hlevel⟩ := h m row parent hrow htomb.1 hparent
  refine ⟨?_, row', hrow', hlevel⟩
  rw [htombstoned, not_or, not_or]
  refine ⟨htomb', ?_, by simp⟩
  rintro ⟨id, hid, heq⟩
  cases heq
  obtain ⟨r, hr, rfl⟩ := List.mem_map.mp hid
  have hretirable := Table.get?_eq_some_iff.mpr (mem_retiringManifests hr)
  have hchild := hchildren m row hrow
  simp only [hparent, Option.any_some, hretirable, Option.isSome_some, Bool.and_true, Bool.and_eq_false_iff,
    Bool.not_eq_false', Catalog.tombstoned, decide_eq_true_eq] at hchild
  rcases hchild with hold | hnone
  · exact htomb.1 hold
  · -- the child can be retired too, so it has been
    obtain ⟨row₁, hrow₁⟩ := Option.isSome_iff_exists.mp (by simpa using hnone)
    refine htomb.2.1 ⟨m, List.mem_map.mpr ⟨(m, row₁), ?_, rfl⟩, rfl⟩
    exact retiringManifests_all hlimit (Table.get?_eq_some_iff.mp hrow₁)

theorem Committed.parentsClosed {key semantic family : Id32} {publications : List PendingManifest} {upload : Upload}
    {tx : Publishing} (hcommit : Committed key semantic family publications upload tx s.catalog c')
    (hok : parentStep config s (.transact (.publish key publications))) (h : ParentsClosed s.catalog) :
    ParentsClosed c' := by
  have hinserted := publishEach_inserted hcommit.each
  obtain ⟨_, rfl⟩ := hcommit.result
  simp only [parentStep, List.all_eq_true] at hok
  intro m row parent hrow htomb hparent
  rcases (hinserted.manifests m row).mp hrow with hold | ⟨q, hq, rfl, rfl⟩
  · obtain ⟨htomb', row', hrow', hlevel⟩ := h m row parent hold htomb hparent
    exact ⟨htomb', row', (hinserted.manifests _ _).mpr (Or.inl hrow'), hlevel⟩
  · have hcheck := hok q (hinserted.subset q hq)
    have htomb' : s.catalog.tombstoned .manifest q.id = false := decide_eq_false htomb
    have hkind : q.kind.parent = some parent := hparent
    simp only [hinserted.absent q hq, Option.isSome_none, htomb', Bool.false_or, Catalog.hasParent, hkind,
      Option.all_some, Bool.and_eq_true, Bool.not_eq_true', Bool.or_eq_true, Option.any_eq_true, List.any_eq_true,
      decide_eq_true_eq] at hcheck
    refine ⟨of_decide_eq_false hcheck.1, ?_⟩
    rcases hcheck.2 with ⟨row', hrow', hlevel⟩ | ⟨q', hq', rfl, hlevel⟩
    · exact ⟨row', (hinserted.manifests _ _).mpr (Or.inl hrow'), hlevel⟩
    · obtain ⟨row', hrow', hagrees⟩ := hinserted.present q' hq'
      refine ⟨row', hrow', ?_⟩
      rw [hagrees]
      exact hlevel

theorem evictManifest_parentsClosed {id : Id32} {eviction : Eviction}
    (hevict : evictManifest id now c = .ok (c', eviction)) (h : ParentsClosed c) : ParentsClosed c' := by
  obtain ⟨_, _, -, hevictable, -, rfl⟩ := evictManifest_eq_ok hevict
  simp only [Catalog.evictable, Bool.and_eq_true, Bool.not_eq_true', Table.any_eq_false, decide_eq_false_iff_not]
    at hevictable
  intro m row parent hrow htomb hparent
  simp only [List.mem_insert_iff, not_or] at htomb
  obtain ⟨htomb', hrow'⟩ := h m row parent hrow htomb.2 hparent
  refine ⟨?_, hrow'⟩
  simp only [List.mem_insert_iff, Prod.mk.injEq, true_and, not_or]
  refine ⟨?_, htomb'⟩
  rintro rfl
  exact hevictable.1.1.1.2 m row hrow hparent

theorem exec_parentsClosed (hexec : exec C config s e = .ok s') (hok : parentStep config s e)
    (hevictions : EvictionsTombstoned s) (h : ParentsClosed s.catalog) : ParentsClosed s'.catalog := by
  have hstep := exec_manifestStep hexec
  generalize s'.catalog = c' at hstep ⊢
  cases hstep with
  | kept _ hkept =>
    intro m row parent hrow htomb hparent
    rw [hkept.manifests] at hrow ⊢
    rw [hkept.tombstones] at htomb ⊢
    exact h m row parent hrow htomb hparent
  | published key publications he semantic family hvalidate upload tx _ hcommit =>
    subst he
    exact hcommit.parentsClosed hok h
  | prefixDeleted prefixId he outbox =>
    intro m row parent hrow htomb hparent
    simp only [List.mem_insert_iff, Prod.mk.injEq, reduceCtorEq, false_and, false_or] at htomb ⊢
    exact h m row parent hrow htomb hparent
  | retired maximumObjects he _ hretire =>
    subst he
    exact retire_parentsClosed hok hretire h
  | evicted id he _ eviction hevict => exact evictManifest_parentsClosed hevict h
  | evictionFinished eviction he _ hfinish =>
    subst he
    obtain ⟨heviction, -⟩ := exec_finishEviction hexec
    have htombstoned := hevictions eviction heviction
    intro m row parent hrow htomb hparent
    obtain ⟨-, rfl⟩ | ⟨_, _, -, rfl⟩ := finishManifestEviction_eq_ok hfinish
    · exact h m row parent hrow htomb hparent
    · rw [Table.get?_erase] at hrow
      split at hrow
      · cases hrow
      · obtain ⟨htomb', row', hrow', hlevel⟩ := h m row parent hrow htomb hparent
        -- the manifest that goes is tombstoned, so it is not the parent
        have hne : parent ≠ eviction.manifestId := fun heq => htomb' (heq ▸ htombstoned)
        exact ⟨htomb', row', by rw [Table.get?_erase, if_neg hne, hrow'], hlevel⟩

theorem run_parentsClosed (h : Along (step C config) (fun s e => parentStep config s e) State.initial es) :
    ParentsClosed (run (step C config) State.initial es).catalog := by
  refine (along_preserves (P := fun s => EvictionsTombstoned s ∧ ParentsClosed s.catalog) h
    (fun s e s' hok hexec hs => ?_) ⟨fun _ h => (by cases h), fun _ _ _ h => (by cases h)⟩).2
  exact ⟨exec_evictionsTombstoned hexec hs.1, exec_parentsClosed hexec hok hs.1 hs.2⟩

end Kvpack.Store
