import Kvpack.Store.Lemmas.Image

/-!
# Evictions and their recovery, step by step

Each program of an eviction completes from every image whose audit outbox has room for it, and every crash point on the
way settles to the same image.
-/

namespace Kvpack.Store

open Base Kvpack.Core

variable {C : Crypto} {config : StoreConfig} {c : Catalog} {s s' target : Image} {kind : ObjectKind} {id key : Id32}
  {now bound : Nat}
variable {row : ChunkRow} {started : StartedEviction} {s₁ : Image}

/-- An image on the way to its settled form. -/
structure Image.Settling (target s : Image) : Prop where
  sound : RecoverySound s.catalog
  room : s.catalog.pendingAudit + s.catalog.leavingCount ≤ maxPendingAuditRecords
  settled : s.settled = target

theorem Image.Settling.of_taken {ids : List Id32} (h : Image.Settling target s) (htaken : TakenAway kind ids s s') :
    Image.Settling target s' where
  sound := htaken.recoverySound h.sound
  room := by
    have hroom := h.room
    have hpending := htaken.pending
    have hleaving := htaken.leavingCount
    omega
  settled := htaken.settled.trans h.settled

theorem Image.Settling.rows (h : Image.Settling target s) (hnone : s.catalog.leavingCount = 0) : s.rows = target := by
  rw [← h.settled, Image.settled, Catalog.leavingCount_eq_zero hnone, Image.without_none]

/-! ## Files -/

theorem moveAndUnlink_completes (h : Image.Settling target s) (hleaves : s.catalog.leaves kind id) :
    (moveAndUnlink kind id).Completes (Image.Settling target)
      (fun _ s' => s' = unlinkTrash kind id (moveToTrash kind id s)) s := by
  have hmoved : Image.Settling target (moveToTrash kind id s) :=
    ⟨by rw [moveToTrash_catalog]; exact h.sound, by rw [moveToTrash_catalog]; exact h.room,
      (moveToTrash_settled hleaves).trans h.settled⟩
  have hunlinked : Image.Settling target (unlinkTrash kind id (moveToTrash kind id s)) :=
    ⟨hmoved.sound, hmoved.room,
      (unlinkTrash_settled (by rw [moveToTrash_catalog]; exact hleaves)).trans hmoved.settled⟩
  refine (Prog.Completes.updating (Q := fun _ s' => s' = moveToTrash kind id s) h hmoved rfl).bind ?_
  rintro _ _ - rfl
  exact .updating hmoved hunlinked rfl

theorem moved_catalog : (unlinkTrash kind id (moveToTrash kind id s)).catalog = s.catalog := moveToTrash_catalog

/-! ## The end of a manifest eviction -/

theorem finishManifestEvictionSteps_completes {row : ManifestRow} (h : Image.Settling target s)
    (hrow : s.catalog.manifests.get? id = some row) (hleaving : s.catalog.leavingManifest id) (hnow : now ≠ 0) :
    (finishManifestEvictionSteps ⟨id, row.fileBytes⟩ now).Completes (Image.Settling target)
      (fun _ s' => s'.catalog.leavingCount + 1 = s.catalog.leavingCount) s := by
  have hpos := leavingCount_pos_of_manifest hrow hleaving
  have hroom := h.room
  refine (moveAndUnlink_completes h (Catalog.leaves_manifest.mpr ⟨row, hrow, hleaving⟩)).bind ?_
  rintro _ s₁ h₁ rfl
  obtain ⟨s', hcommit, htaken⟩ := commitManifestEviction_takes h₁.sound
    (by rw [moved_catalog]; exact hrow) (by rw [moved_catalog]; exact hleaving) cleared_moved hnow
    (by rw [moved_catalog]; omega)
  have hcount := htaken.leavingCount
  rw [moved_catalog] at hcount
  exact .writing h₁ hcommit (h₁.of_taken htaken) hcount

/-! ## The end of a collection -/

/-- What a collection remembers of a victim agrees with what recovery would read. -/
def Victim.Sound (victim : Victim) (c : Catalog) : Prop :=
  ∃ row, c.chunks.get? victim.objectKey = some row ∧ row.locationState.leaving ∧
    (victim.wasTombstoned ↔ row.fidelityRung = .tombstone)

/-- Some victims' files have been moved away. -/
structure VictimsMoved (victims : List Victim) (s : Image) (moved : List Moved) (s' : Image) : Prop where
  catalog : s'.catalog = s.catalog
  keys : moved.map (·.objectKey) = victims.map (·.objectKey)
  cleared : ∀ kind id, s.Cleared kind id → s'.Cleared kind id
  moved : ∀ m ∈ moved, s'.Cleared .chunk m.objectKey ∧ ∃ row,
    s.catalog.chunks.get? m.objectKey = some row ∧ row.locationState.leaving ∧ m.freed = row.storedBytes

theorem checkVictim_sound {victim : Victim} (hs : RecoverySound c)
    (hrow : c.chunks.get? victim.objectKey = some row) (hleaving : row.locationState.leaving) :
    checkVictim victim c = .ok (some ⟨victim.objectKey, row.objectBytes, victim.wasTombstoned⟩) := by
  have hzero := (hs.chunks _ row hrow hleaving).1
  have hstate := leaving_iff.mp hleaving
  have hok : ¬ (row.refcount ≠ 0 ∨ (row.locationState ≠ .evicting ∧ row.locationState ≠ .trashed)) := by tauto
  simp only [checkVictim, hrow, rejectIf_of_not hok, ok_bind]
  rfl

theorem moveVictims_completes {victims : List Victim} (h : Image.Settling target s)
    (hvictims : ∀ victim ∈ victims, victim.Sound s.catalog) :
    (moveVictims victims).Completes (Image.Settling target) (fun moved s' => VictimsMoved victims s moved s') s := by
  induction victims generalizing s with
  | nil => exact .done h ⟨rfl, rfl, fun _ _ hcleared => hcleared, by simp⟩
  | cons victim victims ih =>
    obtain ⟨row, hrow, hleaving, hflag⟩ := hvictims victim List.mem_cons_self
    let first : Moved := ⟨victim.objectKey, row.objectBytes, victim.wasTombstoned⟩
    refine (Prog.Completes.reading (Q := fun r s' => r = some first ∧ s' = s) h
      (checkVictim_sound h.sound hrow hleaving) ⟨rfl, rfl⟩).bind ?_
    rintro _ _ - ⟨rfl, rfl⟩
    refine (moveAndUnlink_completes h (Catalog.leaves_chunk.mpr ⟨row, hrow, hleaving⟩)).bind ?_
    rintro _ s₁ h₁ rfl
    refine (ih h₁ fun v hv => by rw [moved_catalog]; exact hvictims v (List.mem_cons_of_mem _ hv)).bind ?_
    intro rest s' h' hrest
    refine .done h' ⟨hrest.catalog.trans moved_catalog, by rw [List.map_cons, List.map_cons, hrest.keys],
      fun kind id hcleared => hrest.cleared kind id hcleared.moved, fun m hm => ?_⟩
    cases hm with
    | head =>
      refine ⟨hrest.cleared _ _ cleared_moved, row, hrow, hleaving, ?_⟩
      simp only [Moved.freed, ChunkRow.storedBytes, first, hflag]
    | tail _ hm =>
      obtain ⟨hcleared, row', hrow', hfacts⟩ := hrest.moved m hm
      rw [moved_catalog] at hrow'
      exact ⟨hcleared, row', hrow', hfacts⟩

theorem commitCollection_completes (moved : List Moved) (h : Image.Settling target s)
    (hnodup : (moved.map (·.objectKey)).Nodup) (hmoved : ∀ m ∈ moved, s.Cleared .chunk m.objectKey ∧ ∃ row,
      s.catalog.chunks.get? m.objectKey = some row ∧ row.locationState.leaving ∧ m.freed = row.storedBytes)
    (hnow : now ≠ 0) : (Prog.writing (commitCollection moved now)).Completes (Image.Settling target)
      (fun _ s' => s'.catalog.leavingCount + moved.length = s.catalog.leavingCount) s := by
  have hleaves : ∀ key ∈ moved.map (·.objectKey), s.catalog.leaves .chunk key := by
    intro key hkey
    obtain ⟨m, hm, rfl⟩ := List.mem_map.mp hkey
    obtain ⟨-, row, hrow, hleaving, -⟩ := hmoved m hm
    exact Catalog.leaves_chunk.mpr ⟨row, hrow, hleaving⟩
  have hcount := Catalog.leavingCount_without hnodup hleaves
  have hroom := h.room
  rw [List.length_map] at hcount
  obtain ⟨s', hcommit, htaken⟩ := commitCollection_takes h.sound hnodup hmoved hnow (by omega)
  have htakenCount := htaken.leavingCount
  rw [List.length_map] at htakenCount
  exact .writing h hcommit (h.of_taken htaken) htakenCount

theorem finishBatchSteps_completes (victims : List Victim) (h : Image.Settling target s)
    (hnodup : (victims.map (·.objectKey)).Nodup) (hvictims : ∀ victim ∈ victims, victim.Sound s.catalog)
    (hnow : now ≠ 0) :
    (finishBatchSteps victims now).Completes (Image.Settling target)
      (fun _ s' => s'.catalog.leavingCount + victims.length = s.catalog.leavingCount) s := by
  refine (moveVictims_completes h hvictims).bind ?_
  intro moved s₁ h₁ hmoved
  have hlength : moved.length = victims.length := by simpa using congrArg List.length hmoved.keys
  split
  · rename_i hnil
    refine .done h₁ ?_
    rw [hmoved.catalog, ← hlength, hnil]
    rfl
  · rw [← hlength, ← hmoved.catalog]
    refine commitCollection_completes moved h₁ (by rw [hmoved.keys]; exact hnodup) (fun m hm => ?_) hnow
    rw [hmoved.catalog]
    exact hmoved.moved m hm

/-! ## Recovery -/

theorem finishChunkEvictionSteps_completes (h : Image.Settling target s)
    (hrow : s.catalog.chunks.get? key = some row) (hleaving : row.locationState.leaving) (hnow : now ≠ 0) :
    (finishChunkEvictionSteps key now).Completes (Image.Settling target)
      (fun _ s' => s'.catalog.leavingCount + 1 = s.catalog.leavingCount) s := by
  let moved : Moved := ⟨key, row.objectBytes, row.fidelityRung = .tombstone⟩
  have hcheck : checkLeaving key s.catalog = .ok (some moved) := by
    have hok : ¬ (row.refcount ≠ 0 ∨ ¬ row.locationState.leaving) := by
      simp [(h.sound.chunks _ row hrow hleaving).1, hleaving]
    simp only [checkLeaving, hrow, rejectIf_of_not hok, ok_bind]
    rfl
  refine (Prog.Completes.reading (Q := fun r s' => r = some moved ∧ s' = s) h hcheck ⟨rfl, rfl⟩).bind ?_
  rintro _ _ - ⟨rfl, rfl⟩
  refine (moveAndUnlink_completes h (Catalog.leaves_chunk.mpr ⟨row, hrow, hleaving⟩)).bind ?_
  rintro _ s₁ h₁ rfl
  have hfreed : moved.freed = row.storedBytes := by simp [Moved.freed, ChunkRow.storedBytes, moved]
  have hcommit := commitCollection_completes [moved] h₁ (List.nodup_singleton _)
    (fun m hm => by
      cases List.mem_singleton.mp hm
      exact ⟨cleared_moved, row, by rw [moved_catalog]; exact hrow, hleaving, hfreed⟩) hnow
  rw [moved_catalog] at hcommit
  exact hcommit

theorem firstRow_eq_none {ν : Type} {t : Table Id32 ν} {p : Id32 → ν → Bool} (h : firstRow t p = none) (k : Id32)
    (v : ν) (hget : t.get? k = some v) : p k v = false := by
  have hnil : (t.filter p).rows = [] := by
    have hperm := List.perm_insertionSort (fun a b : Id32 × ν => a.1.val ≤ b.1.val) (t.filter p).rows
    rw [firstRow, List.head?_eq_none_iff] at h
    rw [h] at hperm
    exact hperm.symm.eq_nil
  cases hp : p k v with
  | false => rfl
  | true =>
    have hmem : (k, v) ∈ (t.filter p).rows := List.mem_filter.mpr ⟨Table.get?_eq_some_iff.mp hget, hp⟩
    rw [hnil] at hmem
    cases hmem

/-- Recovery completes evictions until its bound is reached or none is left. -/
theorem reconcileSteps_completes (h : Image.Settling target s) (hnow : now ≠ 0) :
    (reconcileSteps now bound).Completes (Image.Settling target)
      (fun _ s' => s.catalog.leavingCount ≤ bound → s'.catalog.leavingCount = 0) s := by
  induction bound generalizing s with
  | zero => exact .done h fun hle => Nat.le_zero.mp hle
  | succ bound ih =>
    refine (Prog.Completes.reading
      (Q := fun r s' => r = firstRow s.catalog.manifests (fun id _ => s.catalog.leavingManifest id) ∧ s' = s)
      h rfl ⟨rfl, rfl⟩).bind ?_
    rintro _ s - ⟨rfl, rfl⟩
    -- after one eviction there is one less to complete within the rest of the bound
    have hrest {x : EvictionProg Unit} {f : Nat → Nat} (hx : x.Completes (Image.Settling target)
        (fun _ s' => s'.catalog.leavingCount + 1 = s.catalog.leavingCount) s) :
        (do x; let completed ← reconcileSteps now bound; return f completed).Completes (Image.Settling target)
          (fun _ s' => s.catalog.leavingCount ≤ bound + 1 → s'.catalog.leavingCount = 0) s := by
      refine hx.bind fun _ s₁ h₁ hcount => ?_
      refine (ih h₁).bind fun completed s₂ h₂ hdone => ?_
      exact .done h₂ fun hle => hdone (by omega)
    split
    · rename_i id row hfirst
      obtain ⟨hrow, hleaving⟩ := firstRow_eq_some hfirst
      exact hrest (finishManifestEvictionSteps_completes h hrow hleaving hnow)
    · rename_i hmanifests
      refine (Prog.Completes.reading
        (Q := fun r s' => r = firstRow s.catalog.chunks (fun _ row => row.locationState.leaving) ∧ s' = s)
        h rfl ⟨rfl, rfl⟩).bind ?_
      rintro _ s - ⟨rfl, rfl⟩
      split
      · rename_i key row hfirst
        obtain ⟨hrow, hleaving⟩ := firstRow_eq_some hfirst
        exact hrest (finishChunkEvictionSteps_completes h hrow hleaving hnow)
      · rename_i hchunks
        refine .done h fun _ => ?_
        rw [Catalog.leavingCount, Table.sum_eq_zero, Table.sum_eq_zero]
        · exact fun key row hget => by simp [firstRow_eq_none hchunks key row hget]
        · exact fun id row hget => by simp [firstRow_eq_none hmanifests id row hget]

/-! ## The first transaction -/

/-- The first transaction puts its objects, and no others, on their way out. -/
structure EvictionStarted (request : EvictionRequest) (started : StartedEviction) (s s₁ : Image) : Prop where
  sound : RecoverySound s₁.catalog
  leaves : ∀ kind id, s₁.catalog.leaves kind id → s.catalog.leaves kind id ∨ (kind = request.kind ∧ id ∈ request.ids)
  finish : ∀ {target now}, Image.Settling target s₁ → now ≠ 0 → (started.finish now).Completes (Image.Settling target)
    (fun _ t => t.catalog.leavingCount + request.ids.length = s₁.catalog.leavingCount) s₁
  ids : request.ids.Nodup ∧ ∀ id ∈ request.ids, s₁.catalog.leaves request.kind id

theorem start_manifest {manifestId : Id32} (C : Crypto) (config : StoreConfig)
    (hs : RecoverySound s.catalog) (h : (EvictionRequest.manifest manifestId).start now s = .ok (started, s₁)) :
    EvictionStarted (.manifest manifestId) started s s₁ := by
  simp only [EvictionRequest.start, bind_eq_ok, Prod.exists, pure_eq_ok, Prod.mk.injEq] at h
  obtain ⟨c₁, eviction, hevict, rfl, rfl⟩ := h
  have hstep : CatalogStep C config now (.evict manifestId) s.catalog c₁ := .evicted manifestId rfl _ eviction hevict
  have hsound := hstep.recoverySound hs
  obtain ⟨row, outbox, hrow, hevictable, rfl, rfl⟩ := evictManifest_eq_ok hevict
  have havailable : s.catalog.locations.get? manifestId = some .available := by
    simp only [Catalog.evictable, Bool.and_eq_true, decide_eq_true_eq] at hevictable
    exact hevictable.1.1.1.1
  have hleaving : Option.any LocationState.leaving
      ((s.catalog.locations.modify manifestId fun _ => .evicting).get? manifestId) := by
    rw [Table.get?_modify, if_pos rfl, havailable]
    rfl
  refine ⟨hsound, fun kind id hleaves => ?_, fun hsettling hnow => ?_, List.nodup_singleton _, fun id hid => ?_⟩
  · cases kind with
    | prefixNode => cases hleaves
    | manifest =>
      by_cases hid : id = manifestId
      · exact Or.inr ⟨rfl, List.mem_singleton.mpr hid⟩
      · simp only [Catalog.leaves, Catalog.leavingManifest, Table.get?_modify, if_neg hid] at hleaves
        exact Or.inl hleaves
    | chunk =>
      obtain ⟨row', hrow', hrowLeaving⟩ := Catalog.leaves_chunk.mp hleaves
      rw [Table.get?_map, Option.map_eq_some_iff] at hrow'
      obtain ⟨old, hold, rfl⟩ := hrow'
      refine Or.inl (Catalog.leaves_chunk.mpr ⟨old, hold, ?_⟩)
      split at hrowLeaving
      · exact hrowLeaving
      · exact hrowLeaving
  · exact finishManifestEvictionSteps_completes hsettling hrow hleaving hnow
  · cases List.mem_singleton.mp hid
    exact Catalog.leaves_manifest.mpr ⟨row, hrow, hleaving⟩

theorem start_chunks {keys : List Id32} (C : Crypto) (config : StoreConfig)
    (hs : RecoverySound s.catalog) (hrungs : RungsSound s.catalog.chunks)
    (h : (EvictionRequest.chunks keys).start now s = .ok (started, s₁)) :
    EvictionStarted (.chunks keys) started s s₁ := by
  simp only [EvictionRequest.start, bind_eq_ok, Prod.exists, pure_eq_ok, Prod.mk.injEq] at h
  obtain ⟨c₁, victims, hselect, rfl, rfl⟩ := h
  have hstep : CatalogStep C config now (.tick 0) s.catalog c₁ :=
    .onObjects _ (.selected keys _ victims hselect)
  have hsound := hstep.recoverySound hs
  obtain ⟨-, hnodup, hkeys, rfl, tombstones, outbox, rfl, -⟩ := selectVictims_eq_ok hselect
  -- a selected row and what its victim remembers of it
  have hrow {key : Id32} (hkey : key ∈ keys) : ∃ row, (evictRows keys s.catalog.chunks).get? key = some row ∧
      row.locationState.leaving ∧
      (decide ((s.catalog.chunks.get? key).map (·.locationState) = some .tombstoned) = true ↔
        row.fidelityRung = .tombstone) := by
    have hcollectable := hkeys key hkey
    rw [Catalog.collectable] at hcollectable
    cases hget : s.catalog.chunks.get? key with
    | none => rw [hget] at hcollectable; cases hcollectable
    | some row =>
      rw [hget] at hcollectable
      simp only [Bool.and_eq_true, decide_eq_true_eq] at hcollectable
      obtain ⟨⟨⟨-, hstate⟩, -⟩, -⟩ := hcollectable
      have hrung := hrungs key row hget
      refine ⟨row.evict, by rw [evictRows, Table.get?_map, hget, Option.map_some, if_pos hkey], rfl, ?_⟩
      cases hstate with
      | inl havailable => simp [ChunkRow.evict, havailable, hrung.available havailable]
      | inr htombstoned => simp [ChunkRow.evict, htombstoned, hrung.tombstoned htombstoned]
  refine ⟨hsound, fun kind id hleaves => ?_, fun hsettling hnow => ?_, hnodup, fun key hkey => ?_⟩
  · cases kind with
    | prefixNode => cases hleaves
    | manifest => exact Or.inl hleaves
    | chunk =>
      obtain ⟨row, hget, hleaving⟩ := Catalog.leaves_chunk.mp hleaves
      rw [evictRows, Table.get?_map, Option.map_eq_some_iff] at hget
      obtain ⟨old, hold, rfl⟩ := hget
      split at hleaving
      · rename_i hkey
        exact Or.inr ⟨rfl, hkey⟩
      · exact Or.inl (Catalog.leaves_chunk.mpr ⟨old, hold, hleaving⟩)
  · have hfinish := finishBatchSteps_completes
      (keys.map fun key =>
        ⟨key, decide ((s.catalog.chunks.get? key).map (·.locationState) = some .tombstoned)⟩) hsettling
      (by rw [List.map_map]; exact (List.map_id keys).symm ▸ hnodup)
      (fun victim hvictim => by
        obtain ⟨key, hkey, rfl⟩ := List.mem_map.mp hvictim
        exact hrow hkey) hnow
    rw [List.length_map] at hfinish
    exact hfinish
  · obtain ⟨row, hget, hleaving, -⟩ := hrow hkey
    exact Catalog.leaves_chunk.mpr ⟨row, hget, hleaving⟩

/-- When nothing was on its way out before, the eviction's objects are all that is. -/
theorem EvictionStarted.leavingCount {request : EvictionRequest}
    (h : EvictionStarted request started s s₁) (hnone : s.catalog.leavingCount = 0) :
    s₁.catalog.leavingCount = request.ids.length := by
  have hcount := Catalog.leavingCount_without h.ids.1 h.ids.2
  have hrest : (s₁.catalog.without (only request.kind request.ids)).leaves = fun _ _ => false := by
    funext kind id
    rw [Catalog.leaves_without]
    cases hleaves : s₁.catalog.leaves kind id with
    | false => rfl
    | true =>
      obtain hbefore | hown := h.leaves kind id hleaves
      · rw [Catalog.leavingCount_eq_zero hnone] at hbefore
        cases hbefore
      · simp [only, hown]
  have hzero : (s₁.catalog.without (only request.kind request.ids)).leavingCount = 0 := by
    rw [Catalog.leavingCount_eq, hrest, Table.sum_eq_zero, Table.sum_eq_zero]
    · exact fun _ _ _ => rfl
    · exact fun _ _ _ => rfl
  omega

end Kvpack.Store
