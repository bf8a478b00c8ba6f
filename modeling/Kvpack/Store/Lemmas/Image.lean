import Kvpack.Store.Image
import Kvpack.Store.Lemmas.Durable
import Kvpack.Store.Lemmas.Opening

/-!
# Every step of an eviction leads to the same end

An image is settled by taking away every object on its way out. No step of an eviction after its first transaction,
and none of recovery, changes what the image settles to, and recovery ends when the image is settled.
-/

namespace Kvpack.Store

open Base Kvpack.Core

variable {c c' : Catalog} {s s' : Image} {kind : ObjectKind} {id key : Id32} {now bound : Nat}
  {gone gone' : ObjectKind → Id32 → Bool}
variable {kind' : ObjectKind} {ids : List Id32}
variable {l : List (ObjectKind × Id32)} {row : ManifestRow}

/-! ## Objects on their way out -/

def Catalog.leaves (c : Catalog) (kind : ObjectKind) (id : Id32) : Bool :=
  match kind with
  | .manifest => (c.manifests.get? id).isSome && c.leavingManifest id
  | .chunk => (c.chunks.get? id).any (·.locationState.leaving)
  | .prefixNode => false

theorem Catalog.leaves_manifest :
    c.leaves .manifest id ↔ ∃ row, c.manifests.get? id = some row ∧ c.leavingManifest id := by
  simp [Catalog.leaves, Option.isSome_iff_exists]

theorem Catalog.leaves_chunk :
    c.leaves .chunk key ↔ ∃ row, c.chunks.get? key = some row ∧ row.locationState.leaving := by
  simp only [Catalog.leaves, Option.any_eq_true]

def Catalog.bytesOf (c : Catalog) (gone : ObjectKind → Id32 → Bool) : Nat :=
  (c.manifests.sum fun id row => if gone .manifest id then row.fileBytes else 0) +
    c.chunks.sum fun key row => if gone .chunk key then row.storedBytes else 0

def Catalog.without (c : Catalog) (gone : ObjectKind → Id32 → Bool) : Catalog :=
  { c with
    manifests := c.manifests.filter fun id _ => !gone .manifest id
    locations := c.locations.filter fun id _ => !gone .manifest id
    chunks := c.chunks.filter fun key _ => !gone .chunk key
    durableBytes := c.durableBytes - c.bytesOf gone
    outbox := Table.empty }

def Image.without (s : Image) (gone : ObjectKind → Id32 → Bool) : Image where
  catalog := s.catalog.without gone
  chunkLocations := s.chunkLocations.filter fun key _ => !gone .chunk key
  policyObjects := s.policyObjects.filter fun key _ => !gone .chunk key
  files := s.files.filter fun object => !gone object.1 object.2
  trash := s.trash.filter fun object => !gone object.1 object.2

/-- The image that completing every eviction leads to. -/
def Image.settled (s : Image) : Image := s.without s.catalog.leaves

theorem Catalog.bytesOf_without :
    c.bytesOf gone + (c.without gone).bytesOf gone' = c.bytesOf fun kind id => gone kind id || gone' kind id := by
  have hsplit {ν : Type} (t : Table Id32 ν) (p q : Id32 → Bool) (w : Id32 → ν → Nat) :
      t.sum (fun k v => if p k then w k v else 0) +
        (t.filter fun k _ => !p k).sum (fun k v => if q k then w k v else 0) =
          t.sum fun k v => if p k || q k then w k v else 0 := by
    rw [Table.sum_filter, ← Table.sum_add]
    refine Table.sum_congr fun k v _ => ?_
    cases p k <;> simp
  have hmanifests := hsplit c.manifests (gone .manifest) (gone' .manifest) fun _ row => row.fileBytes
  have hchunks := hsplit c.chunks (gone .chunk) (gone' .chunk) fun _ row => row.storedBytes
  simp only [Catalog.bytesOf, Catalog.without]
  omega

theorem Catalog.without_without :
    (c.without gone).without gone' = c.without fun kind id => gone kind id || gone' kind id := by
  have hdurable : (c.without gone).durableBytes - (c.without gone).bytesOf gone' =
      c.durableBytes - c.bytesOf fun kind id => gone kind id || gone' kind id := by
    rw [← Catalog.bytesOf_without, ← Nat.sub_sub]
    rfl
  simp only [Catalog.without] at hdurable ⊢
  simp only [Table.filter_filter, hdurable, Bool.not_or]

theorem Image.without_without :
    (s.without gone).without gone' = s.without fun kind id => gone kind id || gone' kind id := by
  simp only [Image.without, Catalog.without_without, Table.filter_filter, List.filter_filter, Bool.not_or,
    Bool.and_comm]

theorem Image.without_none : s.without (fun _ _ => false) = s.rows := by
  simp [Image.without, Catalog.without, Image.rows, Catalog.bytesOf, Table.filter, Table.sum]

@[simp]
theorem Image.rows_without : s.rows.without gone = s.without gone := rfl

@[simp]
theorem Image.rows_leaves : s.rows.catalog.leaves = s.catalog.leaves := by
  funext kind id
  cases kind <;> rfl

theorem Catalog.leaves_without : (c.without gone).leaves kind id = (c.leaves kind id && !gone kind id) := by
  cases kind with
  | prefixNode => rfl
  | manifest =>
    simp only [Catalog.leaves, Catalog.leavingManifest, Catalog.without, Table.get?_filter]
    cases gone .manifest id <;> simp
  | chunk =>
    simp only [Catalog.leaves, Catalog.without, Table.get?_filter]
    cases gone .chunk id <;> simp

/-- Losing some of the objects on their way out settles to the same. -/
theorem Image.settled_of_without (hgone : ∀ kind id, gone kind id → s.catalog.leaves kind id)
    (h : s'.rows = s.without gone) : s'.settled = s.settled := by
  have hleaves : s'.catalog.leaves = fun kind id => s.catalog.leaves kind id && !gone kind id := by
    rw [← Image.rows_leaves, h]
    funext kind id
    exact Catalog.leaves_without
  have hunion : (fun kind id => gone kind id || (s.catalog.leaves kind id && !gone kind id)) = s.catalog.leaves := by
    funext kind id
    cases hg : gone kind id with
    | true => simp [hgone kind id hg]
    | false => simp
  rw [Image.settled, hleaves, ← Image.rows_without, h, Image.without_without, hunion, Image.settled]

/-! ## Files -/

/-- An object has no file left, not even in the trash. -/
structure Image.Cleared (s : Image) (kind : ObjectKind) (id : Id32) : Prop where
  file : (kind, id) ∉ s.files
  trash : (kind, id) ∉ s.trash

theorem Image.without_of_cleared (h : ∀ kind id, gone kind id → s.Cleared kind id) :
    s.without gone = { s with
      catalog := s.catalog.without gone
      chunkLocations := s.chunkLocations.filter fun key _ => !gone .chunk key
      policyObjects := s.policyObjects.filter fun key _ => !gone .chunk key } := by
  have hself {l : List (ObjectKind × Id32)} (hl : ∀ kind id, gone kind id → (kind, id) ∉ l) :
      l.filter (fun object => !gone object.1 object.2) = l := by
    refine List.filter_eq_self.mpr fun object hmem => ?_
    cases hg : gone object.1 object.2 with
    | true => exact absurd hmem (hl _ _ hg)
    | false => rfl
  rw [Image.without, hself fun kind id hg => (h kind id hg).file, hself fun kind id hg => (h kind id hg).trash]

theorem filter_ne_leaves (h : c.leaves kind id) :
    (l.filter (· ≠ (kind, id))).filter (fun object => !c.leaves object.1 object.2) =
      l.filter fun object => !c.leaves object.1 object.2 := by
  rw [List.filter_filter]
  refine List.filter_congr fun object _ => ?_
  by_cases hobject : object = (kind, id)
  · simp [hobject, h]
  · simp [hobject]

theorem filter_insert_leaves (h : c.leaves kind id) :
    (l.insert (kind, id)).filter (fun object => !c.leaves object.1 object.2) =
      l.filter fun object => !c.leaves object.1 object.2 := by
  by_cases hmem : (kind, id) ∈ l
  · rw [List.insert_of_mem hmem]
  · rw [List.insert_of_not_mem hmem, List.filter_cons_of_neg (by simp [h])]

@[simp]
theorem moveToTrash_catalog : (moveToTrash kind id s).catalog = s.catalog := by
  unfold moveToTrash
  split <;> rfl

theorem moveToTrash_settled (h : s.catalog.leaves kind id) : (moveToTrash kind id s).settled = s.settled := by
  rw [Image.settled, moveToTrash_catalog, Image.settled, moveToTrash]
  split
  · simp only [Image.without, filter_ne_leaves h, filter_insert_leaves h]
  · rfl

theorem unlinkTrash_settled (h : s.catalog.leaves kind id) : (unlinkTrash kind id s).settled = s.settled := by
  simp only [Image.settled, unlinkTrash, Image.without, filter_ne_leaves h]

theorem cleared_moved : (unlinkTrash kind id (moveToTrash kind id s)).Cleared kind id where
  file := by
    unfold moveToTrash
    split
    · simp [unlinkTrash]
    · assumption
  trash := by simp [unlinkTrash]

theorem Image.Cleared.moved {id' : Id32} (h : s.Cleared kind' id') :
    (unlinkTrash kind id (moveToTrash kind id s)).Cleared kind' id' := by
  unfold moveToTrash
  split
  · refine ⟨fun hmem => h.file (List.mem_filter.mp hmem).1, fun hmem => ?_⟩
    simp only [unlinkTrash, List.mem_filter, List.mem_insert_iff, decide_eq_true_eq] at hmem
    exact hmem.1.elim hmem.2 h.trash
  · exact ⟨h.file, fun hmem => h.trash (List.mem_filter.mp hmem).1⟩

/-! ## The objects of one transaction -/

def only (kind : ObjectKind) (ids : List Id32) : ObjectKind → Id32 → Bool := fun kind' id =>
  decide (kind' = kind ∧ id ∈ ids)

theorem only_eq_true : only kind ids kind' id ↔ kind' = kind ∧ id ∈ ids :=
  decide_eq_true_iff

theorem only_self : only kind ids kind id = decide (id ∈ ids) := by simp [only]

theorem only_other (h : kind' ≠ kind) : only kind ids kind' id = false := by
  simp [only, h]

theorem Catalog.leavingCount_eq : c.leavingCount =
    (c.manifests.sum fun id _ => if c.leaves .manifest id then 1 else 0) +
      c.chunks.sum fun key _ => if c.leaves .chunk key then 1 else 0 := by
  have hmanifests : (c.manifests.sum fun id _ => if c.leavingManifest id then 1 else 0) =
      c.manifests.sum fun id _ => if c.leaves .manifest id then 1 else 0 :=
    Table.sum_congr fun id row hrow => by simp [Catalog.leaves, hrow]
  have hchunks : (c.chunks.sum fun _ row => if row.locationState.leaving then 1 else 0) =
      c.chunks.sum fun key _ => if c.leaves .chunk key then 1 else 0 :=
    Table.sum_congr fun key row hrow => by simp [Catalog.leaves, hrow]
  rw [Catalog.leavingCount, hmanifests, hchunks]

theorem Catalog.leavingCount_eq_zero (h : c.leavingCount = 0) : c.leaves = fun _ _ => false := by
  funext kind id
  cases hleaves : c.leaves kind id with
  | false => rfl
  | true =>
    cases kind with
    | prefixNode => cases hleaves
    | manifest =>
      obtain ⟨row, hrow, hleaving⟩ := Catalog.leaves_manifest.mp hleaves
      have hpos := leavingCount_pos_of_manifest hrow hleaving
      omega
    | chunk =>
      obtain ⟨row, hrow, hleaving⟩ := Catalog.leaves_chunk.mp hleaves
      have hpos := leavingCount_pos_of_chunk hrow hleaving
      omega

theorem Catalog.leavingCount_without (hnodup : ids.Nodup) (h : ∀ id ∈ ids, c.leaves kind id) :
    (c.without (only kind ids)).leavingCount + ids.length = c.leavingCount := by
  have hcount {ν : Type} (t : Table Id32 ν) (p : Id32 → Bool) (hp : ∀ id ∈ ids, p id ∧ ∃ v, t.get? id = some v) :
      ((t.filter fun id _ => !only kind ids kind id).sum fun id _ => if p id && !only kind ids kind id then 1 else 0) +
        ids.length = t.sum fun id _ => if p id then 1 else 0 := by
    have hsplit : (t.sum fun id _ => if p id then 1 else 0) = (ids.map fun _ => 1).sum +
        (t.filter fun id _ => !only kind ids kind id).sum fun id _ => if p id then 1 else 0 := by
      refine Table.sum_eq_add_filter hnodup (fun id => by simp [only]) fun id hid => ?_
      obtain ⟨hid, v, hv⟩ := hp id hid
      exact ⟨v, hv, if_pos hid⟩
    have hrest : (t.filter fun id _ => !only kind ids kind id).sum (fun id _ =>
        if p id && !only kind ids kind id then 1 else 0) =
        (t.filter fun id _ => !only kind ids kind id).sum fun id _ => if p id then 1 else 0 := by
      rw [Table.sum_filter, Table.sum_filter]
      refine Table.sum_congr fun id _ _ => ?_
      cases only kind ids kind id <;> simp
    rw [hsplit, hrest, List.map_const', List.sum_replicate, smul_eq_mul, mul_one, Nat.add_comm]
  have hsame {ν : Type} (t : Table Id32 ν) (kind' : ObjectKind) (p : Id32 → Bool) (hkind : kind' ≠ kind) :
      ((t.filter fun id _ => !only kind ids kind' id).sum fun id _ =>
        if p id && !only kind ids kind' id then 1 else 0) = t.sum fun id _ => if p id then 1 else 0 := by
    rw [Table.sum_filter]
    exact Table.sum_congr fun id _ _ => by simp [only_other hkind]
  rw [Catalog.leavingCount_eq, Catalog.leavingCount_eq]
  simp only [Catalog.leaves_without]
  cases kind with
  | prefixNode =>
    have hnil : ids.length = 0 := List.length_eq_zero_iff.mpr
      (List.eq_nil_iff_forall_not_mem.mpr fun id hid => by cases h id hid)
    have hmanifests := hsame c.manifests .manifest (c.leaves .manifest) (by simp)
    have hchunks := hsame c.chunks .chunk (c.leaves .chunk) (by simp)
    simp only [Catalog.without]
    omega
  | manifest =>
    have hmanifests := hcount c.manifests (c.leaves .manifest) fun id hid =>
      ⟨h id hid, (Catalog.leaves_manifest.mp (h id hid)).imp fun _ h => h.1⟩
    have hchunks := hsame c.chunks .chunk (c.leaves .chunk) (by simp)
    simp only [Catalog.without]
    omega
  | chunk =>
    have hmanifests := hsame c.manifests .manifest (c.leaves .manifest) (by simp)
    have hchunks := hcount c.chunks (c.leaves .chunk) fun id hid =>
      ⟨h id hid, (Catalog.leaves_chunk.mp (h id hid)).imp fun _ h => h.1⟩
    simp only [Catalog.without]
    omega

/-- A transaction that takes some objects on their way out, with one event for each. -/
structure TakenAway (kind : ObjectKind) (ids : List Id32) (s s' : Image) : Prop where
  nodup : ids.Nodup
  leaves : ∀ id ∈ ids, s.catalog.leaves kind id
  rows : s'.rows = s.without (only kind ids)
  pending : s'.catalog.pendingAudit ≤ s.catalog.pendingAudit + ids.length

theorem TakenAway.leavingCount (h : TakenAway kind ids s s') :
    s'.catalog.leavingCount + ids.length = s.catalog.leavingCount := by
  rw [← Catalog.leavingCount_without h.nodup h.leaves]
  have hcatalog : s'.rows.catalog = s.catalog.without (only kind ids) := by rw [h.rows]; rfl
  rw [← hcatalog]
  rfl

theorem TakenAway.settled (h : TakenAway kind ids s s') : s'.settled = s.settled := by
  refine Image.settled_of_without (fun kind' id hgone => ?_) h.rows
  obtain ⟨rfl, hid⟩ := only_eq_true.mp hgone
  exact h.leaves id hid

theorem TakenAway.recoverySound (h : TakenAway kind ids s s') (hs : RecoverySound s.catalog) :
    RecoverySound s'.catalog := by
  have hcatalog : s'.rows.catalog = s.catalog.without (only kind ids) := by rw [h.rows]; rfl
  have hrows : RecoverySound s'.rows.catalog := by
    rw [hcatalog]
    refine ⟨hs.uploads, hs.chunks.filter, fun id hleaving => hs.manifests id ?_⟩
    simp only [Catalog.leavingManifest, Catalog.without, Table.get?_filter] at hleaving ⊢
    cases hget : s.catalog.locations.get? id with
    | none => rw [hget] at hleaving; cases hleaving
    | some state =>
      rw [hget, Option.filter_some] at hleaving
      split at hleaving
      · exact hleaving
      · cases hleaving
  exact ⟨hrows.uploads, hrows.chunks, hrows.manifests⟩

theorem Catalog.bytesOf_manifest (hrow : c.manifests.get? id = some row) :
    c.bytesOf (only .manifest [id]) = row.fileBytes := by
  have hmanifests : (c.manifests.sum fun id' row => if only .manifest [id] .manifest id' then row.fileBytes else 0) =
      ([id].map fun _ => row.fileBytes).sum :=
    Table.sum_of_keys (List.nodup_singleton id) (fun id' => by simp [only]) fun id' hid' => by
      cases List.mem_singleton.mp hid'
      exact ⟨row, hrow, rfl⟩
  have hchunks : (c.chunks.sum fun key row => if only .manifest [id] .chunk key then row.storedBytes else 0) = 0 :=
    Table.sum_eq_zero fun _ _ _ => by simp [only]
  rw [Catalog.bytesOf, hmanifests, hchunks]
  simp

theorem Catalog.bytesOf_chunks {moved : List Moved} (hnodup : (moved.map (·.objectKey)).Nodup)
    (h : ∀ m ∈ moved, ∃ row, c.chunks.get? m.objectKey = some row ∧ m.freed = row.storedBytes) :
    c.bytesOf (only .chunk (moved.map (·.objectKey))) = (moved.map Moved.freed).sum := by
  let f (key : Id32) : Nat := ((c.chunks.get? key).map (·.storedBytes)).getD 0
  have hmanifests : (c.manifests.sum fun id row =>
      if only .chunk (moved.map (·.objectKey)) .manifest id then row.fileBytes else 0) = 0 :=
    Table.sum_eq_zero fun _ _ _ => by simp [only]
  have hchunks : (c.chunks.sum fun key row =>
      if only .chunk (moved.map (·.objectKey)) .chunk key then row.storedBytes else 0) =
      ((moved.map (·.objectKey)).map f).sum :=
    Table.sum_of_keys hnodup (fun key => by simp [only]) fun key hkey => by
      obtain ⟨m, hm, rfl⟩ := List.mem_map.mp hkey
      obtain ⟨row, hrow, -⟩ := h m hm
      exact ⟨row, hrow, by simp [f, hrow]⟩
  have hfreed : (moved.map (·.objectKey)).map f = moved.map Moved.freed := by
    rw [List.map_map]
    refine List.map_congr_left fun m hm => ?_
    obtain ⟨row, hrow, hfreed⟩ := h m hm
    simp [f, hrow, hfreed]
  rw [Catalog.bytesOf, hmanifests, hchunks, hfreed, Nat.zero_add]

theorem commitManifestEviction_takes (hs : RecoverySound s.catalog)
    (hrow : s.catalog.manifests.get? id = some row) (hleaving : s.catalog.leavingManifest id)
    (hcleared : s.Cleared .manifest id) (hnow : now ≠ 0) (hroom : s.catalog.pendingAudit < maxPendingAuditRecords) :
    ∃ s', commitManifestEviction ⟨id, row.fileBytes⟩ now s = .ok s' ∧ TakenAway .manifest [id] s s' := by
  obtain ⟨c', hfinish, hcompleted⟩ := finishManifestEviction_ok row.fileBytes hs hrow hleaving hnow hroom
  refine ⟨{ s with catalog := c' }, ?_, List.nodup_singleton id, ?_, ?_, hcompleted.pending⟩
  · rw [commitManifestEviction, hfinish, ok_bind]
    rfl
  · intro id' hid'
    cases List.mem_singleton.mp hid'
    exact Catalog.leaves_manifest.mpr ⟨row, hrow, hleaving⟩
  · obtain ⟨hnone, -⟩ | ⟨_, _, -, rfl⟩ := finishManifestEviction_eq_ok hfinish
    · rw [hrow] at hnone
      cases hnone
    · rw [Image.without_of_cleared fun kind id' hgone => by
        obtain ⟨rfl, hid'⟩ := only_eq_true.mp hgone
        rwa [List.mem_singleton.mp hid']]
      simp only [Image.rows, Catalog.without, Catalog.bytesOf_manifest hrow, Table.erase]
      simp [only, Table.filter]

theorem commitCollection_takes {moved : List Moved} (hs : RecoverySound s.catalog)
    (hnodup : (moved.map (·.objectKey)).Nodup)
    (h : ∀ m ∈ moved, s.Cleared .chunk m.objectKey ∧
      ∃ row, s.catalog.chunks.get? m.objectKey = some row ∧ row.locationState.leaving ∧ m.freed = row.storedBytes)
    (hnow : now ≠ 0) (hroom : s.catalog.pendingAudit + moved.length ≤ maxPendingAuditRecords) :
    ∃ s', commitCollection moved now s = .ok s' ∧ TakenAway .chunk (moved.map (·.objectKey)) s s' := by
  obtain ⟨outbox, hfinish, hpending⟩ := finishCollection_leaving (c := s.catalog) moved hnodup
    (fun m hm => by
      obtain ⟨-, row, hrow, hleaving, -⟩ := h m hm
      obtain ⟨hzero, hkey⟩ := hs.chunks _ row hrow hleaving
      exact ⟨hkey, row, hrow, hleaving, hzero⟩) hnow hroom
  refine ⟨_, by rw [commitCollection, hfinish, ok_bind]; rfl, hnodup, ?_, ?_, ?_⟩
  · intro key hkey
    obtain ⟨m, hm, rfl⟩ := List.mem_map.mp hkey
    obtain ⟨-, row, hrow, hleaving, -⟩ := h m hm
    exact Catalog.leaves_chunk.mpr ⟨row, hrow, hleaving⟩
  · rw [Image.without_of_cleared fun kind key hgone => by
      obtain ⟨rfl, hkey⟩ := only_eq_true.mp hgone
      obtain ⟨m, hm, rfl⟩ := List.mem_map.mp hkey
      exact (h m hm).1]
    have hbytes := Catalog.bytesOf_chunks hnodup fun m hm => by
      obtain ⟨-, row, hrow, -, hfreed⟩ := h m hm
      exact ⟨row, hrow, hfreed⟩
    have hchunks {ν : Type} (t : Table Id32 ν) :
        (t.filter fun key _ => !only .chunk (moved.map (·.objectKey)) .chunk key) =
          t.filter fun key _ => key ∉ moved.map (·.objectKey) :=
      Table.filter_congr fun key _ _ => by rw [only_self, decide_not]
    have hmanifests {ν : Type} (t : Table Id32 ν) :
        (t.filter fun id _ => !only .chunk (moved.map (·.objectKey)) .manifest id) = t := by
      simp [only, Table.filter]
    simp only [Image.rows, Catalog.without, hbytes, hchunks, hmanifests]
  · rw [List.length_map]
    exact hpending

end Kvpack.Store
