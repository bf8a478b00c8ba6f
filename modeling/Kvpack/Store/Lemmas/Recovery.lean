import Kvpack.Store.Lemmas.Manifests
import Kvpack.Store.Recovery

/-!
# What a crash can leave

Recovery treats every leftover as an error unless it is in a state it expects. On every reachable disk an object on
its way out has no references, rows carry identities that can be recorded, and every staging directory belongs to an
upload.
-/

namespace Kvpack.Store

open Base Kvpack.Core

variable {C : Crypto} {config : StoreConfig} {c c' : Catalog} {now : Nat} {e : Event} {d d' : Disk}
  {chunks chunks' : Table Id32 ChunkRow} {supportsEpoch : UInt64 → Bool}

/-! ## Leftovers in the catalog -/

/-- An object on its way out is not referred to, and its removal can be recorded. -/
def LeavingLoose (chunks : Table Id32 ChunkRow) : Prop :=
  ∀ key row, chunks.get? key = some row → row.locationState.leaving → row.refcount = 0 ∧ isZeroId key = false

theorem LeavingLoose.put {key : Id32} {row : ChunkRow} (h : LeavingLoose chunks)
    (hrow : row.locationState.leaving → row.refcount = 0 ∧ isZeroId key = false) :
    LeavingLoose (chunks.put key row) := by
  intro k r hget hleaving
  rw [Table.get?_put] at hget
  split at hget
  · rename_i hk
    cases hget
    exact hk ▸ hrow hleaving
  · exact h k r hget hleaving

theorem LeavingLoose.filter {keep : Id32 → ChunkRow → Bool} (h : LeavingLoose chunks) :
    LeavingLoose (chunks.filter keep) := by
  intro key row hget hleaving
  rw [Table.get?_filter, Option.filter_eq_some_iff] at hget
  exact h key row hget.1 hleaving

theorem leaving_iff {state : LocationState} : state.leaving ↔ state = .evicting ∨ state = .trashed := by
  cases state <;> simp [LocationState.leaving]

theorem ChunkChange.leavingLoose (h : ChunkChange chunks chunks') (hloose : LeavingLoose chunks) :
    LeavingLoose chunks' := by
  cases h with
  | recounted count hcount =>
    intro key row hget hleaving
    rw [Table.get?_map, Option.map_eq_some_iff] at hget
    obtain ⟨row, hrow, rfl⟩ := hget
    obtain ⟨hzero, hkey⟩ := hloose key row hrow hleaving
    refine ⟨hcount key row hrow (fun hstate => ?_) hzero, hkey⟩
    change row.locationState.leaving at hleaving
    rw [hstate] at hleaving
    cases hleaving
  | inserted object keyEpoch hnone hnew => exact hloose.put fun hleaving => by cases hleaving
  | filtered keep => exact hloose.filter
  | selected keys hnonzero hkeys =>
    intro key row hget hleaving
    rw [evictRows, Table.get?_map, Option.map_eq_some_iff] at hget
    obtain ⟨row, hrow, rfl⟩ := hget
    split at hleaving
    · rename_i hkey
      rw [if_pos hkey]
      exact ⟨hkeys key hkey row hrow, hnonzero key hkey⟩
    · rename_i hkey
      rw [if_neg hkey]
      exact hloose key row hrow hleaving
  | removed moved _ freed hremoval =>
    cases hremoval with
    | kept hkept => exact hloose
    | deleted row hrow hstate hcount => exact hloose.filter
    | trashed row hrow hstate hcount => exact absurd (hloose _ row hrow (leaving_iff.mpr hstate)).1 hcount
  | demoted victim _ freed hdemotion =>
    cases hdemotion with
    | kept hkept => exact hloose
    | quantized row hrow hstate hrung hvictim =>
      exact hloose.put fun hleaving => hloose victim.objectKey row hrow hleaving
    | dropped row hrow hstate hrung hvictim => exact hloose.put fun hleaving => by cases hleaving

/-- What recovery relies on in the catalog. -/
structure RecoverySound (c : Catalog) : Prop where
  uploads : ∀ key upload, c.uploads.get? key = some upload → isZeroId key = false ∧ upload.generation ≤ maxI64
  chunks : LeavingLoose c.chunks
  manifests : ∀ id, c.leavingManifest id → isZeroId id = false

theorem RecoverySound.initial : RecoverySound Catalog.initial where
  uploads _ _ h := by cases h
  chunks _ _ h := by cases h
  manifests _ h := by cases h

theorem UploadStep.uploadsValid (h : UploadStep config c c')
    (hc : ∀ key upload, c.uploads.get? key = some upload → isZeroId key = false ∧ upload.generation ≤ maxI64) :
    ∀ key upload, c'.uploads.get? key = some upload → isZeroId key = false ∧ upload.generation ≤ maxI64 := by
  have hput {k : Id32} {new : Upload} (hnew : isZeroId k = false ∧ new.generation ≤ maxI64) :
      ∀ key upload, (c.uploads.put k new).get? key = some upload →
        isZeroId key = false ∧ upload.generation ≤ maxI64 := by
    intro key upload hget
    rw [Table.get?_put] at hget
    split at hget
    · rename_i hkey
      cases hget
      exact hkey ▸ hnew
    · exact hc key upload hget
  cases h with
  | same huploads hreserved hdurable => rwa [huploads]
  | kept k old new hold hkeeps huploads hreserved hdurable =>
    rw [huploads]
    exact hput (hkeeps.generation ▸ hc k old hold)
  | reserved k new hold hzero hgeneration hstate huploads hreserved hdurable hstaging hquota =>
    rw [huploads]
    exact hput ⟨hzero, hgeneration⟩
  | released k old new hold hactive hended huploads hgeneration hreserved hdurable =>
    rw [huploads]
    exact hput (hgeneration ▸ hc k old hold)

theorem UploadStep.isSome {key : Id32} (h : UploadStep config c c') (hsome : (c.uploads.get? key).isSome) :
    (c'.uploads.get? key).isSome := by
  have hput (k : Id32) (new : Upload) : ((c.uploads.put k new).get? key).isSome := by
    rw [Table.get?_put]
    split
    · rfl
    · exact hsome
  cases h with
  | same huploads hreserved hdurable => rwa [huploads]
  | kept k old new hold hkeeps huploads hreserved hdurable => exact huploads ▸ hput k new
  | reserved k new hold hzero hgeneration hstate huploads hreserved hdurable hstaging hquota =>
    exact huploads ▸ hput k new
  | released k old new hold hactive hended huploads hgeneration hreserved hdurable => exact huploads ▸ hput k new

theorem ManifestStep.leavingManifest (h : ManifestStep C config now e c c')
    (hc : ∀ id, c.leavingManifest id → isZeroId id = false) : ∀ id, c'.leavingManifest id → isZeroId id = false := by
  intro id hleaving
  cases h with
  | kept _ hkept =>
    rw [Catalog.leavingManifest, hkept.locations] at hleaving
    exact hc id hleaving
  | published key publications he semantic family hvalidate upload tx _ hcommit =>
    obtain ⟨_, rfl⟩ := hcommit.result
    simp only [Catalog.leavingManifest, (publishEach_inserted hcommit.each).locations] at hleaving
    split at hleaving
    · cases hleaving
    · exact hc id hleaving
  | prefixDeleted prefixId he outbox => exact hc id hleaving
  | retired maximumObjects he _ hretire =>
    obtain ⟨_, _, _, rfl, -⟩ := retireKeyEpochsBefore_eq_ok hretire
    exact hc id hleaving
  | evicted m he _ eviction hevict =>
    have hzero := evictManifest_valid hevict
    obtain ⟨_, _, -, -, -, rfl⟩ := evictManifest_eq_ok hevict
    simp only [Catalog.leavingManifest, Table.get?_modify] at hleaving
    split at hleaving
    · rename_i hid
      rwa [hid]
    · exact hc id hleaving
  | evictionFinished eviction he _ hfinish =>
    have hkept : (c.locations.erase eviction.manifestId).get? id |>.any (·.leaving) := by
      obtain ⟨-, rfl⟩ | ⟨_, _, -, rfl⟩ := finishManifestEviction_eq_ok hfinish
      · exact hleaving
      · exact hleaving
    rw [Table.get?_erase] at hkept
    split at hkept
    · cases hkept
    · exact hc id hkept

theorem CatalogStep.recoverySound (h : CatalogStep C config now e c c') (hc : RecoverySound c) : RecoverySound c' where
  uploads := h.uploadStep.uploadsValid hc.uploads
  chunks := h.chunks_induct (fun _ _ hchange => hchange.leavingLoose) hc.chunks
  manifests := h.manifestStep.leavingManifest hc.manifests

/-! ## Several transactions in turn -/

/-- What the transactions of some steps do one after the other. -/
def CatalogSteps (C : Crypto) (config : StoreConfig) (c c' : Catalog) : Prop :=
  Relation.ReflTransGen (fun c c' => ∃ now e, CatalogStep C config now e c c') c c'

theorem CatalogStep.steps (h : CatalogStep C config now e c c') : CatalogSteps C config c c' := .single ⟨now, e, h⟩

theorem CatalogSteps.invariant {P : Catalog → Prop} (h : CatalogSteps C config c c')
    (hstep : ∀ now e c c', CatalogStep C config now e c c' → P c → P c') (hc : P c) : P c' := by
  induction h with
  | refl => exact hc
  | tail _ hlast ih =>
    obtain ⟨now, e, hlast⟩ := hlast
    exact hstep now e _ _ hlast ih

end Kvpack.Store
