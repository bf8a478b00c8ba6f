import Kvpack.Core.Theorems
import Kvpack.Store.Lemmas.Durable
import Kvpack.Store.Lemmas.References
import Kvpack.Store.Lemmas.Reservations

/-!
# The ledgers of the catalog

The reserved bytes, the reference counts and the durable bytes, in every state that the store can reach.
-/

namespace Kvpack.Store

open Base Kvpack.Core

variable {C : Crypto} {config : StoreConfig} {es : List Event}

/-! ## Reservations -/

/-- The reserved bytes are those of the active uploads, within both quotas, and no release is clamped. -/
theorem reservation_ledger_exact (C : Crypto) (config : StoreConfig) (es : List Event) :
    let c := (run (step C config) State.initial es).catalog
    c.reservedBytes = (c.uploads.sum fun _ upload => if upload.state.active then upload.reservedBytes else 0) ∧
      c.durableBytes + c.reservedBytes ≤ config.quotaBytes ∧
      c.reservedBytes ≤ config.stagingQuotaBytes ∧
      ∀ key upload, c.uploads.get? key = some upload → upload.state.active →
        upload.reservedBytes ≤ c.reservedBytes := by
  intro c
  have h : ReservationsExact config c := run_reservationsExact
  exact ⟨h.ledger, h.quota, h.staging, fun key upload hget hactive => h.reserved_le hget hactive⟩

/-! ## A small store -/

def byteConfig : StoreConfig where
  tenantNamespace := repeatedId 9
  keyEpoch := 1
  minimumReadableKeyEpoch := 1
  catalogEpoch := 1
  quotaBytes := 2 ^ 30
  stagingQuotaBytes := 2 ^ 29
  enduranceBytesPerFiveMinutes := 2 ^ 40
  quota_le := by decide
  stagingQuota_le := by decide

/-- An object of the least size there is. -/
def byteObject : ChunkObject := ⟨repeatedId 4, repeatedId 5, repeatedId 6, 2, List.replicate 8192 0⟩

def byteFull : CutManifest :=
  byteManifest .full 10 0 2 byteFull_stop byteFull_count [byteState ⟨0, "k"⟩ []] [⟨1, [⟨0, "k"⟩]⟩]

def bytePublication : PendingManifest where
  encoded := ⟨List.replicate 8916 0, repeatedId 81⟩
  manifest := byteFull
  prefixNode := ⟨2, repeatedId 10, true⟩
  exactFinal := true

def byteReservation : UploadReservation := ⟨65536, 1, repeatedId 3, ⟨500, 65536, 0⟩⟩

/-- The put of one object in the phase given, if it has started with it. -/
def putOf (object : ChunkObject) (phase : Option PutPhase) : Put := ⟨1, none, phase.toList.map fun p => ⟨object, p⟩⟩

/-- An object is written and catalogued. -/
def putEvents (object : ChunkObject) : List Event :=
  [.beginPut 1 none, .lookUp (putOf object none) object, .inspectTarget (putOf object (some .inspect)) 0,
    .linkTarget (putOf object (some .link)) 0, .catalogPut (putOf object (some (.done true)))]

/-- One upload from its reservation to its publication. -/
def uploadEvents (key : Id32) (object : ChunkObject) (publications : List PendingManifest) : List Event :=
  .transact (.reserve key byteReservation) :: putEvents object ++ [.transact (.publish key publications)]

/-! ## Reference counts -/

/-- Reference counts are exact, a referenced object is never collected, and an eviction's decrement is never clamped.
-/
theorem refcounts_exact (hids : ManifestIdsBind (es.flatMap Event.publications)) :
    let c := (run (step C config) State.initial es).catalog
    (∀ key row, c.chunks.get? key = some row → row.refcount = (referrers c.manifestChunks key).card) ∧
      (∀ keys now c' victims, selectVictims keys now c = .ok (c', victims) → ∀ key ∈ keys,
        (∀ k, c.manifestChunks.get? k ≠ some key) ∧
        ∀ p ∈ es.flatMap Event.publications, ∀ row, c.manifests.get? p.id = some row →
          ¬ c.tombstoned .manifest p.id → key ∉ p.objects) ∧
      ∀ m key row, key ∈ c.objectsOf m → c.chunks.get? key = some row → 1 ≤ row.refcount := by
  intro c
  have h : ReferencesExact (referencesIn (es.flatMap Event.publications)) c := run_referencesExact hids
  refine ⟨fun key row hrow => ?_, fun keys now c' victims hselect key hkey => ⟨fun k => h.selected hselect hkey, ?_⟩,
    fun m key row hkey hrow => ?_⟩
  · rw [← refcountOf_some hrow, h.counted]
  · intro p hp row hrow htomb hmem
    obtain ⟨r, hr, rfl⟩ := PendingManifest.mem_objects.mp hmem
    rw [← hids.referencesIn hp] at hr
    exact h.selected hselect hkey (h.complete p.id row hrow (by simpa [Catalog.tombstoned] using htomb) r hr)
  · rw [← refcountOf_some hrow, h.counted, Nat.succ_le_iff, Finset.card_pos]
    exact ⟨m, Catalog.mem_objectsOf.mp hkey⟩

theorem byteUpload_refcounts :
    ManifestIdsBind ((uploadEvents (repeatedId 20) byteObject [bytePublication]).flatMap Event.publications) ∧
      ∀ key row,
        (run (step checksumCrypto byteConfig) State.initial
          (uploadEvents (repeatedId 20) byteObject [bytePublication])).catalog.chunks.get? key = some row →
        row.refcount = (referrers (run (step checksumCrypto byteConfig) State.initial
          (uploadEvents (repeatedId 20) byteObject [bytePublication])).catalog.manifestChunks key).card := by
  have hids : ManifestIdsBind
      ((uploadEvents (repeatedId 20) byteObject [bytePublication]).flatMap Event.publications) := by
    unfold ManifestIdsBind
    decide
  exact ⟨hids, (refcounts_exact hids).1⟩

/-! ## Durable bytes -/

/-- While no upload is active, the durable bytes are those of the manifests and the objects with bytes, as long as
every step met the condition. -/
theorem durable_ledger_exact (hsteps : Along (step C config) (fun s e => ledgerStep s e) State.initial es) :
    let c := (run (step C config) State.initial es).catalog
    c.anyActive = false →
      c.durableBytes = (c.manifests.sum fun _ row => row.fileBytes) +
        c.chunks.sum fun _ row => if row.fidelityRung = .tombstone then 0 else row.objectBytes := by
  intro c hactive
  have hbalanced := (run_durableExact hsteps).balanced
  unfold Catalog.Balanced at hbalanced
  rw [hactive] at hbalanced
  exact hbalanced

/-- One upload, and the eviction of the manifest it published. -/
def byteLife : List Event :=
  uploadEvents (repeatedId 20) byteObject [bytePublication] ++
    [.evict (repeatedId 81), .finishEviction ⟨repeatedId 81, 8916⟩]

set_option maxRecDepth 20000 in
theorem byteLife_durable_exact :
    let c := (run (step checksumCrypto byteConfig) State.initial byteLife).catalog
    Along (step checksumCrypto byteConfig) (fun s e => ledgerStep s e) State.initial byteLife ∧
      c.anyActive = false ∧ c.durableBytes = 8192 ∧
      c.durableBytes = (c.manifests.sum fun _ row => row.fileBytes) +
        c.chunks.sum fun _ row => if row.fidelityRung = .tombstone then 0 else row.objectBytes := by
  intro c
  have hsteps : Along (step checksumCrypto byteConfig) (fun s e => ledgerStep s e) State.initial byteLife := by
    decide +kernel
  have hend : c.anyActive = false ∧ c.durableBytes = 8192 := by decide +kernel
  exact ⟨hsteps, hend.1, hend.2, durable_ledger_exact hsteps hend.1⟩

set_option maxRecDepth 20000 in
/-- An aborted upload leaves its object in the catalog, and nobody is charged. -/
theorem abandonedPut_uncharged :
    let c := (run (step checksumCrypto byteConfig) State.initial
      (.transact (.reserve (repeatedId 20) byteReservation) :: putEvents byteObject ++
        [.transact (.abort (repeatedId 20))])).catalog
    c.anyActive = false ∧ c.durableBytes = 0 ∧
      ((c.manifests.sum fun _ row => row.fileBytes) +
        c.chunks.sum fun _ row => if row.fidelityRung = .tombstone then 0 else row.objectBytes) = 8192 := by
  decide +kernel

end Kvpack.Store
