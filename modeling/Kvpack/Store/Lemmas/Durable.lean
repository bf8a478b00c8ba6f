import Kvpack.Store.Lemmas.Steps

/-!
# The durable-byte ledger

An object is charged when the first manifest that refers to it is published and released when its row is collected or
demoted to a tombstone. A row without references has been charged exactly when no upload is active; the steps that
could break this are the subject of `ledgerStep`.
-/

namespace Kvpack.Store

open Base Kvpack.Core

variable {C : Crypto} {config : StoreConfig} {c c' : Catalog} {now : Nat} {key : Id32} {s s' : State}
  {chunks chunks' : Table Id32 ChunkRow}
variable {f : Id32 → ChunkRow → ChunkRow} {moved : Moved} {freed : Nat} {upload : Upload}

/-! ## Bytes -/

def ChunkRow.storedBytes (row : ChunkRow) : Nat := if row.fidelityRung = .tombstone then 0 else row.objectBytes

/-- A row that can be served and that nothing refers to. -/
def ChunkRow.unreferenced (row : ChunkRow) : Prop := row.locationState = .available ∧ row.refcount = 0

instance (row : ChunkRow) : Decidable row.unreferenced := inferInstanceAs (Decidable (_ ∧ _))

def ChunkRow.looseBytes (row : ChunkRow) : Nat := if row.unreferenced then row.objectBytes else 0

def storedBytes (chunks : Table Id32 ChunkRow) : Nat := chunks.sum fun _ row => row.storedBytes
def looseBytes (chunks : Table Id32 ChunkRow) : Nat := chunks.sum fun _ row => row.looseBytes
def manifestBytes (manifests : Table Id32 ManifestRow) : Nat := manifests.sum fun _ row => row.fileBytes

/-- The location and the rung of a row agree on whether it has bytes. -/
structure ChunkRow.RungSound (row : ChunkRow) : Prop where
  available : row.locationState = .available → row.fidelityRung ≠ .tombstone
  tombstoned : row.locationState = .tombstoned → row.fidelityRung = .tombstone

def RungsSound (chunks : Table Id32 ChunkRow) : Prop := ∀ key row, chunks.get? key = some row → row.RungSound

theorem ChunkRow.looseBytes_le {row : ChunkRow} (h : row.RungSound) : row.looseBytes ≤ row.storedBytes := by
  unfold looseBytes
  split
  · rename_i hloose
    rw [storedBytes, if_neg (h.available hloose.1)]
  · exact Nat.zero_le _

theorem looseBytes_le (h : RungsSound chunks) : looseBytes chunks ≤ storedBytes chunks :=
  Table.sum_le_sum fun key row hrow => ChunkRow.looseBytes_le (h key row hrow)

theorem storedBytes_map (hf : ∀ k row, (f k row).storedBytes = row.storedBytes) :
    storedBytes (chunks.map f) = storedBytes chunks :=
  Table.sum_map.trans (Table.sum_congr fun k row _ => hf k row)

/-! ## Rungs -/

theorem RungsSound.put {row : ChunkRow} (h : RungsSound chunks) (hrow : row.RungSound) :
    RungsSound (chunks.put key row) := by
  intro k row' hk
  rw [Table.get?_put] at hk
  split at hk
  · cases hk
    exact hrow
  · exact h k row' hk

theorem RungsSound.erase (h : RungsSound chunks) : RungsSound (chunks.erase key) := by
  intro k row hk
  rw [Table.get?_erase] at hk
  split at hk
  · cases hk
  · exact h k row hk

theorem RungsSound.map (h : RungsSound chunks)
    (hf : ∀ k row, row.RungSound → (f k row).RungSound) : RungsSound (chunks.map f) := by
  intro k row hk
  rw [Table.get?_map, Option.map_eq_some_iff] at hk
  obtain ⟨row', hrow', rfl⟩ := hk
  exact hf k row' (h k row' hrow')

theorem RowRemoval.rungsSound (hremoval : RowRemoval moved chunks chunks' freed)
    (h : RungsSound chunks) : RungsSound chunks' := by
  cases hremoval with
  | kept hkept => exact h
  | deleted row hrow hstate hcount => exact h.erase
  | trashed row hrow hstate hcount => exact h.put ⟨by simp, by simp⟩

theorem RowDemotion.rungsSound {victim : Demoted} (hdemotion : RowDemotion victim chunks chunks' freed)
    (h : RungsSound chunks) : RungsSound chunks' := by
  cases hdemotion with
  | kept hkept => exact h
  | quantized row hrow hstate hrung hvictim => exact h.put ⟨by simp, by simp [hstate]⟩
  | dropped row hrow hstate hrung hvictim => exact h.put ⟨by simp, by simp⟩

theorem ChunkChange.rungsSound (h : ChunkChange chunks chunks') (hsound : RungsSound chunks) : RungsSound chunks' := by
  cases h with
  | recounted count hcount => exact hsound.map fun _ _ hrow => ⟨hrow.available, hrow.tombstoned⟩
  | inserted object keyEpoch hnone hnew =>
    exact hsound.put ⟨by simp [ChunkRow.ofObject], by simp [ChunkRow.ofObject]⟩
  | filtered keep =>
    intro key row hrow
    rw [Table.get?_filter, Option.filter_eq_some_iff] at hrow
    exact hsound key row hrow.1
  | selected keys hnonzero hloose =>
    refine hsound.map fun k row hrow => ?_
    split
    · exact ⟨by simp [ChunkRow.evict], by simp [ChunkRow.evict]⟩
    · exact hrow
  | removed moved _ freed h => exact h.rungsSound hsound
  | demoted victim _ freed h => exact h.rungsSound hsound

/-! ## Rows that a collection owns -/

/-- A victim of a collection in progress; its size is known once it was checked. -/
structure Entry where
  objectKey : Id32
  wasTombstoned : Bool
  objectBytes : Option Nat

def Victim.entry (victim : Victim) : Entry := ⟨victim.objectKey, victim.wasTombstoned, none⟩
def Moved.entry (moved : Moved) : Entry := ⟨moved.objectKey, moved.wasTombstoned, some moved.objectBytes⟩

def Collection.entries (collection : Collection) : List Entry :=
  collection.pending.map Victim.entry ++ (collection.current.toList.map Moved.entry ++
    collection.moved.map Moved.entry)

def ChunkRow.taken (row : ChunkRow) : Prop := row.locationState = .evicting ∨ row.locationState = .trashed

/-- The row of a victim is still the one that was selected. -/
structure Entry.Owns (entry : Entry) (row : ChunkRow) : Prop where
  taken : row.taken
  rung : entry.wasTombstoned = true ↔ row.fidelityRung = .tombstone
  bytes : ∀ bytes ∈ entry.objectBytes, bytes = row.objectBytes

structure Owned (chunks : Table Id32 ChunkRow) (entries : List Entry) : Prop where
  rows : ∀ entry ∈ entries, ∃ row, chunks.get? entry.objectKey = some row ∧ entry.Owns row
  nodup : (entries.map (·.objectKey)).Nodup

theorem Owned.perm {entries entries' : List Entry} (h : Owned chunks entries) (hperm : entries.Perm entries') :
    Owned chunks entries' :=
  ⟨fun entry hentry => h.rows entry (hperm.mem_iff.mpr hentry), (hperm.map _).nodup_iff.mp h.nodup⟩

theorem Owned.of_taken {entries : List Entry} (h : Owned chunks entries)
    (hrows : ∀ key row, chunks.get? key = some row → row.taken → ∃ row', chunks'.get? key = some row' ∧
      row'.locationState = row.locationState ∧ row'.fidelityRung = row.fidelityRung ∧
      row'.objectBytes = row.objectBytes) : Owned chunks' entries := by
  refine ⟨fun entry hentry => ?_, h.nodup⟩
  obtain ⟨row, hrow, howns⟩ := h.rows entry hentry
  obtain ⟨row', hrow', hstate, hrung, hbytes⟩ := hrows _ row hrow howns.taken
  refine ⟨row', hrow', ?_, ?_, ?_⟩
  · rw [ChunkRow.taken, hstate]
    exact howns.taken
  · rw [hrung]
    exact howns.rung
  · rw [hbytes]
    exact howns.bytes

theorem Owned.of_cons {entry : Entry} {entries : List Entry} (h : Owned chunks (entry :: entries)) :
    Owned chunks entries :=
  ⟨fun e he => h.rows e (List.mem_cons_of_mem _ he), (List.nodup_cons.mp h.nodup).2⟩

theorem Owned.replace {entry entry' : Entry} {entries : List Entry} (h : Owned chunks (entry :: entries))
    (hkey : entry'.objectKey = entry.objectKey)
    (howns : ∀ row, chunks.get? entry.objectKey = some row → entry.Owns row → entry'.Owns row) :
    Owned chunks (entry' :: entries) := by
  refine ⟨fun e he => ?_, ?_⟩
  · rcases List.mem_cons.mp he with rfl | he
    · obtain ⟨row, hrow, hentry⟩ := h.rows entry List.mem_cons_self
      exact ⟨row, by rw [hkey, hrow], howns row hrow hentry⟩
    · exact h.rows e (List.mem_cons_of_mem _ he)
  · rw [List.map_cons, hkey]
    exact h.nodup

theorem entries_perm {collections : List Collection} {collection : Collection} (h : collection ∈ collections) :
    (collections.flatMap Collection.entries).Perm
      (collection.entries ++ (collections.erase collection).flatMap Collection.entries) := by
  rw [← List.flatMap_cons]
  exact (List.perm_cons_erase h).flatMap_right _

theorem RowRemoval.owned {entries : List Entry}
    (hremoval : RowRemoval moved chunks chunks' freed) (h : Owned chunks (moved.entry :: entries)) :
    Owned chunks' entries ∧ storedBytes chunks' + freed = storedBytes chunks ∧
      looseBytes chunks' = looseBytes chunks := by
  obtain ⟨row, hrow, howns⟩ : ∃ row, chunks.get? moved.objectKey = some row ∧ _ :=
    h.rows moved.entry List.mem_cons_self
  have hrung : moved.wasTombstoned = true ↔ row.fidelityRung = .tombstone := howns.rung
  have hne : ∀ entry ∈ entries, entry.objectKey ≠ moved.objectKey := fun entry hentry heq =>
    (List.nodup_cons.mp h.nodup).1 (List.mem_map.mpr ⟨entry, hentry, heq⟩)
  have hloose : row.looseBytes = 0 := by
    refine if_neg fun hunreferenced => ?_
    rcases howns.taken with hstate | hstate <;> rw [hunreferenced.1] at hstate <;> cases hstate
  cases hremoval with
  | kept hkept => exact absurd howns.taken (hkept row hrow)
  | deleted row' hrow' hstate hcount =>
    obtain rfl : row = row' := by rwa [hrow', Option.some.injEq, eq_comm] at hrow
    refine ⟨⟨fun entry hentry => ?_, (List.nodup_cons.mp h.nodup).2⟩, ?_, ?_⟩
    · rw [Table.get?_erase, if_neg (hne entry hentry)]
      exact h.rows entry (List.mem_cons_of_mem _ hentry)
    · have hsum := Table.sum_eq_add_erase (w := fun _ row => row.storedBytes) hrow'
      have hbytes : moved.objectBytes = row.objectBytes := howns.bytes _ rfl
      have hfreed : (if moved.wasTombstoned then 0 else moved.objectBytes) = row.storedBytes := by
        rw [hbytes, ChunkRow.storedBytes]
        simp only [hrung]
      unfold storedBytes
      omega
    · have hsum := Table.sum_eq_add_erase (w := fun _ row => row.looseBytes) hrow'
      unfold looseBytes
      omega
  | trashed row' hrow' hstate hcount =>
    obtain rfl : row = row' := by rwa [hrow', Option.some.injEq, eq_comm] at hrow
    refine ⟨⟨fun entry hentry => ?_, (List.nodup_cons.mp h.nodup).2⟩, ?_, ?_⟩
    · rw [Table.get?_put, if_neg (hne entry hentry)]
      exact h.rows entry (List.mem_cons_of_mem _ hentry)
    · have hsum := Table.sum_put_of_some (v := { row with locationState := .trashed })
        (w := fun _ row => row.storedBytes) hrow'
      exact Nat.add_right_cancel (hsum.trans (Nat.add_comm _ _))
    · have hsum := Table.sum_put_of_some (v := { row with locationState := .trashed })
        (w := fun _ row => row.looseBytes) hrow'
      have hzero : ChunkRow.looseBytes { row with locationState := .trashed } = 0 :=
        if_neg fun hunreferenced => by cases hunreferenced.1
      unfold looseBytes
      omega

/-! ## Which uploads are active -/

def Catalog.othersActive (c : Catalog) (key : Id32) : Bool :=
  c.uploads.any fun k upload => decide (k ≠ key) && upload.state.active

def Catalog.onlyActive (c : Catalog) (key : Id32) : Bool :=
  (c.uploads.get? key).any (·.state.active) && !c.othersActive key

theorem anyActive_of_get? (h : c.uploads.get? key = some upload) :
    c.anyActive = (upload.state.active || c.othersActive key) := Table.any_of_get? h

theorem anyActive_of_put (h : c'.uploads = c.uploads.put key upload) :
    c'.anyActive = (upload.state.active || c.othersActive key) := by
  rw [Catalog.anyActive, h]
  exact Table.any_put

theorem anyActive_of_keeps {upload' : Upload} (hget : c.uploads.get? key = some upload)
    (hkeeps : upload.Keeps upload') (huploads : c'.uploads = c.uploads.put key upload') :
    c'.anyActive = c.anyActive := by
  rw [anyActive_of_put huploads, anyActive_of_get? hget, hkeeps.active]

/-! ## The steps that keep the ledger -/

def Catalog.noneLoose (c : Catalog) : Bool := !c.chunks.any fun _ row => decide row.unreferenced

theorem looseBytes_of_noneLoose (h : c.noneLoose) : looseBytes c.chunks = 0 := by
  refine Table.sum_eq_zero fun key row hrow => if_neg ?_
  simp only [Catalog.noneLoose, Bool.not_eq_true', Table.any_eq_false, decide_eq_false_iff_not] at h
  exact h key row hrow

/-- The condition on a step: an unreferenced object is there exactly while an active upload will publish it, a
manifest published during its eviction has the same size, and a demotion finds the rows it selected. -/
def ledgerStep (s : State) : Event → Bool
  | .transact (.reserve _ _) => s.catalog.anyActive || s.catalog.noneLoose
  | .transact (.abort key) => !s.catalog.onlyActive key || s.catalog.noneLoose
  | .transact (.quarantine key) => !s.catalog.onlyActive key || s.catalog.noneLoose
  | .transact (.publish key publications) =>
    (!s.catalog.onlyActive key || s.catalog.chunks.rows.all fun r => !decide r.2.unreferenced ||
      publications.any fun p => (s.catalog.manifests.get? p.id).isNone && decide (r.1 ∈ p.objects)) &&
    publications.all fun p => s.evictions.all fun eviction =>
      decide (eviction.manifestId = p.id → eviction.fileBytes = p.encoded.bytes.length)
  | .catalogPut put =>
    s.catalog.anyActive || put.items.all fun item => s.catalog.chunkTaken item.object put.keyEpoch
  | .demoteVictims victims => victims.all fun victim =>
    (s.catalog.chunks.get? victim.objectKey).all fun row =>
      decide (row.locationState = .available → row.fidelityRung = .restQuantized → victim.rung = .restQuantized →
        row.objectBytes = victim.objectBytes ∧ (s.catalog.anyActive → row.refcount ≠ 0))
  | .cleanupPromotion _ _ => false
  | _ => true

def Catalog.Balanced (c : Catalog) : Prop :=
  c.durableBytes + (if c.anyActive then looseBytes c.chunks else 0) = manifestBytes c.manifests + storedBytes c.chunks

structure DurableExact (s : State) : Prop where
  balanced : s.catalog.Balanced
  evictions : ∀ eviction ∈ s.evictions, ∀ row, s.catalog.manifests.get? eviction.manifestId = some row →
    row.fileBytes = eviction.fileBytes
  owned : Owned s.catalog.chunks (s.collections.flatMap Collection.entries)
  demotions : ∀ victims ∈ s.demotions, (victims.map (·.objectKey)).Nodup

/-- Steps that keep the objects keep the rest, if they keep the balance. -/
theorem DurableExact.of_keepsObjects (h : DurableExact s) (hkept : KeepsObjects s.catalog c')
    (hbalanced : c'.Balanced) : DurableExact { s with catalog := c' } where
  balanced := hbalanced
  evictions := by rw [hkept.manifests]; exact h.evictions
  owned := by rw [hkept.chunks]; exact h.owned
  demotions := h.demotions

theorem Catalog.Balanced.of_active (h : c.Balanced) (hkept : KeepsObjects c c') (hactive : c'.anyActive = c.anyActive) :
    c'.Balanced := by
  unfold Balanced
  rw [hkept.durableBytes, hactive, hkept.chunks, hkept.manifests]
  exact h

/-- Without loose bytes it does not matter whether an upload is active. -/
theorem Catalog.Balanced.of_noneLoose (h : c.Balanced) (hkept : KeepsObjects c c') (hloose : c.noneLoose) :
    c'.Balanced := by
  unfold Balanced at h ⊢
  rw [hkept.durableBytes, hkept.chunks, hkept.manifests]
  rw [looseBytes_of_noneLoose hloose, ite_self] at h ⊢
  exact h

theorem DurableExact.transact {t : Transaction} (h : DurableExact s) (hok : ledgerStep s (.transact t))
    (hstep : TransactionStep config now t s.catalog c') : DurableExact { s with catalog := c' } := by
  have hkept := hstep.keepsObjects
  refine h.of_keepsObjects hkept ?_
  cases hstep with
  | recorded outbox => exact h.balanced.of_active hkept rfl
  | touched key _ honly upload upload' hget hkeeps huploads hreserved =>
    exact h.balanced.of_active hkept (anyActive_of_keeps hget hkeeps huploads)
  | reserved key reservation ht row hget hstate hbytes hgeneration _ hadmit =>
    subst ht
    obtain ⟨-, -, _, _, rfl⟩ := admitReservation_eq_ok hadmit
    simp only [ledgerStep, Bool.or_eq_true] at hok
    rcases hok with hactive | hloose
    · refine h.balanced.of_active hkept ?_
      rw [anyActive_of_put rfl, hactive, hstate]
      rfl
    · exact h.balanced.of_noneLoose hkept hloose
  | released key ht state hstate _ hreleased =>
    have hend : !s.catalog.onlyActive key || s.catalog.noneLoose := by rcases ht with rfl | rfl <;> exact hok
    obtain ⟨upload, _, hget, hactive, rfl⟩ := hreleased
    simp only [Bool.or_eq_true, Bool.not_eq_true', Catalog.onlyActive, hget, Option.any_some, hactive,
      Bool.true_and, Bool.not_eq_false'] at hend
    rcases hend with hothers | hloose
    · refine h.balanced.of_active hkept ?_
      rw [anyActive_of_put rfl, anyActive_of_get? hget, hothers, Bool.or_true, Bool.or_true]
    · exact h.balanced.of_noneLoose hkept hloose
  | retired maximumObjects _ ht hretire =>
    refine h.balanced.of_active hkept ?_
    obtain ⟨_, _, _, rfl, -, -⟩ := retireKeyEpochsBefore_eq_ok hretire
    rfl
  | deleted prefixId _ ht hdelete =>
    refine h.balanced.of_active hkept ?_
    obtain ⟨_, rfl⟩ := deletePrefix_eq_ok hdelete
    rfl
  | onPins _ | onLeases _ _ => exact h.balanced.of_active hkept rfl

/-! ## Publication -/

section Publication

variable {semantic family : Id32} {generation : Nat} {publications : List PendingManifest} {tx : Publishing}

theorem manifestBytes_publishEach (h : publishEach semantic family generation publications ⟨c, []⟩ = .ok tx) :
    manifestBytes tx.catalog.manifests = manifestBytes c.manifests + newManifestBytes tx.inserted := by
  refine publishEach_induct (P := fun _ tx => manifestBytes tx.catalog.manifests =
    manifestBytes c.manifests + newManifestBytes tx.inserted) h rfl ?_
  intro _ p _ tx tx' _ hone hbytes
  cases hone with
  | existing row hrow hagrees => exact hbytes
  | inserted manifestChunks hnone hreferenced =>
    have hsum : manifestBytes (tx.catalog.manifests.put p.id (p.row semantic family generation)) =
        p.encoded.bytes.length + manifestBytes tx.catalog.manifests := Table.sum_put_of_none hnone
    have hnew : newManifestBytes (tx.inserted ++ [p]) = newManifestBytes tx.inserted + p.encoded.bytes.length := by
      simp [newManifestBytes]
    rw [hsum, hnew, hbytes]
    omega

theorem storedBytes_referencedChunks (inserted : List PendingManifest) :
    storedBytes (referencedChunks inserted chunks) = storedBytes chunks := storedBytes_map fun _ _ => rfl

/-- Publication charges exactly the loose objects that it refers to. -/
theorem Inserted.looseBytes (h : Inserted semantic family generation c publications tx) :
    looseBytes (referencedChunks tx.inserted c.chunks) + newChunkBytes c tx.inserted = looseBytes c.chunks := by
  have hmap : Store.looseBytes (referencedChunks tx.inserted c.chunks) = c.chunks.sum fun key row =>
      ChunkRow.looseBytes { row with refcount := row.refcount + refcountIncrement tx.inserted key } := Table.sum_map
  rw [hmap, newChunkBytes, ← Table.sum_add]
  refine Table.sum_congr fun key row hrow => ?_
  by_cases hincrement : refcountIncrement tx.inserted key = 0
  · simp [hincrement]
  · obtain ⟨q, hq, hkey⟩ := refcountIncrement_ne_zero.mp hincrement
    obtain ⟨r, hr, rfl⟩ := List.mem_map.mp (List.mem_dedup.mp hkey)
    obtain ⟨row', hrow', hserves⟩ := h.served q hq r hr
    obtain rfl : row = row' := by rwa [hrow, Option.some.injEq] at hrow'
    simp [ChunkRow.looseBytes, ChunkRow.unreferenced, hincrement, hserves.1]

theorem DurableExact.publish {upload : Upload} (h : DurableExact s)
    (hok : ledgerStep s (.transact (.publish key publications))) (hnodup : (publications.map (·.id)).Nodup)
    (hget : s.catalog.uploads.get? key = some upload)
    (hcommit : Committed key semantic family publications upload tx s.catalog c') :
    DurableExact { s with catalog := c' } := by
  have hinserted := publishEach_inserted hcommit.each
  have hloose := hinserted.looseBytes
  have hmanifests := manifestBytes_publishEach hcommit.each
  have hactive := hcommit.active
  simp only [ledgerStep, Bool.and_eq_true, Bool.or_eq_true, Bool.not_eq_true', List.all_eq_true, List.any_eq_true,
    decide_eq_true_eq, Option.isNone_iff_eq_none, decide_eq_false_iff_not] at hok
  obtain ⟨hend, hevictions⟩ := hok
  obtain ⟨outbox, rfl⟩ := hcommit.result
  refine ⟨?_, fun eviction heviction row hrow => ?_, h.owned.of_taken ?_, h.demotions⟩
  · have hbalanced := h.balanced
    unfold Catalog.Balanced at hbalanced ⊢
    rw [anyActive_of_get? hget, hactive, Bool.true_or, if_pos rfl] at hbalanced
    rw [anyActive_of_put rfl]
    change s.catalog.durableBytes + (newChunkBytes s.catalog tx.inserted + newManifestBytes tx.inserted) +
      (if s.catalog.othersActive key then looseBytes (referencedChunks tx.inserted s.catalog.chunks) else 0) =
      manifestBytes tx.catalog.manifests + storedBytes (referencedChunks tx.inserted s.catalog.chunks)
    rw [storedBytes_referencedChunks, hmanifests]
    split
    · omega
    · rename_i hothers
      -- the last active upload leaves no loose object behind
      have hzero : Store.looseBytes (referencedChunks tx.inserted s.catalog.chunks) = 0 := by
        refine Table.sum_eq_zero fun k row hrow => if_neg fun hunreferenced => ?_
        rw [referencedChunks, Table.get?_map, Option.map_eq_some_iff] at hrow
        obtain ⟨row, hrow, rfl⟩ := hrow
        obtain ⟨havailable, hcount⟩ := hunreferenced
        simp only [Nat.add_eq_zero_iff] at hcount
        rcases hend with honly | hend
        · simp [Catalog.onlyActive, hget, hactive] at honly
          exact hothers honly
        · rcases hend (k, row) (Table.get?_eq_some_iff.mp hrow) with hnot | ⟨p, hp, habsent, hkey⟩
          · exact hnot ⟨havailable, hcount.1⟩
          · obtain ⟨row', hrow', -⟩ := hinserted.present p hp
            rcases (hinserted.manifests _ _).mp hrow' with hold | ⟨q, hq, hid, -⟩
            · rw [habsent] at hold
              cases hold
            · obtain rfl := eq_of_id_eq hnodup (hinserted.subset q hq) hp hid
              exact refcountIncrement_ne_zero.mpr ⟨q, hq, hkey⟩ hcount.2
      omega
  · rcases (hinserted.manifests _ _).mp hrow with hrow | ⟨q, hq, hid, rfl⟩
    · exact h.evictions eviction heviction row hrow
    · exact (hevictions q (hinserted.subset q hq) eviction heviction hid.symm).symm
  · intro k row hrow _
    refine ⟨{ row with refcount := row.refcount + refcountIncrement tx.inserted k }, ?_, rfl, rfl, rfl⟩
    rw [referencedChunks, Table.get?_map, hrow]
    rfl

end Publication

variable {eviction : Eviction} {victim : Demoted} {freed : Nat}

/-! ## Puts -/

theorem DurableExact.catalogPut {objects : List ChunkObject} {keyEpoch : UInt64} {ledger : Option (Id32 × Nat)}
    {result : List CatalogedChunk} (h : DurableExact s)
    (hok : s.catalog.anyActive ∨ ∀ object ∈ objects, s.catalog.chunkTaken object keyEpoch)
    (hcatalog : catalogChunks objects keyEpoch ledger s.catalog = .ok (c', result)) :
    DurableExact { s with catalog := c' } := by
  obtain ⟨c₁, heach, htouched⟩ := catalogChunks_eq_ok hcatalog
  -- the rows of the put are as loose as they are stored
  obtain ⟨chunks, rfl, hstored, hrows⟩ := catalogEach_eq_ok
    (P := fun chunks => (if s.catalog.anyActive then
        storedBytes chunks + looseBytes s.catalog.chunks = storedBytes s.catalog.chunks + looseBytes chunks
        else chunks = s.catalog.chunks) ∧
      ∀ key row, s.catalog.chunks.get? key = some row → chunks.get? key = some row) heach
    ⟨by split <;> rfl, fun _ _ h => h⟩ (by
      intro object hobject c₂ htaken ⟨hP, hrows⟩
      obtain ⟨hnone, -⟩ := chunkTaken_eq_false htaken
      refine ⟨?_, fun key row hrow => ?_⟩
      · split at hP
        · rename_i hactive
          rw [if_pos hactive]
          have hstored : storedBytes (c₂.chunks.put object.objectKey (ChunkRow.ofObject object keyEpoch)) =
              object.bytes.length + storedBytes c₂.chunks := Table.sum_put_of_none hnone
          have hloose : looseBytes (c₂.chunks.put object.objectKey (ChunkRow.ofObject object keyEpoch)) =
              object.bytes.length + looseBytes c₂.chunks := Table.sum_put_of_none hnone
          omega
        · rename_i hactive
          have htaken' := (hok.resolve_left hactive) object hobject
          rw [Catalog.chunkTaken, Catalog.canonicalChunk, hP] at htaken
          rw [Catalog.chunkTaken, Catalog.canonicalChunk, htaken] at htaken'
          cases htaken'
      · have hget := hrows key row hrow
        rw [Table.get?_put, if_neg, hget]
        rintro rfl
        rw [hnone] at hget
        cases hget)
  have hcataloged : DurableExact { s with catalog := { s.catalog with chunks } } := by
    refine ⟨?_, h.evictions, h.owned.of_taken fun key row hrow _ => ⟨row, hrows key row hrow, rfl, rfl, rfl⟩,
      h.demotions⟩
    have hbalanced := h.balanced
    unfold Catalog.Balanced at hbalanced ⊢
    change s.catalog.durableBytes + (if s.catalog.anyActive then looseBytes chunks else 0) =
      manifestBytes s.catalog.manifests + storedBytes chunks
    split at hstored
    · rename_i hactive
      rw [if_pos hactive] at hbalanced ⊢
      omega
    · rename_i hactive
      rw [if_neg hactive] at hbalanced ⊢
      rw [hstored]
      exact hbalanced
  obtain rfl | ⟨key, upload, upload', _, hget, rfl, hkeeps, -⟩ := htouched
  · exact hcataloged
  · exact ⟨hcataloged.balanced.of_active ⟨rfl, rfl, rfl, rfl, rfl, List.Subset.refl _⟩
      (anyActive_of_keeps hget hkeeps rfl), hcataloged.evictions, hcataloged.owned, hcataloged.demotions⟩

/-! ## Evictions -/

theorem storedBytes_le (h : c.Balanced) (hrungs : RungsSound c.chunks) :
    manifestBytes c.manifests ≤ c.durableBytes := by
  have hle := looseBytes_le hrungs
  unfold Catalog.Balanced at h
  split at h <;> omega

theorem DurableExact.evict {id : Id32} (h : DurableExact s)
    (hevict : evictManifest id now s.catalog = .ok (c', eviction)) :
    DurableExact { s with catalog := c', evictions := eviction :: s.evictions } := by
  obtain ⟨row, outbox, hrow, hevictable, rfl, rfl⟩ := evictManifest_eq_ok hevict
  simp only [Catalog.evictable, Bool.and_eq_true, Bool.not_eq_true'] at hevictable
  have hbalanced := h.balanced
  refine ⟨?_, ?_, h.owned.of_taken ?_, h.demotions⟩
  · unfold Catalog.Balanced at hbalanced ⊢
    rw [hevictable.2] at hbalanced
    change s.catalog.durableBytes + (if s.catalog.anyActive then _ else 0) =
      manifestBytes s.catalog.manifests + storedBytes (s.catalog.chunks.map _)
    rw [hevictable.2, storedBytes_map]
    · exact hbalanced
    · intro k row
      split <;> rfl
  · intro eviction heviction
    rcases List.mem_cons.mp heviction with rfl | heviction
    · intro row' hrow'
      rw [show s.catalog.manifests.get? id = some row' from hrow', Option.some.injEq] at hrow
      rw [hrow]
    · exact h.evictions eviction heviction
  · intro k row hrow _
    refine ⟨_, by rw [Table.get?_map, hrow]; rfl, ?_⟩
    dsimp only
    split <;> exact ⟨rfl, rfl, rfl⟩

theorem DurableExact.finishEviction (h : DurableExact s) (hrungs : RungsSound s.catalog.chunks)
    (heviction : eviction ∈ s.evictions) (hfinish : finishManifestEviction eviction now s.catalog = .ok c') :
    DurableExact { s with catalog := c', evictions := s.evictions.erase eviction } := by
  obtain ⟨-, rfl⟩ | ⟨row, outbox, hrow, rfl⟩ := finishManifestEviction_eq_ok hfinish
  · exact ⟨h.balanced, fun ev hev => h.evictions ev (List.mem_of_mem_erase hev), h.owned, h.demotions⟩
  · refine ⟨?_, fun ev hev row' hrow' => ?_, h.owned, h.demotions⟩
    · have hbalanced := h.balanced
      have hle := storedBytes_le hbalanced hrungs
      have hbytes := h.evictions eviction heviction row hrow
      have hsum : manifestBytes s.catalog.manifests =
          row.fileBytes + manifestBytes (s.catalog.manifests.erase eviction.manifestId) := Table.sum_eq_add_erase hrow
      unfold Catalog.Balanced at hbalanced ⊢
      change s.catalog.durableBytes - eviction.fileBytes +
        (if s.catalog.anyActive then looseBytes s.catalog.chunks else 0) =
        manifestBytes (s.catalog.manifests.erase eviction.manifestId) + storedBytes s.catalog.chunks
      omega
    · refine h.evictions ev (List.mem_of_mem_erase hev) row' ?_
      rw [Table.get?_erase] at hrow'
      split at hrow'
      · cases hrow'
      · exact hrow'

/-! ## Collections -/

theorem DurableExact.selectVictims {keys : List Id32} {victims : List Victim} (h : DurableExact s)
    (hrungs : RungsSound s.catalog.chunks) (hselect : selectVictims keys now s.catalog = .ok (c', victims)) :
    DurableExact { s with catalog := c', collections := ⟨victims, none, []⟩ :: s.collections } := by
  obtain ⟨hne, hnodup, hcollectable, rfl, tombstones, outbox, rfl, -⟩ := selectVictims_eq_ok hselect
  have hrow : ∀ key ∈ keys, ∃ row, s.catalog.chunks.get? key = some row ∧
      (row.locationState = .available ∨ row.locationState = .tombstoned) ∧ s.catalog.anyActive = false := by
    intro key hkey
    obtain ⟨row, hrow, -, hstate, -, hactive⟩ := Catalog.collectable_eq_true.mp (hcollectable key hkey)
    exact ⟨row, hrow, hstate, hactive⟩
  -- a row that a collection owns is in neither of the states that can be selected
  have hfree : ∀ key ∈ keys, ∀ row, s.catalog.chunks.get? key = some row → ¬ row.taken := by
    intro key hkey row hget htaken
    obtain ⟨row', hrow', hstate, -⟩ := hrow key hkey
    rw [hget, Option.some.injEq] at hrow'
    subst hrow'
    rcases htaken with htaken | htaken <;> rw [htaken] at hstate <;> rcases hstate with hstate | hstate <;>
      cases hstate
  have hother : ∀ key, key ∉ keys → (evictRows keys s.catalog.chunks).get? key = s.catalog.chunks.get? key := by
    intro key hkey
    rw [evictRows, Table.get?_map]
    simp [hkey]
  have hentries : ∀ entry ∈ s.collections.flatMap Collection.entries, entry.objectKey ∉ keys := by
    intro entry hentry hkey
    obtain ⟨row, hget, howns⟩ := h.owned.rows entry hentry
    exact hfree _ hkey row hget howns.taken
  refine ⟨?_, h.evictions, ⟨fun entry hentry => ?_, ?_⟩, h.demotions⟩
  · obtain ⟨key, hkey⟩ := List.exists_mem_of_ne_nil keys hne
    obtain ⟨-, -, -, hactive⟩ := hrow key hkey
    have hbalanced := h.balanced
    unfold Catalog.Balanced at hbalanced ⊢
    change s.catalog.durableBytes + (if s.catalog.anyActive then _ else 0) =
      manifestBytes s.catalog.manifests + storedBytes (evictRows keys s.catalog.chunks)
    rw [hactive] at hbalanced ⊢
    rw [evictRows, storedBytes_map]
    · exact hbalanced
    · intro k row
      split <;> rfl
  · rw [List.flatMap_cons, List.mem_append] at hentry
    rcases hentry with hentry | hentry
    · simp only [Collection.entries, Option.toList_none, List.map_nil, List.append_nil, List.map_map,
        List.mem_map, Function.comp_apply] at hentry
      obtain ⟨key, hkey, rfl⟩ := hentry
      obtain ⟨row, hget, hstate, -⟩ := hrow key hkey
      have hsound := hrungs key row hget
      refine ⟨row.evict, ?_, Or.inl rfl, ?_, by simp [Victim.entry]⟩
      · simp [evictRows, Victim.entry, Table.get?_map, hget, hkey]
      · simp only [Victim.entry, hget, Option.map_some, Option.some.injEq, decide_eq_true_eq, ChunkRow.evict]
        refine ⟨hsound.tombstoned, fun hrung => hstate.resolve_left fun havailable => ?_⟩
        exact hsound.available havailable hrung
    · obtain ⟨row, hget, howns⟩ := h.owned.rows entry hentry
      exact ⟨row, by rw [hother _ (hentries entry hentry), hget], howns⟩
  · have hnew : (Collection.entries ⟨keys.map fun key =>
        ⟨key, decide ((s.catalog.chunks.get? key).map (·.locationState) = some .tombstoned)⟩, none, []⟩).map
          (·.objectKey) = keys := by
      simp [Collection.entries, Victim.entry, Function.comp_def]
    rw [List.flatMap_cons, List.map_append, hnew, List.nodup_append]
    refine ⟨hnodup, h.owned.nodup, fun key hkey key' hkey' heq => ?_⟩
    obtain ⟨entry, hentry, rfl⟩ := List.mem_map.mp hkey'
    exact hentries entry hentry (heq ▸ hkey)

theorem DurableExact.of_collections {collections : List Collection} (h : DurableExact s)
    (howned : Owned s.catalog.chunks (collections.flatMap Collection.entries)) :
    DurableExact { s with collections } := ⟨h.balanced, h.evictions, howned, h.demotions⟩

theorem DurableExact.checkVictim {collection : Collection} {victim : Victim} {pending : List Victim}
    {current : Option Moved} (h : DurableExact s) (hcollection : collection ∈ s.collections)
    (hpending : collection.pending = victim :: pending) (hcurrent : collection.current = none)
    (hcheck : checkVictim victim s.catalog = .ok current) :
    DurableExact { s with collections := { collection with pending, current } :: s.collections.erase collection } := by
  refine h.of_collections ?_
  have howned := h.owned.perm (entries_perm hcollection)
  rw [Collection.entries, hpending, hcurrent] at howned
  simp only [List.map_cons, Option.toList_none, List.map_nil, List.nil_append, List.cons_append] at howned
  obtain ⟨-, rfl⟩ | ⟨row, hrow, rfl⟩ := checkVictim_eq_ok hcheck
  · simpa [Collection.entries] using howned.of_cons
  · have hkey : (Moved.entry ⟨victim.objectKey, row.objectBytes, victim.wasTombstoned⟩).objectKey =
        (Victim.entry victim).objectKey := rfl
    refine (howned.replace hkey fun row' hrow' howns => ⟨howns.taken, howns.rung, ?_⟩).perm ?_
    · rintro _ ⟨⟩
      rw [show s.catalog.chunks.get? victim.objectKey = some row' from hrow', Option.some.injEq] at hrow
      rw [hrow]
    · simp only [List.flatMap_cons, Collection.entries, Option.toList_some, List.map_cons, List.map_nil,
        List.append_assoc, List.cons_append]
      exact List.perm_middle.symm

theorem DurableExact.moveVictim {collection : Collection} {moved : Moved} {files : List Id32} (h : DurableExact s)
    (hcollection : collection ∈ s.collections) (hcurrent : collection.current = some moved) :
    DurableExact { s with
      files
      collections := { collection with current := none, moved := collection.moved ++ [moved] } ::
        s.collections.erase collection } := by
  refine ⟨h.balanced, h.evictions, (h.owned.perm (entries_perm hcollection)).perm ?_, h.demotions⟩
  rw [List.flatMap_cons]
  refine List.Perm.append_right _ ?_
  simp only [Collection.entries, hcurrent, Option.toList_some, Option.toList_none, List.map_cons, List.map_nil,
    List.nil_append, List.singleton_append, List.map_append]
  exact List.Perm.append_left _ (List.perm_append_singleton _ _).symm

theorem DurableExact.finishCollection {collection : Collection} (h : DurableExact s)
    (hrungs : RungsSound s.catalog.chunks) (hcollection : collection ∈ s.collections)
    (hpending : collection.pending = []) (hcurrent : collection.current = none)
    (hfinish : finishCollection collection.moved now s.catalog = .ok c') :
    DurableExact { s with catalog := c', collections := s.collections.erase collection } := by
  obtain ⟨outbox, rfl⟩ := finishCollection_eq_ok hfinish
  have howned := h.owned.perm (entries_perm hcollection)
  rw [Collection.entries, hpending, hcurrent] at howned
  simp only [Option.toList_none, List.map_nil, List.nil_append] at howned
  obtain ⟨chunks, freed, heq, hrungs', howned', hstored, hloose⟩ := removeRows_eq collection.moved s.catalog 0
    (P := fun rest chunks freed => RungsSound chunks ∧
      Owned chunks (rest.map Moved.entry ++ (s.collections.erase collection).flatMap Collection.entries) ∧
      storedBytes chunks + freed = storedBytes s.catalog.chunks ∧ looseBytes chunks = looseBytes s.catalog.chunks)
    ⟨hrungs, howned, rfl, rfl⟩ (by
      rintro m rest chunks chunks' freed freed' hremoval ⟨hrungs, howned, hstored, hloose⟩
      obtain ⟨howned', hstored', hloose'⟩ := hremoval.owned howned
      exact ⟨hremoval.rungsSound hrungs, howned', by omega, by omega⟩)
  rw [heq]
  refine ⟨?_, h.evictions, howned', h.demotions⟩
  have hbalanced := h.balanced
  have hle := looseBytes_le hrungs'
  unfold Catalog.Balanced at hbalanced ⊢
  change s.catalog.durableBytes - freed + (if s.catalog.anyActive then looseBytes chunks else 0) =
    manifestBytes s.catalog.manifests + storedBytes chunks
  split at hbalanced <;> rename_i hactive <;> simp only [hactive, if_true, Bool.false_eq_true, if_false] <;> omega

/-! ## Demotions -/

/-- The part of the condition on a demotion that concerns one victim. -/
def Demoted.Fits (victim : Demoted) (active : Bool) (chunks : Table Id32 ChunkRow) : Prop :=
  ∀ row, chunks.get? victim.objectKey = some row → row.locationState = .available →
    row.fidelityRung = .restQuantized → victim.rung = .restQuantized →
    row.objectBytes = victim.objectBytes ∧ (active → row.refcount ≠ 0)

theorem RowDemotion.get?_of_ne (h : RowDemotion victim chunks chunks' freed)
    (hne : key ≠ victim.objectKey) : chunks'.get? key = chunks.get? key := by
  cases h with
  | kept hkept => rfl
  | quantized _ _ _ _ _ | dropped _ _ _ _ _ => rw [Table.get?_put, if_neg hne]

theorem RowDemotion.get?_of_taken {row : ChunkRow}
    (h : RowDemotion victim chunks chunks' freed) (hrow : chunks.get? key = some row) (htaken : row.taken) :
    chunks'.get? key = some row := by
  by_cases hkey : key = victim.objectKey
  · subst hkey
    have hnot : row.locationState ≠ .available := by
      intro havailable
      rcases htaken with htaken | htaken <;> rw [havailable] at htaken <;> cases htaken
    cases h with
    | kept hkept => exact hrow
    | quantized row' hrow' hstate hrung hvictim =>
      rw [hrow, Option.some.injEq] at hrow'
      exact absurd (hrow' ▸ hstate) hnot
    | dropped row' hrow' hstate hrung hvictim =>
      rw [hrow, Option.some.injEq] at hrow'
      exact absurd (hrow' ▸ hstate) hnot
  · rw [h.get?_of_ne hkey, hrow]

theorem RowDemotion.balanced {durable manifests : Nat} {active : Bool}
    (h : RowDemotion victim chunks chunks' freed) (hrungs : RungsSound chunks) (hfits : victim.Fits active chunks)
    (hbalanced : durable + (if active then looseBytes chunks else 0) = manifests + storedBytes chunks) :
    durable - freed + (if active then looseBytes chunks' else 0) = manifests + storedBytes chunks' := by
  have hrungs' := h.rungsSound hrungs
  have hle := looseBytes_le hrungs'
  cases h with
  | kept hkept => exact hbalanced
  | quantized row hrow hstate hrung hvictim =>
    have hstored := Table.sum_put_of_some (v := { row with fidelityRung := .restQuantized })
      (w := fun _ row => row.storedBytes) hrow
    have hloose := Table.sum_put_of_some (v := { row with fidelityRung := .restQuantized })
      (w := fun _ row => row.looseBytes) hrow
    have hsame : ChunkRow.storedBytes { row with fidelityRung := .restQuantized } = row.storedBytes := by
      simp [ChunkRow.storedBytes, hrung]
    have hsame' : ChunkRow.looseBytes { row with fidelityRung := .restQuantized } = row.looseBytes := rfl
    unfold storedBytes looseBytes at *
    split at hbalanced <;> rename_i hactive <;> simp only [hactive, if_true, Bool.false_eq_true, if_false] <;> omega
  | dropped row hrow hstate hrung hvictim =>
    obtain ⟨hbytes, hcount⟩ := hfits row hrow hstate hrung hvictim
    have hstored := Table.sum_put_of_some
      (v := { row with fidelityRung := .tombstone, locationState := .tombstoned })
      (w := fun _ row => row.storedBytes) hrow
    have hloose := Table.sum_put_of_some
      (v := { row with fidelityRung := .tombstone, locationState := .tombstoned })
      (w := fun _ row => row.looseBytes) hrow
    have hold : row.storedBytes = row.objectBytes := by simp [ChunkRow.storedBytes, hrung]
    have hnew : ChunkRow.storedBytes { row with fidelityRung := .tombstone, locationState := .tombstoned } = 0 := rfl
    have hnew' : ChunkRow.looseBytes { row with fidelityRung := .tombstone, locationState := .tombstoned } = 0 :=
      if_neg fun hunreferenced => by cases hunreferenced.1
    unfold storedBytes looseBytes at *
    cases active with
    | true =>
      have hold' : row.looseBytes = 0 := if_neg fun hunreferenced => hcount rfl hunreferenced.2
      simp only [if_true] at hbalanced ⊢
      omega
    | false =>
      simp only [Bool.false_eq_true, if_false] at hbalanced ⊢
      omega

theorem DurableExact.demoteVictims {victims : List Demoted} (h : DurableExact s)
    (hrungs : RungsSound s.catalog.chunks) (hvictims : victims ∈ s.demotions)
    (hok : ∀ victim ∈ victims, victim.Fits s.catalog.anyActive s.catalog.chunks)
    (hdemote : demoteVictims victims s.catalog = .ok c') :
    DurableExact { s with
      catalog := c'
      demotions := s.demotions.erase victims
      removals := droppedBytes victims :: s.removals } := by
  obtain ⟨chunks, durableBytes, rfl, -, -, -, -, hbalanced, howned⟩ := demoteVictims_eq_ok
    (P := fun rest chunks durable => RungsSound chunks ∧ (rest.map (·.objectKey)).Nodup ∧
      (∀ victim ∈ rest, victim.Fits s.catalog.anyActive chunks) ∧
      durable + (if s.catalog.anyActive then looseBytes chunks else 0) =
        manifestBytes s.catalog.manifests + storedBytes chunks ∧
      Owned chunks (s.collections.flatMap Collection.entries)) hdemote
    ⟨hrungs, h.demotions victims hvictims, hok, h.balanced, h.owned⟩ (by
      rintro victim rest chunks chunks' freed durable hdemotion ⟨hrungs, hnodup, hfits, hbalanced, howned⟩
      rw [List.map_cons, List.nodup_cons] at hnodup
      rw [List.forall_mem_cons] at hfits
      refine ⟨hdemotion.rungsSound hrungs, hnodup.2, fun other hother row hrow => ?_,
        hdemotion.balanced hrungs hfits.1 hbalanced,
        howned.of_taken fun k row hrow htaken => ⟨row, hdemotion.get?_of_taken hrow htaken, rfl, rfl, rfl⟩⟩
      have hne : other.objectKey ≠ victim.objectKey := fun heq =>
        hnodup.1 (List.mem_map.mpr ⟨other, hother, heq⟩)
      rw [hdemotion.get?_of_ne hne] at hrow
      exact hfits.2 other hother row hrow)
  exact ⟨hbalanced, h.evictions, howned, fun v hv => h.demotions v (List.mem_of_mem_erase hv)⟩

/-! ## Runs -/

theorem exec_durableExact {e : Event} (hexec : exec C config s e = .ok s') (hok : ledgerStep s e)
    (hrungs : RungsSound s.catalog.chunks) (h : DurableExact s) : DurableExact s' := by
  by_cases hpassive : e.passive = true
  · obtain ⟨_, _, _, _, _, -, rfl⟩ := exec_passive hexec hpassive
    exact ⟨h.balanced, h.evictions, h.owned, h.demotions⟩
  cases e with
  | transact t =>
    obtain ⟨c', happly, rfl⟩ := exec_transact hexec
    obtain ⟨key, publications, artifacts, rfl, hpublish⟩ | ⟨-, htransaction⟩ := Transaction.apply_cases happly
    · obtain ⟨_, _, upload, hvalidate, hget, -, ⟨-, -, _, rfl⟩ | ⟨tx, hcommit⟩⟩ :=
        publishManifestBatch_eq_ok hpublish
      · exact ⟨h.balanced, h.evictions, h.owned, h.demotions⟩
      · exact h.publish hok (validateManifestBatch_eq_ok hvalidate).2.2 hget hcommit
    · exact h.transact hok htransaction
  | catalogPut put =>
    obtain ⟨-, -, c', cataloged, hcataloged, rfl⟩ := exec_catalogPut hexec
    simp only [ledgerStep, Bool.or_eq_true, List.all_eq_true] at hok
    have hput := h.catalogPut (hok.imp_right fun hitems object hobject => by
      obtain ⟨item, hitem, rfl⟩ := List.mem_map.mp hobject
      exact hitems item hitem) hcataloged
    exact ⟨hput.balanced, hput.evictions, hput.owned, hput.demotions⟩
  | cleanupPromotion key objectKey => cases hok
  | evict manifestId =>
    obtain ⟨c', eviction, hevict, rfl⟩ := exec_evict hexec
    exact h.evict hevict
  | finishEviction eviction =>
    obtain ⟨heviction, c', hfinish, rfl⟩ := exec_finishEviction hexec
    exact h.finishEviction hrungs heviction hfinish
  | selectVictims keys =>
    obtain ⟨c', victims, hselect, rfl⟩ := exec_selectVictims hexec
    exact h.selectVictims hrungs hselect
  | checkVictim collection =>
    obtain ⟨hcollection, hcurrent, victim, pending, current, hpending, hcheck, rfl⟩ := exec_checkVictim hexec
    exact h.checkVictim hcollection hpending hcurrent hcheck
  | moveVictim collection =>
    obtain ⟨hcollection, moved, hcurrent, rfl⟩ := exec_moveVictim hexec
    exact h.moveVictim hcollection hcurrent
  | finishCollection collection =>
    obtain ⟨hcollection, hpending, hcurrent, c', hfinish, rfl⟩ := exec_finishCollection hexec
    exact h.finishCollection hrungs hcollection hpending hcurrent hfinish
  | selectDemotions keys =>
    obtain ⟨victims, hselect, rfl⟩ := exec_selectDemotions hexec
    obtain ⟨hnodup, -, hkeys, -⟩ := selectDemotions_eq_ok hselect
    refine ⟨h.balanced, h.evictions, h.owned, List.forall_mem_cons.mpr ⟨?_, h.demotions⟩⟩
    rwa [hkeys]
  | demoteVictims victims =>
    obtain ⟨hvictims, c', hdemote, rfl⟩ := exec_demoteVictims hexec
    refine h.demoteVictims hrungs hvictims (fun victim hvictim row hrow => ?_) hdemote
    simp only [ledgerStep, List.all_eq_true] at hok
    have hfits := hok victim hvictim
    rw [hrow, Option.all_some] at hfits
    exact of_decide_eq_true hfits
  | dropFile removal =>
    obtain ⟨-, key, keys, -, rfl⟩ := exec_dropFile hexec
    exact ⟨h.balanced, h.evictions, h.owned, h.demotions⟩
  | _ => exact absurd rfl hpassive

theorem durableExact_initial : DurableExact State.initial where
  balanced := rfl
  evictions := by simp [State.initial]
  owned := ⟨by simp [State.initial], by simp [State.initial]⟩
  demotions := by simp [State.initial]

theorem run_durableExact {es : List Event} (h : Along (step C config) (fun s e => ledgerStep s e) State.initial es) :
    DurableExact (run (step C config) State.initial es) := by
  refine (along_preserves (P := fun s => RungsSound s.catalog.chunks ∧ DurableExact s) h
    (fun s e s' hok hexec hs => ?_) ⟨fun _ _ hnone => (by cases hnone), durableExact_initial⟩).2
  exact ⟨(exec_catalogStep hexec).chunks_induct (fun _ _ h => h.rungsSound) hs.1,
    exec_durableExact hexec hok hs.1 hs.2⟩

end Kvpack.Store
