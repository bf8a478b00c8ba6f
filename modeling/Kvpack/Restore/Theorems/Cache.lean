import Kvpack.Restore.Cache
import Kvpack.Restore.Theorems.Load

/-!
# Results on the cache of decoded manifests

A load through the cache ends as it would have ended without it, whoever filled the cache and whatever has been
published, evicted or retired since: the same manifest or the same refusal.
-/

namespace Kvpack.Restore

open Base Kvpack.Core Store

variable {C : Crypto} {bodies : Set Bytes} {keySchedule : UInt64 → Except StoreError KeySchedule} {store : LocalStore}
  {context : ValidationContext} {cache : ManifestLru} {id : Id32} {bytes canonical : Bytes} {header : PackHeader}
  {keys : KeySchedule} {m : CutManifest} {tenant : Id32}

/-! ## Files -/

/-- A pack that the writer has made under this identity, with the keys of its epoch. -/
def Written (C : Crypto) (keySchedule : UInt64 → Except StoreError KeySchedule) (bodies : Set Bytes) (id : Id32)
    (bytes : Bytes) : Prop :=
  ∃ manifest keys encrypt context entropy,
    keySchedule manifest.keyEpoch = .ok keys ∧
    encodeAuthenticatedPack C manifest keys encrypt context entropy = .ok ⟨bytes, id⟩ ∧
    ∀ canonical, manifest.encodeCanonical = .ok canonical → canonical ∈ bodies

/-- No key of the store authenticates the bytes. -/
def Unauthenticated (C : Crypto) (keySchedule : UInt64 → Except StoreError KeySchedule) (bytes : Bytes) : Prop :=
  ∀ epoch keys header, keySchedule epoch = .ok keys → verifyAuthenticatedPack C bytes keys ≠ .ok header

/-- Whatever authenticates was written under its own identity. -/
def LocalStore.Authentic (C : Crypto) (bodies : Set Bytes) (store : LocalStore) : Prop :=
  ∀ id bytes, store.manifestFile id = .ok bytes →
    Written C store.keySchedule bodies id bytes ∨ Unauthenticated C store.keySchedule bytes

theorem manifestFile_of_read (h : store.readManifestBytes id = .ok bytes) : store.manifestFile id = .ok bytes := by
  simp only [LocalStore.readManifestBytes, bind_eq_ok, exists_unit, rejectIf_eq_ok, not_not, pure_eq_ok] at h
  obtain ⟨n, -, -, content, hfile, hlength, rfl⟩ := h
  rw [hfile, List.take_of_length_le]
  rw [List.length_take] at hlength
  omega

theorem inspectPackHeader_of_verify (h : verifyAuthenticatedPack C bytes keys = .ok header) :
    inspectPackHeader C bytes = .ok header := by
  simp only [verifyAuthenticatedPack, bind_eq_ok, exists_unit, pure_eq_ok] at h
  obtain ⟨-, parsed, hparsed, -, -, -, -, hdigest, -, rfl⟩ := h
  simp only [inspectPackHeader, hparsed, hdigest, ok_bind]
  rfl

theorem openManifest_eq_ok (h : openManifest C store id = .ok (bytes, header, keys)) :
    store.manifestFile id = .ok bytes ∧ inspectPackHeader C bytes = .ok header ∧
      header.tenantNamespace = store.tenantNamespace ∧ store.keySchedule header.keyEpoch = .ok keys := by
  simp only [openManifest, LocalStore.schedule, bind_eq_ok, exists_unit, liftPack_eq_ok, rejectIf_eq_ok, not_not,
    pure_eq_ok, Prod.mk.injEq] at h
  obtain ⟨_, -, _, hread, _, hheader, htenant, _, ⟨-, hkeys⟩, rfl, rfl, rfl⟩ := h
  exact ⟨manifestFile_of_read hread, hheader, htenant, hkeys⟩

theorem keyEpoch_of_encodeCanonical {m m' : CutManifest} (h : m.encodeCanonical = .ok canonical)
    (h' : m'.encodeCanonical = .ok canonical) : m.keyEpoch = m'.keyEpoch := by
  simp only [CutManifest.encodeCanonical, bind_eq_ok, pure_eq_ok, List.append_assoc] at h h'
  obtain ⟨_, -, _, -, _, -, _, -, rfl⟩ := h
  obtain ⟨_, -, _, -, _, -, _, -, heq⟩ := h'
  simp only [List.append_cancel_left_eq] at heq
  have htail := (append_inj_of_length (m'.tenantNamespace.2.trans m.tenantNamespace.2.symm)).mp heq
  exact (le64_append_inj.mp htail.2).1.symm

/-! ## One load -/

/-- The manifest that the body of this identity decodes to. -/
def Known (C : Crypto) (bodies : Set Bytes) (tenant id : Id32) (m : CutManifest) : Prop :=
  ∃ canonical ∈ bodies, manifestId C canonical = id ∧ CutManifest.decodeCanonical canonical = .ok m ∧
    m.tenantNamespace = tenant

/-- A manifest decoded from an authentic file is the one of its identity. -/
theorem known_of_decode (hauthentic : store.Authentic C bodies)
    (hopen : openManifest C store id = .ok (bytes, header, keys))
    (hdecode : decodeManifest C store context id bytes header keys = .ok m) :
    Known C bodies store.tenantNamespace id m := by
  obtain ⟨hfile, hheader, htenant, hkeys⟩ := openManifest_eq_ok hopen
  simp only [decodeManifest, bind_eq_ok, exists_unit, liftPack_eq_ok, rejectIf_eq_ok, not_not, pure_eq_ok] at hdecode
  obtain ⟨_, hpack, -, -, rfl⟩ := hdecode
  rcases hauthentic id bytes hfile with ⟨manifest, keys', encrypt, context', entropy, hkeys', hencode, hbodies⟩ | hnone
  · obtain ⟨-, canonical, salt, nonce, _, body, henc⟩ := EncodedFrom.of_encode hencode
    cases hheader.symm.trans (inspectPackHeader_of_verify henc.verify)
    cases hkeys.symm.trans hkeys'
    simp only [henc.decode_eq, bind_eq_ok, exists_unit, rejectIf_eq_ok, not_or, not_not, pure_eq_ok] at hpack
    obtain ⟨_, hcanonical, ⟨hsame, -⟩, -, rfl⟩ := hpack
    exact ⟨canonical, hbodies canonical henc.canonical_eq, henc.id.symm, hcanonical, hsame.trans htenant⟩
  · simp only [decodeAuthenticatedPack, bind_eq_ok] at hpack
    obtain ⟨header', hverify, -⟩ := hpack
    exact absurd hverify (hnone _ _ _ hkeys)

/-- The checks of a hit end as those of a miss would. -/
theorem recheckManifest_eq (hids : Set.InjOn (manifestId C) bodies) (hauthentic : store.Authentic C bodies)
    (hopen : openManifest C store id = .ok (bytes, header, keys)) (hknown : Known C bodies store.tenantNamespace id m) :
    (do recheckManifest C store context id bytes keys m; return m) =
      decodeManifest C store context id bytes header keys := by
  obtain ⟨hfile, hheader, htenant, hkeys⟩ := openManifest_eq_ok hopen
  rcases hauthentic id bytes hfile with ⟨manifest, keys', encrypt, context', entropy, hkeys', hencode, hbodies⟩ | hnone
  · obtain ⟨-, canonical, salt, nonce, _, body, henc⟩ := EncodedFrom.of_encode hencode
    cases hheader.symm.trans (inspectPackHeader_of_verify henc.verify)
    cases hkeys.symm.trans hkeys'
    obtain ⟨canonical', hmem, hid, hdecode, hsame⟩ := hknown
    -- one body for one identity
    obtain rfl : canonical' = canonical := hids hmem (hbodies canonical henc.canonical_eq) (hid.trans henc.id)
    have hepoch : m.keyEpoch = manifest.keyEpoch :=
      keyEpoch_of_encodeCanonical (decodeCanonical_eq_ok.mp hdecode).2.2 henc.canonical_eq
    have hidentity : ¬ (m.tenantNamespace ≠ manifest.tenantNamespace ∨ m.keyEpoch ≠ manifest.keyEpoch) := by
      simp only [not_or, not_not]
      exact ⟨hsame.trans htenant.symm, hepoch⟩
    have hsame : ¬ (PackHeader.written encrypt body.length canonical'.length manifest.keyEpoch
        manifest.tenantNamespace (manifestId C canonical')).manifestId ≠ id := not_not.mpr hid
    have hverified : liftPack (verifyAuthenticatedPack C bytes keys) = .ok _ := congrArg liftPack henc.verify
    simp only [recheckManifest, decodeManifest, hverified, henc.decode_eq, hdecode, ok_bind]
    rw [rejectIf_of_not hsame, rejectIf_of_not hidentity]
    cases validateManifest m context with
    | error _ | ok _ => rfl
  · simp only [recheckManifest, decodeManifest, decodeAuthenticatedPack]
    cases hverify : verifyAuthenticatedPack C bytes keys with
    | error e => rfl
    | ok header' => exact absurd hverify (hnone _ _ _ hkeys)

/-- Every cached manifest is the one of its identity. -/
def ManifestLru.Sound (C : Crypto) (bodies : Set Bytes) (tenant : Id32) (cache : ManifestLru) : Prop :=
  ∀ id m, cache.entries.get? id = some m → Known C bodies tenant id m

namespace ManifestLru

theorem sound_new : new.Sound C bodies tenant := by
  intro id m h
  cases h

theorem Sound.get (h : cache.Sound C bodies tenant) : (cache.get id).2.Sound C bodies tenant := by
  unfold ManifestLru.get
  cases cache.entries.get? id with
  | none | some _ => exact h

theorem get?_makeRoom {entries : Table Id32 CutManifest} {order : List Id32}
    (h : (makeRoom entries order).1.get? id = some m) : entries.get? id = some m := by
  induction order generalizing entries with
  | nil => exact h
  | cons oldest order ih =>
    unfold makeRoom at h
    split at h
    · have herase := ih h
      rw [Table.get?_erase] at herase
      split at herase
      · cases herase
      · exact herase
    · exact h

theorem Sound.put (h : cache.Sound C bodies tenant) (hknown : Known C bodies tenant id m) :
    (cache.put id m).Sound C bodies tenant := by
  unfold ManifestLru.put
  split
  · exact h
  · intro id' m' hget
    simp only [Table.get?_put] at hget
    split at hget
    · rename_i heq
      cases hget
      rw [heq]
      exact hknown
    · exact h id' m' (get?_makeRoom hget)

end ManifestLru

/-- A load through a sound cache returns what decoding returns and keeps it sound. -/
theorem authenticatedManifestCached_eq (hids : Set.InjOn (manifestId C) bodies) (hauthentic : store.Authentic C bodies)
    (hcache : cache.Sound C bodies store.tenantNamespace) :
    resultOf (authenticatedManifestCached C store context id cache) = (do
      let (bytes, header, keys) ← openManifest C store id
      let m ← decodeManifest C store context id bytes header keys
      return (bytes, m)) ∧
    (finalState (authenticatedManifestCached C store context id cache)).Sound C bodies store.tenantNamespace := by
  rw [authenticatedManifestCached, bind_apply]
  cases hopen : openManifest C store id with
  | error e => exact ⟨rfl, hcache⟩
  | ok opened =>
    obtain ⟨bytes, header, keys⟩ := opened
    have hsound : (cache.get id).2.Sound C bodies store.tenantNamespace := hcache.get
    simp only [outcome_ok, ok_bind]
    rw [bind_apply]
    cases hget : cache.entries.get? id with
    | some m =>
      have hfound : cache.get id = (some m, (cache.get id).2) := by simp [ManifestLru.get, hget]
      have hmodify : (modifyGet fun cache : ManifestLru => cache.get id : EStateM StoreError _ _) cache =
          .ok (some m) (cache.get id).2 := by
        show EStateM.Result.ok (cache.get id).1 (cache.get id).2 = _
        rw [hfound]
      rw [hmodify, ← recheckManifest_eq hids hauthentic hopen (hcache id m hget)]
      simp only [bind_apply]
      cases recheckManifest C store context id bytes keys m with
      | error _ | ok _ => exact ⟨rfl, hsound⟩
    | none =>
      have hmodify : (modifyGet fun cache : ManifestLru => cache.get id : EStateM StoreError _ _) cache =
          .ok none cache := by
        show EStateM.Result.ok (cache.get id).1 (cache.get id).2 = _
        simp [ManifestLru.get, hget]
      rw [hmodify]
      simp only [bind_apply]
      cases hdecode : decodeManifest C store context id bytes header keys with
      | error e => exact ⟨rfl, hcache⟩
      | ok m => exact ⟨rfl, hcache.put (known_of_decode hauthentic hopen hdecode)⟩

/-! ## Loads among other operations -/

/-- Published bodies are among those that do not collide, and nobody forges an authenticator. -/
def CacheEvent.Admissible (C : Crypto) (bodies : Set Bytes) (keySchedule : UInt64 → Except StoreError KeySchedule) :
    CacheEvent → Prop
  | .publish manifest _ _ _ _ => ∀ canonical, manifest.encodeCanonical = .ok canonical → canonical ∈ bodies
  | .damage _ bytes => Unauthenticated C keySchedule bytes
  | _ => True

/-- What a run keeps: the keys, the tenant, authentic files and a sound cache. -/
structure CachedStore.Sound (C : Crypto) (bodies : Set Bytes) (store : LocalStore) (s : CachedStore) : Prop where
  keys : s.store.keySchedule = store.keySchedule
  tenant : s.store.tenantNamespace = store.tenantNamespace
  files : s.store.Authentic C bodies
  cache : s.cache.Sound C bodies s.store.tenantNamespace

theorem authentic_linkManifest {pack : EncodedPack} (h : store.Authentic C bodies)
    (hpack : Written C store.keySchedule bodies pack.manifestId pack.bytes) :
    ∀ id bytes, store.linkManifest pack id = .ok bytes →
      Written C store.keySchedule bodies id bytes ∨ Unauthenticated C store.keySchedule bytes := by
  intro id bytes hfile
  unfold LocalStore.linkManifest at hfile
  cases hold : store.manifestFile id with
  | ok old =>
    rw [hold] at hfile
    cases hfile
    exact h id bytes hold
  | error e =>
    simp only [hold] at hfile
    split at hfile
    · rename_i heq
      cases hfile
      rw [heq]
      exact .inl hpack
    · cases hfile

theorem CachedStore.Sound.step {s : CachedStore} {e : CacheEvent} (hids : Set.InjOn (manifestId C) bodies)
    (he : e.Admissible C bodies store.keySchedule) (h : s.Sound C bodies store) :
    (s.step C e).Sound C bodies store := by
  cases e with
  | load id context => exact ⟨h.keys, h.tenant, h.files, (authenticatedManifestCached_eq hids h.files h.cache).2⟩
  | publish manifest encrypt context entropy catalog =>
    simp only [CachedStore.step]
    cases hpublish : s.store.publish C manifest encrypt context entropy catalog with
    | error e => exact h
    | ok after =>
      simp only [LocalStore.publish, bind_eq_ok, liftPack_eq_ok, pure_eq_ok] at hpublish
      obtain ⟨keys, hkeys, pack, hpack, rfl⟩ := hpublish
      exact ⟨h.keys, h.tenant, authentic_linkManifest h.files ⟨manifest, keys, _, _, _, hkeys, hpack, he⟩, h.cache⟩
  | evict id catalog =>
    refine ⟨h.keys, h.tenant, ?_, h.cache⟩
    intro id' bytes hfile
    simp only [CachedStore.step] at hfile
    split at hfile
    · cases hfile
    · exact h.files id' bytes hfile
  | retire minimum catalog => exact ⟨h.keys, h.tenant, h.files, h.cache⟩
  | damage id bytes =>
    refine ⟨h.keys, h.tenant, ?_, h.cache⟩
    intro id' bytes' hfile
    simp only [CachedStore.step] at hfile
    split at hfile
    · cases hfile
      rw [← h.keys] at he
      exact .inr he
    · exact h.files id' bytes' hfile

/-- While identities do not collide and authenticators are not forged, every load returns what it would with an empty
cache. -/
theorem manifest_cache_transparent {events : List CacheEvent} (hids : Set.InjOn (manifestId C) bodies)
    (hfiles : store.Authentic C bodies) (hevents : ∀ e ∈ events, e.Admissible C bodies store.keySchedule) :
    Along (CachedStore.step C) (fun s e => ∀ id context, e = .load id context →
        resultOf (authenticatedManifestCached C s.store context id s.cache) =
          resultOf (authenticatedManifestCached C s.store context id ManifestLru.new))
      ⟨store, ManifestLru.new⟩ events := by
  have hstart : CachedStore.Sound C bodies store ⟨store, ManifestLru.new⟩ :=
    ⟨rfl, rfl, hfiles, ManifestLru.sound_new⟩
  refine Along.of_invariant (fun s e he hs => CachedStore.Sound.step hids he hs) ?_
    (along_of_forall fun e he _ => hevents e he) hstart
  intro s e _ hs id context _
  rw [(authenticatedManifestCached_eq hids hs.files hs.cache).1,
    (authenticatedManifestCached_eq hids hs.files ManifestLru.sound_new).1]

/-- A manifest is published and loaded twice under different bounds, and again after a retirement. -/
def twoLoads : List CacheEvent :=
  [.publish Store.byteFull false ValidationContext.default ⟨none, none⟩ (packStore [Store.byteFull]).catalog,
    .load (idOf Store.byteFull) ValidationContext.default,
    .load (idOf Store.byteFull) ⟨⟨1, 1, 1⟩⟩,
    .retire 2 (packStore [Store.byteFull]).catalog, .load (idOf Store.byteFull) ValidationContext.default]

theorem twoLoads_transparent :
    Along (CachedStore.step checksumCrypto) (fun s e => ∀ id context, e = .load id context →
        resultOf (authenticatedManifestCached checksumCrypto s.store context id s.cache) =
          resultOf (authenticatedManifestCached checksumCrypto s.store context id ManifestLru.new))
      ⟨packStore [], ManifestLru.new⟩ twoLoads := by
  have hids : Set.InjOn (manifestId checksumCrypto) { canonical | Store.byteFull.encodeCanonical = .ok canonical } := by
    intro canonical hcanonical canonical' hcanonical' _
    exact Except.ok.inj (hcanonical.symm.trans hcanonical')
  refine manifest_cache_transparent hids ?_ ?_
  · intro id bytes hfile
    cases hfile
  · simp [twoLoads, CacheEvent.Admissible]

end Kvpack.Restore
