import Kvpack.Core.Lemmas.Pack
import Kvpack.Restore.Lemmas.Scatter
import Kvpack.Restore.Load

/-!
# Loaded chains

The walk from a leaf to its root asks for one manifest per depth, and no depth is above seven, so it ends after eight.
A cache of loaded manifests changes how often the store is read, not what comes out; nor does a cache of chunks for a
chain all of whose chunks are there.
-/

namespace Kvpack.Restore

open Base Kvpack.Core Store

/-! ## Walking the chain with a cache -/

section Chain

variable {load : Id32 → Except StoreError CutManifest}

theorem asks_loadParentsCached (leaf current : CutManifest) (seen : List Id32) :
    Asks (min current.realizedSchema.kind.depth.toNat 7) (loadParentsCached load leaf current seen) := by
  fun_induction loadParentsCached load leaf current seen with
  | case1 current seen hkind => exact (asks_pure _).mono (Nat.zero_le _)
  | case2 => exact (asks_throw _).mono (Nat.zero_le _)
  | case3 current seen parent parentCut depth hkind hdepth ih =>
    have hcurrent : current.realizedSchema.kind.depth = depth := by rw [hkind]; rfl
    have hpos : depth.toNat ≠ 0 := fun h => hdepth (.inl (UInt8.toNat_inj.mp h))
    have hle : depth.toNat ≤ 7 := UInt8.le_iff_toNat_le.mp (UInt8.not_lt.mp fun h => hdepth (.inr (.inl h)))
    have hsplit : min current.realizedSchema.kind.depth.toNat 7 = 1 + (depth.toNat - 1) := by
      rw [hcurrent, Nat.min_eq_left hle, Nat.add_sub_of_le (Nat.one_le_iff_ne_zero.mpr hpos)]
    rw [hsplit]
    refine (asks_consult parent).bind fun manifest => ?_
    split
    · exact (asks_throw _).mono (Nat.zero_le _)
    · rename_i hcheck
      have hnext : manifest.realizedSchema.kind.depth.toNat + 1 = depth.toNat := by
        simp only [not_or, not_not] at hcheck
        rw [hcheck.2.2.2.2.2, hcurrent]
      exact (((ih manifest hcheck).bind fun _ => asks_pure _)).mono (by omega)

theorem asks_authenticateChainCached (C : Crypto) (leafId : Id32) (expected : Option (Id32 × Id32 × InputCutId)) :
    Asks 8 (authenticateChainCached load C leafId expected) := by
  refine Asks.bind (n := 1) (k := 7) (asks_consult leafId) fun leaf => ?_
  refine Asks.bind (n := 0) (k := 7) (asks_outcome _) fun _ => ?_
  refine Asks.bind (n := 7) (k := 0) ((asks_loadParentsCached leaf leaf [leafId]).mono (Nat.min_le_right _ _))
    fun ancestors => ?_
  exact (asks_outcome _).bind fun _ => asks_pure _

theorem memoises_loadParentsCached (leaf current : CutManifest) (seen : List Id32) :
    Memoises load (loadParentsCached load leaf current seen) (loadParents load leaf current seen) := by
  fun_induction loadParentsCached load leaf current seen with
  | case1 current seen hkind =>
    rw [loadParents, hkind]
    exact memoises_pure _
  | case2 current seen parent parentCut depth hkind hdepth =>
    rw [loadParents, hkind]
    simp only [if_pos hdepth]
    exact memoises_throw _
  | case3 current seen parent parentCut depth hkind hdepth ih =>
    have hstep : loadParents load leaf current seen = load parent >>= fun manifest =>
        if manifest.inputCut ≠ parentCut ∨ manifest.semanticModel ≠ leaf.semanticModel ∨
            manifest.family ≠ leaf.family ∨ manifest.tenantNamespace ≠ leaf.tenantNamespace ∨
            manifest.keyEpoch ≠ leaf.keyEpoch ∨
            manifest.realizedSchema.kind.depth.toNat + 1 ≠ current.realizedSchema.kind.depth.toNat then
          .error (.authentication "manifest parent is incompatible with its authenticated child")
        else do
          let ancestors ← loadParents load leaf manifest (parent :: seen)
          return ⟨parent, manifest⟩ :: ancestors := by
      rw [loadParents, hkind]
      simp only [if_neg hdepth]
      cases load parent with
      | error e => rfl
      | ok manifest =>
        simp only [ok_bind]
        split <;> simp_all
    rw [hstep]
    refine (memoises_consult parent).bind fun manifest => ?_
    split
    · exact memoises_throw _
    · rename_i hcheck
      exact (ih manifest hcheck).bind fun ancestors => memoises_pure _

theorem memoises_authenticateChainCached (C : Crypto) (leafId : Id32)
    (expected : Option (Id32 × Id32 × InputCutId)) :
    Memoises load (authenticateChainCached load C leafId expected) (authenticateChain load C leafId expected) :=
  (memoises_consult leafId).bind fun leaf => (memoises_outcome _).bind fun _ =>
    (memoises_loadParentsCached leaf leaf [leafId]).bind fun _ => (memoises_outcome _).bind fun _ => memoises_pure _

end Chain

/-! ## Chains that come out of the walk -/

/-- A full manifest and deltas, each naming the one before, all of one sequence. -/
structure WellFormedChain (chain : List AuthenticatedManifest) : Prop where
  root : chain.head?.map (·.manifest.realizedSchema.kind) = some .full
  length : ∃ leaf, chain.getLast? = some leaf ∧ chain.length = leaf.manifest.realizedSchema.kind.depth.toNat + 1
  links : chain.IsChain fun parent child => ∃ depth,
    child.manifest.realizedSchema.kind = .delta parent.manifestId parent.manifest.inputCut depth ∧
      depth.toNat = parent.manifest.realizedSchema.kind.depth.toNat + 1
  tenant : ∀ m ∈ chain, ∀ m' ∈ chain, m.manifest.tenantNamespace = m'.manifest.tenantNamespace
  semantic : ∀ m ∈ chain, ∀ m' ∈ chain, m.manifest.semanticModel = m'.manifest.semanticModel
  family : ∀ m ∈ chain, ∀ m' ∈ chain, m.manifest.family = m'.manifest.family
  auxiliary : ∀ m ∈ chain, ∀ m' ∈ chain,
    m.manifest.inputCut.auxiliaryInputRoot = m'.manifest.inputCut.auxiliaryInputRoot

section WellFormed

variable {context : ValidationContext} {chain : List AuthenticatedManifest}

theorem AuthenticatedChain.root_full (h : AuthenticatedChain context chain) :
    chain.head?.map (·.manifest.realizedSchema.kind) = some .full := by
  induction h with
  | root hv hkind => exact congrArg some hkind
  | extend hchain hv hkind hdepth hfamily hsemantic htenant hepoch ih =>
    rw [List.head?_append_of_ne_nil _ (List.append_ne_nil_of_right_ne_nil _ (List.cons_ne_nil _ _))]
    exact ih

theorem AuthenticatedChain.links (h : AuthenticatedChain context chain) :
    chain.IsChain fun parent child => ∃ depth,
      child.manifest.realizedSchema.kind = .delta parent.manifestId parent.manifest.inputCut depth ∧
        depth.toNat = parent.manifest.realizedSchema.kind.depth.toNat + 1 := by
  induction h with
  | root hv hkind => exact List.isChain_singleton _
  | extend hchain hv hkind hdepth hfamily hsemantic htenant hepoch ih =>
    refine List.isChain_append.mpr ⟨ih, List.isChain_singleton _, ?_⟩
    intro parent hparent child hchild
    simp only [List.getLast?_concat, List.head?_cons, Option.mem_some_iff] at hparent hchild
    subst hparent hchild
    exact ⟨_, hkind, hdepth⟩

/-- A field that every delta shares with its parent is the same along the chain. -/
theorem AuthenticatedChain.shared {α : Type} (field : CutManifest → α)
    (hstep : ∀ (parent child : AuthenticatedManifest) depth, validateManifest child.manifest context = .ok () →
      child.manifest.realizedSchema.kind = .delta parent.manifestId parent.manifest.inputCut depth →
      child.manifest.family = parent.manifest.family → child.manifest.semanticModel = parent.manifest.semanticModel →
      child.manifest.tenantNamespace = parent.manifest.tenantNamespace → field child.manifest = field parent.manifest)
    (h : AuthenticatedChain context chain) : ∀ m ∈ chain, ∀ m' ∈ chain, field m.manifest = field m'.manifest := by
  have hleaf : ∃ value, ∀ m ∈ chain, field m.manifest = value := by
    induction h with
    | @root m hv hkind =>
      refine ⟨field m.manifest, ?_⟩
      intro m' hm'
      rw [List.mem_singleton.mp hm']
    | @extend earlier parent child depth hchain hv hkind hdepth hfamily hsemantic htenant hepoch ih =>
      obtain ⟨value, hvalue⟩ := ih
      have hchild : field child.manifest = value := by
        rw [hstep parent child depth hv hkind hfamily hsemantic htenant]
        exact hvalue parent (List.mem_append_right _ List.mem_cons_self)
      refine ⟨value, ?_⟩
      intro m hm
      rcases List.mem_append.mp hm with hm | hm
      · exact hvalue m hm
      · rw [List.mem_singleton.mp hm, hchild]
  obtain ⟨value, hvalue⟩ := hleaf
  intro m hm m' hm'
  rw [hvalue m hm, hvalue m' hm']

/-- The auxiliary root of a delta is compared with that of its parent's cut. -/
theorem auxiliaryInputRoot_of_delta {m : CutManifest} (hv : validateManifest m context = .ok ()) {parent : Id32}
    {parentCut : InputCutId} {depth : UInt8} (hkind : m.realizedSchema.kind = .delta parent parentCut depth) :
    m.inputCut.auxiliaryInputRoot = parentCut.auxiliaryInputRoot := by
  have hcut := (validateManifest_eq_ok hv).cut
  rw [hkind] at hcut
  simp only [cutRange, bind_eq_ok, exists_unit, rejectIf_eq_ok, not_or, not_not] at hcut
  exact hcut.2.2.1.1.symm

theorem AuthenticatedChain.wellFormed (h : AuthenticatedChain context chain) : WellFormedChain chain where
  root := h.root_full
  length := by
    obtain ⟨earlier, leaf, heq, -⟩ := h.exists_leaf
    have hleaf : chain.getLast? = some leaf := by rw [heq]; exact List.getLast?_concat
    exact ⟨leaf, hleaf, h.length_eq hleaf⟩
  links := h.links
  tenant := h.shared (·.tenantNamespace) fun _ _ _ _ _ _ _ htenant => htenant
  semantic := h.shared (·.semanticModel) fun _ _ _ _ _ _ hsemantic _ => hsemantic
  family := h.shared (·.family) fun _ _ _ _ _ hfamily _ _ => hfamily
  auxiliary := h.shared (·.inputCut.auxiliaryInputRoot) fun _ _ _ hv hkind _ _ _ =>
    auxiliaryInputRoot_of_delta hv hkind

theorem validateManifest_of_load {C : Crypto} {store : LocalStore} {minimumKeyEpoch : UInt64} {id : Id32}
    {m : CutManifest} (h : loadAuthenticatedManifest C store minimumKeyEpoch context id = .ok m) :
    validateManifest m context = .ok () := by
  simp only [loadAuthenticatedManifest, decodeAuthenticatedPack, bind_eq_ok, exists_unit, liftPack_eq_ok,
    pure_eq_ok] at h
  obtain ⟨_, -, _, -, -, -, _, -, manifest, ⟨_, -, _, -, -, decoded, -, -, hvalid, rfl⟩, _, -, -, rfl⟩ := h
  exact hvalid

end WellFormed

/-! ## Looking at chunks with a cache -/

section Chunks

variable {store : LocalStore} {reference r : ChunkRef} {references : List ChunkRef} {cache cache' : AvailabilityCache}
  {availability a : CachedChunkAvailability} {chain : List AuthenticatedManifest} {disposition : ChainChunkDisposition}

theorem eq_of_validateAvailableReference {row : ChunkRow} (hkey : reference.objectKey = r.objectKey)
    (h : validateAvailableReference store row reference = .ok ())
    (h' : validateAvailableReference store row r = .ok ()) : reference = r := by
  simp only [validateAvailableReference, rejectIf_eq_ok, not_or, not_not] at h h'
  obtain ⟨-, -, hepoch, hchunk, hdigest, hplain, hobject⟩ := h
  obtain ⟨-, -, hepoch', hchunk', hdigest', hplain', hobject'⟩ := h'
  cases reference
  cases r
  simp only [ChunkRef.mk.injEq]
  exact ⟨hchunk.symm.trans hchunk', hkey, hdigest.symm.trans hdigest', hepoch.symm.trans hepoch',
    hplain.symm.trans hplain', UInt32.toNat_inj.mp (hobject.symm.trans hobject')⟩

theorem validateAvailableReference_of_availability {row : ChunkRow}
    (hrow : store.availabilityRow reference.objectKey = some row)
    (h : localAvailability store reference = .ok availability) :
    validateAvailableReference store row reference = .ok () := by
  simp only [localAvailability, hrow, bind_eq_ok, exists_unit] at h
  exact h.1

/-- Two references to one object that the store agrees with are the same. -/
theorem localAvailability_unique (hkey : reference.objectKey = r.objectKey)
    (h : localAvailability store reference = .ok availability) (h' : localAvailability store r = .ok a) :
    availability = a := by
  cases hrow : store.availabilityRow reference.objectKey with
  | none =>
    have hrow' := hrow
    rw [hkey] at hrow'
    simp only [localAvailability, hrow, hrow', Except.ok.injEq] at h h'
    rw [← h, ← h']
  | some row =>
    have hrow' := hrow
    rw [hkey] at hrow'
    obtain rfl := eq_of_validateAvailableReference hkey (validateAvailableReference_of_availability hrow h)
      (validateAvailableReference_of_availability hrow' h')
    rw [h] at h'
    exact Except.ok.inj h'

def CachedChunkAvailability.row? : CachedChunkAvailability → Option ChunkRow
  | .missing => none
  | .available row => some row
  | .tombstoned row => some row

theorem availabilityRow_of_row? (h : localAvailability store reference = .ok availability) {row : ChunkRow}
    (hrow : availability.row? = some row) : store.availabilityRow reference.objectKey = some row := by
  cases hfound : store.availabilityRow reference.objectKey with
  | none =>
    simp only [localAvailability, hfound, Except.ok.injEq] at h
    subst h
    cases hrow
  | some found =>
    simp only [localAvailability, hfound, bind_eq_ok, exists_unit] at h
    obtain ⟨-, h⟩ := h
    split at h
    · cases h
      exact hrow
    · split at h
      · cases h
        cases hrow
      · cases h
      · simp only [bind_eq_ok, exists_unit, pure_eq_ok] at h
        obtain ⟨-, rfl⟩ := h
        exact hrow

/-- Every answer is what the store says of some reference to the object. -/
def AvailabilitySound (store : LocalStore) (cache : AvailabilityCache) : Prop :=
  ∀ key availability, cache.get? key = some availability →
    ∃ r : ChunkRef, r.objectKey = key ∧ localAvailability store r = .ok availability

theorem availabilitySound_empty : AvailabilitySound store Table.empty := by
  intro key availability h
  cases h

theorem AvailabilitySound.put (hs : AvailabilitySound store cache)
    (h : localAvailability store reference = .ok availability) :
    AvailabilitySound store (cache.put reference.objectKey availability) := by
  intro key a hget
  rw [Table.get?_put] at hget
  split at hget
  · rename_i heq
    cases hget
    exact ⟨reference, heq.symm, h⟩
  · exact hs key a hget

/-- What filling the cache does: answers stay, and every reference gets one. -/
theorem fillAvailability_eq_ok (h : fillAvailability store cache references = .ok cache') :
    (AvailabilitySound store cache → AvailabilitySound store cache') ∧
      (∀ key, cache.get? key ≠ none → cache'.get? key ≠ none) ∧
      ∀ reference ∈ references, cache'.get? reference.objectKey ≠ none ∧
        ∃ availability, localAvailability store reference = .ok availability := by
  induction references generalizing cache with
  | nil =>
    cases h
    exact ⟨id, fun _ => id, fun _ hr => absurd hr List.not_mem_nil⟩
  | cons reference rest ih =>
    simp only [fillAvailability, bind_eq_ok] at h
    obtain ⟨availability, hlocal, hrest⟩ := h
    obtain ⟨hsound, hkept, hknown⟩ := ih hrest
    refine ⟨fun hs => hsound (hs.put hlocal), ?_, ?_⟩
    · intro key hkey
      apply hkept
      rw [Table.get?_put]
      split
      · exact Option.some_ne_none _
      · exact hkey
    · intro r hr
      rcases List.mem_cons.mp hr with rfl | hr
      · refine ⟨hkept _ ?_, availability, hlocal⟩
        rw [Table.get?_put_self]
        exact Option.some_ne_none _
      · exact hknown r hr

theorem exists_fillAvailability
    (h : ∀ reference ∈ references, ∃ availability, localAvailability store reference = .ok availability) :
    ∃ cache', fillAvailability store cache references = .ok cache' := by
  induction references generalizing cache with
  | nil => exact ⟨cache, rfl⟩
  | cons reference rest ih =>
    obtain ⟨availability, hlocal⟩ := h reference List.mem_cons_self
    obtain ⟨cache', hrest⟩ := @ih (cache.put reference.objectKey availability)
      fun r hr => h r (List.mem_cons_of_mem _ hr)
    refine ⟨cache', ?_⟩
    simp only [fillAvailability, hlocal, ok_bind, hrest]

theorem mem_unknownReferences :
    r ∈ unknownReferences cache references ↔ r ∈ references ∧ cache.get? r.objectKey = none := by
  simp only [unknownReferences, List.mem_insertionSort, List.mem_filter, List.mem_dedup, decide_eq_true_eq]

theorem prefetchLocalAvailability_eq_ok (h : prefetchLocalAvailability store references cache = .ok cache') :
    (AvailabilitySound store cache → AvailabilitySound store cache') ∧
      ∀ reference ∈ references, cache'.get? reference.objectKey ≠ none := by
  obtain ⟨hsound, hkept, hknown⟩ := fillAvailability_eq_ok h
  refine ⟨hsound, ?_⟩
  intro r hr
  by_cases hnone : cache.get? r.objectKey = none
  · exact (hknown r (mem_unknownReferences.mpr ⟨hr, hnone⟩)).1
  · exact hkept _ hnone

theorem localAvailability_of_prefetch (h : prefetchLocalAvailability store references Table.empty = .ok cache')
    (hr : r ∈ references) : ∃ availability, localAvailability store r = .ok availability :=
  ((fillAvailability_eq_ok h).2.2 r (mem_unknownReferences.mpr ⟨hr, rfl⟩)).2

theorem exists_prefetchLocalAvailability (cache : AvailabilityCache)
    (h : ∀ reference ∈ references, ∃ availability, localAvailability store reference = .ok availability) :
    ∃ cache', prefetchLocalAvailability store references cache = .ok cache' :=
  exists_fillAvailability fun r hr => h r (mem_unknownReferences.mp hr).1

theorem validateReferences_congr (h : ∀ r ∈ references, cache.get? r.objectKey = cache'.get? r.objectKey)
    (missing : List ChunkRef) (tombstoned : List Id32) :
    validateReferences store cache missing tombstoned references =
      validateReferences store cache' missing tombstoned references := by
  induction references generalizing missing tombstoned with
  | nil => rfl
  | cons reference rest ih =>
    have hrest := ih fun r hr => h r (List.mem_cons_of_mem _ hr)
    simp only [validateReferences, h reference List.mem_cons_self, hrest]

theorem row_of_complete {missing : List ChunkRef} {tombstoned : List Id32}
    (h : validateReferences store cache missing tombstoned references = .ok disposition)
    (hcomplete : disposition.complete = true) :
    missing = [] ∧ ∀ r ∈ references, ∃ availability row, cache.get? r.objectKey = some availability ∧
      availability.row? = some row ∧ validateAvailableReference store row r = .ok () := by
  induction references generalizing missing tombstoned with
  | nil =>
    cases h
    exact ⟨List.isEmpty_iff.mp hcomplete, fun _ hr => absurd hr List.not_mem_nil⟩
  | cons reference rest ih =>
    cases hget : cache.get? reference.objectKey with
    | none =>
      simp only [validateReferences, hget] at h
      cases h
    | some availability =>
      cases availability with
      | missing =>
        simp only [validateReferences, hget, bind_eq_ok, exists_unit] at h
        exact absurd (ih h.2).1 (List.cons_ne_nil _ _)
      | available row =>
        simp only [validateReferences, hget, bind_eq_ok, exists_unit] at h
        refine ⟨(ih h.2).1, ?_⟩
        intro r hr
        rcases List.mem_cons.mp hr with rfl | hr
        · exact ⟨_, row, hget, rfl, h.1⟩
        · exact (ih h.2).2 r hr
      | tombstoned row =>
        simp only [validateReferences, hget, bind_eq_ok, exists_unit] at h
        refine ⟨(ih h.2).1, ?_⟩
        intro r hr
        rcases List.mem_cons.mp hr with rfl | hr
        · exact ⟨_, row, hget, rfl, h.1⟩
        · exact (ih h.2).2 r hr

/-- The lookup leaves a sound cache, against which the chain has been checked. -/
theorem chainChunkDispositionCached_eq_ok (hs : AvailabilitySound store cache)
    (h : chainChunkDispositionCached store chain cache = .ok (disposition, cache')) :
    AvailabilitySound store cache' ∧ validateCachedChain store chain cache' = .ok disposition ∧
      ∀ r ∈ chainReferences chain, cache'.get? r.objectKey ≠ none := by
  dsimp only [chainChunkDispositionCached] at h
  split at h
  · rename_i hknown
    simp only [bind_eq_ok, pure_eq_ok, Prod.mk.injEq] at h
    obtain ⟨_, hvalid, rfl, rfl⟩ := h
    exact ⟨hs, hvalid, hknown⟩
  · simp only [bind_eq_ok, exists_unit, pure_eq_ok, Prod.mk.injEq] at h
    obtain ⟨-, filled, hfilled, _, hvalid, rfl, rfl⟩ := h
    obtain ⟨hsound, hknown⟩ := prefetchLocalAvailability_eq_ok hfilled
    exact ⟨hsound hs, hvalid, hknown⟩

theorem AvailabilitySound.get?_eq (hs : AvailabilitySound store cache) (hs' : AvailabilitySound store cache')
    (h : localAvailability store r = .ok a) (hknown : cache.get? r.objectKey ≠ none)
    (hknown' : cache'.get? r.objectKey ≠ none) : cache.get? r.objectKey = cache'.get? r.objectKey := by
  obtain ⟨b, hb⟩ := Option.ne_none_iff_exists'.mp hknown
  obtain ⟨b', hb'⟩ := Option.ne_none_iff_exists'.mp hknown'
  obtain ⟨q, hq, hlocal⟩ := hs _ _ hb
  obtain ⟨q', hq', hlocal'⟩ := hs' _ _ hb'
  rw [hb, hb', localAvailability_unique hq hlocal h, localAvailability_unique hq' hlocal' h]

/-- When the store agrees with every reference, sound caches lead to the same end. -/
theorem exists_chainChunkDispositionCached (hs : AvailabilitySound store cache)
    (hs' : AvailabilitySound store cache')
    (hlocal : ∀ r ∈ chainReferences chain, ∃ a, localAvailability store r = .ok a)
    (hunique : ¬ ∃ a ∈ chainReferences chain, ∃ b ∈ chainReferences chain, a.objectKey = b.objectKey ∧ a ≠ b)
    (hknown' : ∀ r ∈ chainReferences chain, cache'.get? r.objectKey ≠ none)
    (h : validateCachedChain store chain cache' = .ok disposition) :
    ∃ filled, chainChunkDispositionCached store chain cache = .ok (disposition, filled) := by
  have hsame : ∀ filled, AvailabilitySound store filled →
      (∀ r ∈ chainReferences chain, filled.get? r.objectKey ≠ none) →
      validateCachedChain store chain filled = .ok disposition := by
    intro filled hfilled hknown
    rw [← h]
    refine validateReferences_congr (fun r hr => ?_) [] []
    obtain ⟨a, ha⟩ := hlocal r hr
    exact hfilled.get?_eq hs' ha (hknown r hr) (hknown' r hr)
  dsimp only [chainChunkDispositionCached]
  split
  · rename_i hknown
    exact ⟨cache, by rw [hsame cache hs hknown]; rfl⟩
  · obtain ⟨filled, hfilled⟩ := exists_prefetchLocalAvailability cache hlocal
    obtain ⟨hsound, hknown⟩ := prefetchLocalAvailability_eq_ok hfilled
    refine ⟨filled, ?_⟩
    simp only [rejectIf_of_not hunique, ok_bind, hfilled, hsame filled (hsound hs) hknown]
    rfl

/-- What a lookup with an empty cache finds, one with any sound cache finds. -/
theorem chainChunkDispositionCached_of_uncached (hs : AvailabilitySound store cache)
    (h : chainChunkDisposition store chain = .ok disposition) :
    ∃ filled, chainChunkDispositionCached store chain cache = .ok (disposition, filled) := by
  simp only [chainChunkDisposition, bind_eq_ok, Prod.exists, pure_eq_ok] at h
  obtain ⟨found, filled, h, rfl⟩ := h
  obtain ⟨hsound, hvalid, hknown⟩ := chainChunkDispositionCached_eq_ok availabilitySound_empty h
  dsimp only [chainChunkDispositionCached] at h
  split at h
  · rename_i hnone
    have hnil : ∀ r, r ∉ chainReferences chain := fun r hr => hnone r hr rfl
    exact exists_chainChunkDispositionCached hs hsound (fun r hr => absurd hr (hnil r))
      (fun h => h.elim fun r hr => hnil r hr.1) hknown hvalid
  · simp only [bind_eq_ok, exists_unit, rejectIf_eq_ok] at h
    obtain ⟨hunique, prefetched, hprefetched, -⟩ := h
    exact exists_chainChunkDispositionCached hs hsound (fun r hr => localAvailability_of_prefetch hprefetched hr)
      hunique hknown hvalid

/-- A chain complete with some sound cache is complete with an empty one, with the same chunks demoted. -/
theorem chainChunkDisposition_of_cached (hs : AvailabilitySound store cache)
    (h : chainChunkDispositionCached store chain cache = .ok (disposition, cache'))
    (hcomplete : disposition.complete = true) : chainChunkDisposition store chain = .ok disposition := by
  obtain ⟨hsound, hvalid, hknown⟩ := chainChunkDispositionCached_eq_ok hs h
  have hrows := (row_of_complete hvalid hcomplete).2
  have hlocal : ∀ r ∈ chainReferences chain, ∃ a row, localAvailability store r = .ok a ∧
      store.availabilityRow r.objectKey = some row ∧ validateAvailableReference store row r = .ok () := by
    intro r hr
    obtain ⟨a, row, hget, hrow, hagrees⟩ := hrows r hr
    obtain ⟨q, hq, hqlocal⟩ := hsound _ _ hget
    have hfound := availabilityRow_of_row? hqlocal hrow
    obtain rfl := eq_of_validateAvailableReference hq (validateAvailableReference_of_availability hfound hqlocal)
      hagrees
    exact ⟨a, row, hqlocal, hfound, hagrees⟩
  have hunique : ¬ ∃ a ∈ chainReferences chain, ∃ b ∈ chainReferences chain, a.objectKey = b.objectKey ∧ a ≠ b := by
    rintro ⟨p, hp, q, hq, hkey, hne⟩
    obtain ⟨-, row, -, hrow, hagrees⟩ := hlocal p hp
    obtain ⟨-, row', -, hrow', hagrees'⟩ := hlocal q hq
    rw [hkey, hrow'] at hrow
    cases hrow
    exact hne (eq_of_validateAvailableReference hkey hagrees hagrees')
  obtain ⟨filled, hfilled⟩ := exists_chainChunkDispositionCached availabilitySound_empty hsound
    (fun r hr => ⟨_, (hlocal r hr).choose_spec.choose_spec.1⟩) hunique hknown hvalid
  simp only [chainChunkDisposition, hfilled, ok_bind]
  rfl

end Chunks

end Kvpack.Restore
