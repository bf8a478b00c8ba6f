import Kvpack.Core.Lemmas.Chunk
import Kvpack.Core.Lemmas.Dependencies
import Kvpack.Core.Lemmas.Ids

/-!
# Results on the pack format

The canonical manifest format is a bijection between values and bytes, and what the validator accepts has the
geometry the restore side relies on.
-/

namespace Kvpack.Core

open Base

/-! ## The canonical format -/

/-- Decoding and encoding are inverse on accepted bytes, which are prefix free. -/
theorem manifest_format_bijective :
    (∀ bytes m, CutManifest.decodeCanonical bytes = .ok m → m.encodeCanonical = .ok bytes) ∧
    (∀ m, (∃ bytes, CutManifest.decodeCanonical bytes = .ok m) →
      ∃ bytes, m.encodeCanonical = .ok bytes ∧ CutManifest.decodeCanonical bytes = .ok m) ∧
    (∀ bytes bytes' m, CutManifest.decodeCanonical bytes = .ok m → CutManifest.decodeCanonical bytes' = .ok m →
      bytes = bytes') ∧
    (∀ bytes bytes' m m', CutManifest.decodeCanonical bytes = .ok m → CutManifest.decodeCanonical bytes' = .ok m' →
      bytes <+: bytes' → bytes = bytes') := by
  have hencode : ∀ bytes m, CutManifest.decodeCanonical bytes = .ok m → m.encodeCanonical = .ok bytes :=
    fun bytes m h => (decodeCanonical_eq_ok.mp h).2.2
  refine ⟨hencode, ?_, ?_, ?_⟩
  · rintro m ⟨bytes, h⟩
    exact ⟨bytes, hencode bytes m h, h⟩
  · intro bytes bytes' m h h'
    have := (hencode bytes m h).symm.trans (hencode bytes' m h')
    exact Except.ok.inj this
  · -- A decoder that read `bytes` reads the same prefix of `bytes'`, and must then find nothing left.
    rintro bytes bytes' m m' h h' ⟨suffix, rfl⟩
    obtain ⟨-, hread, -⟩ := decodeCanonical_eq_ok.mp h
    obtain ⟨-, hread', -⟩ := decodeCanonical_eq_ok.mp h'
    rw [reads_manifest (hencode bytes m h) (yields_manifest _ _ _ hread) suffix] at hread'
    simp only [Except.ok.injEq, Prod.mk.injEq] at hread'
    rw [hread'.2, List.append_nil]

/-! ## The validator -/

/-- In an accepted manifest the spans of each state tile its token and byte ranges, from the parent cut to the cut,
inside the complete tensor; the groups partition the states, though one may be empty, and the totals are sums over the
states. -/
theorem validateManifest_sound {m : CutManifest} {context : ValidationContext}
    (h : validateManifest m context = .ok ()) :
    m.realizedSchema.states.length = m.family.states.length ∧ m.states.length = m.family.states.length ∧
    (∀ t ∈ m.triples,
      let start := t.2.1.logicalStart.toNat
      let stop := t.2.1.logicalStart.toNat + t.2.1.logicalCount.toNat
      ExactCover (t.2.1.chunkSpans.map (·.tokens)) start stop ∧
      ExactCover (t.2.1.chunkSpans.map (·.bytes)) (start * t.1.tokenBytes) (stop * t.1.tokenBytes) ∧
      (∀ s ∈ t.2.1.chunkSpans,
        s.bytes = (s.tokenStart.toNat * t.1.tokenBytes, s.tokenCount.toNat * t.1.tokenBytes)) ∧
      stop = m.inputCut.tokenCount.toNat ∧
      (∀ parent parentCut depth, m.realizedSchema.kind = .delta parent parentCut depth →
        start = parentCut.tokenCount.toNat) ∧
      (m.realizedSchema.kind = .full → t.1.tokenAxisRule ≠ .tailWindow → start = 0) ∧
      t.2.1.physicalOffsetBytes.toNat + t.2.1.physicalSpanBytes.toNat ≤ t.2.1.completePhysicalBytes.toNat ∧
      t.2.1.completePhysicalBytes.toNat < 2 ^ 64) ∧
    (m.family.states.map (·.key)).Nodup ∧
    (m.realizedSchema.atomicGroups.flatMap (·.states)).Perm (m.family.states.map (·.key)) ∧
    m.realizedSchema.segmentRestoredBytes.toNat =
      (m.triples.map fun t => (toNats t.2.1.segmentShape.dims).prod * t.1.dtype.width).sum ∧
    m.realizedSchema.completeRestoredBytes.toNat =
      (m.triples.map fun t => (toNats t.2.1.fullShape.dims).prod * t.1.dtype.width).sum := by
  have hv := validateManifest_eq_ok h
  have hprod : ∀ t ∈ m.triples,
      ((toNats t.2.1.segmentShape.dims).prod * t.1.dtype.width,
        (toNats t.2.1.fullShape.dims).prod * t.1.dtype.width) = stateBytes m.inputCut.tokenCount t.1 t.2.1 := by
    intro t ht
    have hf := hv.familyState ht
    rw [hf.prod_dims (hv.states t ht).segmentShape, hf.prod_dims (hv.states t ht).fullShape, Nat.mul_assoc,
      Nat.mul_assoc]
    rfl
  refine ⟨hv.schemas_length, hv.payloads_length, ?_, (validateFamily_eq_ok hv.family).nodup, hv.groups.perm, ?_, ?_⟩
  · intro t ht
    have hs := hv.states t ht
    refine ⟨hs.tokens.exactCover, hs.bytes.exactCover, fun s hmem => ?_, hv.range_end ht, ?_, ?_,
      (hv.physical_end ht).le, UInt64.toNat_lt _⟩
    · exact List.map_inj_left.mp (hv.span_bytes ht) s hmem
    · intro parent parentCut depth hkind
      rcases hs.range_cases with ⟨-, hfull, -⟩ | ⟨-, hcut⟩
      · rw [hkind] at hfull
        cases hfull
      · rw [hkind] at hcut
        exact congrArg UInt64.toNat (Prod.mk.inj hcut).1
    · intro hkind htail
      rcases hs.range_cases with ⟨htail', -⟩ | ⟨-, hcut⟩
      · exact absurd htail' htail
      · rw [hkind] at hcut
        exact congrArg UInt64.toNat (Prod.mk.inj hcut).1
  · rw [hv.segment]
    exact congrArg List.sum (List.map_congr_left fun t ht => congrArg Prod.fst (hprod t ht).symm)
  · rw [hv.complete]
    exact congrArg List.sum (List.map_congr_left fun t ht => congrArg Prod.snd (hprod t ht).symm)

/-! A two-state delta over a parent of two tokens, as an instance. -/

/-- One byte per token, contiguous. -/
def byteState (key : StateKey) (dependencies : List StateKey) : FamilyState :=
  { key, cacheKind := .ordinaryKv, dtype := .u8, codec := .raw, codecVersion := 1, layout := .contiguous,
    tokenAxisRule := .direct, tokenAxis := 0, elementsPerToken := 1, dimensions := [.token], dependencies }

def byteFamily (states : List FamilyState) : RepresentationFamilyId :=
  { engineCacheAbi := repeatedId 1, mode := .native, pageSizeTokens := 16, topology := repeatedId 2,
    shardMap := repeatedId 3, states }

def byteChunk (tokens : UInt64) : ChunkRef :=
  { chunkId := repeatedId 4, objectKey := repeatedId 5, objectDigest := repeatedId 6, keyEpoch := 1,
    plaintextBytes := tokens.toUInt32, objectBytes := 8192 }

def byteShape (tokens : UInt64) (h : tokens ≠ 0) : Shape :=
  ⟨[tokens], by simp, by simp [maxRank], by simpa using h.symm⟩

def byteSchema (start count : UInt64) (hs : start + count ≠ 0) (hc : count ≠ 0) (key : StateKey) :
    RealizedStateSchema :=
  { key, fullShape := byteShape (start + count) hs, segmentShape := byteShape count hc, strides := [1],
    logicalStart := start, logicalCount := count, physicalOffsetBytes := start, physicalSpanBytes := count,
    completePhysicalBytes := start + count, absolutePosition := start + count, window := 0,
    chunkSpans := [⟨start, count, start, count.toUInt32⟩] }

def byteCut (root : UInt8) (tokens : UInt64) : InputCutId := ⟨repeatedId root, repeatedId 8, tokens⟩

def byteManifest (kind : ManifestKind) (root : UInt8) (start count : UInt64) (hs : start + count ≠ 0) (hc : count ≠ 0)
    (states : List FamilyState) (groups : List AtomicGroup) : CutManifest :=
  { tenantNamespace := repeatedId 9, keyEpoch := 1,
    semanticModel := ⟨repeatedId 1, repeatedId 1, repeatedId 1, repeatedId 1, repeatedId 1⟩,
    inputCut := byteCut root (start + count), family := byteFamily states,
    realizedSchema :=
      { kind, states := states.map fun s => byteSchema start count hs hc s.key, atomicGroups := groups,
        segmentRestoredBytes := count * UInt64.ofNat states.length,
        completeRestoredBytes := (start + count) * UInt64.ofNat states.length },
    states := states.map fun s => ⟨s.key, [byteChunk count]⟩ }

theorem byteFull_stop : (0 : UInt64) + 2 ≠ 0 := by decide

theorem byteFull_count : (2 : UInt64) ≠ 0 := by decide

theorem byteDelta_stop : (2 : UInt64) + 3 ≠ 0 := by decide

theorem byteDelta_count : (3 : UInt64) ≠ 0 := by decide

def byteDelta : CutManifest :=
  byteManifest (.delta (repeatedId 7) (byteCut 10 2) 1) 11 2 3 byteDelta_stop byteDelta_count
    [byteState ⟨0, "k"⟩ [], byteState ⟨0, "v"⟩ [⟨0, "k"⟩]] [⟨1, [⟨0, "k"⟩]⟩, ⟨4, [⟨0, "v"⟩]⟩]

theorem byteDelta_sound :
    validateManifest byteDelta ValidationContext.default = .ok () ∧
    (byteDelta.realizedSchema.atomicGroups.flatMap (·.states)).Perm (byteDelta.family.states.map (·.key)) :=
  have h : validateManifest byteDelta ValidationContext.default = .ok () := by decide
  ⟨h, (validateManifest_sound h).2.2.2.2.1⟩

/-! ## Packs -/

/-- The bounds that only the reader of a pack enforces. -/
def PackReadable (m : CutManifest) : Prop :=
  (∀ s ∈ m.family.states, s.dependencies.length ≤ maxDependenciesPerState) ∧
  (∀ g ∈ m.realizedSchema.atomicGroups, g.states ≠ []) ∧
  (∀ s ∈ m.realizedSchema.states, s.chunkSpans.length ≤ maxChunksPerState)

theorem ManifestValid.readable_iff {m : CutManifest} {context : ValidationContext} (h : ManifestValid m context) :
    m.Readable ↔ PackReadable m := by
  have hf := validateFamily_eq_ok h.family
  have hperm := h.groups.perm
  constructor
  · intro hr
    refine ⟨fun s hs => (hr.family.states s hs).dependencies, fun g hg hnil => ?_,
      fun s hs => (hr.schema.states s hs).spans_le⟩
    exact (hr.schema.groups g hg).count_pos (by rw [hnil]; rfl)
  · rintro ⟨hdeps, hgroups, hspans⟩
    have hkeys : (m.realizedSchema.atomicGroups.flatMap (·.states)).length = m.family.states.length := by
      rw [hperm.length_eq, List.length_map]
    have hpos : m.family.states.length ≠ 0 := fun h0 => hf.count_pos (List.eq_nil_of_length_eq_zero h0)
    refine ⟨⟨hpos, hf.count_le, fun s hs => ?_⟩, ?_, ?_, ?_, ?_⟩
    · have hv := hf.states s hs
      refine ⟨hv.rank_pos, hv.rank_le, ?_, hdeps s hs⟩
      -- A zero dimension would make the product of the fixed dimensions zero.
      rintro d hd rfl
      have hzero : (0 : UInt64) ∈ fixedDimensions s.dimensions := List.mem_filterMap.mpr ⟨_, hd, rfl⟩
      have hprod : (toNats (fixedDimensions s.dimensions)).prod = 0 :=
        List.prod_eq_zero (List.mem_map.mpr ⟨0, hzero, rfl⟩)
      have := hv.elements_pos
      rw [hv.elements, hprod] at this
      exact absurd this (lt_irrefl 0)
    · refine ⟨by rw [h.schemas_length]; exact hpos, by rw [h.schemas_length]; exact hf.count_le, fun s hs => ?_, ?_, ?_,
        fun g hg => ⟨?_, ?_⟩⟩
      · obtain ⟨f, p, ht⟩ := h.triple_of_schema hs
        have hv := h.states _ ht
        refine ⟨?_, fun h0 => hv.spans_ne_nil (List.eq_nil_of_length_eq_zero h0), hspans s hs⟩
        rw [hv.strides_length]
        exact (h.familyState ht).rank_le
      · intro h0
        rw [List.eq_nil_of_length_eq_zero h0] at hkeys
        exact hpos hkeys.symm
      · have hle : m.realizedSchema.atomicGroups.length ≤
            (m.realizedSchema.atomicGroups.flatMap (·.states)).length := by
          have hone : ∀ n ∈ m.realizedSchema.atomicGroups.map fun g => g.states.length, 1 ≤ n := by
            intro n hn
            obtain ⟨g, hg, rfl⟩ := List.mem_map.mp hn
            exact List.length_pos_of_ne_nil (hgroups g hg)
          have hsum := List.length_le_sum_of_one_le _ hone
          rwa [List.length_map, ← List.length_flatMap] at hsum
        exact (hle.trans hkeys.le).trans hf.count_le
      · exact fun h0 => hgroups g hg (List.eq_nil_of_length_eq_zero h0)
      · have hsub : g.states.Sublist (m.realizedSchema.atomicGroups.flatMap (·.states)) := by
          rw [List.flatMap_def]
          exact List.sublist_flatten_of_mem (List.mem_map_of_mem hg)
        exact (hsub.length_le.trans hkeys.le).trans hf.count_le
    · rw [h.payloads_length]
      exact hpos
    · rw [h.payloads_length]
      exact hf.count_le
    · intro p hp
      obtain ⟨f, r, ht⟩ := h.triple_of_payload hp
      have hv := h.states _ ht
      obtain ⟨hrmem, -⟩ := List.of_mem_zip (List.of_mem_zip ht).2
      exact ⟨by rw [hv.chunks_length]; exact fun h0 => hv.spans_ne_nil (List.eq_nil_of_length_eq_zero h0),
        by rw [hv.chunks_length]; exact hspans r hrmem⟩

/-- A written pack reads back exactly when the manifest keeps the bounds only the reader enforces. -/
theorem pack_readable_iff {C : Crypto} {m : CutManifest} {keys : KeySchedule} {encrypt : Bool}
    {context : ValidationContext} {entropy : Entropy} {pack : EncodedPack}
    (h : encodeAuthenticatedPack C m keys encrypt context entropy = .ok pack) :
    decodeAuthenticatedPack C pack.bytes keys context = .ok m ↔ PackReadable m := by
  obtain ⟨hvalid, canonical, salt, nonce, header, body, henc⟩ := EncodedFrom.of_encode h
  rw [henc.decode hvalid, decodeCanonical_encodeCanonical henc.canonical_eq henc.bounded,
    (validateManifest_eq_ok hvalid).readable_iff]

theorem exists_of_okAnd {ε α : Type} {x : Except ε α} {P : α → Prop} [DecidablePred P]
    (h : (match x with | .ok a => decide (P a) | .error _ => false) = true) : ∃ a, x = .ok a ∧ P a := by
  cases x with
  | error e => cases h
  | ok a => exact ⟨a, rfl, of_decide_eq_true h⟩

theorem byteDelta_readable :
    ∃ pack,
      encodeAuthenticatedPack checksumCrypto byteDelta flatKeys false ValidationContext.default ⟨none, none⟩ =
        .ok pack ∧
      decodeAuthenticatedPack checksumCrypto pack.bytes flatKeys ValidationContext.default = .ok byteDelta := by
  have hvalid : validateManifest byteDelta ValidationContext.default = .ok () := by decide
  obtain ⟨canonical, hcanonical, hlen⟩ : ∃ c, byteDelta.encodeCanonical = .ok c ∧ c.length ≤ maxManifestBytes :=
    exists_of_okAnd (by decide +kernel)
  obtain ⟨pack, hpack⟩ := exists_encode_plain hvalid hcanonical hlen ⟨none, none⟩
  exact ⟨pack, hpack, (pack_readable_iff hpack).mpr (by unfold PackReadable; decide)⟩

/-- The state at layer `n` depends on the states of all lower layers. -/
def stackedStates (n : Nat) : List FamilyState :=
  (List.range n).map (fun i => byteState ⟨UInt32.ofNat i, "k"⟩ []) ++
    [byteState ⟨UInt32.ofNat n, "k"⟩ ((List.range n).map fun i => ⟨UInt32.ofNat i, "k"⟩)]

def stackedManifest (n : Nat) : CutManifest :=
  byteManifest .full 11 0 1 (by decide) (by decide) (stackedStates n) [⟨1, (stackedStates n).map (·.key)⟩]

/-- A state with 65 dependencies is accepted and written, but cannot be read. -/
theorem stackedManifest_unreadable :
    ∃ pack,
      encodeAuthenticatedPack checksumCrypto (stackedManifest 65) flatKeys false ValidationContext.default
        ⟨none, none⟩ = .ok pack ∧
      decodeAuthenticatedPack checksumCrypto pack.bytes flatKeys ValidationContext.default ≠
        .ok (stackedManifest 65) := by
  have hvalid : validateManifest (stackedManifest 65) ValidationContext.default = .ok () :=
    by decide +kernel
  obtain ⟨canonical, hcanonical, hlen⟩ :
      ∃ c, (stackedManifest 65).encodeCanonical = .ok c ∧ c.length ≤ maxManifestBytes :=
    exists_of_okAnd (by decide +kernel)
  obtain ⟨pack, hpack⟩ := exists_encode_plain hvalid hcanonical hlen ⟨none, none⟩
  obtain ⟨-, canonical', salt, nonce, header, body, henc⟩ := EncodedFrom.of_encode hpack
  refine ⟨pack, hpack, fun hdecode => ?_⟩
  rw [henc.decode hvalid, decodeCanonical_encodeCanonical henc.canonical_eq henc.bounded] at hdecode
  have hlast : byteState ⟨65, "k"⟩ ((List.range 65).map fun i => ⟨UInt32.ofNat i, "k"⟩) ∈
      (stackedManifest 65).family.states := List.mem_append_right _ List.mem_cons_self
  have hcount := (hdecode.family.states _ hlast).dependencies
  simp [byteState, maxDependenciesPerState] at hcount

/-! ## Chunk objects -/

/-- An encoded chunk reads back exactly when its sidecar, if any, passes the checks that only the reader makes. One
derived from finite halves does exactly when no token's sum of squares reaches the bound at which its norm rounds to
infinity. -/
theorem chunk_round_trip_iff {C : Crypto} {ops : MinMax} {plaintext : Bytes} {encoding : ChunkEncoding}
    {keys : KeySchedule} {entropy : Entropy} {object : ChunkObject}
    (h : encodeChunk C plaintext encoding keys entropy = .ok object) :
    (decodeChunkWithStats C object.bytes (object.ref encoding.keyEpoch) encoding.span encoding.tenantNamespace
        encoding.family encoding.stateKey keys = .ok (plaintext, encoding.statsSidecar) ↔
      ∀ s ∈ encoding.statsSidecar, s.Readable) ∧
    ∀ tokens channels sinkCount plane s, StatsSidecar.deriveF16 ops tokens channels sinkCount plane = .ok s →
      encoding.statsSidecar = some s →
      (decodeChunkWithStats C object.bytes (object.ref encoding.keyEpoch) encoding.span encoding.tenantNamespace
          encoding.family encoding.stateKey keys = .ok (plaintext, some s) ↔
        ∀ token < tokens, sumOfSquares (tokenHalves plane channels token) < normLimit) := by
  refine ⟨decodeChunk_encodeChunk_iff h, ?_⟩
  intro tokens channels sinkCount plane s hderive hsidecar
  rw [← deriveF16_readable_iff hderive, ← hsidecar, decodeChunk_encodeChunk_iff h, hsidecar]
  simp

/-! One token of two half-precision channels, as an instance. -/

def keyFamily : RepresentationFamilyId :=
  byteFamily [{ byteState ⟨0, "k"⟩ [] with dtype := .f16, elementsPerToken := 2, dimensions := [.token, .fixed 2] }]

def keyEncoding (sidecar : StatsSidecar) : ChunkEncoding :=
  { tenantNamespace := repeatedId 9, family := keyFamily, stateKey := ⟨0, "k"⟩, span := ⟨0, 1, 0, 4⟩, keyEpoch := 1,
    encrypt := false, statsSidecar := some sidecar }

/-- The keys 1 and 2. -/
def smallKeys : Bytes := [0x00, 0x3c, 0x00, 0x40]

def smallSidecar : StatsSidecar := ⟨[⟨0x3c00, 0x3c00⟩, ⟨0x4000, 0x4000⟩], [0x4079], [⟨0, 0x4079⟩]⟩

theorem smallKeys_round_trip :
    ∃ object, encodeChunk checksumCrypto smallKeys (keyEncoding smallSidecar) flatKeys ⟨none, none⟩ = .ok object ∧
      decodeChunkWithStats checksumCrypto object.bytes (object.ref 1) ⟨0, 1, 0, 4⟩ (repeatedId 9) keyFamily ⟨0, "k"⟩
        flatKeys = .ok (smallKeys, some smallSidecar) := by
  obtain ⟨object, hobject, -⟩ : ∃ object,
      encodeChunk checksumCrypto smallKeys (keyEncoding smallSidecar) flatKeys ⟨none, none⟩ = .ok object ∧ True :=
    exists_of_okAnd (by decide +kernel)
  have hderive : StatsSidecar.deriveF16 MinMax.first 1 2 1 smallKeys = .ok smallSidecar := by decide +kernel
  exact ⟨object, hobject, ((chunk_round_trip_iff hobject).2 1 2 1 smallKeys smallSidecar hderive rfl).mpr
    (by decide +kernel)⟩

/-- Two keys of the largest finite half: their norm is about 92637. -/
def largestKeys : Bytes := [0xff, 0x7b, 0xff, 0x7b]

def largestSidecar : StatsSidecar := ⟨[⟨0x7bff, 0x7bff⟩, ⟨0x7bff, 0x7bff⟩], [0x7c00], [⟨0, 0x7c00⟩]⟩

/-- The derived sidecar carries an infinite norm, which is stored and then refused. -/
theorem largestKeys_unreadable :
    StatsSidecar.deriveF16 MinMax.first 1 2 1 largestKeys = .ok largestSidecar ∧
    ∃ object, encodeChunk checksumCrypto largestKeys (keyEncoding largestSidecar) flatKeys ⟨none, none⟩ = .ok object ∧
      decodeChunkWithStats checksumCrypto object.bytes (object.ref 1) ⟨0, 1, 0, 4⟩ (repeatedId 9) keyFamily ⟨0, "k"⟩
        flatKeys = .error (.semantics "stats sidecar key norm is not a finite non-negative value") :=
  ⟨by decide +kernel, exists_of_okAnd (by decide +kernel)⟩

/-! ## Identities -/

/-- While no two hashes computed collide, equal identities come from equal inputs, provided no family writes a fixed
dimension as the zero of the token dimension; and a preimage is of one kind under any key. -/
theorem identities_injective {C : Crypto} {key : Id32} {asked hashed : Set Bytes}
    (hc : CollisionFree C key asked hashed) :
    (∀ tenant tenant' family family' stateKey stateKey' span span' plaintext plaintext' id,
      family.DimensionsNonzero → family'.DimensionsNonzero →
      Queried hashed (representationFamilyPreimage family) → Queried hashed (representationFamilyPreimage family') →
      Queried asked (chunkPreimage C tenant family stateKey span plaintext) →
      Queried asked (chunkPreimage C tenant' family' stateKey' span' plaintext') →
      chunkId C key tenant family stateKey span plaintext = .ok id →
      chunkId C key tenant' family' stateKey' span' plaintext' = .ok id →
      tenant = tenant' ∧ family = family' ∧ stateKey = stateKey' ∧ span = span' ∧ plaintext = plaintext') ∧
    (∀ (keys : KeySchedule) identity identity', keys.objectIdentity = key → objectPreimage identity ∈ asked →
      objectPreimage identity' ∈ asked → deriveObjectKey C keys identity = deriveObjectKey C keys identity' →
      identity = identity') ∧
    (∀ tenant tenant' inputs inputs' root, Queried asked (auxiliaryInputPreimage tenant inputs) →
      Queried asked (auxiliaryInputPreimage tenant' inputs') → auxiliaryInputRoot C key tenant inputs = .ok root →
      auxiliaryInputRoot C key tenant' inputs' = .ok root → tenant = tenant' ∧ inputs = inputs') ∧
    (∀ tenant tenant' model model' family family' root root' tokens tokens' nodes nodes',
      family.DimensionsNonzero → family'.DimensionsNonzero →
      ChainQueried C key asked hashed tenant model family root tokens →
      ChainQueried C key asked hashed tenant' model' family' root' tokens' →
      tokens.length < 2 ^ 64 → tokens'.length < 2 ^ 64 →
      chainPrefixNodes C key tenant model family root tokens = .ok nodes →
      chainPrefixNodes C key tenant' model' family' root' tokens' = .ok nodes' →
      ∀ n ∈ nodes, ∀ n' ∈ nodes', n.id = n'.id →
        (tenant = tenant' ∧ model = model' ∧ family = family' ∧ root = root') ∧
        tokens.take n.tokenCount.toNat = tokens'.take n'.tokenCount.toNat) ∧
    (∀ kind kind' preimage, KeyedPreimage C kind preimage → KeyedPreimage C kind' preimage → kind = kind') := by
  refine ⟨?_, ?_, ?_, ?_, ?_⟩
  · intro t t' f f' k k' sp sp' p p' id hf hf' hqf hqf' hq hq' h h'
    exact hc.chunk hf hf' hqf hqf' hq hq' h h'
  · rintro keys i j rfl hi hj h
    exact objectPreimage_inj (hc.hmac hi hj h)
  · intro t t' xs ys root hq hq' h h'
    exact hc.auxiliaryInputRoot hq hq' h h'
  · intro t t' m m' f f' r r' tokens tokens' nodes nodes' hf hf' hq hq' hlen hlen' h h' n hn n' hn' hid
    exact hc.prefixNode hf hf' hq hq' hlen hlen' h h' hn hn' hid
  · intro kind kind' b h h'
    exact h.kind_unique h'

/-! Two chunks of one family, as an instance. -/

def byteChunkPreimage (family : RepresentationFamilyId) (plaintext : Bytes) : Except PackError Bytes :=
  chunkPreimage checksumCrypto (repeatedId 9) family ⟨0, "k"⟩ ⟨0, 2, 0, 2⟩ plaintext

def byteChunkId (family : RepresentationFamilyId) (plaintext : Bytes) : Except PackError Id32 :=
  chunkId checksumCrypto (repeatedId 5) (repeatedId 9) family ⟨0, "k"⟩ ⟨0, 2, 0, 2⟩ plaintext

/-- The strings hashed for the family and under the key, for some plaintexts. -/
def byteHashed (family : RepresentationFamilyId) : Set Bytes := {b | representationFamilyPreimage family = .ok b}

def byteAsked (family : RepresentationFamilyId) (plaintexts : List Bytes) : Set Bytes :=
  {b | ∃ p ∈ plaintexts, byteChunkPreimage family p = .ok b}

theorem byteHashed_injOn (family : RepresentationFamilyId) : Set.InjOn checksumCrypto.sha256 (byteHashed family) :=
  fun _ ha _ hb _ => Except.ok.inj (ha.symm.trans hb)

theorem byteChunkIds_differ :
    let family := byteFamily [byteState ⟨0, "k"⟩ []]
    (∃ id, byteChunkId family [1, 2] = .ok id) ∧ byteChunkId family [1, 2] ≠ byteChunkId family [1, 3] := by
  intro family
  have hf : family.DimensionsNonzero := by
    intro s hs d hd
    obtain rfl := List.mem_singleton.mp hs
    obtain rfl := List.mem_singleton.mp hd
    decide
  have hid : ∃ id, byteChunkId family [1, 2] = .ok id ∧ True := exists_of_okAnd (by decide)
  obtain ⟨id, hid, -⟩ := hid
  refine ⟨⟨id, hid⟩, fun heq => ?_⟩
  have hc : CollisionFree checksumCrypto (repeatedId 5) (byteAsked family [[1, 2], [1, 3]]) (byteHashed family) := by
    refine ⟨?_, byteHashed_injOn family⟩
    rintro a ⟨p, hp, ha⟩ b ⟨q, hq, hb⟩ hab
    have hinj : ∀ p ∈ [[1, 2], [1, 3]], ∀ q ∈ [[1, 2], [1, 3]],
        byteChunkId family p = byteChunkId family q → p = q := by
      decide +kernel
    have hids : ∀ {p b}, byteChunkPreimage family p = .ok b →
        byteChunkId family p = .ok (checksumCrypto.hmac (repeatedId 5) b) := by
      intro p b h
      unfold byteChunkId chunkId
      rw [show chunkPreimage _ _ _ _ _ _ = .ok b from h]
      rfl
    obtain rfl := hinj p hp q hq (by rw [hids ha, hids hb, hab])
    exact Except.ok.inj (ha.symm.trans hb)
  have hplain := (identities_injective hc).1 _ _ _ _ _ _ _ _ _ _ id hf hf (fun _ h => h) (fun _ h => h)
    (fun _ h => ⟨[1, 2], by simp, h⟩) (fun _ h => ⟨[1, 3], by simp, h⟩) hid (heq.symm.trans hid)
  exact absurd hplain.2.2.2.2 (by decide)

/-- A fixed dimension of zero is written like the token dimension: two families, one chunk identity, no collision. -/
theorem zeroDimension_shares_identity :
    let direct := byteState ⟨0, "k"⟩ []
    let family := byteFamily [direct]
    let family' := byteFamily [{ direct with dimensions := [.fixed 0] }]
    CollisionFree checksumCrypto (repeatedId 5) (byteAsked family [[1, 2]]) (byteHashed family) ∧
    Queried (byteHashed family) (representationFamilyPreimage family') ∧
    Queried (byteAsked family [[1, 2]]) (byteChunkPreimage family' [1, 2]) ∧
    (∃ id, byteChunkId family [1, 2] = .ok id ∧ byteChunkId family' [1, 2] = .ok id) ∧ family ≠ family' := by
  intro direct family family'
  refine ⟨⟨?_, byteHashed_injOn family⟩, ?_, ?_, exists_of_okAnd (by decide +kernel), by decide +kernel⟩
  · rintro a ⟨p, hp, ha⟩ b ⟨q, hq, hb⟩ -
    obtain rfl := List.mem_singleton.mp hp
    obtain rfl := List.mem_singleton.mp hq
    exact Except.ok.inj (ha.symm.trans hb)
  · have heq : representationFamilyPreimage family' = representationFamilyPreimage family := rfl
    exact fun b hb => heq.symm.trans hb
  · have heq : byteChunkPreimage family' [1, 2] = byteChunkPreimage family [1, 2] := rfl
    exact fun b hb => ⟨[1, 2], List.mem_singleton_self _, heq.symm.trans hb⟩

end Kvpack.Core
