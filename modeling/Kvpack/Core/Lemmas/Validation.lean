import Kvpack.Base.Tiling
import Kvpack.Core.Lemmas.Shape

/-!
# What a validated manifest guarantees

Each loop of the validator has one lemma on what its success guarantees: the spans of a state tile its range, the
atomic groups partition the family, and the totals are sums over the states.
-/

namespace Kvpack.Core

open Base

variable {shape : Shape} {s : FamilyState}

/-! ## Chunk spans -/

def ChunkSpan.tokens (s : ChunkSpan) : Nat × Nat := (s.tokenStart.toNat, s.tokenCount.toNat)

def ChunkSpan.bytes (s : ChunkSpan) : Nat × Nat := (s.plaintextOffset.toNat, s.plaintextBytes.toNat)

/-- What the validator requires of a chunk reference by itself. -/
structure ChunkRef.Sound (c : ChunkRef) : Prop where
  chunkId : ¬ isZeroId c.chunkId
  objectKey : ¬ isZeroId c.objectKey
  objectDigest : ¬ isZeroId c.objectDigest
  keyEpoch : c.keyEpoch ≠ 0
  aligned : c.objectBytes.toNat % alignment = 0
  header : chunkHeaderBytes < c.objectBytes.toNat
  bounded : c.objectBytes.toNat ≤ maxChunkObjectBytes

/-- A span of whole tokens, held by a chunk of the same size. -/
structure SpanOf (bytesPerToken : Nat) (span : ChunkSpan) (chunk : ChunkRef) : Prop where
  size : span.plaintextBytes.toNat = span.tokenCount.toNat * bytesPerToken
  bounded : span.plaintextBytes.toNat ≤ maxChunkPlaintext
  same_size : chunk.plaintextBytes = span.plaintextBytes
  sound : chunk.Sound

theorem validateSpans_eq_ok {bytesPerToken token offset token' offset' : UInt64} {l : List (ChunkSpan × ChunkRef)}
    (hbpt : 0 < bytesPerToken.toNat) (h : validateSpans bytesPerToken token offset l = .ok (token', offset')) :
    Tiles token.toNat (l.map fun p => p.1.tokens) token'.toNat ∧
      Tiles offset.toNat (l.map fun p => p.1.bytes) offset'.toNat ∧
      ∀ p ∈ l, SpanOf bytesPerToken.toNat p.1 p.2 := by
  induction l generalizing token offset with
  | nil =>
    cases h
    simp [Tiles]
  | cons p l ih =>
    obtain ⟨span, chunk⟩ := p
    simp only [validateSpans, bind_eq_ok, exists_unit, rejectIf_eq_ok, okOr_eq_ok, checkedMul_eq_some,
      checkedAdd_eq_some, not_or, not_not, not_lt, not_le] at h
    obtain ⟨⟨rfl, hcount, rfl⟩, bytes, hbytes, ⟨hsize, -, hmax, hchunk⟩, ⟨h1, h2, h3, h4⟩, ⟨h5, h6, h7⟩, next, hnext,
      nextOffset, hnextOffset, hreached⟩ := h
    obtain ⟨htokens, hoffsets, hrest⟩ := ih hreached
    have hpos := ne_zero_iff_toNat_pos.mp hcount
    have hbpos : 0 < span.plaintextBytes.toNat := by
      rw [← hsize, hbytes]
      exact Nat.mul_pos hpos hbpt
    rw [hnext] at htokens
    rw [hnextOffset, hsize] at hoffsets
    exact ⟨⟨rfl, hpos, htokens⟩, ⟨rfl, hbpos, hoffsets⟩, List.forall_mem_cons.mpr
      ⟨⟨hsize ▸ hbytes, hsize ▸ hmax, hchunk, h1, h2, h3, h4, h5, h6, h7⟩, hrest⟩⟩

/-! ## One state -/

/-- Tokens of the complete tensor of a state: the cut, or only the window. -/
def fullTokens (tokenCount : UInt64) (family : FamilyState) (realized : RealizedStateSchema) : UInt64 :=
  if family.tokenAxisRule = .tailWindow then realized.logicalCount else tokenCount

/-- The first token of a state's segment inside its complete tensor. -/
def physicalToken (family : FamilyState) (realized : RealizedStateSchema) : UInt64 :=
  if family.tokenAxisRule = .tailWindow then 0 else realized.logicalStart

/-- The conditions under which one state of a manifest is accepted. -/
structure StateValid (context : ValidationContext) (kind : ManifestKind) (tokenCount : UInt64) (cut : UInt64 × UInt64)
    (family : FamilyState) (realized : RealizedStateSchema) (payload : StateManifest) : Prop where
  family_key : family.key = realized.key
  payload_key : realized.key = payload.key
  range : stateRange kind tokenCount cut family realized = .ok (realized.logicalStart, realized.logicalCount)
  fullShape : realized.fullShape.dims =
    family.dimensions.map (StaticDimension.extent (fullTokens tokenCount family realized))
  segmentShape : realized.segmentShape.dims = family.dimensions.map (StaticDimension.extent realized.logicalCount)
  position : realized.absolutePosition = tokenCount
  window : realized.window = 0
  strides_length : realized.strides.length = family.dimensions.length
  strides_ne_zero : (0 : UInt64) ∉ realized.strides
  layout : validateLayout family realized = .ok ()
  offset : realized.physicalOffsetBytes.toNat =
    (physicalToken family realized).toNat * (realized.strides.getD family.tokenAxis.toNat 0).toNat * family.dtype.width
  span : realized.physicalSpanBytes.toNat =
    (lastElement (realized.segmentShape.dims.zip realized.strides) + 1) * family.dtype.width
  complete : realized.completePhysicalBytes.toNat =
    (lastElement (realized.fullShape.dims.zip realized.strides) + 1) * family.dtype.width
  spans_ne_nil : realized.chunkSpans ≠ []
  spans_le : realized.chunkSpans.length ≤ context.bounds.maxChunksPerState
  chunks_length : payload.chunks.length = realized.chunkSpans.length
  token_fits : family.tokenBytes ≤ maxChunkPlaintext
  tokens : Tiles realized.logicalStart.toNat (realized.chunkSpans.map (·.tokens))
    (realized.logicalStart.toNat + realized.logicalCount.toNat)
  bytes : Tiles (realized.logicalStart.toNat * family.tokenBytes) (realized.chunkSpans.map (·.bytes))
    ((realized.logicalStart.toNat + realized.logicalCount.toNat) * family.tokenBytes)
  chunks : ∀ p ∈ realized.chunkSpans.zip payload.chunks, SpanOf family.tokenBytes p.1 p.2
  end_lt : (realized.logicalStart.toNat + realized.logicalCount.toNat) * family.tokenBytes < 2 ^ 64
  full_lt : (fullTokens tokenCount family realized).toNat * family.tokenBytes < 2 ^ 64

/-- Bytes of a state's segment and of its complete tensor. -/
def stateBytes (tokenCount : UInt64) (family : FamilyState) (realized : RealizedStateSchema) : Nat × Nat :=
  (realized.logicalCount.toNat * family.tokenBytes,
    (fullTokens tokenCount family realized).toNat * family.tokenBytes)

theorem elementCount_eq_ok {n : UInt64} :
    shape.elementCount = .ok n ↔ n.toNat = (toNats shape.dims).prod := by
  have hone : (1 : UInt64).toNat = 1 := rfl
  constructor
  · intro h
    rw [checkedProdFrom_eq_ok h, hone, Nat.one_mul]
  · intro h
    have hlt : (1 : UInt64).toNat * (toNats shape.dims).prod < 2 ^ 64 := by
      rw [hone, Nat.one_mul, ← h]
      exact n.toNat_lt
    obtain ⟨r, hr⟩ := checkedProdFrom_of_lt (e := PackError.bounds "shape element count overflows u64")
      shape.dims_ne_zero hlt
    have hrn : r = n := by
      rw [← UInt64.toNat_inj, checkedProdFrom_eq_ok hr, hone, Nat.one_mul, h]
    exact hrn ▸ hr

theorem zip_map_fst {α β γ : Type} {l : List α} {l' : List β} (h : l'.length = l.length) (f : α → γ) :
    (l.zip l').map (fun p => f p.1) = l.map f := by
  have hcomp : (fun p : α × β => f p.1) = f ∘ Prod.fst := rfl
  rw [hcomp, ← List.map_map, List.map_fst_zip h.ge]

theorem FamilyState.Valid.tokenBytes_pos (hs : s.Valid) : 0 < s.tokenBytes :=
  Nat.mul_pos hs.elements_pos s.dtype.width_pos

/-- The elements of a tensor are those of one token, as often as it has tokens. -/
theorem FamilyState.Valid.prod_dims (hs : s.Valid) {tokens : UInt64}
    (h : shape.dims = s.dimensions.map (StaticDimension.extent tokens)) :
    (toNats shape.dims).prod = tokens.toNat * s.elementsPerToken.toNat := by
  rw [h, prod_extents hs.token, hs.elements]

section State

variable {context : ValidationContext} {kind : ManifestKind} {tokenCount : UInt64} {cut : UInt64 × UInt64}
  {family : FamilyState} {realized : RealizedStateSchema} {payload : StateManifest} {bytes : UInt64 × UInt64}

theorem StateValid.of_validateState (hf : family.Valid)
    (h : validateState context kind tokenCount cut family realized payload = .ok bytes) :
    StateValid context kind tokenCount cut family realized payload ∧
      (bytes.1.toNat, bytes.2.toNat) = stateBytes tokenCount family realized := by
  obtain ⟨width, hwidth⟩ := family.dtype.exists_widthBytes
  have hw := DType.widthBytes_toNat hwidth
  simp only [validateState, bind_eq_ok, exists_unit, rejectIf_eq_ok, okOr_eq_ok, hwidth, Option.some_inj,
    exists_eq_left', Option.bind_eq_some_iff, checkedMul_eq_some, checkedAdd_eq_some, elementCount_eq_ok, pure_eq_ok,
    not_or, not_not, not_lt, hw] at h
  obtain ⟨⟨hkey, hpayload⟩, ⟨start, count⟩, hrange, hfull, hsegment, ⟨rfl, rfl, hpos, hwin⟩, ⟨hstrides, hstrides0⟩,
    hlayout, segmentElements, hsegmentElements, segmentBytes, hsegmentBytes, completeElements, hcompleteElements,
    completeBytes, hcompleteBytes, offset, ⟨value, hvalue, hoffset⟩, span, hspan, complete, hcomplete,
    ⟨rfl, rfl, rfl⟩, ⟨hne, hle, hlen⟩, bpt, hbpt, ⟨-, hfits⟩, base, hbase, ⟨token', offset'⟩, hreached, rangeEnd,
    hrangeEnd, endOffset, hendOffset, ⟨rfl, rfl⟩, rfl⟩ := h
  have hbpt' : bpt.toNat = family.tokenBytes := hbpt
  have hfull := dims_of_validateShape hfull
  have hsegment := dims_of_validateShape hsegment
  have hspan := physicalFootprint_eq_ok hspan
  have hcomplete := physicalFootprint_eq_ok hcomplete
  obtain ⟨htiles, hbytes, hspans⟩ := validateSpans_eq_ok (hbpt' ▸ hf.tokenBytes_pos) hreached
  rw [zip_map_fst hlen] at htiles hbytes
  rw [hrangeEnd] at htiles hendOffset
  rw [hbase, hendOffset] at hbytes
  rw [hbpt'] at hbytes hspans hfits hendOffset
  rw [hsegmentElements, hf.prod_dims hsegment, Nat.mul_assoc] at hsegmentBytes
  rw [hcompleteElements, hf.prod_dims hfull, Nat.mul_assoc] at hcompleteBytes
  rw [hvalue] at hoffset
  rw [hw] at hspan hcomplete
  have hrank : realized.fullShape.rank = family.dimensions.length := by rw [Shape.rank, hfull, List.length_map]
  refine ⟨⟨hkey, hpayload, hrange, hfull, hsegment, hpos, hwin, hstrides.trans hrank, hstrides0, hlayout, hoffset,
    hspan, hcomplete, hne, hle, hlen, hfits, htiles, hbytes, hspans, ?_, ?_⟩, ?_⟩
  · rw [← hendOffset]
    exact UInt64.toNat_lt _
  · exact lt_of_eq_of_lt hcompleteBytes.symm (UInt64.toNat_lt _)
  · rw [hsegmentBytes, hcompleteBytes]
    rfl

end State

variable {previous : Option StateKey} {keys expected observed observed' : List StateKey} {previousId : UInt32}
  {groups : List AtomicGroup} {m : CutManifest}

/-! ## Atomic groups -/

/-- The keys are strictly increasing, and come after `previous` if there is one. -/
def SortedAfter (previous : Option StateKey) (keys : List StateKey) : Prop :=
  (previous.toList ++ keys).Pairwise (· < ·)

theorem sortedAfter_cons {key : StateKey} :
    SortedAfter previous (key :: keys) ↔ ¬ outOfOrder previous key ∧ SortedAfter (some key) keys := by
  cases previous with
  | none => simp [SortedAfter, outOfOrder]
  | some p =>
    simp only [SortedAfter, Option.toList_some, List.cons_append, List.nil_append, List.pairwise_cons,
      List.forall_mem_cons, outOfOrder, not_not]
    constructor
    · rintro ⟨⟨hp, -⟩, hrest⟩
      exact ⟨hp, hrest⟩
    · rintro ⟨hp, hkey, hrest⟩
      exact ⟨⟨hp, fun k hk => StateKey.lt_trans hp (hkey k hk)⟩, hkey, hrest⟩

theorem validateGroupStates_eq_ok
    (h : validateGroupStates expected previous observed keys = .ok observed') :
    observed' = observed ++ keys ∧ keys ⊆ expected ∧ SortedAfter previous keys ∧ observed.Disjoint keys := by
  induction keys generalizing previous observed with
  | nil =>
    have hsorted : SortedAfter previous [] := by cases previous <;> simp [SortedAfter]
    cases h
    simp [hsorted]
  | cons k ks ih =>
    simp only [validateGroupStates, bind_eq_ok, exists_unit, rejectIf_eq_ok, not_not] at h
    obtain ⟨hk, horder, hobs, hrest⟩ := h
    obtain ⟨rfl, hsub, hsorted, hdis⟩ := ih hrest
    rw [List.disjoint_append_left] at hdis
    rw [sortedAfter_cons, List.cons_subset, List.disjoint_cons_right]
    exact ⟨by simp, ⟨hk, hsub⟩, ⟨horder, hsorted⟩, hobs, hdis.1⟩

/-- The groups carry increasing nonzero identifiers, from `previousId` on. -/
def GroupIdsAfter (previousId : UInt32) (groups : List AtomicGroup) : Prop :=
  (previousId.toNat :: groups.map fun g => g.id.toNat).Pairwise (· < ·)

theorem groupIdsAfter_cons {group : AtomicGroup} :
    GroupIdsAfter previousId (group :: groups) ↔
      ¬ (group.id = 0 ∨ group.id ≤ previousId) ∧ GroupIdsAfter group.id groups := by
  have hle : group.id ≤ previousId ↔ group.id.toNat ≤ previousId.toNat := UInt32.le_iff_toNat_le
  have hzero : group.id = 0 ↔ group.id.toNat = 0 := by
    rw [← UInt32.toNat_inj]
    rfl
  simp only [GroupIdsAfter, List.map_cons, List.pairwise_cons, List.forall_mem_cons, not_or, hle, hzero]
  constructor
  · rintro ⟨⟨hid, -⟩, hrest⟩
    exact ⟨⟨by omega, by omega⟩, hrest⟩
  · rintro ⟨⟨-, hid⟩, hgroup, hrest⟩
    exact ⟨⟨by omega, fun n hn => lt_trans (by omega) (hgroup n hn)⟩, hgroup, hrest⟩

theorem validateGroups_eq_ok (hnodup : observed.Nodup)
    (h : validateGroups expected previousId observed groups = .ok observed') :
    observed' = observed ++ groups.flatMap (·.states) ∧ GroupIdsAfter previousId groups ∧
      (∀ g ∈ groups, g.states ⊆ expected ∧ g.states.Pairwise (· < ·)) ∧
      (observed ++ groups.flatMap (·.states)).Nodup := by
  induction groups generalizing observed previousId with
  | nil =>
    cases h
    simp [GroupIdsAfter, hnodup]
  | cons g gs ih =>
    simp only [validateGroups, bind_eq_ok, exists_unit, rejectIf_eq_ok] at h
    obtain ⟨hid, obs, hobs, hrest⟩ := h
    obtain ⟨rfl, hsub, hsorted, hdis⟩ := validateGroupStates_eq_ok hobs
    have hg : g.states.Pairwise (· < ·) := hsorted
    have hnodup' := List.Nodup.append hnodup (hg.imp StateKey.ne_of_lt) hdis
    obtain ⟨rfl, hids, hall, hnd⟩ := ih hnodup' hrest
    rw [List.append_assoc] at hnd
    rw [groupIdsAfter_cons, List.forall_mem_cons, List.flatMap_cons]
    exact ⟨List.append_assoc .., ⟨hid, hids⟩, ⟨⟨hsub, hg⟩, hall⟩, hnd⟩

/-- Every state of the family lies in exactly one group. -/
structure GroupsPartition (keys : List StateKey) (groups : List AtomicGroup) : Prop where
  ids : GroupIdsAfter 0 groups
  sorted : ∀ g ∈ groups, g.states.Pairwise (· < ·)
  perm : (groups.flatMap (·.states)).Perm keys

theorem validateAtomicGroups_eq_ok (hkeys : (m.family.states.map (·.key)).Nodup)
    (h : validateAtomicGroups m = .ok ()) :
    GroupsPartition (m.family.states.map (·.key)) m.realizedSchema.atomicGroups := by
  simp only [validateAtomicGroups, bind_eq_ok, rejectIf_eq_ok, not_not] at h
  obtain ⟨observed, hgroups, hsub, hsup⟩ := h
  obtain ⟨rfl, hids, hall, hnd⟩ := validateGroups_eq_ok List.nodup_nil hgroups
  exact ⟨hids, fun g hg => (hall g hg).2, (List.perm_ext_iff_of_nodup hnd hkeys).mpr fun k => ⟨(hsub ·), (hsup ·)⟩⟩

/-! ## Manifests -/

theorem validateStates_eq_ok {context : ValidationContext} {kind : ManifestKind} {tokenCount : UInt64}
    {cut totals : UInt64 × UInt64} {segment complete : UInt64} {families : List FamilyState}
    {schemas : List RealizedStateSchema} {payloads : List StateManifest} (hf : ∀ f ∈ families, f.Valid)
    (h : validateStates context kind tokenCount cut segment complete families schemas payloads = .ok totals) :
    (∀ t ∈ families.zip (schemas.zip payloads), StateValid context kind tokenCount cut t.1 t.2.1 t.2.2) ∧
      totals.1.toNat = segment.toNat +
        ((families.zip (schemas.zip payloads)).map fun t => (stateBytes tokenCount t.1 t.2.1).1).sum ∧
      totals.2.toNat = complete.toNat +
        ((families.zip (schemas.zip payloads)).map fun t => (stateBytes tokenCount t.1 t.2.1).2).sum := by
  induction families generalizing schemas payloads segment complete with
  | nil =>
    cases h
    simp
  | cons family families ih =>
    cases schemas with
    | nil =>
      cases h
      simp
    | cons realized schemas =>
      cases payloads with
      | nil =>
        cases h
        simp
      | cons payload payloads =>
        simp only [validateStates, bind_eq_ok, okOr_eq_ok, checkedAdd_eq_some] at h
        obtain ⟨bytes, hstate, segment', hsegment', complete', hcomplete', hrest⟩ := h
        obtain ⟨hall, hsum1, hsum2⟩ := ih (fun f h => hf f (List.mem_cons_of_mem _ h)) hrest
        obtain ⟨hvalid, hbytes⟩ := StateValid.of_validateState (hf family List.mem_cons_self) hstate
        simp only [List.zip_cons_cons, List.forall_mem_cons, List.map_cons, List.sum_cons, ← hbytes]
        exact ⟨⟨hvalid, hall⟩, by omega, by omega⟩

/-- The tokens a manifest carries, as a start and a count. -/
def ManifestKind.range (kind : ManifestKind) (tokenCount : UInt64) : UInt64 × UInt64 :=
  match kind with
  | .full => (0, tokenCount)
  | .delta _ parentCut _ => (parentCut.tokenCount, tokenCount - parentCut.tokenCount)

theorem cutRange_eq_ok {kind : ManifestKind} {inputCut : InputCutId} {cut : UInt64 × UInt64}
    (h : cutRange kind inputCut = .ok cut) : cut = kind.range inputCut.tokenCount := by
  cases kind with
  | full =>
    cases h
    rfl
  | delta parent parentCut depth =>
    simp only [cutRange, bind_eq_ok, exists_unit, rejectIf_eq_ok, pure_eq_ok] at h
    exact h.2.2.2.symm

/-- The conditions under which a manifest is accepted. -/
structure ManifestValid (m : CutManifest) (context : ValidationContext) : Prop where
  tenant : ¬ isZeroId m.tenantNamespace
  epoch : m.keyEpoch ≠ 0
  semantic : ¬ m.semanticModel.components.any isZeroId
  tokenRoot : ¬ isZeroId m.inputCut.tokenRoot
  auxiliary : ¬ isZeroId m.inputCut.auxiliaryInputRoot
  tokens : m.inputCut.tokenCount ≠ 0
  family : validateFamily m.family = .ok ()
  cut : cutRange m.realizedSchema.kind m.inputCut = .ok (m.realizedSchema.kind.range m.inputCut.tokenCount)
  schemas_length : m.realizedSchema.states.length = m.family.states.length
  payloads_length : m.states.length = m.family.states.length
  count_le : m.realizedSchema.states.length ≤ context.bounds.maxStates
  groups : GroupsPartition (m.family.states.map (·.key)) m.realizedSchema.atomicGroups
  states : ∀ t ∈ m.triples, StateValid context m.realizedSchema.kind m.inputCut.tokenCount
    (m.realizedSchema.kind.range m.inputCut.tokenCount) t.1 t.2.1 t.2.2
  segment : m.realizedSchema.segmentRestoredBytes.toNat =
    (m.triples.map fun t => (stateBytes m.inputCut.tokenCount t.1 t.2.1).1).sum
  complete : m.realizedSchema.completeRestoredBytes.toNat =
    (m.triples.map fun t => (stateBytes m.inputCut.tokenCount t.1 t.2.1).2).sum
  restored_le : m.realizedSchema.completeRestoredBytes ≤ context.bounds.maxRestoredBytes

theorem validateManifest_eq_ok {context : ValidationContext}
    (h : validateManifest m context = .ok ()) : ManifestValid m context := by
  have hzero : (0 : UInt64).toNat = 0 := rfl
  simp only [validateManifest, bind_eq_ok, exists_unit, rejectIf_eq_ok, not_or, not_not, not_lt, UInt64.not_lt] at h
  obtain ⟨htenant, hepoch, hsemantic, ⟨hroot, haux, htokens⟩, hfamily, cut, hcut, ⟨hlen1, hlen2, hmax⟩, hgroups,
    totals, hstates, hsegment, hcomplete, hrestored⟩ := h
  have hfv := validateFamily_eq_ok hfamily
  obtain rfl := cutRange_eq_ok hcut
  obtain ⟨hall, hsum1, hsum2⟩ := validateStates_eq_ok hfv.states hstates
  rw [hzero, Nat.zero_add] at hsum1 hsum2
  exact ⟨htenant, hepoch, hsemantic, hroot, haux, htokens, hfamily, hcut, hlen1, hlen2, hmax,
    validateAtomicGroups_eq_ok hfv.nodup hgroups, hall, by rw [hsegment, hsum1]; rfl,
    by rw [hcomplete, hsum2]; rfl, hrestored⟩

/-! ## Geometry of an accepted manifest -/

section Geometry

variable {m : CutManifest} {context : ValidationContext} {t : FamilyState × RealizedStateSchema × StateManifest}

theorem ManifestValid.familyState (h : ManifestValid m context) (ht : t ∈ m.triples) : t.1.Valid :=
  (validateFamily_eq_ok h.family).states _ (List.of_mem_zip ht).1

theorem StateValid.range_cases {kind : ManifestKind} {tokenCount : UInt64} {cut : UInt64 × UInt64}
    {family : FamilyState} {realized : RealizedStateSchema} {payload : StateManifest}
    (h : StateValid context kind tokenCount cut family realized payload) :
    (family.tokenAxisRule = .tailWindow ∧ kind = .full ∧ 0 < realized.logicalCount.toNat ∧
      realized.logicalStart.toNat + realized.logicalCount.toNat = tokenCount.toNat) ∨
    (family.tokenAxisRule ≠ .tailWindow ∧ (realized.logicalStart, realized.logicalCount) = cut) := by
  have hr := h.range
  unfold stateRange at hr
  split at hr
  · rename_i htail
    simp only [bind_eq_ok, exists_unit, rejectIf_eq_ok, pure_eq_ok, not_or, not_not, UInt64.not_lt,
      Prod.mk.injEq] at hr
    obtain ⟨⟨hkind, hcount, hle⟩, hstart, -⟩ := hr
    have hle' := UInt64.le_iff_toNat_le.mp hle
    refine Or.inl ⟨htail, hkind, ne_zero_iff_toNat_pos.mp hcount, ?_⟩
    rw [← hstart, UInt64.toNat_sub_of_le _ _ hle]
    omega
  · rename_i htail
    exact Or.inr ⟨htail, (Except.ok.inj hr).symm⟩

/-- A delta starts at its parent's cut, which lies strictly before its own. -/
theorem cutRange_delta {inputCut parentCut : InputCutId} {parent : Id32} {depth : UInt8} {cut : UInt64 × UInt64}
    (h : cutRange (.delta parent parentCut depth) inputCut = .ok cut) :
    0 < parentCut.tokenCount.toNat ∧ parentCut.tokenCount.toNat < inputCut.tokenCount.toNat := by
  simp only [cutRange, bind_eq_ok, exists_unit, rejectIf_eq_ok, not_or, not_not, UInt64.not_le] at h
  exact ⟨ne_zero_iff_toNat_pos.mp h.2.2.1.2.1, UInt64.lt_iff_toNat_lt.mp h.2.2.1.2.2⟩

theorem ManifestValid.range_end (h : ManifestValid m context) (ht : t ∈ m.triples) :
    t.2.1.logicalStart.toNat + t.2.1.logicalCount.toNat = m.inputCut.tokenCount.toNat := by
  rcases (h.states t ht).range_cases with ⟨-, -, -, hend⟩ | ⟨-, hcut⟩
  · exact hend
  · have hrange := h.cut
    cases hk : m.realizedSchema.kind with
    | full =>
      rw [hk] at hcut
      obtain ⟨h1, h2⟩ := Prod.mk.inj hcut
      rw [h1, h2]
      exact Nat.zero_add _
    | delta parent parentCut depth =>
      rw [hk] at hcut hrange
      obtain ⟨h1, h2⟩ := Prod.mk.inj hcut
      have hlt := (cutRange_delta hrange).2
      rw [h1, h2, UInt64.toNat_sub_of_le _ _ (UInt64.le_iff_toNat_le.mpr hlt.le)]
      omega

theorem ManifestValid.logicalCount_pos (h : ManifestValid m context) (ht : t ∈ m.triples) :
    0 < t.2.1.logicalCount.toNat := by
  have hs := h.states t ht
  have hsum := hs.tokens.sum
  obtain ⟨s, hmem⟩ := List.exists_mem_of_ne_nil _ hs.spans_ne_nil
  have hspan := hs.tokens.mem (List.mem_map_of_mem hmem)
  omega

/-- The physical segment ends exactly where the complete tensor ends. -/
theorem ManifestValid.physical_end (h : ManifestValid m context) (ht : t ∈ m.triples) :
    t.2.1.physicalOffsetBytes.toNat + t.2.1.physicalSpanBytes.toNat = t.2.1.completePhysicalBytes.toNat := by
  have hs := h.states t ht
  have hf := h.familyState ht
  have hend := h.range_end ht
  have hpos := h.logicalCount_pos ht
  rw [hs.offset, hs.span, hs.complete, hs.segmentShape, hs.fullShape]
  rcases hs.range_cases with ⟨htail, -, -, -⟩ | ⟨htail, -⟩
  · simp [physicalToken, fullTokens, htail]
  · simp only [physicalToken, fullTokens, htail, ↓reduceIte]
    have hle : t.2.1.logicalCount.toNat ≤ m.inputCut.tokenCount.toNat := by omega
    have hgap : m.inputCut.tokenCount.toNat - t.2.1.logicalCount.toNat = t.2.1.logicalStart.toNat := by omega
    rw [lastElement_extend hf.token hs.strides_length hpos hle, hgap]
    ring

theorem ManifestValid.span_bytes (h : ManifestValid m context) (ht : t ∈ m.triples) :
    t.2.1.chunkSpans.map (·.bytes) =
      t.2.1.chunkSpans.map fun s => (s.tokenStart.toNat * t.1.tokenBytes, s.tokenCount.toNat * t.1.tokenBytes) := by
  have hs := h.states t ht
  have hscaled := hs.tokens.scale (h.familyState ht).tokenBytes_pos
  rw [List.map_map] at hscaled
  refine hs.bytes.unique hscaled ?_
  rw [List.map_map, List.map_map]
  refine List.map_congr_left fun s hmem => ?_
  obtain ⟨i, hi, rfl⟩ := List.getElem_of_mem hmem
  have hi' : i < t.2.2.chunks.length := by rw [hs.chunks_length]; exact hi
  have hzip : (t.2.1.chunkSpans[i], t.2.2.chunks[i]) ∈ t.2.1.chunkSpans.zip t.2.2.chunks := by
    have hlt : i < (t.2.1.chunkSpans.zip t.2.2.chunks).length := by rw [List.length_zip]; omega
    rw [← List.getElem_zip (h := hlt)]
    exact List.getElem_mem _
  exact (hs.chunks _ hzip).size

theorem ManifestValid.plaintextOffset (h : ManifestValid m context) (ht : t ∈ m.triples) {span : ChunkSpan}
    (hs : span ∈ t.2.1.chunkSpans) : span.plaintextOffset.toNat = span.tokenStart.toNat * t.1.tokenBytes :=
  congrArg Prod.fst (List.map_inj_left.mp (h.span_bytes ht) span hs)

end Geometry

variable {α β : Type} {l : List α} {l' : List β}

/-! ## The states of a manifest and its triples -/

theorem exists_mem_zip_left (h : l.length ≤ l'.length) {a : α} (ha : a ∈ l) :
    ∃ b, (a, b) ∈ l.zip l' := by
  rw [← List.map_fst_zip h] at ha
  obtain ⟨⟨a', b⟩, hmem, rfl⟩ := List.mem_map.mp ha
  exact ⟨b, hmem⟩

theorem exists_mem_zip_right (h : l'.length ≤ l.length) {b : β} (hb : b ∈ l') : ∃ a, (a, b) ∈ l.zip l' := by
  rw [← List.map_snd_zip h] at hb
  obtain ⟨⟨a, b'⟩, hmem, rfl⟩ := List.mem_map.mp hb
  exact ⟨a, hmem⟩

section Members

variable {m : CutManifest} {context : ValidationContext}

theorem ManifestValid.triple_of_family (h : ManifestValid m context) {f : FamilyState} (hf : f ∈ m.family.states) :
    ∃ r p, (f, r, p) ∈ m.triples := by
  have hlen := h.schemas_length
  have hlen' := h.payloads_length
  obtain ⟨⟨r, p⟩, hmem⟩ := exists_mem_zip_left
    (show _ ≤ (m.realizedSchema.states.zip m.states).length by rw [List.length_zip]; omega) hf
  exact ⟨r, p, hmem⟩

theorem ManifestValid.map_key (h : ManifestValid m context) :
    m.triples.map (·.2.2.key) = m.family.states.map (·.key) := by
  have hlen := h.schemas_length
  have hlen' := h.payloads_length
  have hkeys : m.triples.map (·.2.2.key) = m.triples.map (·.1.key) := by
    refine List.map_congr_left fun t ht => ?_
    have hs := h.states t ht
    rw [hs.family_key, hs.payload_key]
  have hcomp : (fun t : FamilyState × RealizedStateSchema × StateManifest => t.1.key) = (·.key) ∘ Prod.fst := rfl
  rw [hkeys, hcomp, ← List.map_map, CutManifest.triples, List.map_fst_zip (by rw [List.length_zip]; omega)]

theorem ManifestValid.keys_nodup (h : ManifestValid m context) : (m.triples.map (·.2.2.key)).Nodup := by
  rw [h.map_key]
  exact (validateFamily_eq_ok h.family).nodup

theorem ManifestValid.triple_of_schema (h : ManifestValid m context) {r : RealizedStateSchema}
    (hr : r ∈ m.realizedSchema.states) : ∃ f p, (f, r, p) ∈ m.triples := by
  have hlen := h.schemas_length
  have hlen' := h.payloads_length
  obtain ⟨p, hp⟩ := exists_mem_zip_left (show _ ≤ m.states.length by omega) hr
  obtain ⟨f, hf⟩ := exists_mem_zip_right (show _ ≤ m.family.states.length by rw [List.length_zip]; omega) hp
  exact ⟨f, p, hf⟩

theorem ManifestValid.triple_of_payload (h : ManifestValid m context) {p : StateManifest} (hp : p ∈ m.states) :
    ∃ f r, (f, r, p) ∈ m.triples := by
  have hlen := h.schemas_length
  have hlen' := h.payloads_length
  obtain ⟨r, hr⟩ := exists_mem_zip_right (show _ ≤ m.realizedSchema.states.length by omega) hp
  obtain ⟨f, hf⟩ := exists_mem_zip_right (show _ ≤ m.family.states.length by rw [List.length_zip]; omega) hr
  exact ⟨f, r, hf⟩

end Members

end Kvpack.Core
