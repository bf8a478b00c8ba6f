import Kvpack.Core.Lemmas.Validation
import Kvpack.Restore.Scatter

/-!
# Scatter plans of authenticated chains

On a chain of accepted manifests every check of the scatter plan but the last succeeds: each manifest continues its
states where its parent stopped, so those of one state tile it.
-/

namespace Kvpack.Restore

open Base Kvpack.Core

/-! ## Chains -/

/-- A full manifest and the deltas after it, each valid and linked to the one before. -/
inductive AuthenticatedChain (context : ValidationContext) : List AuthenticatedManifest → Prop
  | root {m} : validateManifest m.manifest context = .ok () → m.manifest.realizedSchema.kind = .full →
      AuthenticatedChain context [m]
  | extend {earlier parent child depth} : AuthenticatedChain context (earlier ++ [parent]) →
      validateManifest child.manifest context = .ok () →
      child.manifest.realizedSchema.kind = .delta parent.manifestId parent.manifest.inputCut depth →
      depth.toNat = parent.manifest.realizedSchema.kind.depth.toNat + 1 →
      child.manifest.family = parent.manifest.family →
      child.manifest.semanticModel = parent.manifest.semanticModel →
      child.manifest.tenantNamespace = parent.manifest.tenantNamespace →
      child.manifest.keyEpoch = parent.manifest.keyEpoch →
      AuthenticatedChain context ((earlier ++ [parent]) ++ [child])

section Chain

variable {context : ValidationContext} {chain : List AuthenticatedManifest}
variable {load : Id32 → Except StoreError CutManifest}

theorem AuthenticatedChain.exists_leaf (h : AuthenticatedChain context chain) :
    ∃ earlier leaf, chain = earlier ++ [leaf] ∧ ManifestValid leaf.manifest context := by
  cases h with
  | root hv => exact ⟨[], _, rfl, validateManifest_eq_ok hv⟩
  | extend _ hv => exact ⟨_, _, rfl, validateManifest_eq_ok hv⟩

/-- The fields in which every manifest of a chain agrees with its leaf. -/
def Compatible (leaf m : CutManifest) : Prop :=
  m.semanticModel = leaf.semanticModel ∧ m.family = leaf.family ∧ m.tenantNamespace = leaf.tenantNamespace ∧
    m.keyEpoch = leaf.keyEpoch

/-- The loop that climbs to the root builds an authenticated chain of what it loads. -/
theorem authenticatedChain_of_loadParents
    (hload : ∀ id m, load id = .ok m → validateManifest m context = .ok ()) {leaf current : CutManifest}
    {seen : List Id32} {id : Id32} {ancestors : List AuthenticatedManifest}
    (hvalid : validateManifest current context = .ok ()) (hcompatible : Compatible leaf current)
    (h : loadParents load leaf current seen = .ok ancestors) :
    AuthenticatedChain context (ancestors.reverse ++ [⟨id, current⟩]) := by
  fun_induction loadParents load leaf current seen generalizing id ancestors with
  | case1 current seen hkind =>
    cases h
    exact .root hvalid hkind
  | case2 => cases h
  | case3 => cases h
  | case4 => cases h
  | case5 current seen parent parentCut depth hkind hdepth manifest hmanifest hcheck ih =>
    simp only [bind_eq_ok, pure_eq_ok] at h
    obtain ⟨rest, hrest, rfl⟩ := h
    simp only [not_or, not_not] at hcheck
    obtain ⟨hcut, hsemantic, hfamily, htenant, hepoch, hnext⟩ := hcheck
    have hchain : AuthenticatedChain context (rest.reverse ++ [⟨parent, manifest⟩]) :=
      ih (hload parent manifest hmanifest) ⟨hsemantic, hfamily, htenant, hepoch⟩ hrest
    rw [List.reverse_cons]
    refine .extend hchain hvalid (hkind.trans (by rw [hcut])) ?_ ?_ ?_ ?_ ?_
    · rw [hnext, hkind]
      rfl
    · rw [hcompatible.2.1, hfamily]
    · rw [hcompatible.1, hsemantic]
    · rw [hcompatible.2.2.1, htenant]
    · rw [hcompatible.2.2.2, hepoch]

theorem authenticatedChain_of_authenticate {C : Crypto}
    (hload : ∀ id m, load id = .ok m → validateManifest m context = .ok ()) {leafId : Id32}
    {expected : Option (Id32 × Id32 × InputCutId)} (h : authenticateChain load C leafId expected = .ok chain) :
    AuthenticatedChain context chain ∧ ∃ leaf, load leafId = .ok leaf ∧ chain.getLast? = some ⟨leafId, leaf⟩ := by
  simp only [authenticateChain, bind_eq_ok, rejectIf_eq_ok, exists_unit, pure_eq_ok] at h
  obtain ⟨leaf, hleaf, -, ancestors, hancestors, -, rfl⟩ := h
  rw [List.reverse_cons]
  exact ⟨authenticatedChain_of_loadParents hload (hload _ _ hleaf) ⟨rfl, rfl, rfl, rfl⟩ hancestors,
    leaf, hleaf, List.getLast?_concat⟩

end Chain

/-! ## Operations of one manifest -/

/-- The place of a chunk in the restored state. -/
def targetOf (family : FamilyState) (schema : RealizedStateSchema) (span : ChunkSpan) : Nat :=
  span.plaintextOffset.toNat -
    if family.tokenAxisRule = .tailWindow then schema.logicalStart.toNat * family.tokenBytes else 0

def operationOf (m : CutManifest) (t : FamilyState × RealizedStateSchema × StateManifest) (p : ChunkRef × ChunkSpan) :
    RestoreChunkOperation :=
  { stateKey := t.2.2.key, span := p.2, targetOffset := UInt64.ofNat (targetOf t.1 t.2.1 p.2), reference := p.1,
    tenantNamespace := m.tenantNamespace, family := m.family, recompute := false }

def stateOperations (m : CutManifest) (t : FamilyState × RealizedStateSchema × StateManifest) :
    List RestoreChunkOperation :=
  (t.2.2.chunks.zip t.2.1.chunkSpans).map (operationOf m t)

def manifestOperations (m : CutManifest) : List RestoreChunkOperation := m.triples.flatMap (stateOperations m)

def chainOperations (chain : List AuthenticatedManifest) : List RestoreChunkOperation :=
  chain.flatMap fun entry => manifestOperations entry.manifest

def RestoreChunkOperation.range (op : RestoreChunkOperation) : Nat × Nat :=
  (op.targetOffset.toNat, op.span.plaintextBytes.toNat)

section Manifest

variable {context : ValidationContext} {m : CutManifest} {t : FamilyState × RealizedStateSchema × StateManifest}

theorem exists_bytesPerToken {f : FamilyState} (hfits : f.tokenBytes ≤ maxChunkPlaintext) :
    ∃ b, bytesPerToken f = .ok b ∧ b.toNat = f.tokenBytes := by
  obtain ⟨width, hwidth⟩ := f.dtype.exists_widthBytes
  have hw := DType.widthBytes_toNat hwidth
  have hlt : f.elementsPerToken.toNat * width.toNat < 2 ^ 64 := by
    rw [hw]
    exact lt_of_le_of_lt hfits (by decide)
  refine ⟨f.elementsPerToken * width, ?_, ?_⟩
  · simp only [bytesPerToken, hwidth, okOr_some, ok_bind, checkedMul_isSome hlt]
  · rw [toNat_mul_of_lt hlt, hw]
    rfl

theorem targetOffset_eq_ok {f : FamilyState} {s : RealizedStateSchema} {b : UInt64} {span : ChunkSpan}
    (hb : b.toNat = f.tokenBytes) (hle : s.logicalStart.toNat * f.tokenBytes ≤ span.plaintextOffset.toNat) :
    targetOffset f s b span = .ok (UInt64.ofNat (targetOf f s span)) := by
  have hlt := span.plaintextOffset.toNat_lt
  unfold targetOffset targetOf
  split
  · have hmul : s.logicalStart.toNat * b.toNat < 2 ^ 64 := by
      rw [hb]
      omega
    simp only [checkedMul_isSome hmul, okOr_some, ok_bind, okOr_eq_ok, checkedSub_eq_some, toNat_mul_of_lt hmul, hb]
    rw [UInt64.toNat_ofNat_of_lt' (lt_of_le_of_lt (Nat.sub_le _ _) hlt)]
    omega
  · simp

theorem scatterChunks_eq_ok {b expected stop : UInt64} {pairs : List (ChunkRef × ChunkSpan)}
    (hb : b.toNat = t.1.tokenBytes) (hstart : t.2.1.logicalStart.toNat ≤ expected.toNat)
    (htiles : Tiles expected.toNat (pairs.map fun p => p.2.tokens) stop.toNat)
    (hoffset : ∀ p ∈ pairs, p.2.plaintextOffset.toNat = p.2.tokenStart.toNat * t.1.tokenBytes) :
    scatterChunks m t.1 t.2.1 t.2.2.key b expected pairs = .ok (stop, pairs.map (operationOf m t)) := by
  induction pairs generalizing expected with
  | nil =>
    have heq : expected = stop := UInt64.toNat_inj.mp htiles
    rw [scatterChunks, heq]
    rfl
  | cons p pairs ih =>
    obtain ⟨reference, span⟩ := p
    obtain ⟨h1, h2, h3⟩ := htiles
    simp only [ChunkSpan.tokens] at h1 h2 h3
    have hp := hoffset (reference, span) List.mem_cons_self
    simp only at hp
    have hlt := span.plaintextOffset.toNat_lt
    have hmul : span.tokenStart.toNat * b.toNat < 2 ^ 64 := by rw [hb, ← hp]; exact hlt
    have hsum : expected.toNat + span.tokenCount.toNat < 2 ^ 64 := lt_of_le_of_lt h3.le stop.toNat_lt
    have htarget : targetOffset t.1 t.2.1 b span = .ok (UInt64.ofNat (targetOf t.1 t.2.1 span)) := by
      refine targetOffset_eq_ok hb ?_
      rw [hp, h1]
      exact Nat.mul_le_mul_right _ hstart
    have hrest := @ih (expected + span.tokenCount)
      (by rw [toNat_add_of_lt hsum]; omega) (by rw [toNat_add_of_lt hsum]; exact h3)
      (fun q hq => hoffset q (List.mem_cons_of_mem _ hq))
    have hoff : span.plaintextOffset = span.tokenStart * b := by
      rw [← UInt64.toNat_inj, toNat_mul_of_lt hmul, hb, hp]
    rw [scatterChunks, rejectIf_of_not (not_not.mpr (UInt64.toNat_inj.mp h1)), checkedMul_isSome hmul,
      checkedAdd_isSome hsum]
    simp only [ok_bind, okOr_some, htarget, hrest, rejectIf_of_not (not_not.mpr hoff)]
    rfl

/-- The counter of each state is the number of its operations so far. -/
def ScatterState.Counted (s : ScatterState) : Prop :=
  ∀ k, s.chunkCounts k =
    let count := s.operations.countP (·.stateKey = k)
    if count = 0 then none else some count

/-- One state of an accepted manifest, from where the previous manifests stopped. -/
theorem scatterState_eq_ok (hv : ManifestValid m context) (ht : t ∈ m.triples) {s : ScatterState} (hc : s.Counted)
    (hnext : s.nextToken t.2.2.key = some t.2.1.logicalStart) :
    ∃ s', scatterState m s t = .ok s' ∧ s'.Counted ∧ s'.operations = s.operations ++ stateOperations m t ∧
      s'.nextToken = Function.update s.nextToken t.2.2.key (some m.inputCut.tokenCount) := by
  have hs := hv.states t ht
  obtain ⟨b, hb, hbNat⟩ := exists_bytesPerToken hs.token_fits
  have hspans : (t.2.2.chunks.zip t.2.1.chunkSpans).map (fun p => p.2.tokens) = t.2.1.chunkSpans.map (·.tokens) := by
    have hcomp : (fun p : ChunkRef × ChunkSpan => p.2.tokens) = (·.tokens) ∘ Prod.snd := rfl
    rw [hcomp, ← List.map_map, List.map_snd_zip hs.chunks_length.ge]
  have htiles := hs.tokens
  rw [← hspans, hv.range_end ht] at htiles
  have hchunks := scatterChunks_eq_ok (m := m) hbNat le_rfl htiles
    (fun p hp => hv.plaintextOffset ht (List.of_mem_zip hp).2)
  have hne : stateOperations m t ≠ [] := by
    intro hnil
    have hlen := congrArg List.length hnil
    rw [stateOperations, List.length_map, List.length_zip, hs.chunks_length, min_self] at hlen
    exact hs.spans_ne_nil (List.eq_nil_of_length_eq_zero hlen)
  have hcount : (stateOperations m t).countP (·.stateKey = t.2.2.key) = (stateOperations m t).length := by
    rw [List.countP_eq_length]
    intro op hop
    obtain ⟨p, -, rfl⟩ := List.mem_map.mp hop
    simp [operationOf]
  refine ⟨⟨Function.update s.nextToken t.2.2.key (some m.inputCut.tokenCount),
    Function.update s.chunkCounts t.2.2.key (some ((s.chunkCounts t.2.2.key).getD 0 + (stateOperations m t).length)),
    s.operations ++ stateOperations m t⟩, ?_, ?_, rfl, rfl⟩
  · simp only [scatterState, hnext, okOr_some, ok_bind, hb]
    rw [hchunks]
    simp only [ok_bind]
    rw [show (t.2.2.chunks.zip t.2.1.chunkSpans).map (operationOf m t) = stateOperations m t from rfl, if_neg hne]
    rfl
  · intro k
    by_cases hk : k = t.2.2.key
    · subst hk
      have hpos := List.length_pos_of_ne_nil hne
      have hprev : (s.chunkCounts t.2.2.key).getD 0 = s.operations.countP (·.stateKey = t.2.2.key) := by
        rw [hc]
        dsimp only
        split
        · rename_i hzero
          rw [hzero]
          rfl
        · rfl
      simp only [Function.update_self, List.countP_append, hcount, hprev]
      rw [if_neg (by omega)]
    · have hzero : (stateOperations m t).countP (·.stateKey = k) = 0 := by
        rw [List.countP_eq_zero]
        intro op hop
        obtain ⟨p, -, rfl⟩ := List.mem_map.mp hop
        simp [operationOf, Ne.symm hk]
      simp only [Function.update_of_ne hk, List.countP_append, hzero, Nat.add_zero]
      exact hc k

theorem foldlM_scatterState (hv : ManifestValid m context)
    {ts : List (FamilyState × RealizedStateSchema × StateManifest)}
    (hsub : ts ⊆ m.triples) (hnodup : (ts.map (·.2.2.key)).Nodup) {s : ScatterState} (hc : s.Counted)
    (hnext : ∀ t ∈ ts, s.nextToken t.2.2.key = some t.2.1.logicalStart) :
    ∃ s', ts.foldlM (scatterState m) s = .ok s' ∧ s'.Counted ∧
      s'.operations = s.operations ++ ts.flatMap (stateOperations m) ∧
      (∀ t ∈ ts, s'.nextToken t.2.2.key = some m.inputCut.tokenCount) ∧
      ∀ k ∉ ts.map (·.2.2.key), s'.nextToken k = s.nextToken k := by
  induction ts generalizing s with
  | nil => exact ⟨s, rfl, hc, by simp, by simp, fun _ _ => rfl⟩
  | cons t ts ih =>
    rw [List.map_cons, List.nodup_cons] at hnodup
    obtain ⟨s₁, hstep, hc₁, hops₁, hnext₁⟩ :=
      scatterState_eq_ok hv (hsub List.mem_cons_self) hc (hnext t List.mem_cons_self)
    have hother : ∀ u ∈ ts, s₁.nextToken u.2.2.key = some u.2.1.logicalStart := by
      intro u hu
      have hne : u.2.2.key ≠ t.2.2.key := fun heq =>
        hnodup.1 (List.mem_map.mpr ⟨u, hu, heq⟩)
      rw [hnext₁, Function.update_of_ne hne]
      exact hnext u (List.mem_cons_of_mem _ hu)
    obtain ⟨s', hrun, hc', hops', hdone, hrest⟩ :=
      ih (fun u hu => hsub (List.mem_cons_of_mem _ hu)) hnodup.2 hc₁ hother
    refine ⟨s', ?_, hc', ?_, ?_, ?_⟩
    · rw [List.foldlM_cons, hstep]
      exact hrun
    · rw [hops', hops₁, List.flatMap_cons, List.append_assoc]
    · intro u hu
      rcases List.mem_cons.mp hu with rfl | hu
      · rw [hrest _ hnodup.1, hnext₁, Function.update_self]
      · exact hdone u hu
    · intro k hk
      rw [List.map_cons, List.mem_cons, not_or] at hk
      rw [hrest k hk.2, hnext₁, Function.update_of_ne hk.1]

/-- After the manifests so far every state of the family has reached the cut. -/
def ScatterState.At (s : ScatterState) (m : CutManifest) : Prop :=
  ∀ f ∈ m.family.states, s.nextToken f.key = some m.inputCut.tokenCount

theorem scatterManifest_eq_ok {entry : AuthenticatedManifest} (hv : ManifestValid entry.manifest context)
    {s : ScatterState} (hc : s.Counted)
    (hnext : ∀ t ∈ entry.manifest.triples, s.nextToken t.2.2.key = some t.2.1.logicalStart) :
    ∃ s', scatterManifest s entry = .ok s' ∧ s'.Counted ∧
      s'.operations = s.operations ++ manifestOperations entry.manifest ∧ s'.At entry.manifest := by
  obtain ⟨s', hrun, hc', hops, hdone, -⟩ := foldlM_scatterState hv (List.Subset.refl _) hv.keys_nodup hc hnext
  refine ⟨s', hrun, hc', hops, fun f hf => ?_⟩
  obtain ⟨r, p, ht⟩ := hv.triple_of_family hf
  have hs := hv.states _ ht
  have hkey : f.key = p.key := hs.family_key.trans hs.payload_key
  rw [hkey]
  exact hdone _ ht

theorem initialScatter_nextToken (hv : ManifestValid m context) (ht : t ∈ m.triples) :
    (initialScatter m).nextToken t.2.2.key = some t.2.1.logicalStart := by
  have hlen := hv.schemas_length
  have hlen' := hv.payloads_length
  have hpairs : (m.states.zip m.realizedSchema.states).map (fun p => (p.1.key, p.2.logicalStart)) =
      m.triples.map fun t => (t.2.2.key, t.2.1.logicalStart) := by
    have hswap : m.states.zip m.realizedSchema.states = (m.realizedSchema.states.zip m.states).map Prod.swap :=
      (List.zip_swap _ _).symm
    have hsnd : m.realizedSchema.states.zip m.states = m.triples.map Prod.snd := by
      rw [CutManifest.triples, List.map_snd_zip (by rw [List.length_zip]; omega)]
    rw [hswap, hsnd, List.map_map, List.map_map]
    rfl
  have hnodup := hv.keys_nodup
  refine insertAll_of_mem ?_ ?_
  · rw [hpairs, List.map_map]
    exact hnodup
  · rw [hpairs]
    exact List.mem_map.mpr ⟨t, ht, rfl⟩

end Manifest

/-! ## The chain -/

section Run

variable {context : ValidationContext} {chain : List AuthenticatedManifest}
variable {leaf : AuthenticatedManifest} {op : RestoreChunkOperation}

theorem nextToken_delta {m parent : CutManifest} {id : Id32} {depth : UInt8} (hv : ManifestValid m context)
    (hkind : m.realizedSchema.kind = .delta id parent.inputCut depth) (hfamily : m.family = parent.family)
    {s : ScatterState} (hat : s.At parent) {t : FamilyState × RealizedStateSchema × StateManifest}
    (ht : t ∈ m.triples) :
    s.nextToken t.2.2.key = some t.2.1.logicalStart ∧ t.1.tokenAxisRule ≠ .tailWindow ∧
      t.2.1.logicalStart = parent.inputCut.tokenCount := by
  have hs := hv.states t ht
  rcases hs.range_cases with ⟨-, hfull, -⟩ | ⟨htail, hcut⟩
  · rw [hkind] at hfull
    cases hfull
  · rw [hkind] at hcut
    have hstart : t.2.1.logicalStart = parent.inputCut.tokenCount := (Prod.mk.inj hcut).1
    refine ⟨?_, htail, hstart⟩
    have hmem : t.1 ∈ parent.family.states := hfamily ▸ (List.of_mem_zip ht).1
    rw [hstart, ← hat t.1 hmem, hs.family_key, hs.payload_key]

/-- Scattering a chain succeeds and leaves every state at the cut of the leaf. -/
theorem AuthenticatedChain.scatter (h : AuthenticatedChain context chain) :
    ∃ first rest s', chain = first :: rest ∧ ManifestValid first.manifest context ∧
      chain.foldlM scatterManifest (initialScatter first.manifest) = .ok s' ∧ s'.Counted ∧
      s'.operations = chainOperations chain ∧
      ∀ leaf, chain.getLast? = some leaf → s'.At leaf.manifest := by
  induction h with
  | @root m hv hkind =>
    have hm := validateManifest_eq_ok hv
    obtain ⟨s', hrun, hc, hops, hat⟩ := scatterManifest_eq_ok (s := initialScatter m.manifest) hm
      (fun k => by simp [initialScatter]) (fun t ht => initialScatter_nextToken hm ht)
    refine ⟨m, [], s', rfl, hm, ?_, hc, ?_, ?_⟩
    · rw [List.foldlM_cons, hrun]
      rfl
    · rw [hops]
      simp [initialScatter, chainOperations]
    · rintro leaf hleaf
      cases hleaf
      exact hat
  | @extend earlier parent child depth hchain hv hkind hdepth hfamily hsemantic htenant hepoch ih =>
    have hm := validateManifest_eq_ok hv
    obtain ⟨first, rest, s₁, heq, hfirst, hrun, hc, hops, hat⟩ := ih
    have hat' : s₁.At parent.manifest := hat parent (by simp)
    obtain ⟨s', hstep, hc', hops', hat''⟩ := @scatterManifest_eq_ok context child hm s₁ hc
      (fun t ht => (nextToken_delta hm hkind hfamily hat' ht).1)
    refine ⟨first, rest ++ [child], s', by rw [heq]; rfl, hfirst, ?_, hc', ?_, ?_⟩
    · rw [List.foldlM_append, hrun, ok_bind, List.foldlM_cons, hstep]
      rfl
    · rw [hops', hops]
      simp [chainOperations]
    · rintro leaf hleaf
      rw [List.getLast?_append] at hleaf
      cases hleaf
      exact hat''

/-! ## Tiling -/

def operationsOf (key : StateKey) (operations : List RestoreChunkOperation) : List RestoreChunkOperation :=
  operations.filter fun op => op.stateKey = key

theorem operationsOf_manifest {m : CutManifest} (hv : ManifestValid m context)
    {t : FamilyState × RealizedStateSchema × StateManifest} (ht : t ∈ m.triples) :
    operationsOf t.2.2.key (manifestOperations m) = stateOperations m t := by
  refine filter_flatMap_key (k := fun t => t.2.2.key) hv.keys_nodup (fun u _ op hop => ?_) ht
  obtain ⟨p, -, rfl⟩ := List.mem_map.mp hop
  rfl

/-- The operations of one state tile its segment; a tail window is moved to the origin. -/
theorem tiles_stateOperations {m : CutManifest} (hv : ManifestValid m context)
    {t : FamilyState × RealizedStateSchema × StateManifest} (ht : t ∈ m.triples) :
    let base := if t.1.tokenAxisRule = .tailWindow then t.2.1.logicalStart.toNat else 0
    Tiles ((t.2.1.logicalStart.toNat - base) * t.1.tokenBytes) ((stateOperations m t).map (·.range))
      ((m.inputCut.tokenCount.toNat - base) * t.1.tokenBytes) := by
  intro base
  have hs := hv.states t ht
  have hend := hv.range_end ht
  have hbase : base ≤ t.2.1.logicalStart.toNat := by
    simp only [base]
    split <;> omega
  have hranges : (stateOperations m t).map (·.range) =
      (t.2.1.chunkSpans.map (·.bytes)).map fun s => (s.1 - base * t.1.tokenBytes, s.2) := by
    have hsnd := List.map_snd_zip hs.chunks_length.ge
    rw [stateOperations, List.map_map, List.map_map]
    nth_rewrite 2 [← hsnd]
    rw [List.map_map]
    refine List.map_congr_left fun p _ => ?_
    have hlt := p.2.plaintextOffset.toNat_lt
    simp only [Function.comp_apply, RestoreChunkOperation.range, operationOf, targetOf, ChunkSpan.bytes, base]
    rw [UInt64.toNat_ofNat_of_lt' (lt_of_le_of_lt (Nat.sub_le _ _) hlt)]
    split <;> simp
  rw [hranges]
  refine Tiles.shift ?_
  rw [← Nat.add_mul, ← Nat.add_mul, Nat.sub_add_cancel hbase, Nat.sub_add_cancel (by omega), ← hend]
  exact hs.bytes

/-- Along a chain the operations of each state tile it up to the cut of the leaf. -/
theorem AuthenticatedChain.tiles (h : AuthenticatedChain context chain)
    (hleaf : chain.getLast? = some leaf) {t : FamilyState × RealizedStateSchema × StateManifest}
    (ht : t ∈ leaf.manifest.triples) :
    Tiles 0 ((operationsOf t.2.2.key (chainOperations chain)).map (·.range))
      ((fullTokens leaf.manifest.inputCut.tokenCount t.1 t.2.1).toNat * t.1.tokenBytes) := by
  induction h generalizing leaf t with
  | @root m hv hkind =>
    cases hleaf
    have hm := validateManifest_eq_ok hv
    have hend := hm.range_end ht
    have htiles := tiles_stateOperations hm ht
    have hops : chainOperations [m] = manifestOperations m.manifest := by simp [chainOperations]
    rw [hops, operationsOf_manifest hm ht]
    rcases (hm.states t ht).range_cases with ⟨htail, -, -, -⟩ | ⟨htail, hcut⟩
    · simp only [fullTokens, htail, ↓reduceIte, Nat.sub_self, Nat.zero_mul] at htiles ⊢
      rwa [show t.2.1.logicalCount.toNat = m.manifest.inputCut.tokenCount.toNat - t.2.1.logicalStart.toNat by omega]
    · rw [hkind] at hcut
      have hstart : t.2.1.logicalStart.toNat = 0 := congrArg UInt64.toNat (Prod.mk.inj hcut).1
      simp only [fullTokens, htail, ↓reduceIte, Nat.sub_zero, hstart, Nat.zero_mul] at htiles ⊢
      exact htiles
  | @extend earlier parent child depth hchain hv hkind hdepth hfamily hsemantic htenant hepoch ih =>
    rw [List.getLast?_append] at hleaf
    cases hleaf
    have hm := validateManifest_eq_ok hv
    -- The same family state in the parent, whose operations come first.
    have hmem : t.1 ∈ parent.manifest.family.states := hfamily ▸ (List.of_mem_zip ht).1
    obtain ⟨earlier', leaf', heq, hparent⟩ := hchain.exists_leaf
    obtain ⟨-, hlast⟩ := List.append_inj' heq rfl
    obtain rfl : parent = leaf' := by simpa using hlast
    obtain ⟨r, p, htp⟩ := hparent.triple_of_family hmem
    have hprev := ih List.getLast?_concat htp
    obtain ⟨-, -, s, -, -, -, -, -, hat⟩ := hchain.scatter
    obtain ⟨-, htail, hstart⟩ := nextToken_delta hm hkind hfamily (hat parent List.getLast?_concat) ht
    have hs := hm.states t ht
    have hsp := hparent.states _ htp
    have hkey : p.key = t.2.2.key := by
      rw [← hsp.payload_key, ← hsp.family_key, hs.family_key, hs.payload_key]
    have htiles := tiles_stateOperations hm ht
    have hops : chainOperations ((earlier ++ [parent]) ++ [child]) =
        chainOperations (earlier ++ [parent]) ++ manifestOperations child.manifest := by simp [chainOperations]
    rw [hops, operationsOf, List.filter_append, ← operationsOf, ← operationsOf, operationsOf_manifest hm ht,
      List.map_append]
    simp only [hkey] at hprev
    simp only [fullTokens, htail, ↓reduceIte, Nat.sub_zero, hstart] at htiles hprev ⊢
    exact hprev.append htiles

/-- Every operation belongs to a state of the family and has its chunk's size. -/
theorem operation_mem_manifest {m : CutManifest} (hv : ManifestValid m context)
    (hop : op ∈ manifestOperations m) :
    op.span.plaintextBytes = op.reference.plaintextBytes ∧ op.stateKey ∈ m.family.states.map (·.key) := by
  obtain ⟨t, ht, hop⟩ := List.mem_flatMap.mp hop
  obtain ⟨⟨reference, span⟩, hp, rfl⟩ := List.mem_map.mp hop
  have hswap : (span, reference) ∈ t.2.1.chunkSpans.zip t.2.2.chunks := by
    rw [← List.zip_swap]
    exact List.mem_map.mpr ⟨_, hp, rfl⟩
  refine ⟨((hv.states t ht).chunks _ hswap).same_size.symm, ?_⟩
  rw [← hv.map_key]
  exact List.mem_map.mpr ⟨t, ht, rfl⟩

theorem AuthenticatedChain.operation_mem (h : AuthenticatedChain context chain)
    (hleaf : chain.getLast? = some leaf) (hop : op ∈ chainOperations chain) :
    op.span.plaintextBytes = op.reference.plaintextBytes ∧ op.stateKey ∈ leaf.manifest.triples.map (·.2.2.key) := by
  induction h generalizing leaf with
  | @root m hv hkind =>
    obtain rfl : m = leaf := by simpa using hleaf
    have hm := validateManifest_eq_ok hv
    rw [hm.map_key]
    exact operation_mem_manifest hm (by simpa [chainOperations] using hop)
  | @extend earlier parent child depth hchain hv hkind hdepth hfamily hsemantic htenant hepoch ih =>
    obtain rfl : child = leaf := by simpa using hleaf
    have hm := validateManifest_eq_ok hv
    rw [hm.map_key, hfamily]
    rw [chainOperations, List.flatMap_append, List.mem_append] at hop
    rcases hop with hop | hop
    · obtain ⟨hsize, hmem⟩ := ih List.getLast?_concat hop
      obtain ⟨_, leaf', heq, hparent⟩ := hchain.exists_leaf
      obtain ⟨-, hlast⟩ := List.append_inj' heq rfl
      obtain rfl : parent = leaf' := by simpa using hlast
      rw [hparent.map_key] at hmem
      exact ⟨hsize, hmem⟩
    · have hop' : op ∈ manifestOperations child.manifest := by simpa using hop
      rw [← hfamily]
      exact operation_mem_manifest hm hop'

theorem AuthenticatedChain.length_eq (h : AuthenticatedChain context chain)
    (hleaf : chain.getLast? = some leaf) : chain.length = leaf.manifest.realizedSchema.kind.depth.toNat + 1 := by
  induction h generalizing leaf with
  | @root m hv hkind =>
    obtain rfl : m = leaf := by simpa using hleaf
    rw [hkind]
    rfl
  | @extend earlier parent child depth hchain hv hkind hdepth hfamily hsemantic htenant hepoch ih =>
    obtain rfl : child = leaf := by simpa using hleaf
    rw [List.length_append, ih List.getLast?_concat, hkind, ← hdepth]
    rfl

theorem AuthenticatedChain.length_le (h : AuthenticatedChain context chain) : chain.length ≤ 8 := by
  obtain ⟨earlier, leaf, heq, hv⟩ := h.exists_leaf
  have hlast : chain.getLast? = some leaf := by rw [heq]; exact List.getLast?_concat
  rw [h.length_eq hlast]
  have hcut := hv.cut
  cases hkind : leaf.manifest.realizedSchema.kind with
  | full => decide
  | delta parent parentCut depth =>
    rw [hkind] at hcut
    simp only [cutRange, bind_eq_ok, exists_unit, rejectIf_eq_ok, not_or, UInt8.not_lt] at hcut
    exact Nat.succ_le_succ (UInt8.le_iff_toNat_le.mp hcut.2.1.2)

/-! ## The plan -/

/-- What the plan says of a state of the leaf: its bytes and its chunks. -/
structure PlanOf (leaf : CutManifest) (operations : List RestoreChunkOperation)
    (t : FamilyState × RealizedStateSchema × StateManifest) (plan : RestoreStatePlan) : Prop where
  key : plan.declaration.key = t.2.2.key
  plaintextBytes : plan.plaintextBytes.toNat =
    (fullTokens leaf.inputCut.tokenCount t.1 t.2.1).toNat * t.1.tokenBytes
  chunkCount : plan.chunkCount = (operationsOf t.2.2.key operations).length

theorem groupByKey_eq_ok {m : CutManifest} (hv : ManifestValid m context) :
    ∃ groupOf, groupByKey m.realizedSchema.atomicGroups = .ok groupOf ∧
      ∀ t ∈ m.triples, ∃ id, groupOf t.2.2.key = some id := by
  have hperm := hv.groups.perm
  have hkeys : (m.realizedSchema.atomicGroups.flatMap fun g => g.states.map fun key => (key, g.id)).map (·.1) =
      m.realizedSchema.atomicGroups.flatMap (·.states) := by
    rw [List.map_flatMap]
    refine List.flatMap_congr fun g _ => ?_
    rw [List.map_map]
    exact List.map_id _
  have hnodup : ((m.realizedSchema.atomicGroups.flatMap fun g =>
      g.states.map fun key => (key, g.id)).map (·.1)).Nodup := by
    rw [hkeys, hperm.nodup_iff]
    exact (validateFamily_eq_ok hv.family).nodup
  refine ⟨_, insertNew_eq_insertAll hnodup fun _ _ => rfl, fun t ht => ?_⟩
  have hmem : t.2.2.key ∈ m.realizedSchema.atomicGroups.flatMap (·.states) := by
    rw [hperm.mem_iff, ← hv.map_key]
    exact List.mem_map.mpr ⟨t, ht, rfl⟩
  obtain ⟨g, hg, hkey⟩ := List.mem_flatMap.mp hmem
  exact ⟨g.id, insertAll_of_mem hnodup (List.mem_flatMap.mpr ⟨g, hg, List.mem_map.mpr ⟨_, hkey, rfl⟩⟩)⟩

theorem planState_eq_ok {leaf : CutManifest} (hv : ManifestValid leaf context)
    {t : FamilyState × RealizedStateSchema × StateManifest} (ht : t ∈ leaf.triples) {s : ScatterState}
    {groupOf : StateKey → Option UInt32} {id : UInt32} (hgroup : groupOf t.2.2.key = some id) (hc : s.Counted)
    (hat : s.At leaf) (hops : operationsOf t.2.2.key s.operations ≠ []) :
    ∃ plan, planState leaf groupOf s t = .ok plan ∧ PlanOf leaf s.operations t plan := by
  have hs := hv.states t ht
  have hend := hv.range_end ht
  have hf := hv.familyState ht
  obtain ⟨width, hwidth⟩ := t.1.dtype.exists_widthBytes
  have hw := DType.widthBytes_toNat hwidth
  have hsum : t.2.1.logicalStart.toNat + t.2.1.logicalCount.toNat < 2 ^ 64 := by
    rw [hend]
    exact UInt64.toNat_lt _
  have hreached : s.nextToken t.2.2.key = some (t.2.1.logicalStart + t.2.1.logicalCount) := by
    have hkey : t.2.2.key = t.1.key := by rw [hs.family_key, hs.payload_key]
    have hcut : t.2.1.logicalStart + t.2.1.logicalCount = leaf.inputCut.tokenCount := by
      rw [← UInt64.toNat_inj, toNat_add_of_lt hsum, hend]
    rw [hkey, hat t.1 (List.of_mem_zip ht).1, hcut]
  -- The restored shape has the tokens that the plan restores, whatever the rule of the token axis.
  have hshape : (if t.1.tokenAxisRule = .tailWindow then t.2.1.segmentShape else t.2.1.fullShape).dims =
      t.1.dimensions.map (StaticDimension.extent (fullTokens leaf.inputCut.tokenCount t.1 t.2.1)) := by
    have hfull := hs.fullShape
    have hsegment := hs.segmentShape
    unfold fullTokens at hfull ⊢
    split
    · exact hsegment
    · rename_i htail
      rw [if_neg htail] at hfull
      exact hfull
  have hlt := hs.full_lt
  have hprod := hf.prod_dims hshape
  have helements : (UInt64.ofNat ((fullTokens leaf.inputCut.tokenCount t.1 t.2.1).toNat *
      t.1.elementsPerToken.toNat)).toNat =
      (fullTokens leaf.inputCut.tokenCount t.1 t.2.1).toNat * t.1.elementsPerToken.toNat := by
    refine UInt64.toNat_ofNat_of_lt' (lt_of_le_of_lt ?_ hlt)
    rw [FamilyState.tokenBytes, ← Nat.mul_assoc]
    exact Nat.le_mul_of_pos_right _ t.1.dtype.width_pos
  have hcount := elementCount_eq_ok.mpr (helements.trans hprod.symm)
  have hmul : (UInt64.ofNat ((fullTokens leaf.inputCut.tokenCount t.1 t.2.1).toNat *
      t.1.elementsPerToken.toNat)).toNat * width.toNat < 2 ^ 64 := by
    rw [helements, hw, Nat.mul_assoc]
    exact hlt
  have hchunks : s.chunkCounts t.2.2.key = some (operationsOf t.2.2.key s.operations).length := by
    have hlen : s.operations.countP (·.stateKey = t.2.2.key) = (operationsOf t.2.2.key s.operations).length :=
      List.countP_eq_length_filter
    rw [hc]
    simp only [hlen]
    exact if_neg fun h0 => hops (List.eq_nil_of_length_eq_zero h0)
  unfold planState
  simp only [checkedAdd_isSome hsum, okOr_some, ok_bind, rejectIf_of_not (not_not.mpr hreached), hgroup,
    liftPack_eq_ok.mpr hcount, hwidth, checkedMul_isSome hmul, hchunks]
  refine ⟨_, rfl, rfl, ?_, rfl⟩
  simp only
  rw [toNat_mul_of_lt hmul, helements, hw, Nat.mul_assoc]
  rfl

/-- On an authenticated chain the plan is determined up to its last check. -/
theorem AuthenticatedChain.buildScatterPlan (h : AuthenticatedChain context chain) :
    ∃ leaf states, chain.getLast? = some leaf ∧ ManifestValid leaf.manifest context ∧
      List.Forall₂ (PlanOf leaf.manifest (chainOperations chain)) leaf.manifest.triples states ∧
      Restore.buildScatterPlan chain =
        if maxChunksPerState * leaf.manifest.states.length < (chainOperations chain).length then
          .error (.authentication "authenticated restore operation count exceeds bound")
        else .ok (states, chainOperations chain) := by
  obtain ⟨earlier, leaf, heq, hv⟩ := h.exists_leaf
  have hlast : chain.getLast? = some leaf := by rw [heq]; exact List.getLast?_concat
  obtain ⟨first, rest, s, hfirst, hfv, hrun, hc, hops, hat⟩ := h.scatter
  obtain ⟨groupOf, hgroup, hgroups⟩ := groupByKey_eq_ok hv
  have hplan : ∀ t ∈ leaf.manifest.triples, ∃ plan, planState leaf.manifest groupOf s t = .ok plan ∧
      PlanOf leaf.manifest s.operations t plan := by
    intro t ht
    obtain ⟨id, hid⟩ := hgroups t ht
    refine planState_eq_ok hv ht hid hc (hat leaf hlast) ?_
    have htiles := h.tiles hlast ht
    rw [hops]
    intro hnil
    rw [hnil] at htiles
    have hpos := hv.logicalCount_pos ht
    have hend := hv.range_end ht
    have hbytes := (hv.familyState ht).tokenBytes_pos
    have hfull : 0 < (fullTokens leaf.manifest.inputCut.tokenCount t.1 t.2.1).toNat := by
      unfold fullTokens
      split <;> omega
    exact absurd htiles (Nat.mul_pos hfull hbytes).ne
  obtain ⟨states, hstates⟩ := exists_forall₂_of_forall hplan
  refine ⟨leaf, states, hlast, hv, hops ▸ hstates.imp fun _ _ hp => hp.2, ?_⟩
  have hcollect : collect leaf.manifest.triples (planState leaf.manifest groupOf s) = .ok states :=
    collect_eq_ok.mpr (hstates.imp fun _ _ hp => hp.1)
  have hlen : ¬ first.manifest.states.length ≠ first.manifest.realizedSchema.states.length := by
    rw [hfv.schemas_length, hfv.payloads_length]
    exact not_not.mpr rfl
  have hhead : chain.head? = some first := by rw [hfirst]; rfl
  simp only [Restore.buildScatterPlan, hlast, hhead, Option.map_some, okOr_some, ok_bind, hgroup,
    rejectIf_of_not hlen, hrun, hcollect, hops]
  split
  · rw [rejectIf_of (by assumption)]
    rfl
  · rw [rejectIf_of_not (by assumption)]
    rfl

end Run

end Kvpack.Restore
