import Kvpack.Core.Validator

/-!
# What a validated family guarantees

The facts about families that the results on manifests use: the keys are strictly increasing, each state has one
token dimension, at its token axis, and its other dimensions multiply to its elements per token.
-/

namespace Kvpack.Core

open Base

variable {dimensions : List StaticDimension} {mode : RepresentationMode} {previous : Option StateKey}
  {f : RepresentationFamilyId}

/-! ## Element widths -/

def DType.width (d : DType) : Nat := (d.widthBytes.getD 0).toNat

theorem DType.widthBytes_toNat {d : DType} {w : UInt64} (h : d.widthBytes = some w) : w.toNat = d.width := by
  rw [DType.width, h]
  rfl

theorem DType.width_pos (d : DType) : 0 < d.width := by cases d <;> decide

theorem DType.exists_widthBytes (d : DType) : ∃ w, d.widthBytes = some w := by cases d <;> exact ⟨_, rfl⟩

/-- Bytes of one token of a state, over the natural numbers. -/
def FamilyState.tokenBytes (s : FamilyState) : Nat := s.elementsPerToken.toNat * s.dtype.width

/-! ## The token dimension -/

/-- Exactly one token dimension, after `axis` fixed ones. -/
def TokenAt (dimensions : List StaticDimension) (axis : Nat) : Prop :=
  ∃ before after, dimensions = before ++ .token :: after ∧ before.length = axis ∧
    .token ∉ before ∧ .token ∉ after

theorem tokenIndices_eq_singleton {k axis : Nat}
    (h : ((dimensions.zipIdx k).filter fun d => decide (d.1 = .token)).map (·.2) = [axis]) :
    k ≤ axis ∧ TokenAt dimensions (axis - k) := by
  induction dimensions generalizing k with
  | nil => simp at h
  | cons d ds ih =>
    cases d with
    | token =>
      simp only [List.zipIdx_cons, decide_true, List.filter_cons_of_pos, List.map_cons, List.cons.injEq,
        List.map_eq_nil_iff, List.filter_eq_nil_iff, decide_eq_true_eq] at h
      obtain ⟨rfl, hnone⟩ := h
      refine ⟨le_rfl, [], ds, rfl, by simp, by simp, fun hmem => ?_⟩
      obtain ⟨i, hi, hget⟩ := List.getElem_of_mem hmem
      refine hnone (ds[i], k + 1 + i) ?_ hget
      rw [List.mk_mem_zipIdx_iff_le_and_getElem?_sub]
      simp [hi]
    | fixed value =>
      simp only [List.zipIdx_cons, reduceCtorEq, decide_false, Bool.false_eq_true, not_false_eq_true,
        List.filter_cons_of_neg] at h
      obtain ⟨hle, before, after, rfl, hlen, hb, ha⟩ := ih h
      refine ⟨by omega, .fixed value :: before, after, rfl, ?_, by simpa using hb, ha⟩
      rw [List.length_cons]
      omega

theorem tokenAt_of_tokenDimensions {axis : Nat}
    (h : tokenDimensions dimensions = [axis]) : TokenAt dimensions axis := by
  have := (tokenIndices_eq_singleton h).2
  rwa [Nat.sub_zero] at this

theorem fixedDimensions_append (ds ds' : List StaticDimension) :
    fixedDimensions (ds ++ ds') = fixedDimensions ds ++ fixedDimensions ds' := List.filterMap_append

/-- Without a token dimension the extents are the fixed dimensions. -/
theorem map_extent_of_token_notMem {ds : List StaticDimension} (tokens : UInt64) (h : .token ∉ ds) :
    ds.map (StaticDimension.extent tokens) = fixedDimensions ds := by
  induction ds with
  | nil => rfl
  | cons d ds ih =>
    rw [List.mem_cons, not_or] at h
    cases d with
    | token => exact absurd rfl h.1
    | fixed value =>
      have := ih h.2
      simpa [fixedDimensions, StaticDimension.extent] using this

/-! ## Validated states -/

structure FamilyState.Valid (s : FamilyState) : Prop where
  key : validateStateKey s.key = .ok ()
  rank_pos : s.dimensions.length ≠ 0
  rank_le : s.dimensions.length ≤ maxRank
  token : TokenAt s.dimensions s.tokenAxis.toNat
  elements : s.elementsPerToken.toNat = (toNats (fixedDimensions s.dimensions)).prod
  elements_pos : 0 < s.elementsPerToken.toNat
  gather : s.layout = .contiguous → s.tokenAxisRule ≠ .gather

theorem validateFamilyState_eq_ok {s : FamilyState}
    (h : validateFamilyState mode previous s = .ok ()) : ¬ outOfOrder previous s.key ∧ s.Valid := by
  simp only [validateFamilyState, bind_eq_ok, exists_unit, rejectIf_eq_ok] at h
  obtain ⟨hkey, horder, -, hrank, htoken, elements, helements, hcanonical, -, hgather, -⟩ := h
  have hprod := checkedProdFrom_eq_ok helements
  push Not at hrank hcanonical
  obtain ⟨rfl, hpos⟩ := hcanonical
  refine ⟨horder, hkey, hrank.1, hrank.2.1, tokenAt_of_tokenDimensions (not_not.mp htoken), ?_, ?_, ?_⟩
  · rw [hprod]
    exact Nat.one_mul _
  · exact ne_zero_iff_toNat_pos.mp hpos
  · exact fun hl hg => hgather ⟨hl, hg⟩

theorem validateFamilyStates_eq_ok {states : List FamilyState}
    (h : validateFamilyStates mode previous states = .ok ()) :
    (∀ s ∈ states, s.Valid) ∧ (states.map (·.key)).Pairwise (· < ·) ∧
      ∀ k, previous = some k → ∀ s ∈ states, k < s.key := by
  induction states generalizing previous with
  | nil => simp
  | cons s rest ih =>
    simp only [validateFamilyStates, bind_eq_ok, exists_unit] at h
    obtain ⟨hs, hrest⟩ := h
    obtain ⟨horder, hvalid⟩ := validateFamilyState_eq_ok hs
    obtain ⟨hall, hsorted, hafter⟩ := ih hrest
    refine ⟨?_, ?_, ?_⟩
    · simpa using ⟨hvalid, hall⟩
    · rw [List.map_cons, List.pairwise_cons]
      refine ⟨fun k hk => ?_, hsorted⟩
      obtain ⟨t, ht, rfl⟩ := List.mem_map.mp hk
      exact hafter _ rfl t ht
    · rintro k rfl t ht
      have hk : k < s.key := not_not.mp horder
      rcases List.mem_cons.mp ht with rfl | ht
      · exact hk
      · exact StateKey.lt_trans hk (hafter _ rfl t ht)

structure RepresentationFamilyId.Valid (f : RepresentationFamilyId) : Prop where
  count_pos : f.states ≠ []
  count_le : f.states.length ≤ maxStates
  states : ∀ s ∈ f.states, s.Valid
  sorted : (f.states.map (·.key)).Pairwise (· < ·)

theorem validateFamily_eq_ok (h : validateFamily f = .ok ()) : f.Valid := by
  simp only [validateFamily, bind_eq_ok, exists_unit, rejectIf_eq_ok, not_or, not_lt] at h
  obtain ⟨-, -, hcount, hstates, -⟩ := h
  obtain ⟨hall, hsorted, -⟩ := validateFamilyStates_eq_ok hstates
  exact ⟨hcount.1, hcount.2, hall, hsorted⟩

theorem RepresentationFamilyId.Valid.nodup (h : f.Valid) :
    (f.states.map (·.key)).Nodup := h.sorted.imp StateKey.ne_of_lt

end Kvpack.Core
