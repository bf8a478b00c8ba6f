import Kvpack.Core.Lemmas.Family

/-!
# Shapes, strides and footprints

For a state with one token dimension a tensor of `t` tokens has `t` times the elements of one token, and its last
element lies one token stride further for every further token, so the segment of a delta ends where the complete
tensor ends.
-/

namespace Kvpack.Core

open Base

variable {tokens : UInt64} {ds : List StaticDimension}
variable {axis : Nat} {shape : Shape} {strides : List UInt64}

/-! ## Shapes -/

theorem dims_of_validateShapeFrom {index : Nat} {dims : List UInt64} (hlen : dims.length = ds.length)
    (h : validateShapeFrom axis tokens index (dims.zip ds) = .ok ()) :
    dims = ds.map (StaticDimension.extent tokens) := by
  induction ds generalizing dims index with
  | nil => simpa using hlen
  | cons d ds ih =>
    cases dims with
    | nil => simp at hlen
    | cons n dims =>
      simp only [List.zip_cons_cons, validateShapeFrom, bind_eq_ok, exists_unit, rejectIf_eq_ok, not_or,
        not_not] at h
      rw [List.map_cons, ← h.1.1, ← ih (by simpa using hlen) h.2]

/-- The dimensions of an accepted shape are the family's with the token dimension filled in. -/
theorem dims_of_validateShape {s : FamilyState} (h : validateShape shape s tokens = .ok ()) :
    shape.dims = s.dimensions.map (StaticDimension.extent tokens) := by
  simp only [validateShape, bind_eq_ok, exists_unit, rejectIf_eq_ok, not_not] at h
  exact dims_of_validateShapeFrom h.1 h.2

theorem prod_extents (h : TokenAt ds axis) (tokens : UInt64) :
    (toNats (ds.map (StaticDimension.extent tokens))).prod =
      tokens.toNat * (toNats (fixedDimensions ds)).prod := by
  obtain ⟨before, after, rfl, -, hb, ha⟩ := h
  have htoken : fixedDimensions (.token :: after) = fixedDimensions after := rfl
  rw [List.map_append, List.map_cons, map_extent_of_token_notMem tokens hb, map_extent_of_token_notMem tokens ha,
    fixedDimensions_append, htoken]
  simp only [toNats_append, toNats_cons, List.prod_append, List.prod_cons, StaticDimension.extent]
  ring

/-! ## Footprints -/

/-- The index of the last element of a strided tensor, over the natural numbers. -/
def lastElement (l : List (UInt64 × UInt64)) : Nat := (l.map fun p => (p.1.toNat - 1) * p.2.toNat).sum

@[simp]
theorem lastElement_cons (d s : UInt64) (l : List (UInt64 × UInt64)) :
    lastElement ((d, s) :: l) = (d.toNat - 1) * s.toNat + lastElement l := rfl

theorem lastElementFrom_eq_ok {offset result : UInt64} {l : List (UInt64 × UInt64)}
    (h : lastElementFrom offset l = .ok result) : result.toNat = offset.toNat + lastElement l := by
  induction l generalizing offset with
  | nil =>
    cases h
    rfl
  | cons p l ih =>
    obtain ⟨d, s⟩ := p
    simp only [lastElementFrom, bind_eq_ok, okOr_eq_ok, Option.bind_eq_some_iff, checkedSub_eq_some,
      checkedMul_eq_some, checkedAdd_eq_some] at h
    obtain ⟨next, ⟨count, hcount, term, hterm, hnext⟩, hresult⟩ := h
    have hone : (1 : UInt64).toNat = 1 := rfl
    have hcount' : count.toNat = d.toNat - 1 := by omega
    rw [ih hresult, hnext, hterm, hcount', lastElement_cons]
    ring

theorem physicalFootprint_eq_ok {width result : UInt64}
    (h : physicalFootprint shape strides width = .ok result) :
    result.toNat = (lastElement (shape.dims.zip strides) + 1) * width.toNat := by
  have hone : (1 : UInt64).toNat = 1 := rfl
  have hzero : (0 : UInt64).toNat = 0 := rfl
  simp only [physicalFootprint, bind_eq_ok, okOr_eq_ok, Option.bind_eq_some_iff, checkedAdd_eq_some,
    checkedMul_eq_some] at h
  obtain ⟨last, hlast, elements, helements, hresult⟩ := h
  rw [hresult, helements, lastElementFrom_eq_ok hlast, hzero, hone, Nat.zero_add]

/-- Appending tokens moves the last element by one token stride each. -/
theorem lastElement_extend (h : TokenAt ds axis)
    (hlen : strides.length = ds.length) {few many : UInt64} (hpos : 0 < few.toNat) (hle : few.toNat ≤ many.toNat) :
    lastElement ((ds.map (StaticDimension.extent many)).zip strides) =
      lastElement ((ds.map (StaticDimension.extent few)).zip strides) +
        (many.toNat - few.toNat) * (strides.getD axis 0).toNat := by
  obtain ⟨before, after, rfl, rfl, hb, ha⟩ := h
  induction before generalizing strides with
  | nil =>
    cases strides with
    | nil => simp at hlen
    | cons s strides =>
      simp only [List.nil_append, List.map_cons, List.zip_cons_cons, lastElement_cons, List.length_nil,
        StaticDimension.extent, map_extent_of_token_notMem _ ha, List.getD_cons_zero]
      obtain ⟨k, hk⟩ := Nat.exists_eq_add_of_le hle
      have hsplit : many.toNat - 1 = (few.toNat - 1) + k := by omega
      rw [hsplit, hk, Nat.add_sub_cancel_left]
      ring
  | cons d before ih =>
    rw [List.mem_cons, not_or] at hb
    cases strides with
    | nil => simp at hlen
    | cons s strides =>
      have hd : d.extent many = d.extent few := by
        cases d with
        | token => exact absurd rfl hb.1
        | fixed value => rfl
      have hrest := ih (by simpa using hlen : strides.length = _) hb.2
      simp only [List.cons_append, List.map_cons, List.zip_cons_cons, lastElement_cons, List.length_cons,
        List.getD_cons_succ, hd, hrest]
      ring

end Kvpack.Core
