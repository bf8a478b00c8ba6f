import Kvpack.Core.Lemmas.Half

/-!
# Norms of half-precision vectors

The norm of a token is the root of a double-precision sum of exact squares, rounded to single and then to half
precision; the half is finite exactly when that sum is below a fixed bound.
-/

namespace Kvpack.Core

open Base

/-- The double nearest to a value, both in units of 2 ^ -1074. -/
def nearestDouble (value : Nat) : Nat := mag 52 (roundBits 52 value 1)

/-- The square of a half, in units of 2 ^ -1074. -/
def halfSquare (h : UInt16) : Nat := halfMag h ^ 2 * 2 ^ 1026

/-- The sum of the squares of a vector, rounded after each addition. -/
def sumOfSquares (halves : List UInt16) : Nat :=
  halves.foldl (fun sum h => nearestDouble (sum + halfSquare h)) 0

/-- The least sum of squares whose root rounds to 65520, in units of 2 ^ -1074: the square of 65520 - 2 ^ -9 - 2 ^
-38, from the midpoints of singles below 65520 and of doubles below that. -/
def normLimit : Nat := (65520 * 2 ^ 38 - 2 ^ 29 - 1) ^ 2 * 2 ^ 998

/-! ## Constants -/

/-- The pattern of the double 65520 - 2 ^ -9. -/
def normMidpoint : Nat := 1037 * 2 ^ 52 + (65520 * 2 ^ 37 - 2 ^ 28)

/-- The values of that double, of the midpoint below it, of its square, and of the single 65520. -/
structure NormConstants : Prop where
  infinity : 2 ^ 2000 ≤ mag 52 F64.infinityBits
  value : mag 52 normMidpoint = (65520 * 2 ^ 37 - 2 ^ 28) * 2 ^ 1037
  midpoint : mag 52 (normMidpoint - 1) + mag 52 normMidpoint = 2 * ((65520 * 2 ^ 38 - 2 ^ 29 - 1) * 2 ^ 1036)
  even : normMidpoint % 2 = 0
  square : (65520 * 2 ^ 38 - 2 ^ 29 - 1) * 2 ^ 1036 * ((65520 * 2 ^ 38 - 2 ^ 29 - 1) * 2 ^ 1036) = normLimit * 2 ^ 1074
  single : (mag 23 (0x477ff000 - 1) + mag 23 0x477ff000) * 2 ^ 925 = 2 * ((65520 * 2 ^ 37 - 2 ^ 28) * 2 ^ 1037)

theorem norm_constants : NormConstants := by
  constructor <;> decide +kernel

/-! ## Exact squares -/

theorem two_pow_lt {a b : Nat} (h : a < b) : 2 ^ a < 2 ^ b := Nat.pow_lt_pow_right one_lt_two h

/-- A finite half is an eleven-bit significand at an exponent below 30. -/
theorem halfMag_eq {h : UInt16} (hfin : FiniteHalf h) : ∃ q s, halfMag h = q * 2 ^ s ∧ q < 2 ^ 11 ∧ s < 30 := by
  obtain ⟨s, q, heq, hq, hs⟩ := exists_shift 10 (h.toNat % 2 ^ 15)
  refine ⟨q, s, ?_, hq, ?_⟩
  · rw [halfMag, heq, mag_shift hq.le hs]
  · unfold FiniteHalf at hfin
    omega

theorem mag_ofF32 {h : UInt16} (hfin : FiniteHalf h) : mag 52 (F64.ofF32 (f16ToF32 h)) = halfMag h * 2 ^ 1050 := by
  obtain ⟨q, s, heq, hq, -⟩ := halfMag_eq hfin
  have hnum : mag 23 (f16ToF32 h).bits * 2 ^ 925 = q * 2 ^ (s + 1050) * 1 := by
    rw [mag_f16ToF32 hfin, heq, Nat.mul_one, Nat.mul_assoc, Nat.mul_assoc, ← pow_add, ← pow_add]
  rw [F64.ofF32, hnum, mag_roundBits (by decide) one_pos (by omega), heq, Nat.mul_assoc, ← pow_add]

theorem saturate_eq {k : Nat} (h : mag 52 k < 2 ^ 2000) : min F64.infinityBits k = k := by
  exact min_eq_right (Nat.le_of_lt ((mag_strictMono 52).lt_iff_lt.mp (lt_of_lt_of_le h norm_constants.infinity)))

theorem halfSquare_le {h : UInt16} (hfin : FiniteHalf h) : halfSquare h ≤ 2 ^ 1106 := by
  obtain ⟨q, s, heq, hq, hs⟩ := halfMag_eq hfin
  have hmag : halfMag h ≤ 2 ^ 40 := by
    rw [heq]
    calc q * 2 ^ s ≤ 2 ^ 11 * 2 ^ 29 := Nat.mul_le_mul hq.le (Nat.pow_le_pow_right (by decide) (by omega))
      _ = 2 ^ 40 := by norm_num
  calc halfSquare h ≤ (2 ^ 40) ^ 2 * 2 ^ 1026 := Nat.mul_le_mul_right _ (Nat.pow_le_pow_left hmag 2)
    _ = 2 ^ 1106 := by rw [← pow_mul, ← pow_add]

theorem square_shift (q s : Nat) :
    q * 2 ^ s * 2 ^ 1050 * (q * 2 ^ s * 2 ^ 1050) = q ^ 2 * 2 ^ (2 * s + 1026) * 2 ^ 1074 := by
  have hgeneral : ∀ a b c, a + a = b + c →
      q * 2 ^ s * 2 ^ a * (q * 2 ^ s * 2 ^ a) = q ^ 2 * 2 ^ (2 * s + b) * 2 ^ c := by
    intro a b c h
    calc q * 2 ^ s * 2 ^ a * (q * 2 ^ s * 2 ^ a) = q ^ 2 * 2 ^ (2 * s) * 2 ^ (a + a) := by ring
      _ = q ^ 2 * 2 ^ (2 * s + b) * 2 ^ c := by rw [h]; ring
  exact hgeneral 1050 1026 1074 rfl

theorem mag_square {h : UInt16} (hfin : FiniteHalf h) :
    mag 52 (F64.mul (F64.ofF32 (f16ToF32 h)) (F64.ofF32 (f16ToF32 h))) = halfSquare h := by
  obtain ⟨q, s, heq, hq, -⟩ := halfMag_eq hfin
  have hnum : mag 52 (F64.ofF32 (f16ToF32 h)) * mag 52 (F64.ofF32 (f16ToF32 h)) =
      q ^ 2 * 2 ^ (2 * s + 1026) * 2 ^ 1074 := by
    rw [mag_ofF32 hfin, heq, square_shift]
  have hsquare : halfSquare h = q ^ 2 * 2 ^ (2 * s + 1026) := by
    rw [halfSquare, heq, Nat.mul_pow, ← pow_mul, Nat.mul_comm s, Nat.mul_assoc, ← pow_add]
  have hround : mag 52 (roundBits 52 (q ^ 2 * 2 ^ (2 * s + 1026) * 2 ^ 1074) (2 ^ 1074)) = halfSquare h := by
    rw [mag_roundBits (by decide) (Nat.two_pow_pos 1074), hsquare]
    calc q ^ 2 ≤ (2 ^ 11) ^ 2 := Nat.pow_le_pow_left hq.le 2
      _ ≤ 2 ^ (52 + 1) := by norm_num
  rw [F64.mul, hnum, saturate_eq, hround]
  rw [hround]
  exact lt_of_le_of_lt (halfSquare_le hfin) (two_pow_lt (a := 1106) (b := 2000) (by decide))

/-! ## The sum -/

theorem sumOfSquares_append (halves : List UInt16) (h : UInt16) :
    sumOfSquares (halves ++ [h]) = nearestDouble (sumOfSquares halves + halfSquare h) := by
  unfold sumOfSquares
  rw [List.foldl_append, List.foldl_cons, List.foldl_nil]

/-- Multiples of a power of two are representable, so rounding keeps the bound. -/
theorem sumOfSquares_le {halves : List UInt16} {t : Nat} (hterm : ∀ h ∈ halves, halfSquare h ≤ 2 ^ t)
    (hlen : halves.length ≤ 2 ^ (52 + 1)) : sumOfSquares halves ≤ halves.length * 2 ^ t := by
  induction halves using List.reverseRecOn with
  | nil => simp [sumOfSquares]
  | append_singleton halves h ih =>
    rw [List.length_append, List.length_singleton] at hlen ⊢
    have hsum := ih (fun g hg => hterm g (List.mem_append_left _ hg)) (Nat.le_of_succ_le hlen)
    have hlast := hterm h (List.mem_append_right _ (List.mem_singleton_self h))
    rw [sumOfSquares_append, nearestDouble]
    refine mag_roundBits_le (by decide) hlen ?_
    rw [Nat.add_mul, Nat.one_mul]
    exact Nat.add_le_add hsum hlast

/-! ## The root -/

theorem normMidpoint_le_sqrt {sum : Nat} : normMidpoint ≤ F64.sqrt sum ↔ normLimit ≤ mag 52 sum := by
  rw [F64.sqrt]
  exact le_roundSqrt_of_even (by decide) (by decide) norm_constants.midpoint norm_constants.even
    (pow_pos two_pos 1074) norm_constants.square

theorem single_reaches_iff {d : Nat} : 0x477ff000 ≤ roundBits 23 (mag 52 d) (2 ^ 925) ↔ normMidpoint ≤ d := by
  have hvalue : normMidpoint ≤ d ↔ mag 52 normMidpoint ≤ mag 52 d := (mag_strictMono 52).le_iff_le.symm
  rw [hvalue, norm_constants.value]
  exact le_roundBits_of_even (by decide) (pow_pos two_pos 925) (by decide) norm_constants.single (by decide)

theorem toF32_bits (d : Nat) : (F64.toF32 d).bits = min F32.infinityBits (roundBits 23 (mag 52 d) (2 ^ 925)) :=
  F32.ofBits_bits (lt_of_le_of_lt (min_le_left _ _) (by decide))

theorem toF32_not_isNan (d : Nat) : ¬ (F64.toF32 d).isNan := by
  rw [F32.isNan, toF32_bits]
  exact not_lt.mpr (min_le_left _ _)

theorem finiteHalf_norm_iff {sum : Nat} :
    FiniteHalf (f32ToF16 (F64.toF32 (F64.sqrt sum))) ↔ mag 52 sum < normLimit := by
  have hinf : 0x477ff000 ≤ F32.infinityBits := by decide
  rw [finiteHalf_f32ToF16 rfl (toF32_not_isNan _), toF32_bits, ← not_le, ← not_le, le_min_iff, single_reaches_iff,
    normMidpoint_le_sqrt]
  simp [hinf]

end Kvpack.Core
