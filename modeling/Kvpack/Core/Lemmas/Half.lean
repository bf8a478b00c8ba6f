import Kvpack.Core.Half

/-!
# Half precision

Finite halves convert to singles of the same value and back to themselves, and a non-negative single converts to a
finite half exactly below 65520, the midpoint above the largest finite half.
-/

namespace Kvpack.Core

open Base

variable {n mantissa : Nat} {h : UInt16}

/-- The exponent field is not all ones. -/
def FiniteHalf (h : UInt16) : Prop := h.toNat / 2 ^ 10 % 2 ^ 5 ≠ 0x1f

/-- The magnitude of a half, in units of 2 ^ -24. -/
def halfMag (h : UInt16) : Nat := mag 10 (h.toNat % 2 ^ 15)

theorem F32.ofBits_bits {sign : Bool} (h : n < 2 ^ 31) : (F32.ofBits sign n).bits = n := Nat.mod_eq_of_lt h

theorem ofNat_eq (hn : n = h.toNat) : UInt16.ofNat n = h := by
  rw [hn, UInt16.ofNat_toNat]

/-! ## From half to single -/

theorem normalizeMantissa_eq (exponent : Int) (hpos : 0 < mantissa) (hlt : mantissa < 2 ^ 11) :
    ∃ j : Nat, normalizeMantissa mantissa exponent = (mantissa * 2 ^ j, exponent - j) ∧ 2 ^ 10 ≤ mantissa * 2 ^ j ∧
      mantissa * 2 ^ j < 2 ^ 11 := by
  fun_induction normalizeMantissa mantissa exponent with
  | case1 mantissa exponent hc ih =>
    obtain ⟨j, heq, hge, hlt'⟩ := ih (by omega) (by omega)
    have hmul : 2 * mantissa * 2 ^ j = mantissa * 2 ^ (j + 1) := by ring
    rw [hmul] at heq hge hlt'
    refine ⟨j + 1, ?_, hge, hlt'⟩
    rw [heq, Nat.cast_add, Nat.cast_one]
    congr 1
    ring
  | case2 mantissa exponent hc =>
    exact ⟨0, by simp, by omega, by omega⟩

/-- Below the exponent of normal halves `j` leading zeros of the mantissa are shifted out. -/
theorem f16ToF32_subnormal (hexp : h.toNat / 2 ^ 10 % 2 ^ 5 = 0) (hman : h.toNat % 2 ^ 10 ≠ 0) :
    ∃ j, 1 ≤ j ∧ j ≤ 10 ∧ 2 ^ 10 ≤ h.toNat % 2 ^ 10 * 2 ^ j ∧ h.toNat % 2 ^ 10 * 2 ^ j < 2 ^ 11 ∧
      f16ToF32 h = .ofBits (decide (2 ^ 15 ≤ h.toNat))
        ((113 - j) * 2 ^ 23 + (h.toNat % 2 ^ 10 * 2 ^ j - 2 ^ 10) * 2 ^ 13) := by
  have hlt := Nat.mod_lt h.toNat (Nat.two_pow_pos 10)
  unfold f16ToF32
  simp only [hexp, hman, ↓reduceIte]
  generalize h.toNat % 2 ^ 10 = man at *
  obtain ⟨j, heq, hge, htop⟩ := normalizeMantissa_eq (-14) (Nat.pos_of_ne_zero hman) (by omega)
  have hj1 : 1 ≤ j := by
    by_contra hcon
    have hj0 : j = 0 := by omega
    subst hj0
    omega
  have hj10 : j ≤ 10 := by
    by_contra hcon
    have hpow : 2 ^ 11 ≤ 2 ^ j := Nat.pow_le_pow_right (by decide) (by omega)
    have hmul : 2 ^ j ≤ man * 2 ^ j := Nat.le_mul_of_pos_left _ (Nat.pos_of_ne_zero hman)
    omega
  have hmod : man * 2 ^ j % 2 ^ 10 = man * 2 ^ j - 2 ^ 10 := by
    rw [Nat.mod_eq_sub_mod hge, Nat.mod_eq_of_lt (by omega)]
  have hcast : ((-14 : Int) - j + 127).toNat = 113 - j := by omega
  refine ⟨j, hj1, hj10, hge, htop, ?_⟩
  rw [heq]
  simp only [hmod, hcast]

theorem f16ToF32_zero (hexp : h.toNat / 2 ^ 10 % 2 ^ 5 = 0) (hman : h.toNat % 2 ^ 10 = 0) :
    f16ToF32 h = .ofBits (decide (2 ^ 15 ≤ h.toNat)) 0 := by
  unfold f16ToF32
  simp only [hexp, hman, ↓reduceIte]

theorem f16ToF32_normal (hexp : h.toNat / 2 ^ 10 % 2 ^ 5 ≠ 0) (hfin : FiniteHalf h) :
    f16ToF32 h = .ofBits (decide (2 ^ 15 ≤ h.toNat))
      ((h.toNat / 2 ^ 10 % 2 ^ 5 + 112) * 2 ^ 23 + h.toNat % 2 ^ 10 * 2 ^ 13) := by
  unfold FiniteHalf at hfin
  unfold f16ToF32
  simp only [hexp, hfin, ↓reduceIte]
  rw [Nat.add_sub_assoc (by decide)]

theorem f16ToF32_sign (h : UInt16) : (f16ToF32 h).sign = decide (2 ^ 15 ≤ h.toNat) := by
  unfold f16ToF32
  dsimp only
  split
  · split <;> rfl
  · split
    · split <;> rfl
    · rfl

theorem f16ToF32_isFinite : (f16ToF32 h).isFinite ↔ FiniteHalf h := by
  have hman := Nat.mod_lt h.toNat (Nat.two_pow_pos 10)
  have hexp := Nat.mod_lt (h.toNat / 2 ^ 10) (Nat.two_pow_pos 5)
  unfold F32.isFinite
  by_cases hfin : FiniteHalf h
  · refine iff_of_true ?_ hfin
    by_cases hexp0 : h.toNat / 2 ^ 10 % 2 ^ 5 = 0
    · by_cases hman0 : h.toNat % 2 ^ 10 = 0
      · rw [f16ToF32_zero hexp0 hman0, F32.ofBits_bits (by decide)]
        decide
      · obtain ⟨j, hj1, hj10, hge, htop, heq⟩ := f16ToF32_subnormal hexp0 hman0
        rw [heq, F32.ofBits_bits (by omega), F32.infinityBits]
        omega
    · have hne : h.toNat / 2 ^ 10 % 2 ^ 5 ≠ 31 := hfin
      rw [f16ToF32_normal hexp0 hfin, F32.ofBits_bits (by omega), F32.infinityBits]
      omega
  · refine iff_of_false ?_ hfin
    have hall : h.toNat / 2 ^ 10 % 2 ^ 5 = 31 := not_not.mp hfin
    have hne : (31 : Nat) ≠ 0 := by decide
    unfold f16ToF32
    simp only [hall, hne, ↓reduceIte]
    split
    · rw [F32.ofBits_bits (by decide)]
      exact lt_irrefl _
    · -- a bitwise or only adds to its left operand
      have hor : F32.infinityBits + h.toNat % 2 ^ 10 * 2 ^ 13 ≤
          (F32.infinityBits + h.toNat % 2 ^ 10 * 2 ^ 13) ||| 0x00400000 := Nat.left_le_or
      have hlt : (F32.infinityBits + h.toNat % 2 ^ 10 * 2 ^ 13) ||| 0x00400000 < 2 ^ 31 :=
        Nat.or_lt_two_pow (by rw [F32.infinityBits]; omega) (by decide)
      rw [F32.ofBits_bits hlt]
      omega

/-- The conversion keeps the magnitude: 2 ^ -24 is 2 ^ 125 units of single precision. -/
theorem mag_f16ToF32 (hfin : FiniteHalf h) : mag 23 (f16ToF32 h).bits = halfMag h * 2 ^ 125 := by
  have hman := Nat.mod_lt h.toNat (Nat.two_pow_pos 10)
  have hexp := Nat.mod_lt (h.toNat / 2 ^ 10) (Nat.two_pow_pos 5)
  have hpattern : h.toNat % 2 ^ 15 = h.toNat / 2 ^ 10 % 2 ^ 5 * 2 ^ 10 + h.toNat % 2 ^ 10 := by omega
  unfold halfMag
  rw [hpattern]
  by_cases hexp0 : h.toNat / 2 ^ 10 % 2 ^ 5 = 0
  · rw [hexp0, mag_shift (by omega) (Or.inl rfl), pow_zero, Nat.mul_one]
    by_cases hman0 : h.toNat % 2 ^ 10 = 0
    · rw [f16ToF32_zero hexp0 hman0, F32.ofBits_bits (by decide), hman0, mag_zero, Nat.zero_mul]
    · obtain ⟨j, hj1, hj10, hge, htop, heq⟩ := f16ToF32_subnormal hexp0 hman0
      rw [heq, F32.ofBits_bits (by omega)]
      generalize h.toNat % 2 ^ 10 = man at *
      have hsplit : (113 - j) * 2 ^ 23 + (man * 2 ^ j - 2 ^ 10) * 2 ^ 13 =
          (112 - j) * 2 ^ 23 + man * 2 ^ j * 2 ^ 13 := by omega
      rw [hsplit, mag_shift (by omega) (Or.inr (by omega))]
      calc man * 2 ^ j * 2 ^ 13 * 2 ^ (112 - j) = man * 2 ^ (j + 13 + (112 - j)) := by ring
        _ = man * 2 ^ 125 := by rw [show j + 13 + (112 - j) = 125 by omega]
  · rw [f16ToF32_normal hexp0 hfin, F32.ofBits_bits (by unfold FiniteHalf at hfin; omega)]
    obtain ⟨e, he⟩ : ∃ e, h.toNat / 2 ^ 10 % 2 ^ 5 = e + 1 := ⟨h.toNat / 2 ^ 10 % 2 ^ 5 - 1, by omega⟩
    rw [he]
    generalize h.toNat % 2 ^ 10 = man at *
    have hsingle : (e + 1 + 112) * 2 ^ 23 + man * 2 ^ 13 = (e + 112) * 2 ^ 23 + (2 ^ 10 + man) * 2 ^ 13 := by ring
    have hhalf : (e + 1) * 2 ^ 10 + man = e * 2 ^ 10 + (2 ^ 10 + man) := by ring
    rw [hsingle, hhalf, mag_shift (by omega) (Or.inr (by omega)), mag_shift (by omega) (Or.inr (by omega))]
    ring

/-! ## From single to half -/

theorem roundMantissa_mul (kept shift : Nat) : roundMantissa (kept * 2 ^ shift) shift = kept := by
  have hpos : 0 < 2 ^ (shift - 1) := Nat.two_pow_pos _
  unfold roundMantissa
  simp only [Nat.mul_mod_left, Nat.mul_div_cancel _ (Nat.two_pow_pos shift)]
  rw [if_neg (by omega), Nat.add_zero]

theorem f32ToF16_f16ToF32 (hfin : FiniteHalf h) : f32ToF16 (f16ToF32 h) = h := by
  have hlt := h.toNat_lt
  have hman := Nat.mod_lt h.toNat (Nat.two_pow_pos 10)
  have hnan : ¬ (f16ToF32 h).isNan := by
    have := f16ToF32_isFinite.mpr hfin
    unfold F32.isFinite at this
    unfold F32.isNan
    omega
  have hsign : (if (f16ToF32 h).sign then 0x8000 else 0) = h.toNat / 2 ^ 15 * 2 ^ 15 := by
    rw [f16ToF32_sign]
    simp only [decide_eq_true_eq]
    split <;> omega
  unfold f32ToF16
  simp only [hnan, ↓reduceIte, hsign]
  by_cases hexp0 : h.toNat / 2 ^ 10 % 2 ^ 5 = 0
  · by_cases hman0 : h.toNat % 2 ^ 10 = 0
    · have hbits : (f16ToF32 h).bits = 0 := by rw [f16ToF32_zero hexp0 hman0, F32.ofBits_bits (by decide)]
      rw [hbits]
      simp only [Nat.zero_div, Nat.cast_zero, zero_sub, Int.reduceNeg, Int.reduceLT, ↓reduceIte]
      exact ofNat_eq (by omega)
    · obtain ⟨j, hj1, hj10, hge, htop, heq⟩ := f16ToF32_subnormal hexp0 hman0
      have hbits : (f16ToF32 h).bits = (113 - j) * 2 ^ 23 + (h.toNat % 2 ^ 10 * 2 ^ j - 2 ^ 10) * 2 ^ 13 := by
        rw [heq, F32.ofBits_bits (by omega)]
      have hdiv : (f16ToF32 h).bits / 2 ^ 23 = 113 - j := by omega
      have hmod : (f16ToF32 h).bits % 2 ^ 23 + 2 ^ 23 = h.toNat % 2 ^ 10 * 2 ^ (13 + j) := by
        have hpow : h.toNat % 2 ^ 10 * 2 ^ (13 + j) = h.toNat % 2 ^ 10 * 2 ^ j * 2 ^ 13 := by ring
        omega
      have hshift : (-14 - (((113 - j : Nat) : Int) - 127)).toNat = j := by omega
      rw [hdiv, if_neg (by omega), if_neg (by omega), if_neg (by omega), hmod, hshift, roundMantissa_mul]
      exact ofNat_eq (by omega)
  · have hne : h.toNat / 2 ^ 10 % 2 ^ 5 ≠ 31 := hfin
    have hbits : (f16ToF32 h).bits = (h.toNat / 2 ^ 10 % 2 ^ 5 + 112) * 2 ^ 23 + h.toNat % 2 ^ 10 * 2 ^ 13 := by
      rw [f16ToF32_normal hexp0 hfin, F32.ofBits_bits (by omega)]
    have hdiv : (f16ToF32 h).bits / 2 ^ 23 = h.toNat / 2 ^ 10 % 2 ^ 5 + 112 := by omega
    have hmod : (f16ToF32 h).bits % 2 ^ 23 = h.toNat % 2 ^ 10 * 2 ^ 13 := by omega
    have hbiased : ((((h.toNat / 2 ^ 10 % 2 ^ 5 + 112 : Nat) : Int) - 127) + 15).toNat = h.toNat / 2 ^ 10 % 2 ^ 5 := by
      omega
    rw [hdiv, if_neg (by omega), if_neg (by omega), if_pos (by omega), hmod, roundMantissa_mul, if_neg (by omega),
      hbiased]
    exact ofNat_eq (by omega)

theorem roundMantissa_le (mantissa shift : Nat) : roundMantissa mantissa shift ≤ mantissa / 2 ^ shift + 1 := by
  unfold roundMantissa
  dsimp only
  split <;> omega

/-- The largest mantissas carry into the exponent; 0x7ff000 is the midpoint. -/
theorem roundMantissa_carry (h : mantissa < 2 ^ 23) :
    roundMantissa mantissa 13 = 0x400 ↔ 0x7ff000 ≤ mantissa := by
  unfold roundMantissa
  dsimp only
  split <;> omega

/-- The patterns from 0x477ff000 on are the singles from 65520 on. -/
theorem f32ToF16_of_nonneg {x : F32} (hsign : x.sign = false) (hnan : ¬ x.isNan) :
    (f32ToF16 x).toNat ≤ 0x7c00 ∧ ((f32ToF16 x).toNat < 0x7c00 ↔ x.bits < 0x477ff000) := by
  have hman := Nat.mod_lt x.bits (Nat.two_pow_pos 23)
  have hsplit := Nat.div_add_mod x.bits (2 ^ 23)
  unfold f32ToF16
  simp only [hnan, hsign, Bool.false_eq_true, ↓reduceIte, Nat.zero_add]
  generalize hexp : x.bits / 2 ^ 23 = e at *
  generalize x.bits % 2 ^ 23 = man at *
  split
  · have hnat : (UInt16.ofNat 0x7c00).toNat = 0x7c00 := by decide
    rw [hnat]
    omega
  · split
    · have hnat : (UInt16.ofNat 0).toNat = 0 := by decide
      rw [hnat]
      omega
    · split
      · have hround := roundMantissa_le man 13
        have hcarry := roundMantissa_carry hman
        split
        · rw [UInt16.toNat_ofNat_of_lt' (by show _ < 2 ^ 16; omega)]
          omega
        · rw [UInt16.toNat_ofNat_of_lt' (by show _ < 2 ^ 16; omega)]
          omega
      · -- subnormal results stay below the least normal half
        have hround := roundMantissa_le (man + 2 ^ 23) (13 + (-14 - ((e : Int) - 127)).toNat)
        have hpow : 2 ^ 14 ≤ 2 ^ (13 + (-14 - ((e : Int) - 127)).toNat) :=
          Nat.pow_le_pow_right (by decide) (by omega)
        have hkept : (man + 2 ^ 23) / 2 ^ (13 + (-14 - ((e : Int) - 127)).toNat) ≤ (man + 2 ^ 23) / 2 ^ 14 :=
          Nat.div_le_div_left hpow (by decide)
        rw [UInt16.toNat_ofNat_of_lt' (by show _ < 2 ^ 16; omega)]
        omega

theorem finiteHalf_f32ToF16 {x : F32} (hsign : x.sign = false) (hnan : ¬ x.isNan) :
    FiniteHalf (f32ToF16 x) ↔ x.bits < 0x477ff000 := by
  obtain ⟨hle, hlt⟩ := f32ToF16_of_nonneg hsign hnan
  rw [← hlt]
  unfold FiniteHalf
  omega

end Kvpack.Core
