import Kvpack.Core.Lemmas.Half

/-!
# Rounding to half precision

Both formats are read as exact rationals. The conversion from single to half is rounding to nearest even everywhere but
between 2 ^ -25 and 2 ^ -24, where the source returns zero and the least subnormal half is nearer.
-/

namespace Kvpack.Core

open Base

variable {num bits : Nat} {x : F32} {h : UInt16}

def signed (sign : Bool) : ℚ := if sign then -1 else 1

def F32.value (x : F32) : ℚ := signed x.sign * mag 23 x.bits / 2 ^ 149

def halfSign (h : UInt16) : Bool := decide (2 ^ 15 ≤ h.toNat)

def halfValue (h : UInt16) : ℚ := signed (halfSign h) * halfMag h / 2 ^ 24

def NanHalf (h : UInt16) : Prop := ¬ FiniteHalf h ∧ h.toNat % 2 ^ 10 ≠ 0

/-- The half `h` is `x` rounded to nearest, ties to even, with overflow to infinity. -/
structure RoundsTo (x : F32) (h : UInt16) : Prop where
  sign : halfSign h = x.sign
  overflow : ¬ FiniteHalf h ↔ 65520 ≤ |x.value|
  infinite : ¬ FiniteHalf h → ¬ NanHalf h
  nearest : FiniteHalf h → ∀ k, FiniteHalf k → |x.value - halfValue h| ≤ |x.value - halfValue k|
  tie : FiniteHalf h → ∀ k, FiniteHalf k → halfValue k ≠ halfValue h →
    |x.value - halfValue h| = |x.value - halfValue k| → h.toNat % 2 = 0

/-! ## The branches of the conversion -/

theorem roundMantissa_eq {mantissa shift : Nat} (h : 0 < shift) :
    roundMantissa mantissa shift = nearestEven mantissa (2 ^ shift) := by
  have hpow : 2 ^ shift = 2 * 2 ^ (shift - 1) := by
    rw [← pow_succ']
    congr 1
    omega
  simp only [roundMantissa, nearestEven]
  generalize mantissa % 2 ^ shift = r
  generalize mantissa / 2 ^ shift = q
  split <;> split <;> omega

theorem nearestEven_add {den : Nat} (c : Nat) (hden : 0 < den) (heven : c % 2 = 0) :
    nearestEven (c * den + num) den = c + nearestEven num den := by
  simp only [nearestEven, Nat.mul_comm c den, Nat.mul_add_div hden, Nat.mul_add_mod]
  split <;> split <;> omega

theorem mag_normal (h : 2 ^ 23 ≤ bits) :
    mag 23 bits = (2 ^ 23 + bits % 2 ^ 23) * 2 ^ (bits / 2 ^ 23 - 1) := by
  have hbits : bits = (bits / 2 ^ 23 - 1) * 2 ^ 23 + (2 ^ 23 + bits % 2 ^ 23) := by omega
  conv_lhs => rw [hbits]
  exact mag_shift (by omega) (Or.inr (by omega))

/-- From the least subnormal to the overflow threshold the mantissa is rounded at the right place. -/
theorem roundBits_single {bits : Nat} (hlo : 103 ≤ bits / 2 ^ 23) :
    roundBits 10 (mag 23 bits) (2 ^ 125) =
      if 113 ≤ bits / 2 ^ 23 then (bits / 2 ^ 23 - 112) * 2 ^ 10 + roundMantissa (bits % 2 ^ 23) 13
      else roundMantissa (2 ^ 23 + bits % 2 ^ 23) (126 - bits / 2 ^ 23) := by
  have hman := Nat.mod_lt bits (Nat.two_pow_pos 23)
  rw [mag_normal (by omega)]
  generalize bits % 2 ^ 23 = man at *
  generalize bits / 2 ^ 23 = e at *
  split
  · rename_i hnormal
    obtain ⟨s, rfl⟩ : ∃ s, e = s + 113 := ⟨e - 113, by omega⟩
    have hden : 2 ^ 125 * 2 ^ s = 2 ^ 13 * 2 ^ (s + 113 - 1) := by
      rw [show s + 113 - 1 = s + 112 by omega, pow_add 2 s]
      ring
    have hpos := Nat.two_pow_pos (s + 113 - 1)
    rw [roundBits_eq_scaled (s := s) (by decide) (by decide), hden, nearestEven_mul_right hpos,
      show 2 ^ 23 + man = 2 ^ 10 * 2 ^ 13 + man by norm_num, nearestEven_add _ (by decide) (by decide),
      roundMantissa_eq (by decide)]
    · omega
    · rw [hden, ← Nat.mul_assoc]
      exact Nat.mul_lt_mul_of_pos_right (by omega) hpos
    · right
      rw [hden, ← Nat.mul_assoc]
      exact Nat.mul_le_mul_right _ (by omega)
  · have hden : 2 ^ 125 = 2 ^ (126 - e) * 2 ^ (e - 1) := by
      rw [← pow_add]
      congr 1
      omega
    have hpow : 2 ^ 14 ≤ 2 ^ (126 - e) := Nat.pow_le_pow_right (by decide) (by omega)
    rw [roundBits_eq_scaled (s := 0) (by decide) (by decide) _ (Or.inl rfl), pow_zero, Nat.mul_one, hden,
      nearestEven_mul_right (Nat.two_pow_pos _), roundMantissa_eq (by omega), Nat.zero_mul, Nat.zero_add]
    rw [pow_zero, Nat.mul_one, hden, ← Nat.mul_assoc]
    exact Nat.mul_lt_mul_of_pos_right (by omega) (Nat.two_pow_pos _)

/-- The single lies strictly between 2 ^ -25 and 2 ^ -24. -/
def F32.belowLeastHalf (x : F32) : Prop := 2 ^ 124 < mag 23 x.bits ∧ mag 23 x.bits < 2 ^ 125

theorem mag_lt_iff {e : Nat} : mag 23 bits < 2 ^ (23 + e) ↔ bits / 2 ^ 23 < e + 1 := by
  have hmag : mag 23 (e * 2 ^ 23 + 2 ^ 23) = 2 ^ (23 + e) := by
    rw [mag_shift (by decide) (Or.inr le_rfl), pow_add]
  rw [← hmag, (mag_strictMono 23).lt_iff_lt]
  omega

/-- Infinity starts at 65520, midway to the next power of two. -/
theorem infinity_le_roundBits : 0x7c00 ≤ roundBits 10 num (2 ^ 125) ↔ 65520 * 2 ^ 149 ≤ num := by
  have htop : mag 10 0x7c00 = 2 ^ 10 * 2 ^ 30 := mag_shift (s := 30) (q := 2 ^ 10) (by decide) (Or.inr (by decide))
  have hbelow : mag 10 (0x7c00 - 1) = 2047 * 2 ^ 29 := mag_shift (s := 29) (q := 2047) (by decide) (Or.inr (by decide))
  apply le_roundBits_of_even (by decide) (by decide) (by decide)
  · rw [htop, hbelow]
    norm_num
  · decide

/-- The magnitude of the result: the nearest pattern, except that the gap goes to zero. -/
theorem f32ToF16_pattern (hfin : x.isFinite) :
    ∃ r, (f32ToF16 x).toNat = (if x.sign then 2 ^ 15 else 0) + r ∧ r ≤ 0x7c00 ∧ (x.belowLeastHalf → r = 0) ∧
      (¬ x.belowLeastHalf → r = min 0x7c00 (roundBits 10 (mag 23 x.bits) (2 ^ 125))) := by
  have hnan : ¬ x.isNan := by
    unfold F32.isNan
    unfold F32.isFinite at hfin
    omega
  have htoNat : ∀ r, r ≤ 0x7c00 →
      (UInt16.ofNat ((if x.sign then 0x8000 else 0) + r)).toNat = (if x.sign then 2 ^ 15 else 0) + r := by
    intro r hr
    rw [UInt16.toNat_ofNat_of_lt' (by show _ < 2 ^ 16; split <;> omega)]
    rfl
  have hgap : x.belowLeastHalf → x.bits / 2 ^ 23 < 103 := fun h => mag_lt_iff.mp h.2
  have hman := Nat.mod_lt x.bits (Nat.two_pow_pos 23)
  unfold f32ToF16
  simp only [hnan, ↓reduceIte]
  split
  · rename_i hover
    have hmag : 2 ^ 165 ≤ mag 23 x.bits := by
      have := mt mag_lt_iff.mp (show ¬ x.bits / 2 ^ 23 < 142 + 1 by omega)
      omega
    refine ⟨0x7c00, htoNat _ le_rfl, le_rfl, fun h => by have := hgap h; omega, fun _ => ?_⟩
    rw [min_eq_left]
    exact infinity_le_roundBits.mpr (le_trans (by norm_num) hmag)
  · split
    · rename_i hover hunder
      have hmag : mag 23 x.bits < 2 ^ 125 := mag_lt_iff.mpr (show x.bits / 2 ^ 23 < 102 + 1 by omega)
      refine ⟨0, htoNat 0 (Nat.zero_le _), Nat.zero_le _, fun _ => rfl, fun h => ?_⟩
      have hle : mag 23 x.bits ≤ 2 ^ 124 := by
        by_contra hcon
        exact h ⟨by omega, hmag⟩
      have hone : mag 10 1 = 1 := by
        simpa using mag_shift (m := 10) (s := 0) (q := 1) (by decide) (Or.inl rfl)
      have hzero : ¬ 1 ≤ roundBits 10 (mag 23 x.bits) (2 ^ 125) := by
        rw [le_roundBits (by decide) (by decide) (by decide), MidpointReached, Nat.sub_self, mag_zero, hone]
        omega
      omega
    · rename_i hover hunder
      have hround := @roundBits_single x.bits (by omega)
      generalize x.bits % 2 ^ 23 = man at *
      generalize x.bits / 2 ^ 23 = e at *
      split
      · rename_i hnormal
        rw [if_pos (by omega)] at hround
        have hle := roundMantissa_le man 13
        refine ⟨(e - 112) * 2 ^ 10 + roundMantissa man 13, ?_, by omega, fun h => by have := hgap h; omega,
          fun _ => by omega⟩
        rw [← htoNat _ (by omega)]
        split
        · exact congrArg (fun n => (UInt16.ofNat n).toNat) (by omega)
        · exact congrArg (fun n => (UInt16.ofNat n).toNat) (by omega)
      · rename_i hnormal
        have hle := roundMantissa_le (2 ^ 23 + man) (126 - e)
        have hpow : 2 ^ 14 ≤ 2 ^ (126 - e) := Nat.pow_le_pow_right (by decide) (by omega)
        have hkept : (2 ^ 23 + man) / 2 ^ (126 - e) ≤ (2 ^ 23 + man) / 2 ^ 14 := Nat.div_le_div_left hpow (by decide)
        rw [if_neg (by omega)] at hround
        refine ⟨roundMantissa (2 ^ 23 + man) (126 - e), ?_, by omega, fun h => by have := hgap h; omega,
          fun _ => by omega⟩
        rw [← htoNat _ (by omega)]
        rw [Nat.add_comm man, show 13 + (-14 - ((e : Int) - 127)).toNat = 126 - e by omega]

/-! ## Distances -/

theorem signed_mul_self (sign : Bool) : signed sign * signed sign = 1 := by cases sign <;> simp [signed]

theorem abs_signed (sign : Bool) : |signed sign| = 1 := by cases sign <;> simp [signed]

theorem signed_of_ne {a b : Bool} (h : a ≠ b) : signed a * signed b = -1 := by
  cases a <;> cases b <;> simp [signed] at h ⊢

/-- The value of a single in units of 2 ^ -24. -/
def F32.units (x : F32) : ℚ := mag 23 x.bits / (2 ^ 125 : Nat)

theorem abs_value (x : F32) : |x.value| = mag 23 x.bits / 2 ^ 149 := by
  have hnonneg : (0 : ℚ) ≤ mag 23 x.bits := Nat.cast_nonneg _
  unfold F32.value
  rw [abs_div, abs_mul, abs_signed, one_mul, abs_of_nonneg hnonneg, abs_of_pos (by positivity)]

/-- Distances are those of the magnitudes; an opposite sign counts from beyond zero. -/
theorem dist_halfValue (x : F32) (k : UInt16) :
    |x.value - halfValue k| = |x.units - signed x.sign * signed (halfSign k) * halfMag k| / 2 ^ 24 := by
  have hself := signed_mul_self x.sign
  calc |x.value - halfValue k|
      = |signed x.sign * (x.value - halfValue k)| := by rw [abs_mul, abs_signed, one_mul]
    _ = |(x.units - signed x.sign * signed (halfSign k) * halfMag k) / 2 ^ 24| := by
        unfold F32.value halfValue F32.units
        congr 1
        push_cast
        linear_combination (mag 23 x.bits / 2 ^ 149 : ℚ) * hself
    _ = _ := by rw [abs_div, abs_of_pos (show (0 : ℚ) < 2 ^ 24 by positivity)]

/-- A half with the sign of `x` and the nearest pattern is nearest. -/
theorem nearest_of_pattern (hsign : halfSign h = x.sign)
    (hpattern : h.toNat % 2 ^ 15 = roundBits 10 (mag 23 x.bits) (2 ^ 125)) (k : UInt16) :
    |x.value - halfValue h| < |x.value - halfValue k| ∨
      |x.value - halfValue h| = |x.value - halfValue k| ∧ (halfValue k ≠ halfValue h → h.toNat % 2 = 0) := by
  have hden : (0 : ℚ) < 2 ^ 24 := by positivity
  have hnonneg : 0 ≤ x.units := by unfold F32.units; positivity
  have hparity : h.toNat % 2 = roundBits 10 (mag 23 x.bits) (2 ^ 125) % 2 := by omega
  have hround : ∀ j, j ≠ roundBits 10 (mag 23 x.bits) (2 ^ 125) →
      |x.units - halfMag h| < |x.units - mag 10 j| ∨
        |x.units - halfMag h| = |x.units - mag 10 j| ∧ h.toNat % 2 = 0 := by
    intro j hj
    rw [hparity, halfMag, hpattern]
    exact roundBits_nearest (by decide) (by decide) hj
  rw [dist_halfValue, dist_halfValue, hsign, signed_mul_self, one_mul, div_lt_div_iff_of_pos_right hden,
    div_left_inj' hden.ne']
  by_cases hk : x.sign = halfSign k
  · rw [← hk, signed_mul_self, one_mul]
    by_cases hj : k.toNat % 2 ^ 15 = roundBits 10 (mag 23 x.bits) (2 ^ 125)
    · have hmag : halfMag k = halfMag h := by rw [halfMag, halfMag, hj, hpattern]
      refine Or.inr ⟨by rw [hmag], fun hne => absurd ?_ hne⟩
      rw [halfValue, halfValue, hmag, hsign, hk]
    · exact (hround _ hj).imp_right (And.imp_right fun heven _ => heven)
  · -- across zero nothing is nearer than zero itself
    have hmag : (0 : ℚ) ≤ halfMag k := Nat.cast_nonneg _
    rw [signed_of_ne hk, neg_one_mul, sub_neg_eq_add, abs_of_nonneg (add_nonneg hnonneg hmag)]
    by_cases hzero : 0 = roundBits 10 (mag 23 x.bits) (2 ^ 125)
    · have hh : halfMag h = 0 := by rw [halfMag, hpattern, ← hzero, mag_zero]
      rw [hh, Nat.cast_zero, sub_zero, abs_of_nonneg hnonneg]
      exact (le_add_of_nonneg_right hmag).lt_or_eq.imp_right fun heq => ⟨heq, fun _ => by omega⟩
    · have hdist := hround 0 hzero
      rw [mag_zero, Nat.cast_zero, sub_zero, abs_of_nonneg hnonneg] at hdist
      rcases hdist with hlt | ⟨heq, heven⟩
      · exact Or.inl (lt_of_lt_of_le hlt (le_add_of_nonneg_right hmag))
      · rw [heq]
        exact (le_add_of_nonneg_right hmag).lt_or_eq.imp_right fun h => ⟨h, fun _ => heven⟩

/-! ## The conversion -/

theorem belowLeastHalf_iff (x : F32) : x.belowLeastHalf ↔ 1 / 2 ^ 25 < |x.value| ∧ |x.value| < 1 / 2 ^ 24 := by
  have hlow : (1 / 2 ^ 25 * 2 ^ 149 : ℚ) = (2 ^ 124 : Nat) := by norm_num
  have hhigh : (1 / 2 ^ 24 * 2 ^ 149 : ℚ) = (2 ^ 125 : Nat) := by norm_num
  rw [abs_value, lt_div_iff₀ (by positivity), div_lt_iff₀ (by positivity), hlow, hhigh, Nat.cast_lt, Nat.cast_lt]
  rfl

theorem overflow_iff (x : F32) : 65520 ≤ |x.value| ↔ 65520 * 2 ^ 149 ≤ mag 23 x.bits := by
  have hcast : (65520 * 2 ^ 149 : ℚ) = (65520 * 2 ^ 149 : Nat) := by norm_num
  rw [abs_value, le_div_iff₀ (by positivity), hcast, Nat.cast_le]

/-- In the gap zero is farther than the least subnormal half of the same sign. -/
theorem not_roundsTo_of_below (hgap : x.belowLeastHalf)
    (hpattern : h.toNat = if x.sign then 2 ^ 15 else 0) : ¬ RoundsTo x h := by
  intro hrounds
  obtain ⟨k, hk⟩ : ∃ k : UInt16, k.toNat = (if x.sign then 2 ^ 15 else 0) + 1 :=
    ⟨UInt16.ofNat ((if x.sign then 2 ^ 15 else 0) + 1), UInt16.toNat_ofNat_of_lt' (by show _ < 2 ^ 16; split <;> omega)⟩
  have hfin : FiniteHalf h ∧ FiniteHalf k := by
    unfold FiniteHalf
    cases hx : x.sign <;> simp only [hx, Bool.false_eq_true, ↓reduceIte] at hk hpattern <;> omega
  have hsign : halfSign k = x.sign := by
    unfold halfSign
    cases hx : x.sign <;> simp [hx] at hk ⊢ <;> omega
  have hmag : halfMag h = 0 ∧ halfMag k = 1 := by
    have hone : mag 10 1 = 1 := by simpa using mag_shift (m := 10) (s := 0) (q := 1) (by decide) (Or.inl rfl)
    have hh : h.toNat % 2 ^ 15 = 0 := by split at hpattern <;> omega
    have hk' : k.toNat % 2 ^ 15 = 1 := by split at hk <;> omega
    rw [halfMag, halfMag, hh, hk']
    exact ⟨mag_zero 10, hone⟩
  have hnear := hrounds.nearest hfin.1 k hfin.2
  rw [dist_halfValue, dist_halfValue, hsign, hrounds.sign, hmag.1, hmag.2, signed_mul_self,
    div_le_div_iff_of_pos_right (by positivity)] at hnear
  have hlow : (1 / 2 : ℚ) < x.units := by
    rw [F32.units, lt_div_iff₀ (by positivity)]
    have : ((2 ^ 124 : Nat) : ℚ) < mag 23 x.bits := Nat.cast_lt.mpr hgap.1
    norm_num at this ⊢
    exact this
  have hhigh : x.units < 1 := by
    rw [F32.units, div_lt_one (by positivity)]
    exact Nat.cast_lt.mpr hgap.2
  rw [abs_of_nonneg (by norm_num; linarith), abs_of_nonpos (by norm_num; linarith)] at hnear
  norm_num at hnear
  linarith

theorem roundsTo_iff (hfin : x.isFinite) : RoundsTo x (f32ToF16 x) ↔ ¬ x.belowLeastHalf := by
  obtain ⟨r, hr, hle, hgap, hround⟩ := f32ToF16_pattern hfin
  have hsign : halfSign (f32ToF16 x) = x.sign := by
    unfold halfSign
    cases hx : x.sign <;> simp [hx] at hr ⊢ <;> omega
  have hfinite : FiniteHalf (f32ToF16 x) ↔ r < 0x7c00 := by
    unfold FiniteHalf
    split at hr <;> omega
  constructor
  · intro hrounds hbelow
    refine not_roundsTo_of_below hbelow ?_ hrounds
    rw [hr, hgap hbelow, Nat.add_zero]
  · intro hnot
    have hmin := hround hnot
    have hnearest : FiniteHalf (f32ToF16 x) →
        (f32ToF16 x).toNat % 2 ^ 15 = roundBits 10 (mag 23 x.bits) (2 ^ 125) := by
      intro h
      have := hfinite.mp h
      split at hr <;> omega
    exact {
      sign := hsign
      overflow := by
        rw [overflow_iff, ← infinity_le_roundBits, hfinite]
        omega
      infinite := by
        rintro h ⟨-, hman⟩
        rw [hfinite] at h
        split at hr <;> omega
      nearest := fun h k _ => by
        rcases nearest_of_pattern hsign (hnearest h) k with hlt | ⟨heq, -⟩
        · exact hlt.le
        · exact heq.le
      tie := fun h k _ hne heq => by
        rcases nearest_of_pattern hsign (hnearest h) k with hlt | ⟨-, heven⟩
        · exact absurd heq hlt.ne
        · exact heven hne }

theorem f32ToF16_f16ToF32_of_not_nan (hnan : ¬ NanHalf h) : f32ToF16 (f16ToF32 h) = h := by
  by_cases hfin : FiniteHalf h
  · exact f32ToF16_f16ToF32 hfin
  · have hlt := h.toNat_lt
    have hall : h.toNat / 2 ^ 10 % 2 ^ 5 = 31 := not_not.mp hfin
    have hman : h.toNat % 2 ^ 10 = 0 := not_not.mp fun hne => hnan ⟨hfin, hne⟩
    have hcases : h = 0x7c00 ∨ h = 0xfc00 := by
      rw [← UInt16.toNat_inj, ← UInt16.toNat_inj]
      show h.toNat = 0x7c00 ∨ h.toNat = 0xfc00
      omega
    rcases hcases with rfl | rfl
    · decide
    · decide

/-- Exactly outside the gap the conversion rounds to nearest even, and every half but NaN survives the round trip. -/
theorem f32ToF16_nearest_even (x : F32) (h : UInt16) :
    (x.isFinite → (RoundsTo x (f32ToF16 x) ↔ ¬ (1 / 2 ^ 25 < |x.value| ∧ |x.value| < 1 / 2 ^ 24))) ∧
      (¬ NanHalf h → f32ToF16 (f16ToF32 h) = h) := by
  refine ⟨fun hfin => ?_, fun hnan => f32ToF16_f16ToF32_of_not_nan hnan⟩
  rw [roundsTo_iff hfin, belowLeastHalf_iff]

theorem f32ToF16_nearest_even_one :
    RoundsTo (F32.ofBits false 0x3f800000) 0x3c00 ∧ f32ToF16 (f16ToF32 0x3c00) = 0x3c00 := by
  have hmag : mag 23 (F32.ofBits false 0x3f800000).bits = 2 ^ 23 * 2 ^ 126 :=
    mag_shift (s := 126) (q := 2 ^ 23) (by decide) (Or.inr le_rfl)
  have hnot : ¬ (F32.ofBits false 0x3f800000).belowLeastHalf := by
    rw [F32.belowLeastHalf, hmag]
    omega
  have hhalf : f32ToF16 (F32.ofBits false 0x3f800000) = 0x3c00 := by decide
  rw [belowLeastHalf_iff] at hnot
  obtain ⟨hround, hback⟩ := f32ToF16_nearest_even (F32.ofBits false 0x3f800000) 0x3c00
  refine ⟨?_, hback fun h => h.1 (by unfold FiniteHalf; decide)⟩
  rw [← hhalf]
  exact (hround (by decide)).mpr hnot

/-- Three quarters of the least subnormal half go to zero. -/
theorem f32ToF16_underflow :
    f32ToF16 (F32.ofBits false 0x33400000) = 0 ∧ (F32.ofBits false 0x33400000).value = 3 / 4 * halfValue 1 ∧
      ¬ RoundsTo (F32.ofBits false 0x33400000) (f32ToF16 (F32.ofBits false 0x33400000)) := by
  have hmag : mag 23 (F32.ofBits false 0x33400000).bits = (2 ^ 23 + 2 ^ 22) * 2 ^ 101 :=
    mag_shift (s := 101) (q := 2 ^ 23 + 2 ^ 22) (by decide) (Or.inr (by decide))
  have hone : halfMag 1 = 1 := mag_shift (m := 10) (s := 0) (q := 1) (by decide) (Or.inl rfl)
  refine ⟨by decide, ?_, fun h => (roundsTo_iff (by decide)).mp h ⟨?_, ?_⟩⟩
  · rw [F32.value, halfValue, hmag, hone, show (F32.ofBits false 0x33400000).sign = false from rfl,
      show halfSign 1 = false by decide]
    norm_num [signed]
  · rw [hmag]
    norm_num
  · rw [hmag]
    norm_num

end Kvpack.Core
