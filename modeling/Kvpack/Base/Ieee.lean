import Mathlib.Tactic

/-!
# Binary floating-point magnitudes

A non-negative binary float with `m` fraction bits is its bit pattern without the sign. `mag m k` is the value of
pattern `k` in units of the least subnormal, a natural number. Rounding to nearest, ties to even, is characterised by
the midpoints of neighbouring patterns.
-/

namespace Base

/-- The integer nearest to `num / den`, ties to even. -/
def nearestEven (num den : Nat) : Nat :=
  let q := num / den
  let r := num % den
  if 2 * r < den ∨ (2 * r = den ∧ q % 2 = 0) then q else q + 1

def mag (m k : Nat) : Nat := if k / 2 ^ m = 0 then k else (2 ^ m + k % 2 ^ m) * 2 ^ (k / 2 ^ m - 1)

/-- The pattern nearest to `num / den` units, ties to the even pattern. -/
def roundBits (m num den : Nat) : Nat :=
  let s := Nat.log2 (num / den) - m
  s * 2 ^ m + nearestEven num (den * 2 ^ s)

/-- The pattern nearest to the square root of `n`, in units. Below the units the root is only known to be inexact. -/
def roundSqrt (m n : Nat) : Nat :=
  let r := Nat.sqrt n
  roundBits m (2 * r + if r * r = n then 0 else 1) 2

/-! ## Nearest integers -/

theorem le_nearestEven {num den k : Nat} (hden : 0 < den) (hk : 0 < k) :
    k ≤ nearestEven num den ↔ (2 * k - 1) * den < 2 * num ∨ ((2 * k - 1) * den = 2 * num ∧ k % 2 = 0) := by
  have hnum := Nat.div_add_mod num den
  have hr := Nat.mod_lt num hden
  unfold nearestEven
  dsimp only
  generalize num / den = q at *
  generalize num % den = r at *
  subst hnum
  obtain ⟨j, rfl⟩ : ∃ j, k = j + 1 := ⟨k - 1, by omega⟩
  have hj : 2 * (j + 1) - 1 = 2 * j + 1 := by omega
  rw [hj]
  rcases lt_trichotomy j q with h | rfl | h
  · -- below the quotient the midpoint is already passed
    have hmul : (2 * j + 1) * den + den ≤ 2 * (den * q) := by nlinarith
    constructor
    · intro _
      left
      omega
    · intro _
      split <;> omega
  · have hmul : (2 * j + 1) * den = 2 * (den * j) + den := by ring
    rw [hmul]
    split
    · rename_i hc
      omega
    · rename_i hc
      omega
  · have hmul : 2 * (den * q) + 3 * den ≤ (2 * j + 1) * den := by nlinarith
    constructor
    · intro hle
      split at hle <;> omega
    · rintro (hlt | ⟨heq, -⟩) <;> omega

/-! ## Values of patterns -/

/-- A significand `q` at exponent `s`; the top one is the bottom one of the next exponent. -/
theorem mag_shift {m s q : Nat} (hq : q ≤ 2 ^ (m + 1)) (hs : s = 0 ∨ 2 ^ m ≤ q) :
    mag m (s * 2 ^ m + q) = q * 2 ^ s := by
  have hpos : 0 < 2 ^ m := Nat.two_pow_pos m
  have hpow : 2 ^ (m + 1) = 2 * 2 ^ m := by ring
  unfold mag
  by_cases hlow : q < 2 ^ m
  · have hs0 : s = 0 := by omega
    subst hs0
    simp [Nat.div_eq_of_lt hlow]
  · obtain ⟨f, rfl⟩ : ∃ f, q = 2 ^ m + f := ⟨q - 2 ^ m, by omega⟩
    by_cases htop : f = 2 ^ m
    · subst htop
      have hk : s * 2 ^ m + (2 ^ m + 2 ^ m) = 2 ^ m * (s + 2) := by ring
      rw [hk, Nat.mul_div_cancel_left _ hpos, Nat.mul_mod_right, if_neg (by omega), Nat.add_zero]
      have : s + 2 - 1 = s + 1 := by omega
      rw [this, pow_succ]
      ring
    · have hf : f < 2 ^ m := by omega
      have hk : s * 2 ^ m + (2 ^ m + f) = f + 2 ^ m * (s + 1) := by ring
      rw [hk, Nat.add_mul_div_left _ _ hpos, Nat.div_eq_of_lt hf, Nat.add_mul_mod_self_left, Nat.mod_eq_of_lt hf,
        if_neg (by omega)]
      simp

/-- Every pattern is a significand at an exponent. -/
theorem exists_shift (m k : Nat) :
    ∃ s q, k = s * 2 ^ m + q ∧ q < 2 ^ (m + 1) ∧ (s = 0 ∨ 2 ^ m ≤ q) := by
  have hpos : 0 < 2 ^ m := Nat.two_pow_pos m
  have hpow : 2 ^ (m + 1) = 2 * 2 ^ m := by ring
  have hk := Nat.div_add_mod k (2 ^ m)
  have hr := Nat.mod_lt k hpos
  rcases Nat.eq_zero_or_pos (k / 2 ^ m) with h0 | h0
  · refine ⟨0, k, by omega, ?_, Or.inl rfl⟩
    rw [h0] at hk
    omega
  · obtain ⟨e, he⟩ : ∃ e, k / 2 ^ m = e + 1 := ⟨k / 2 ^ m - 1, by omega⟩
    refine ⟨e, 2 ^ m + k % 2 ^ m, ?_, by omega, Or.inr (by omega)⟩
    rw [he] at hk
    have : 2 ^ m * (e + 1) = e * 2 ^ m + 2 ^ m := by ring
    omega

theorem mag_strictMono (m : Nat) : StrictMono (mag m) := by
  refine strictMono_nat_of_lt_succ fun k => ?_
  obtain ⟨s, q, rfl, hq, hs⟩ := exists_shift m k
  have hnext : mag m (s * 2 ^ m + q + 1) = (q + 1) * 2 ^ s := mag_shift hq (hs.imp_right (Nat.le_succ_of_le))
  rw [hnext, mag_shift hq.le hs]
  exact Nat.mul_lt_mul_of_pos_right (Nat.lt_succ_self q) (Nat.two_pow_pos s)

theorem mag_zero (m : Nat) : mag m 0 = 0 := by simp [mag]

/-! ## Rounding -/

theorem le_nearestEven_of_le {num den k : Nat} (hden : 0 < den) (h : k * den ≤ num) : k ≤ nearestEven num den := by
  rcases Nat.eq_zero_or_pos k with rfl | hk
  · exact Nat.zero_le _
  · rw [le_nearestEven hden hk]
    left
    have hlt : (2 * k - 1) * den < 2 * k * den := Nat.mul_lt_mul_of_pos_right (by omega) hden
    have hassoc : 2 * k * den = 2 * (k * den) := by ring
    omega

theorem nearestEven_le_of_le {num den k : Nat} (hden : 0 < den) (h : num ≤ k * den) : nearestEven num den ≤ k := by
  by_contra hcon
  have hmid := (le_nearestEven hden (Nat.succ_pos k)).mp (not_le.mp hcon)
  have hodd : 2 * k.succ - 1 = 2 * k + 1 := by omega
  have hexp : (2 * k + 1) * den = 2 * (k * den) + den := by ring
  rw [hodd, hexp] at hmid
  omega

/-- The midpoint below pattern `k` is at most `num / den`, and less if `k` is odd. -/
def MidpointReached (m num den k : Nat) : Prop :=
  (mag m (k - 1) + mag m k) * den < 2 * num ∨ ((mag m (k - 1) + mag m k) * den = 2 * num ∧ k % 2 = 0)

section Scaled

variable {m s num den k : Nat}

/-- No pattern above the top of exponent `s` is reached from below that top. -/
theorem not_midpointReached_above (hhi : num < 2 ^ (m + 1) * (den * 2 ^ s)) (hk : s * 2 ^ m + 2 ^ (m + 1) < k) :
    ¬ MidpointReached m num den k := by
  have htop : 2 ^ (m + 1) * 2 ^ s ≤ mag m (k - 1) := by
    rw [← mag_shift (le_refl (2 ^ (m + 1))) (Or.inr (Nat.pow_le_pow_right (by decide) (Nat.le_succ m)))]
    exact (mag_strictMono m).monotone (by omega)
  have hlt : mag m (k - 1) < mag m k := mag_strictMono m (Nat.sub_one_lt_of_lt hk)
  have hnum : 2 * num < (mag m (k - 1) + mag m k) * den := by
    calc 2 * num < 2 * (2 ^ (m + 1) * (den * 2 ^ s)) := by omega
      _ = (2 ^ (m + 1) * 2 ^ s + 2 ^ (m + 1) * 2 ^ s) * den := by ring
      _ ≤ (mag m (k - 1) + mag m k) * den := Nat.mul_le_mul_right den (by omega)
  rintro (h | ⟨h, -⟩) <;> omega

/-- Every pattern up to the bottom of exponent `s` is reached from that bottom on. -/
theorem midpointReached_below (hden : 0 < den) (hlo : 2 ^ m * (den * 2 ^ s) ≤ num) (hk : 0 < k)
    (hle : k ≤ s * 2 ^ m + 2 ^ m) : MidpointReached m num den k := by
  have hmag : mag m k ≤ 2 ^ m * 2 ^ s := by
    rw [← mag_shift (Nat.pow_le_pow_right (by decide) (Nat.le_succ m)) (Or.inr (le_refl (2 ^ m)))]
    exact (mag_strictMono m).monotone hle
  have hlt : mag m (k - 1) < mag m k := mag_strictMono m (by omega)
  left
  calc (mag m (k - 1) + mag m k) * den < (2 ^ m * 2 ^ s + 2 ^ m * 2 ^ s) * den :=
        Nat.mul_lt_mul_of_pos_right (by omega) hden
    _ = 2 * (2 ^ m * (den * 2 ^ s)) := by ring
    _ ≤ 2 * num := by omega

/-- Inside exponent `s` the midpoints are those of the significand. -/
theorem midpointReached_inside {f : Nat} (hm : 0 < m) (hden : 0 < den) (hf : f + 1 ≤ 2 ^ (m + 1))
    (hs : s = 0 ∨ 2 ^ m ≤ f) :
    MidpointReached m num den (s * 2 ^ m + (f + 1)) ↔ f + 1 ≤ nearestEven num (den * 2 ^ s) := by
  have hmag : mag m (s * 2 ^ m + (f + 1)) = (f + 1) * 2 ^ s := mag_shift hf (hs.imp_right Nat.le_succ_of_le)
  have hmag' : mag m (s * 2 ^ m + (f + 1) - 1) = f * 2 ^ s := mag_shift (Nat.le_of_succ_le hf) hs
  have hparity : (s * 2 ^ m + (f + 1)) % 2 = (f + 1) % 2 := by
    obtain ⟨m', rfl⟩ : ∃ m', m = m' + 1 := ⟨m - 1, by omega⟩
    have heven : s * 2 ^ (m' + 1) = 2 * (s * 2 ^ m') := by ring
    omega
  have hmid : (f * 2 ^ s + (f + 1) * 2 ^ s) * den = (2 * (f + 1) - 1) * (den * 2 ^ s) := by
    have hodd : 2 * (f + 1) - 1 = 2 * f + 1 := by omega
    rw [hodd]
    ring
  rw [MidpointReached, hmag, hmag', hmid, hparity,
    le_nearestEven (Nat.mul_pos hden (Nat.two_pow_pos s)) (Nat.succ_pos f)]

theorem le_scaled_iff (hm : 0 < m) (hden : 0 < den) (hhi : num < 2 ^ (m + 1) * (den * 2 ^ s))
    (hlo : s = 0 ∨ 2 ^ m * (den * 2 ^ s) ≤ num) (hk : 0 < k) :
    k ≤ s * 2 ^ m + nearestEven num (den * 2 ^ s) ↔ MidpointReached m num den k := by
  have hdenS : 0 < den * 2 ^ s := Nat.mul_pos hden (Nat.two_pow_pos s)
  rcases lt_or_ge (s * 2 ^ m + 2 ^ (m + 1)) k with habove | habove
  · have hle := nearestEven_le_of_le hdenS hhi.le
    exact iff_of_false (by omega) (not_midpointReached_above hhi habove)
  · by_cases hbelow : s ≠ 0 ∧ k ≤ s * 2 ^ m + 2 ^ m
    · have hbottom := hlo.resolve_left hbelow.1
      have hge := le_nearestEven_of_le hdenS hbottom
      exact iff_of_true (by omega) (midpointReached_below hden hbottom hk hbelow.2)
    · obtain ⟨f, rfl⟩ : ∃ f, k = s * 2 ^ m + (f + 1) := by
        refine ⟨k - s * 2 ^ m - 1, ?_⟩
        rcases Nat.eq_zero_or_pos s with rfl | hs
        · omega
        · have := not_and.mp hbelow hs.ne'
          omega
      have hs : s = 0 ∨ 2 ^ m ≤ f := by
        by_contra hcon
        rw [not_or] at hcon
        exact hbelow ⟨hcon.1, by omega⟩
      rw [midpointReached_inside hm hden (by omega) hs]
      omega

end Scaled

/-- The exponent chosen for a value is the one whose significands enclose it. -/
theorem scale_bounds {m num den : Nat} (hden : 0 < den) :
    num < 2 ^ (m + 1) * (den * 2 ^ (Nat.log2 (num / den) - m)) ∧
      (Nat.log2 (num / den) - m = 0 ∨ 2 ^ m * (den * 2 ^ (Nat.log2 (num / den) - m)) ≤ num) := by
  have hfloor : num / den * den ≤ num := Nat.div_mul_le_self num den
  have hceil : num < (num / den + 1) * den := by
    rw [Nat.add_mul, Nat.one_mul]
    exact Nat.lt_div_mul_add hden
  generalize num / den = q at *
  constructor
  · have hq : q + 1 ≤ 2 ^ (m + 1) * 2 ^ (Nat.log2 q - m) := by
      rw [← pow_add]
      exact lt_of_lt_of_le Nat.lt_log2_self (Nat.pow_le_pow_right (by decide) (by omega))
    calc num < (q + 1) * den := hceil
      _ ≤ 2 ^ (m + 1) * 2 ^ (Nat.log2 q - m) * den := Nat.mul_le_mul_right den hq
      _ = 2 ^ (m + 1) * (den * 2 ^ (Nat.log2 q - m)) := by ring
  · rcases Nat.eq_zero_or_pos (Nat.log2 q - m) with h | h
    · exact Or.inl h
    · right
      have hq0 : q ≠ 0 := by
        rintro rfl
        simp at h
      have hq : 2 ^ m * 2 ^ (Nat.log2 q - m) ≤ q := by
        rw [← pow_add]
        exact le_trans (Nat.pow_le_pow_right (by decide) (by omega)) (Nat.log2_self_le hq0)
      calc 2 ^ m * (den * 2 ^ (Nat.log2 q - m)) = 2 ^ m * 2 ^ (Nat.log2 q - m) * den := by ring
        _ ≤ q * den := Nat.mul_le_mul_right den hq
        _ ≤ num := hfloor

/-- A pattern is reached exactly from the midpoint below it on, which itself goes to the even pattern. -/
theorem le_roundBits {m num den k : Nat} (hm : 0 < m) (hden : 0 < den) (hk : 0 < k) :
    k ≤ roundBits m num den ↔ MidpointReached m num den k :=
  le_scaled_iff hm hden (scale_bounds hden).1 (scale_bounds hden).2 hk

theorem eq_of_pos_le_iff {a b : Nat} (h : ∀ k, 0 < k → (k ≤ a ↔ k ≤ b)) : a = b := by
  refine le_antisymm ?_ ?_
  · rcases Nat.eq_zero_or_pos a with ha | ha
    · omega
    · exact (h a ha).mp le_rfl
  · rcases Nat.eq_zero_or_pos b with hb | hb
    · omega
    · exact (h b hb).mpr le_rfl

/-- Every exponent whose significands enclose the value gives the same rounding. -/
theorem roundBits_eq_scaled {m s num den : Nat} (hm : 0 < m) (hden : 0 < den)
    (hhi : num < 2 ^ (m + 1) * (den * 2 ^ s)) (hlo : s = 0 ∨ 2 ^ m * (den * 2 ^ s) ≤ num) :
    roundBits m num den = s * 2 ^ m + nearestEven num (den * 2 ^ s) := by
  apply eq_of_pos_le_iff
  intro k hk
  rw [le_roundBits hm hden hk, le_scaled_iff hm hden hhi hlo hk]

theorem roundBits_mag {m den k : Nat} (hm : 0 < m) (hden : 0 < den) : roundBits m (mag m k * den) den = k := by
  apply eq_of_pos_le_iff
  intro j hj
  have hlt : mag m (j - 1) < mag m j := mag_strictMono m (by omega)
  rw [le_roundBits hm hden hj, MidpointReached]
  constructor
  · intro h
    by_contra hcon
    have hle : mag m k ≤ mag m (j - 1) := (mag_strictMono m).monotone (by omega)
    have hmul : 2 * (mag m k * den) < (mag m (j - 1) + mag m j) * den := by nlinarith
    omega
  · intro h
    have hle : mag m j ≤ mag m k := (mag_strictMono m).monotone h
    left
    nlinarith

/-- A short enough significand at any exponent is a value of the format. -/
theorem exists_mag_eq {m c : Nat} (hc : c ≤ 2 ^ (m + 1)) (t : Nat) : ∃ k, mag m k = c * 2 ^ t := by
  induction t generalizing c with
  | zero => exact ⟨0 * 2 ^ m + c, mag_shift hc (Or.inl rfl)⟩
  | succ t ih =>
    by_cases hsmall : c < 2 ^ m
    · obtain ⟨k, hk⟩ := ih (c := 2 * c) (by rw [pow_succ]; omega)
      exact ⟨k, by rw [hk]; ring⟩
    · exact ⟨(t + 1) * 2 ^ m + c, mag_shift hc (Or.inr (not_lt.mp hsmall))⟩

theorem mag_roundBits {m c t den : Nat} (hm : 0 < m) (hden : 0 < den) (hc : c ≤ 2 ^ (m + 1)) :
    mag m (roundBits m (c * 2 ^ t * den) den) = c * 2 ^ t := by
  obtain ⟨k, hk⟩ := exists_mag_eq hc t
  rw [← hk, roundBits_mag hm hden]

theorem roundBits_mono {m num num' den : Nat} (hm : 0 < m) (hden : 0 < den) (h : num ≤ num') :
    roundBits m num den ≤ roundBits m num' den := by
  rcases Nat.eq_zero_or_pos (roundBits m num den) with h0 | hpos
  · omega
  · have hreached := (le_roundBits hm hden hpos).mp le_rfl
    refine (le_roundBits hm hden hpos).mpr ?_
    unfold MidpointReached at *
    omega

/-- Rounding does not pass a representable bound. -/
theorem mag_roundBits_le {m c t num : Nat} (hm : 0 < m) (hc : c ≤ 2 ^ (m + 1)) (h : num ≤ c * 2 ^ t) :
    mag m (roundBits m num 1) ≤ c * 2 ^ t := by
  have hle : roundBits m num 1 ≤ roundBits m (c * 2 ^ t * 1) 1 := roundBits_mono hm one_pos (by omega)
  calc mag m (roundBits m num 1) ≤ mag m (roundBits m (c * 2 ^ t * 1) 1) := (mag_strictMono m).monotone hle
    _ = c * 2 ^ t := mag_roundBits hm one_pos hc

/-- An even pattern is reached exactly from its midpoint on. -/
theorem le_roundBits_of_even {m num den k mid : Nat} (hm : 0 < m) (hden : 0 < den) (hk : 0 < k)
    (hmid : (mag m (k - 1) + mag m k) * den = 2 * mid) (heven : k % 2 = 0) :
    k ≤ roundBits m num den ↔ mid ≤ num := by
  rw [le_roundBits hm hden hk, MidpointReached, hmid]
  omega

/-- A root reaches an even pattern exactly from the square of the midpoint on, in multiples of `unit`. -/
theorem le_roundSqrt_of_even {m n k mid limit unit : Nat} (hm : 0 < m) (hk : 0 < k)
    (hmid : mag m (k - 1) + mag m k = 2 * mid) (heven : k % 2 = 0) (hunit : 0 < unit)
    (hsquare : mid * mid = limit * unit) : k ≤ roundSqrt m (n * unit) ↔ limit ≤ n := by
  have hlimit : limit ≤ n ↔ mid ≤ Nat.sqrt (n * unit) := by
    rw [Nat.le_sqrt, hsquare, Nat.mul_le_mul_right_iff hunit]
  rw [hlimit]
  unfold roundSqrt
  dsimp only
  rw [le_roundBits hm (by decide) hk, MidpointReached, hmid]
  split <;> omega

/-! ## Distances -/

theorem nearestEven_mul_right {num den c : Nat} (hc : 0 < c) :
    nearestEven (num * c) (den * c) = nearestEven num den := by
  have hlt : 2 * (num % den * c) < den * c ↔ 2 * (num % den) < den := by
    rw [← Nat.mul_assoc, Nat.mul_lt_mul_right hc]
  have heq : 2 * (num % den * c) = den * c ↔ 2 * (num % den) = den := by
    rw [← Nat.mul_assoc, Nat.mul_left_inj hc.ne']
  simp only [nearestEven, Nat.mul_div_mul_right _ _ hc, Nat.mul_mod_mul_right, hlt, heq]

section Nearest

variable {m num den k : Nat}

/-- The value is not below its midpoint with a smaller pattern, and on it only if the result is even. -/
theorem midpoint_below (hm : 0 < m) (hden : 0 < den) (h : k < roundBits m num den) :
    (mag m k + mag m (roundBits m num den)) * den < 2 * num ∨
      (mag m k + mag m (roundBits m num den)) * den = 2 * num ∧ roundBits m num den % 2 = 0 := by
  have hreached := (le_roundBits hm hden (Nat.zero_lt_of_lt h)).mp le_rfl
  unfold MidpointReached at hreached
  generalize roundBits m num den = r at *
  have hle : mag m k ≤ mag m (r - 1) := (mag_strictMono m).monotone (by omega)
  have hmul := Nat.mul_le_mul_right den (Nat.add_le_add_right hle (mag m r))
  omega

/-- Against a larger pattern only the next one can be equally near. -/
theorem midpoint_above (hm : 0 < m) (hden : 0 < den) (h : roundBits m num den < k) :
    2 * num < (mag m (roundBits m num den) + mag m k) * den ∨
      2 * num = (mag m (roundBits m num den) + mag m k) * den ∧ roundBits m num den % 2 = 0 := by
  have hnot := mt (le_roundBits hm hden (Nat.succ_pos _)).mpr (Nat.not_succ_le_self (roundBits m num den))
  unfold MidpointReached at hnot
  generalize roundBits m num den = r at *
  have hle : mag m (r + 1) ≤ mag m k := (mag_strictMono m).monotone h
  have hmul := Nat.mul_le_mul_right den (Nat.add_le_add_left hle (mag m r))
  simp only [Nat.succ_eq_add_one, Nat.add_sub_cancel] at hnot
  omega

/-- No pattern is nearer than the rounding, and an equally near one leaves it even. -/
theorem roundBits_nearest (hm : 0 < m) (hden : 0 < den) (hne : k ≠ roundBits m num den) :
    |(num / den : ℚ) - mag m (roundBits m num den)| < |(num / den : ℚ) - mag m k| ∨
      |(num / den : ℚ) - mag m (roundBits m num den)| = |(num / den : ℚ) - mag m k| ∧
        roundBits m num den % 2 = 0 := by
  have hpos : (0 : ℚ) < den := by exact_mod_cast hden
  have hnum : (num : ℚ) = num / den * den := by field_simp
  generalize (num : ℚ) / den = v at *
  rcases Nat.lt_or_gt_of_ne hne with h | h
  · have hmag : (mag m k : ℚ) < mag m (roundBits m num den) := by exact_mod_cast mag_strictMono m h
    have hself := le_abs_self (v - mag m k)
    rcases midpoint_below hm hden h with hlt | ⟨heq, heven⟩
    · left
      have hmid : ((mag m k + mag m (roundBits m num den)) * den : ℚ) < 2 * v * den := by
        rw [mul_assoc, ← hnum]
        exact_mod_cast hlt
      have := lt_of_mul_lt_mul_right hmid hpos.le
      rw [abs_lt]
      constructor <;> linarith
    · right
      have hmid : ((mag m k + mag m (roundBits m num den)) * den : ℚ) = 2 * v * den := by
        rw [mul_assoc, ← hnum]
        exact_mod_cast heq
      have := mul_right_cancel₀ hpos.ne' hmid
      refine ⟨?_, heven⟩
      rw [← abs_neg]
      congr 1
      linarith
  · have hmag : (mag m (roundBits m num den) : ℚ) < mag m k := by exact_mod_cast mag_strictMono m h
    have hself := neg_abs_le (v - mag m k)
    rcases midpoint_above hm hden h with hlt | ⟨heq, heven⟩
    · left
      have hmid : 2 * v * den < ((mag m (roundBits m num den) + mag m k) * den : ℚ) := by
        rw [mul_assoc, ← hnum]
        exact_mod_cast hlt
      have := lt_of_mul_lt_mul_right hmid hpos.le
      rw [abs_lt]
      constructor <;> linarith
    · right
      have hmid : 2 * v * den = ((mag m (roundBits m num den) + mag m k) * den : ℚ) := by
        rw [mul_assoc, ← hnum]
        exact_mod_cast heq
      have := mul_right_cancel₀ hpos.ne' hmid
      refine ⟨?_, heven⟩
      rw [← abs_neg]
      congr 1
      linarith

end Nearest

-- later proofs go through the midpoints; unfolding these on concrete patterns builds huge powers
attribute [irreducible] mag roundBits

end Base
