import Kvpack.Core.Stats
import Kvpack.Core.Lemmas.Norm
import Kvpack.Core.Lemmas.Reading

/-!
# Reading back statistics sidecars

What the decoder accepts is collected in `StatsSidecar.Readable`. A derived sidecar has all of it except, possibly,
finite norms.
-/

namespace Kvpack.Core

open Base

variable {r : ChannelRange} {bits : UInt16} {s : StatsSidecar} {bytes : Bytes}

def ChannelRange.Readable (r : ChannelRange) : Prop := r.min.isFinite ∧ r.max.isFinite ∧ r.min.key ≤ r.max.key

def ReadableNorm (bits : UInt16) : Prop := (f16ToF32 bits).isFinite ∧ 0 ≤ (f16ToF32 bits).key

structure StatsSidecar.Readable (s : StatsSidecar) : Prop where
  channels_pos : s.channelRanges.length ≠ 0
  channels_le : s.channelRanges.length ≤ maxSidecarChannels
  ranges : ∀ r ∈ s.channelRanges, r.Readable
  tokens_pos : s.keyL2Norms.length ≠ 0
  tokens_le : s.keyL2Norms.length ≤ maxSidecarTokens
  norms : ∀ n ∈ s.keyL2Norms, ReadableNorm n
  sinks_pos : s.sinkScores.length ≠ 0
  sinks_le : s.sinkScores.length ≤ maxSinkScores
  sinks_le_tokens : s.sinkScores.length ≤ s.keyL2Norms.length
  ranking : s.sinkScores = topSinks s.keyL2Norms s.sinkScores.length

/-! ## The decoder -/

theorem rangeCheck_iff :
    ¬ (¬ r.min.isFinite ∨ ¬ r.max.isFinite ∨ r.max.key < r.min.key) ↔ r.Readable := by
  unfold ChannelRange.Readable
  rw [not_or, not_or, not_not, not_not, not_lt]

theorem normCheck_iff :
    ¬ (¬ (f16ToF32 bits).isFinite ∨ (f16ToF32 bits).key < 0) ↔ ReadableNorm bits := by
  unfold ReadableNorm
  rw [not_or, not_not, not_lt]

theorem reads_range (h : r.Readable) :
    Reads StatsSidecar.decodeRange (le16 r.minBits ++ le16 r.maxBits) r := by
  have htail : le16 r.maxBits = le16 r.maxBits ++ ([] ++ []) := by simp
  rw [htail]
  exact (reads_u16 _).bind ((reads_u16 _).bind ((Reads.check (rejectIf_of_not (rangeCheck_iff.mpr h))).bind
    (Reads.pure r)))

theorem yields_range : Yields StatsSidecar.decodeRange ChannelRange.Readable := by
  refine .after fun _ => .after fun _ => (Yields.check _).bind fun _ h => .pure ?_
  exact rangeCheck_iff.mp (rejectIf_eq_ok.mp h)

theorem reads_norm (h : ReadableNorm bits) : Reads StatsSidecar.decodeNorm (le16 bits) bits := by
  have htail : le16 bits = le16 bits ++ ([] ++ []) := by simp
  rw [htail]
  exact (reads_u16 _).bind ((Reads.check (rejectIf_of_not (normCheck_iff.mpr h))).bind (Reads.pure bits))

theorem yields_norm : Yields StatsSidecar.decodeNorm ReadableNorm := by
  refine .after fun _ => (Yields.check _).bind fun _ h => .pure ?_
  exact normCheck_iff.mp (rejectIf_eq_ok.mp h)

theorem reads_sink (k : SinkScore) :
    Reads StatsSidecar.decodeSink (le32 k.tokenIndex ++ (le16 k.scoreBits ++ le16 0)) k :=
  (reads_u32 _).bind ((reads_u16 _).bind reads_expect16.bind_pure)

theorem reads_sidecar {bs : Bytes} (h : s.encodeCanonical = .ok bs) (hr : s.Readable) :
    Reads StatsSidecar.decodeFields bs s := by
  simp only [StatsSidecar.encodeCanonical, bind_eq_ok, okOr_eq_ok, u32TryFrom_eq_some, u16TryFrom_eq_some,
    pure_eq_ok] at h
  obtain ⟨channels, hchannels, tokens, htokens, sinks, hsinks, rfl⟩ := h
  simp only [List.append_assoc]
  refine (reads_new (by decide)).bind ?_
  refine reads_expect16.bind ?_
  refine reads_expect16.bind ?_
  refine (reads_u32 _).bind ?_
  refine (reads_countCheck hchannels hr.channels_pos hr.channels_le).bind_nil ?_
  rw [hchannels]
  refine (Reads.times fun r hmem => reads_range (hr.ranges r hmem)).bind ?_
  refine (reads_u32 _).bind ?_
  refine (reads_countCheck htokens hr.tokens_pos hr.tokens_le).bind_nil ?_
  rw [htokens]
  refine (Reads.times fun n hmem => reads_norm (hr.norms n hmem)).bind ?_
  refine (reads_u16 _).bind ?_
  refine (reads_countCheck hsinks hr.sinks_pos hr.sinks_le).bind_nil ?_
  rw [hsinks]
  exact (Reads.times fun k _ => reads_sink k).bind_pure

theorem yields_sidecar : Yields StatsSidecar.decodeFields fun s =>
    (s.channelRanges.length ≠ 0 ∧ s.channelRanges.length ≤ maxSidecarChannels ∧ ∀ r ∈ s.channelRanges, r.Readable) ∧
    (s.keyL2Norms.length ≠ 0 ∧ s.keyL2Norms.length ≤ maxSidecarTokens ∧ ∀ n ∈ s.keyL2Norms, ReadableNorm n) ∧
    s.sinkScores.length ≠ 0 ∧ s.sinkScores.length ≤ maxSinkScores := by
  refine .after fun _ => .after fun _ => .after fun _ => .after fun channels => (Yields.check _).bind fun _ hchannels =>
    (yields_range.times _).bind fun ranges hranges => .after fun tokens => (Yields.check _).bind fun _ htokens =>
    (yields_norm.times _).bind fun norms hnorms => .after fun sinks => (Yields.check _).bind fun _ hsinks =>
    ((Yields.true _).times _).bind fun scores hscores => .pure ?_
  rw [rejectIf_eq_ok] at hchannels htokens hsinks
  obtain ⟨hranges, hrange⟩ := hranges
  obtain ⟨hnorms, hnorm⟩ := hnorms
  obtain ⟨hscores, -⟩ := hscores
  simp only [hranges, hnorms, hscores]
  exact ⟨⟨by omega, by omega, hrange⟩, ⟨by omega, by omega, hnorm⟩, by omega, by omega⟩

theorem decodeSidecar_encodeCanonical (h : s.encodeCanonical = .ok bytes)
    (hlen : bytes.length ≤ maxStatsSidecarBytes) : StatsSidecar.decodeCanonical bytes = .ok s ↔ s.Readable := by
  simp only [StatsSidecar.decodeCanonical, bind_eq_ok, exists_unit, rejectIf_eq_ok, not_lt, not_or, not_not, pure_eq_ok,
    finish_eq_ok, Prod.exists]
  constructor
  · rintro ⟨-, value, rest, hfields, -, ⟨rfl, -⟩, ⟨hle, hrank⟩, again, hagain, rfl, rfl⟩
    obtain ⟨⟨hc, hc', hr⟩, ⟨ht, ht', hn⟩, hs, hs'⟩ := yields_sidecar _ _ _ hfields
    rw [min_eq_left hle] at hrank
    exact ⟨hc, hc', hr, ht, ht', hn, hs, hs', hle, hrank⟩
  · intro hr
    have hread := reads_sidecar h hr []
    rw [List.append_nil] at hread
    refine ⟨hlen, s, [], hread, [], ⟨rfl, rfl⟩, ⟨hr.sinks_le_tokens, ?_⟩, bytes, h, rfl, rfl⟩
    rw [min_eq_left hr.sinks_le_tokens]
    exact hr.ranking

/-! ## Derived sidecars -/

def planeHalf (bytes : Bytes) (channels token channel : Nat) : UInt16 :=
  field16 bytes ((token * channels + channel) * 2)

def tokenHalves (bytes : Bytes) (channels token : Nat) : List UInt16 :=
  (List.range channels).map (planeHalf bytes channels token)

theorem element_eq_ok {channels token channel : Nat} {v : F32} :
    StatsSidecar.element bytes channels token channel = .ok v ↔
      FiniteHalf (planeHalf bytes channels token channel) ∧ f16ToF32 (planeHalf bytes channels token channel) = v := by
  simp only [StatsSidecar.element, bind_eq_ok, exists_unit, rejectIf_eq_ok, not_not, pure_eq_ok, planeHalf,
    f16ToF32_isFinite]

section Range

variable {ops : MinMax} {column : Nat → Except PackError F32} {r : ChannelRange}
variable {h : UInt16} {tokens : List Nat}

theorem not_isNan_of_finite (hfin : FiniteHalf h) : ¬ (f16ToF32 h).isNan := by
  have := f16ToF32_isFinite.mpr hfin
  unfold F32.isFinite at this
  unfold F32.isNan
  omega

/-- Once the bounds are elements of the column, they stay ordered elements of it. -/
theorem channelRangeFrom_readable {a b : UInt16}
    (hcolumn : ∀ t v, column t = .ok v → ∃ h, FiniteHalf h ∧ f16ToF32 h = v) (ha : FiniteHalf a) (hb : FiniteHalf b)
    (hle : (f16ToF32 a).key ≤ (f16ToF32 b).key)
    (h : StatsSidecar.channelRangeFrom ops column tokens (f16ToF32 a) (f16ToF32 b) = .ok r) : r.Readable := by
  induction tokens generalizing a b with
  | nil =>
    cases h
    simp only [ChannelRange.Readable, ChannelRange.min, ChannelRange.max, f32ToF16_f16ToF32 ha, f32ToF16_f16ToF32 hb]
    exact ⟨f16ToF32_isFinite.mpr ha, f16ToF32_isFinite.mpr hb, hle⟩
  | cons t tokens ih =>
    simp only [StatsSidecar.channelRangeFrom, bind_eq_ok] at h
    obtain ⟨v, hv, hrest⟩ := h
    obtain ⟨c, hc, rfl⟩ := hcolumn t v hv
    rcases ops.min_cases (not_isNan_of_finite ha) (not_isNan_of_finite hc) with ⟨hmin, hmin'⟩ | ⟨hmin, hmin'⟩ <;>
      rcases ops.max_cases (not_isNan_of_finite hb) (not_isNan_of_finite hc) with ⟨hmax, hmax'⟩ | ⟨hmax, hmax'⟩ <;>
      rw [hmin, hmax] at hrest
    · exact ih ha hb hle hrest
    · exact ih ha hc hmin' hrest
    · exact ih hc hb hmax' hrest
    · exact ih hc hc le_rfl hrest

theorem key_lt_infinity (hfin : FiniteHalf h) :
    (f16ToF32 h).key < F32.infinity.key ∧ F32.negInfinity.key < (f16ToF32 h).key := by
  have hlt := f16ToF32_isFinite.mpr hfin
  have hpos : F32.infinity.key = 0x7f800000 := by decide
  have hneg : F32.negInfinity.key = -0x7f800000 := by decide
  unfold F32.isFinite F32.infinityBits at hlt
  rw [hpos, hneg]
  unfold F32.key
  split <;> omega

theorem channelRange_readable {t : Nat}
    (hcolumn : ∀ t v, column t = .ok v → ∃ h, FiniteHalf h ∧ f16ToF32 h = v)
    (h : StatsSidecar.channelRangeFrom ops column (t :: tokens) F32.infinity F32.negInfinity = .ok r) :
    r.Readable := by
  simp only [StatsSidecar.channelRangeFrom, bind_eq_ok] at h
  obtain ⟨v, hv, hrest⟩ := h
  obtain ⟨c, hc, rfl⟩ := hcolumn t v hv
  obtain ⟨hhi, hlo⟩ := key_lt_infinity hc
  have hmin : ops.min F32.infinity (f16ToF32 c) = f16ToF32 c := by
    rcases ops.min_cases (by decide : ¬ F32.infinity.isNan) (not_isNan_of_finite hc) with ⟨-, hcon⟩ | ⟨hmin, -⟩
    · omega
    · exact hmin
  have hmax : ops.max F32.negInfinity (f16ToF32 c) = f16ToF32 c := by
    rcases ops.max_cases (by decide : ¬ F32.negInfinity.isNan) (not_isNan_of_finite hc) with ⟨-, hcon⟩ | ⟨hmax, -⟩
    · omega
    · exact hmax
  rw [hmin, hmax] at hrest
  exact channelRangeFrom_readable hcolumn hc hc le_rfl hrest

end Range

/-! ## Norms -/

/-- One addition keeps the sum the rounded sum of the squares so far. -/
theorem mag_add_square {sum : Nat} {halves : List UInt16} {h : UInt16} (hsum : mag 52 sum = sumOfSquares halves)
    (hfin : ∀ g ∈ halves ++ [h], FiniteHalf g) (hlen : (halves ++ [h]).length ≤ 2 ^ (52 + 1)) :
    mag 52 (F64.add sum (F64.mul (F64.ofF32 (f16ToF32 h)) (F64.ofF32 (f16ToF32 h)))) =
      sumOfSquares (halves ++ [h]) := by
  have hround : mag 52 (roundBits 52 (mag 52 sum +
      mag 52 (F64.mul (F64.ofF32 (f16ToF32 h)) (F64.ofF32 (f16ToF32 h)))) 1) = sumOfSquares (halves ++ [h]) := by
    rw [hsum, mag_square (hfin h (by simp)), sumOfSquares_append, nearestDouble]
  have hbound := sumOfSquares_le (fun g hg => halfSquare_le (hfin g hg)) hlen
  rw [F64.add, saturate_eq, hround]
  rw [hround]
  calc sumOfSquares (halves ++ [h]) ≤ (halves ++ [h]).length * 2 ^ 1106 := hbound
    _ ≤ 2 ^ (52 + 1) * 2 ^ 1106 := Nat.mul_le_mul_right _ hlen
    _ < 2 ^ 2000 := by
        rw [← pow_add]
        exact two_pow_lt (a := 52 + 1 + 1106) (b := 2000) (by decide)

theorem tokenNormFrom_eq {row : Nat → Except PackError F32} {half : Nat → UInt16} {channels : List Nat} {sum : Nat}
    {done : List UInt16} {n : UInt16}
    (hrow : ∀ c v, row c = .ok v → FiniteHalf (half c) ∧ f16ToF32 (half c) = v)
    (hsum : mag 52 sum = sumOfSquares done) (hfin : ∀ g ∈ done, FiniteHalf g)
    (hlen : done.length + channels.length ≤ 2 ^ (52 + 1))
    (h : StatsSidecar.tokenNormFrom row channels sum = .ok n) :
    ∃ total, n = f32ToF16 (F64.toF32 (F64.sqrt total)) ∧ mag 52 total = sumOfSquares (done ++ channels.map half) := by
  induction channels generalizing sum done with
  | nil =>
    cases h
    exact ⟨sum, rfl, by simpa using hsum⟩
  | cons c channels ih =>
    simp only [StatsSidecar.tokenNormFrom, bind_eq_ok] at h
    obtain ⟨v, hv, hrest⟩ := h
    obtain ⟨hc, rfl⟩ := hrow c v hv
    have hfin' : ∀ g ∈ done ++ [half c], FiniteHalf g := by
      intro g hg
      rcases List.mem_append.mp hg with hg | hg
      · exact hfin g hg
      · exact List.mem_singleton.mp hg ▸ hc
    rw [List.length_cons] at hlen
    have hlen' : (done ++ [half c]).length + channels.length ≤ 2 ^ (52 + 1) := by
      rw [List.length_append, List.length_singleton]
      omega
    obtain ⟨total, hn, htotal⟩ := ih (mag_add_square hsum hfin' (by omega)) hfin' hlen' hrest
    exact ⟨total, hn, by rw [htotal, List.map_cons, List.append_assoc, List.singleton_append]⟩

theorem readableNorm_iff {bits : UInt16} (h : bits.toNat < 2 ^ 15) : ReadableNorm bits ↔ FiniteHalf bits := by
  have hsign : (f16ToF32 bits).sign = false := by
    rw [f16ToF32_sign, decide_eq_false_iff_not]
    omega
  have hkey : 0 ≤ (f16ToF32 bits).key := by simp [F32.key, hsign]
  simp [ReadableNorm, f16ToF32_isFinite, hkey]

/-- A derived norm is readable exactly when the sum of squares is below the bound. -/
theorem tokenNorm_readable_iff {bytes : Bytes} {channels token : Nat} {n : UInt16} (hlen : channels ≤ 2 ^ (52 + 1))
    (h : StatsSidecar.tokenNormFrom (StatsSidecar.element bytes channels token) (List.range channels) 0 = .ok n) :
    ReadableNorm n ↔ sumOfSquares (tokenHalves bytes channels token) < normLimit := by
  have hempty : mag 52 0 = sumOfSquares [] := mag_zero 52
  obtain ⟨total, rfl, htotal⟩ := @tokenNormFrom_eq _ (planeHalf bytes channels token) _ 0 [] n
    (fun c v hv => element_eq_ok.mp hv) hempty (by simp) (by simpa using hlen) h
  have hsmall := (f32ToF16_of_nonneg rfl (toF32_not_isNan (F64.sqrt total))).1
  rw [readableNorm_iff (by omega), finiteHalf_norm_iff, htotal]
  rfl

theorem length_topSinks {norms : List UInt16} {count : Nat} (h : count ≤ norms.length) :
    (topSinks norms count).length = count := by
  simp [topSinks, List.length_insertionSort, h]

/-- Of all that a reader checks, only the norms of a derived sidecar can fail. -/
theorem deriveF16_readable_iff {ops : MinMax} {tokens channels sinkCount : Nat} {bytes : Bytes} {s : StatsSidecar}
    (h : StatsSidecar.deriveF16 ops tokens channels sinkCount bytes = .ok s) :
    s.Readable ↔ ∀ token < tokens, sumOfSquares (tokenHalves bytes channels token) < normLimit := by
  simp only [StatsSidecar.deriveF16, bind_eq_ok, exists_unit, rejectIf_eq_ok, not_or, not_not, not_lt, pure_eq_ok,
    collect_eq_ok] at h
  obtain ⟨⟨ht0, ht, hc0, hc, hk0, hk⟩, -, ranges, hranges, norms, hnorms, encoded, -, -, rfl⟩ := h
  have hlenR : ranges.length = channels := by simpa using hranges.length_eq.symm
  have hlenN : norms.length = tokens := by simpa using hnorms.length_eq.symm
  have hcount : min sinkCount tokens ≤ norms.length := by omega
  have hrange : ∀ r ∈ ranges, r.Readable := by
    intro r hr
    obtain ⟨channel, -, hrow⟩ := forall₂_exists_left hranges hr
    obtain ⟨t, rest, hrangeEq⟩ : ∃ t rest, List.range tokens = t :: rest :=
      List.exists_cons_of_ne_nil (by simpa using ht0)
    rw [hrangeEq] at hrow
    exact channelRange_readable (fun t v hv => ⟨_, element_eq_ok.mp hv⟩) hrow
  have hnorm : (∀ n ∈ norms, ReadableNorm n) ↔
      ∀ token < tokens, sumOfSquares (tokenHalves bytes channels token) < normLimit := by
    have hbound : channels ≤ 2 ^ (52 + 1) := le_trans hc (by decide)
    constructor
    · intro hall token htoken
      obtain ⟨n, hn, hrow⟩ := forall₂_exists_right hnorms (List.mem_range.mpr htoken)
      exact (tokenNorm_readable_iff hbound hrow).mp (hall n hn)
    · intro hall n hn
      obtain ⟨token, htoken, hrow⟩ := forall₂_exists_left hnorms hn
      exact (tokenNorm_readable_iff hbound hrow).mpr (hall token (List.mem_range.mp htoken))
  rw [← hnorm]
  constructor
  · intro hr
    exact hr.norms
  · intro hall
    exact {
      channels_pos := by rw [hlenR]; exact hc0
      channels_le := by rw [hlenR]; exact hc
      ranges := hrange
      tokens_pos := by rw [hlenN]; exact ht0
      tokens_le := by rw [hlenN]; exact ht
      norms := hall
      sinks_pos := by rw [length_topSinks hcount]; omega
      sinks_le := by rw [length_topSinks hcount]; omega
      sinks_le_tokens := by rw [length_topSinks hcount]; omega
      ranking := by rw [length_topSinks hcount] }

end Kvpack.Core
