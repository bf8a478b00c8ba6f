import Kvpack.Core.CutChain

/-!
# Cut chains over a split token sequence

What the deriver emits depends only on the tokens pushed so far: a first part completes the cuts with which the whole
begins, and the rest follows from the buffer and the tip it leaves.
-/

namespace Kvpack.Core

open Base

variable {C : Crypto}

/-! ## Cut boundaries -/

namespace CutStridePolicy

/-- How many cuts are complete once `n` tokens have been pushed. -/
def cutCount : CutStridePolicy → Nat → Nat
  | .flat stride, n => n / stride.toNat
  | .twoTier headTokens headStride tailStride, n =>
    if n ≤ headTokens.toNat then n / headStride.toNat
    else headTokens.toNat / headStride.toNat + (n - headTokens.toNat) / tailStride.toNat

/-- A cut ends at `n`. -/
def AtBoundary : CutStridePolicy → Nat → Prop
  | .flat stride, n => stride.toNat ∣ n
  | .twoTier headTokens headStride tailStride, n =>
    n ≤ headTokens.toNat ∧ headStride.toNat ∣ n ∨ headTokens.toNat ≤ n ∧ tailStride.toNat ∣ n - headTokens.toNat

/-- The strides are positive and the head region is a whole number of cuts. -/
def Valid : CutStridePolicy → Prop
  | .flat stride => 0 < stride.toNat
  | .twoTier headTokens headStride tailStride =>
    0 < headStride.toNat ∧ 0 < tailStride.toNat ∧ headStride.toNat ∣ headTokens.toNat

variable {policy : CutStridePolicy}

theorem valid_of_validate (h : policy.validate = .ok ()) : policy.Valid := by
  have hpos : ∀ {s : UInt32}, s ≠ 0 → 0 < s.toNat := by
    intro s hs
    exact Nat.pos_of_ne_zero fun h0 => hs (UInt32.toNat_inj.mp h0)
  cases policy with
  | flat stride =>
    simp only [validate, rejectIf_eq_ok] at h
    exact hpos h
  | twoTier headTokens headStride tailStride =>
    simp only [validate, bind_eq_ok, exists_unit, rejectIf_eq_ok, not_not] at h
    obtain ⟨hhead, htail, hmod, -⟩ := h
    refine ⟨hpos hhead, hpos htail, Nat.dvd_of_mod_eq_zero ?_⟩
    rw [← UInt32.toNat_mod, hmod]
    rfl

theorem cutCount_zero : policy.cutCount 0 = 0 := by
  cases policy with
  | flat _ | twoTier _ _ _ => simp [cutCount]

theorem atBoundary_zero : policy.AtBoundary 0 := by
  cases policy with
  | flat stride => exact Nat.dvd_zero _
  | twoTier headTokens headStride tailStride => exact Or.inl ⟨Nat.zero_le _, Nat.dvd_zero _⟩

theorem cutCount_mono {m n : Nat} (h : m ≤ n) : policy.cutCount m ≤ policy.cutCount n := by
  cases policy with
  | flat stride => exact Nat.div_le_div_right h
  | twoTier headTokens headStride tailStride =>
    simp only [cutCount]
    split
    · split
      · exact Nat.div_le_div_right h
      · exact le_trans (Nat.div_le_div_right (by assumption)) (Nat.le_add_right _ _)
    · rw [if_neg (by omega)]
      exact Nat.add_le_add_left (Nat.div_le_div_right (by omega)) _

/-- One stride after a multiple of the stride the quotient is one more, and not before. -/
theorem div_next {s n : Nat} (hpos : 0 < s) (h : s ∣ n) :
    (n + s) / s = n / s + 1 ∧ ∀ m, n ≤ m → m < n + s → m / s = n / s := by
  obtain ⟨k, rfl⟩ := h
  refine ⟨Nat.add_div_right _ hpos, fun m hle hlt => ?_⟩
  rw [Nat.mul_div_cancel_left k hpos]
  exact Nat.div_eq_of_lt_le (by rwa [Nat.mul_comm]) (by rw [Nat.succ_mul, Nat.mul_comm]; exact hlt)

theorem cutCount_tail {headTokens headStride tailStride : UInt32} {n : Nat} (h : headTokens.toNat ≤ n) :
    (twoTier headTokens headStride tailStride).cutCount n =
      headTokens.toNat / headStride.toNat + (n - headTokens.toNat) / tailStride.toNat := by
  simp only [cutCount]
  split
  · have heq : n = headTokens.toNat := by omega
    simp [heq]
  · rfl

/-- One stride after a boundary there is a boundary with one cut more, and none between. -/
theorem next_boundary (hv : policy.Valid) {offset : UInt64} (hb : policy.AtBoundary offset.toNat) :
    policy.AtBoundary (offset.toNat + (policy.strideAt offset).toNat) ∧
      policy.cutCount (offset.toNat + (policy.strideAt offset).toNat) = policy.cutCount offset.toNat + 1 ∧
      ∀ m, offset.toNat ≤ m → m < offset.toNat + (policy.strideAt offset).toNat →
        policy.cutCount m = policy.cutCount offset.toNat := by
  cases policy with
  | flat stride =>
    obtain ⟨hnext, hsame⟩ := div_next hv hb
    exact ⟨Nat.dvd_add_self_right.mpr hb, hnext, hsame⟩
  | twoTier headTokens headStride tailStride =>
    obtain ⟨hhead, htail, hregion⟩ := hv
    have hlt : offset < headTokens.toUInt64 ↔ offset.toNat < headTokens.toNat := by
      rw [UInt64.lt_iff_toNat_lt, UInt32.toNat_toUInt64]
    simp only [strideAt, hlt]
    split
    · rename_i hin
      have hdvd : headStride.toNat ∣ offset.toNat := by
        rcases hb with ⟨-, h⟩ | ⟨h, -⟩
        · exact h
        · omega
      -- the cut ends inside the head region, which is a whole number of cuts
      have hend : offset.toNat + headStride.toNat ≤ headTokens.toNat := by
        obtain ⟨k, hk⟩ := hdvd
        obtain ⟨j, hj⟩ := hregion
        have hkj : k < j := lt_of_mul_lt_mul_left (by omega) (Nat.zero_le headStride.toNat)
        have hle : headStride.toNat * (k + 1) ≤ headStride.toNat * j := Nat.mul_le_mul_left _ hkj
        rw [Nat.mul_succ] at hle
        omega
      obtain ⟨hnext, hsame⟩ := div_next hhead hdvd
      refine ⟨Or.inl ⟨hend, Nat.dvd_add_self_right.mpr hdvd⟩, ?_, fun m hle hm => ?_⟩
      · simp only [cutCount, if_pos hend, if_pos (show offset.toNat ≤ headTokens.toNat by omega), hnext]
      · simp only [cutCount, if_pos (show m ≤ headTokens.toNat by omega),
          if_pos (show offset.toNat ≤ headTokens.toNat by omega), hsame m hle hm]
    · rename_i hout
      have hdvd : tailStride.toNat ∣ offset.toNat - headTokens.toNat := by
        rcases hb with ⟨h, -⟩ | ⟨-, h⟩
        · have heq : offset.toNat - headTokens.toNat = 0 := by omega
          rw [heq]
          exact Nat.dvd_zero _
        · exact h
      obtain ⟨hnext, hsame⟩ := div_next htail hdvd
      have hshift : offset.toNat + tailStride.toNat - headTokens.toNat =
          offset.toNat - headTokens.toNat + tailStride.toNat := by omega
      refine ⟨Or.inr ⟨by omega, ?_⟩, ?_, fun m hle hm => ?_⟩
      · rw [hshift]
        exact Nat.dvd_add_self_right.mpr hdvd
      · rw [cutCount_tail (by omega), cutCount_tail (by omega), hshift, hnext, Nat.add_assoc]
      · rw [cutCount_tail (by omega), cutCount_tail (by omega), hsame _ (by omega) (by omega)]

end CutStridePolicy

namespace CutChainDeriver

variable {pieces : List (List UInt32)}

/-! ## Emitting from a longer buffer -/

/-- The cuts that a buffer completes come first also when more bytes follow it. -/
theorem emitCuts_append (d : CutChainDeriver) (more : Bytes) (emitted : List Id32) :
    emitCuts C { d with pending := d.pending ++ more } emitted =
      match emitCuts C d emitted with
      | (d', .ok ids) => emitCuts C { d' with pending := d'.pending ++ more } ids
      | (d', .error e) => ({ d' with pending := d'.pending ++ more }, .error e) := by
  fun_induction emitCuts C d emitted with
  | case1 d emitted stride strideBytes hshort => rfl
  | case2 d emitted stride strideBytes hlong hfull =>
    have hle : (d.policy.strideAt d.consumedTokens).toNat * 4 ≤ d.pending.length := not_lt.mp hlong
    rw [emitCuts]
    dsimp only
    rw [if_neg (by rw [List.length_append]; omega), dif_pos hfull]
  | case3 d emitted stride strideBytes hlong hroom tip ih =>
    have hle : (d.policy.strideAt d.consumedTokens).toNat * 4 ≤ d.pending.length := not_lt.mp hlong
    rw [emitCuts]
    dsimp only
    rw [if_neg (by rw [List.length_append]; omega), dif_neg hroom, List.take_append_of_le_length hle,
      List.drop_append_of_le_length hle]
    exact ih

theorem emitCuts_emitted (d : CutChainDeriver) (before emitted : List Id32) :
    emitCuts C d (before ++ emitted) = ((emitCuts C d emitted).1, (before ++ ·) <$> (emitCuts C d emitted).2) := by
  fun_induction emitCuts C d emitted with
  | case1 d emitted stride strideBytes hshort =>
    rw [emitCuts]
    exact if_pos hshort
  | case2 d emitted stride strideBytes hlong hfull =>
    rw [emitCuts]
    dsimp only
    rw [if_neg hlong, dif_pos hfull]
    rfl
  | case3 d emitted stride strideBytes hlong hroom tip ih =>
    rw [emitCuts]
    dsimp only
    rw [if_neg hlong, dif_neg hroom, List.append_assoc]
    exact ih

/-! ## Counting cuts -/

/-- The deriver stands at a boundary, with the tokens after it in its buffer. -/
structure Standing (d : CutChainDeriver) (pushed : Nat) : Prop where
  valid : d.policy.Valid
  unpoisoned : d.poisoned = false
  boundary : d.policy.AtBoundary d.consumedTokens.toNat
  counted : d.cuts = d.policy.cutCount d.consumedTokens.toNat
  bounded : d.consumedTokens.toNat ≤ d.cuts * 2 ^ 32
  buffered : d.pending.length + 4 * d.consumedTokens.toNat = 4 * pushed

variable {d d' : CutChainDeriver} {pushed : Nat}

theorem Standing.of_new {storeKey nsId : Id32} {policy : CutStridePolicy} (h : new C storeKey nsId policy = .ok d) :
    d.Standing 0 ∧ d.pending = [] ∧ d.policy = policy ∧ d.cuts = 0 := by
  simp only [new, bind_eq_ok, exists_unit, pure_eq_ok] at h
  obtain ⟨hvalid, rfl⟩ := h
  exact ⟨⟨CutStridePolicy.valid_of_validate hvalid, rfl, CutStridePolicy.atBoundary_zero,
    CutStridePolicy.cutCount_zero.symm, Nat.zero_le _, rfl⟩, rfl, rfl, rfl⟩

def buffer (d : CutChainDeriver) (tokens : List UInt32) : CutChainDeriver :=
  { d with pending := d.pending ++ tokens.flatMap le32 }

theorem pushTokens_eq (h : d.poisoned = false) (tokens : List UInt32) :
    d.pushTokens C tokens = emitCuts C (d.buffer tokens) [] := by
  rw [CutChainDeriver.pushTokens, if_neg (by simp [h])]
  rfl

theorem Standing.buffer (h : d.Standing pushed) (tokens : List UInt32) :
    (d.buffer tokens).Standing (pushed + tokens.length) := by
  refine ⟨h.valid, h.unpoisoned, h.boundary, h.counted, h.bounded, ?_⟩
  have hbuffered := h.buffered
  have hlength : (tokens.flatMap le32).length = 4 * tokens.length := by
    rw [List.length_flatMap, List.map_congr_left fun token _ => length_le32 token, List.map_const', List.sum_replicate,
      smul_eq_mul, Nat.mul_comm]
  show (d.pending ++ tokens.flatMap le32).length + 4 * d.consumedTokens.toNat = _
  rw [List.length_append, hlength]
  omega

/-- The buffer does not complete the next cut. -/
def Settled (d : CutChainDeriver) : Prop := d.pending.length < (d.policy.strideAt d.consumedTokens).toNat * 4

/-- What a call that emits from the buffer returns and leaves. -/
def Emitted (d : CutChainDeriver) (pushed : Nat) (emitted : List Id32)
    (result : CutChainDeriver × Except PackError (List Id32)) : Prop :=
  match result.2 with
  | .ok ids => d.policy.cutCount pushed ≤ maxCutChainCuts ∧ (result.1.Standing pushed ∧ result.1.Settled) ∧
      result.1.policy = d.policy ∧ ids.length + d.cuts = emitted.length + result.1.cuts ∧
      result.1.cuts = d.policy.cutCount pushed
  | .error _ => maxCutChainCuts < d.policy.cutCount pushed ∧ result.1.poisoned = true

theorem Standing.cut (h : d.Standing pushed) {tip : Id32} (hcuts : d.cuts + 1 ≤ maxCutChainCuts)
    (hlong : (d.policy.strideAt d.consumedTokens).toNat * 4 ≤ d.pending.length) :
    { d with tip, pending := d.pending.drop ((d.policy.strideAt d.consumedTokens).toNat * 4),
             consumedTokens := d.consumedTokens + (d.policy.strideAt d.consumedTokens).toUInt64, cuts := d.cuts + 1,
             cuts_le := hcuts }.Standing pushed := by
  obtain ⟨hboundary, hcount, -⟩ := CutStridePolicy.next_boundary h.valid h.boundary
  have hbounded := h.bounded
  have hbuffered := h.buffered
  have hstride := (d.policy.strideAt d.consumedTokens).toNat_lt
  have hmax : maxCutChainCuts = 512 := rfl
  have hsum : (d.consumedTokens + (d.policy.strideAt d.consumedTokens).toUInt64).toNat =
      d.consumedTokens.toNat + (d.policy.strideAt d.consumedTokens).toNat := by
    rw [toNat_add_of_lt, UInt32.toNat_toUInt64]
    rw [UInt32.toNat_toUInt64]
    omega
  refine ⟨h.valid, h.unpoisoned, ?_, ?_, ?_, ?_⟩
  · simp only [hsum]
    exact hboundary
  · simp only [hsum]
    rw [hcount, ← h.counted]
  · simp only [hsum]
    omega
  · simp only [hsum, List.length_drop]
    omega

theorem Standing.emitCuts (h : d.Standing pushed) (emitted : List Id32) :
    Emitted d pushed emitted (emitCuts C d emitted) := by
  fun_induction CutChainDeriver.emitCuts C d emitted with
  | case1 d emitted stride strideBytes hshort =>
    have hlt : d.pending.length < (d.policy.strideAt d.consumedTokens).toNat * 4 := hshort
    have hbuffered := h.buffered
    obtain ⟨-, -, hsame⟩ := CutStridePolicy.next_boundary h.valid h.boundary
    have hcount : d.policy.cutCount pushed = d.cuts := by
      rw [hsame pushed (by omega) (by omega), h.counted]
    exact ⟨hcount ▸ d.cuts_le, ⟨h, hlt⟩, rfl, rfl, hcount.symm⟩
  | case2 d emitted stride strideBytes hlong hfull =>
    have hle : (d.policy.strideAt d.consumedTokens).toNat * 4 ≤ d.pending.length := not_lt.mp hlong
    have hbuffered := h.buffered
    obtain ⟨-, hcount, -⟩ := CutStridePolicy.next_boundary h.valid h.boundary
    refine ⟨?_, rfl⟩
    have hmono : d.policy.cutCount (d.consumedTokens.toNat + (d.policy.strideAt d.consumedTokens).toNat) ≤
        d.policy.cutCount pushed := CutStridePolicy.cutCount_mono (by omega)
    rw [hcount, ← h.counted, hfull] at hmono
    exact hmono
  | case3 d emitted stride strideBytes hlong hroom tip ih =>
    have hcuts : d.cuts + 1 ≤ maxCutChainCuts := Nat.succ_le_of_lt (Nat.lt_of_le_of_ne d.cuts_le hroom)
    have hnext := ih (h.cut hcuts (not_lt.mp hlong))
    generalize CutChainDeriver.emitCuts C _ (emitted ++ [tip]) = result at hnext ⊢
    obtain ⟨d', ids | ids⟩ := result
    · exact hnext
    · obtain ⟨hle, hstanding, hpolicy, hlength, hend⟩ := hnext
      rw [List.length_append, List.length_singleton] at hlength
      refine ⟨hle, hstanding, hpolicy, ?_, hend⟩
      dsimp only at hlength ⊢
      omega

/-! ## Calls -/

theorem Standing.pushTokens (h : d.Standing pushed) (tokens : List UInt32) :
    Emitted d (pushed + tokens.length) [] (d.pushTokens C tokens) := by
  rw [pushTokens_eq h.unpoisoned]
  exact (h.buffer tokens).emitCuts []

/-- A call with two parts emits what the first completes, then what a second call would emit. -/
theorem pushTokens_append (h : d.Standing pushed) {tokens : List UInt32} {ids : List Id32}
    (hfirst : (d.pushTokens C tokens).2 = .ok ids) (more : List UInt32) :
    (d.pushTokens C (tokens ++ more)).2 = (ids ++ ·) <$> ((d.pushTokens C tokens).1.pushTokens C more).2 := by
  have hemitted := h.pushTokens (C := C) tokens
  rw [Emitted, hfirst] at hemitted
  have hopen := hemitted.2.1.1.unpoisoned
  have hsplit := emitCuts_append (C := C) (d.buffer tokens) (more.flatMap le32) []
  have hwhole : d.buffer (tokens ++ more) =
      { d.buffer tokens with pending := (d.buffer tokens).pending ++ more.flatMap le32 } := by
    simp [buffer, List.flatMap_append]
  rw [pushTokens_eq h.unpoisoned, hwhole, hsplit, pushTokens_eq hopen]
  rw [pushTokens_eq h.unpoisoned] at hfirst ⊢
  generalize CutChainDeriver.emitCuts C (d.buffer tokens) [] = call at hfirst ⊢
  obtain ⟨d', result⟩ := call
  cases hfirst
  have hfront := emitCuts_emitted (C := C) (d'.buffer more) ids []
  rw [List.append_nil] at hfront
  exact congrArg Prod.snd hfront

theorem pushAll_poisoned (h : d.poisoned = true) :
    ∀ result ∈ pushAll C d pieces, result = .error (.poisoned "cut chain deriver is poisoned") := by
  induction pieces with
  | nil => simp [pushAll]
  | cons tokens rest ih =>
    have hcall : d.pushTokens C tokens = (d, .error (.poisoned "cut chain deriver is poisoned")) := by
      rw [CutChainDeriver.pushTokens, h, if_pos rfl]
    intro result hresult
    rw [pushAll, hcall] at hresult
    rcases List.mem_cons.mp hresult with rfl | hmem
    · rfl
    · exact ih result hmem

/-- A call succeeds exactly when the tokens pushed so far need no more cuts than allowed. -/
theorem Standing.pushAll_ok_iff (h : d.Standing pushed) {k : Nat}
    (hk : k < pieces.length) :
    (∃ ids, (pushAll C d pieces)[k]? = some (.ok ids)) ↔
      d.policy.cutCount (pushed + (pieces.take (k + 1)).flatten.length) ≤ maxCutChainCuts := by
  induction pieces generalizing d pushed k with
  | nil => cases hk
  | cons tokens rest ih =>
    have hcall := h.pushTokens (C := C) tokens
    rw [pushAll]
    cases hresult : (d.pushTokens C tokens).2 with
    | ok ids =>
      rw [Emitted, hresult] at hcall
      obtain ⟨hle, ⟨hstanding, -⟩, hpolicy, -, -⟩ := hcall
      cases k with
      | zero => simpa using hle
      | succ k =>
        have hrest := ih hstanding (k := k) (by simpa using hk)
        rw [hpolicy, Nat.add_assoc, ← List.length_append, ← List.flatten_cons, ← List.take_succ_cons] at hrest
        simpa using hrest
    | error e =>
      rw [Emitted, hresult] at hcall
      obtain ⟨hlt, hpoisoned⟩ := hcall
      have hmore : d.policy.cutCount (pushed + tokens.length) ≤
          d.policy.cutCount (pushed + ((tokens :: rest).take (k + 1)).flatten.length) := by
        refine CutStridePolicy.cutCount_mono ?_
        rw [List.take_succ_cons, List.flatten_cons, List.length_append]
        omega
      constructor
      · rintro ⟨ids, hids⟩
        cases k with
        | zero => simp at hids
        | succ k =>
          have hmem := List.mem_of_getElem? (show (pushAll C (d.pushTokens C tokens).1 rest)[k]? = some (.ok ids) by
            simpa using hids)
          cases pushAll_poisoned hpoisoned _ hmem
      · intro hle
        omega

/-- Calls within the bound emit what a single call emits. -/
theorem Standing.pushAll_eq (h : d.Standing pushed) (hsettled : d.Settled)
    (hle : d.policy.cutCount (pushed + pieces.flatten.length) ≤ maxCutChainCuts) :
    ∃ parts : List (List Id32), pushAll C d pieces = parts.map .ok ∧
      (d.pushTokens C pieces.flatten).2 = .ok parts.flatten ∧
      parts.flatten.length + d.cuts = d.policy.cutCount (pushed + pieces.flatten.length) := by
  induction pieces generalizing d pushed with
  | nil =>
    have hnone : d.pushTokens C [] = (d, .ok []) := by
      have hbuffer : d.buffer [] = d := by simp [CutChainDeriver.buffer]
      rw [pushTokens_eq h.unpoisoned, hbuffer, CutChainDeriver.emitCuts]
      exact if_pos hsettled
    have hcall := h.pushTokens (C := C) []
    rw [Emitted, hnone] at hcall
    refine ⟨[], rfl, ?_, ?_⟩
    · rw [List.flatten_nil, hnone, List.flatten_nil]
    · rw [List.flatten_nil, List.length_nil, Nat.zero_add]
      exact hcall.2.2.2.2
  | cons tokens rest ih =>
    rw [List.flatten_cons, List.length_append, ← Nat.add_assoc] at hle ⊢
    have hcall := h.pushTokens (C := C) tokens
    cases hresult : (d.pushTokens C tokens).2 with
    | ok ids =>
      rw [Emitted, hresult] at hcall
      obtain ⟨-, ⟨hstanding, hsettled'⟩, hpolicy, hlength, hcuts⟩ := hcall
      obtain ⟨parts, hparts, hsingle, htotal⟩ := ih hstanding hsettled' (hpolicy ▸ hle)
      refine ⟨ids :: parts, ?_, ?_, ?_⟩
      · rw [pushAll, hresult, hparts, List.map_cons]
      · rw [pushTokens_append h hresult, hsingle]
        rfl
      · rw [List.flatten_cons, List.length_append]
        rw [hpolicy] at htotal
        rw [List.length_nil] at hlength
        omega
    | error e =>
      rw [Emitted, hresult] at hcall
      have hmore : d.policy.cutCount (pushed + tokens.length) ≤
          d.policy.cutCount (pushed + tokens.length + rest.flatten.length) :=
        CutStridePolicy.cutCount_mono (Nat.le_add_right _ _)
      omega

theorem Standing.settled_of_empty (h : d.Standing pushed) (hempty : d.pending = []) : d.Settled := by
  obtain ⟨-, hcount, -⟩ := CutStridePolicy.next_boundary h.valid h.boundary
  have hpos : (d.policy.strideAt d.consumedTokens).toNat ≠ 0 := by
    intro hzero
    rw [hzero, Nat.add_zero] at hcount
    omega
  rw [Settled, hempty, List.length_nil]
  omega

end CutChainDeriver

end Kvpack.Core
