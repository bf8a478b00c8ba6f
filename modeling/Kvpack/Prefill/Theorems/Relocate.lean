import Kvpack.Prefill.Relocate
import Kvpack.Base.InPlace

/-!
# When relocation is all or nothing

A plane is rotated pair by pair, and every element of the rotary width lies in exactly one pair. A refused plane
leaves the planes before it rotated, and a plane that two classes name is rotated twice; apart from that a session is
relocated as a whole or not at all.
-/

namespace Kvpack.Prefill

open Base Kvpack.Core

variable {rotate : PairRotation} {layout : PortablePrefillLayoutV2} {delta : PositionDelta} {planes : Planes}
variable {c : LayoutClassView} {bytes plane : Bytes} {key : StateKey} {visits : List Visit}
variable {turn : Nat × Nat × Nat} {report : SessionRelocateReport} {u v : Visit} {before after : List Visit}
variable {length : Nat} {e : StoreError}

/-! ## Pairs -/

def PairingConvention.InPair (pairing : PairingConvention) (half i e : Nat) : Prop :=
  e = (pairing.offsets i half).1 ∨ e = (pairing.offsets i half).2

theorem existsUnique_pair (pairing : PairingConvention) {half e : Nat} (he : e < 2 * half) :
    ∃! i, i < half ∧ pairing.InPair half i e := by
  unfold PairingConvention.InPair
  cases pairing with
  | splitHalf =>
    rcases Nat.lt_or_ge e half with hlow | hhigh
    · exact ⟨e, by simp [PairingConvention.offsets, hlow], by simp only [PairingConvention.offsets]; omega⟩
    · exact ⟨e - half, by simp only [PairingConvention.offsets]; omega,
        by simp only [PairingConvention.offsets]; omega⟩
  | adjacent =>
    exact ⟨e / 2, by simp only [PairingConvention.offsets]; omega, by simp only [PairingConvention.offsets]; omega⟩

theorem offsets_lt (pairing : PairingConvention) {half i : Nat} (hi : i < half) :
    (pairing.offsets i half).1 < 2 * half ∧ (pairing.offsets i half).2 < 2 * half ∧
      (pairing.offsets i half).1 ≠ (pairing.offsets i half).2 := by
  cases pairing <;> simp only [PairingConvention.offsets] <;> omega

theorem mul_add_inj {n a b x y : Nat} (hx : x < n) (hy : y < n) (h : a * n + x = b * n + y) : a = b ∧ x = y := by
  have hn : 0 < n := Nat.zero_lt_of_lt hx
  have hdiv := congrArg (· / n) h
  have hmod := congrArg (· % n) h
  simp only [Nat.mul_comm _ n, Nat.mul_add_div hn, Nat.div_eq_of_lt hx, Nat.div_eq_of_lt hy, Nat.add_zero] at hdiv
  simp only [Nat.mul_add_mod_self_right, Nat.mod_eq_of_lt hx, Nat.mod_eq_of_lt hy] at hmod
  exact ⟨hdiv, hmod⟩

namespace LayoutClassView

theorem offset_eq (c : LayoutClassView) (token head e : Nat) :
    c.offset token head e = ((token * c.kvHeads.toNat + head) * c.headDim.toNat + e) * 2 := by
  simp only [offset, bytesPerToken]
  ring

theorem offset_inj {token head e token' head' e' : Nat} (hhead : head < c.kvHeads.toNat) (he : e < c.headDim.toNat)
    (hhead' : head' < c.kvHeads.toNat) (he' : e' < c.headDim.toNat)
    (h : c.offset token head e = c.offset token' head' e') : token = token' ∧ head = head' ∧ e = e' := by
  rw [offset_eq, offset_eq] at h
  obtain ⟨hrow, rfl⟩ := mul_add_inj he he' (Nat.eq_of_mul_eq_mul_right Nat.two_pos h)
  obtain ⟨rfl, rfl⟩ := mul_add_inj hhead hhead' hrow
  exact ⟨rfl, rfl, rfl⟩

/-- What the checks before a rotation establish. -/
structure Rotatable (c : LayoutClassView) (length : Nat) : Prop where
  rotary : c.ropeDimensionCount.toNat = 2 * c.half
  half_pos : 0 < c.half
  fits : 2 * c.half ≤ c.headDim.toNat
  heads : 0 < c.kvHeads.toNat
  width : 0 < c.bytesPerToken
  whole : length = length / c.bytesPerToken * c.bytesPerToken

theorem rotatable_of_checkRotation (h : c.checkRotation length = .ok ()) : c.Rotatable length := by
  simp only [checkRotation, bind_eq_ok, exists_unit, rejectIf_eq_ok, not_or, not_not, not_lt] at h
  obtain ⟨⟨hpos, heven, hfits, hheads⟩, -, -, hwidth, hwhole⟩ := h
  have hhalf : c.ropeDimensionCount.toNat = 2 * c.half := by simp only [half]; omega
  exact ⟨hhalf, by omega, by omega, by omega, by omega, (Nat.div_mul_cancel (Nat.dvd_of_mod_eq_zero hwhole)).symm⟩

theorem offset_lt {token head e : Nat} (hc : c.Rotatable length) (htoken : token < length / c.bytesPerToken)
    (hhead : head < c.kvHeads.toNat) (he : e < c.headDim.toNat) : c.offset token head e + 1 < length := by
  have hrow := Nat.mul_le_mul_right c.headDim.toNat (Nat.succ_le_of_lt hhead)
  have htokens := Nat.mul_le_mul_right c.bytesPerToken (Nat.succ_le_of_lt htoken)
  rw [← hc.whole] at htokens
  simp only [offset, bytesPerToken, Nat.succ_mul] at hrow htokens ⊢
  omega

/-- The bytes one turn of the loops reads and writes. -/
def Owns (c : LayoutClassView) (turn : Nat × Nat × Nat) (x : Nat) : Prop :=
  ∃ e, c.pairing.InPair c.half turn.2.2 e ∧ (x = c.offset turn.1 turn.2.1 e ∨ x = c.offset turn.1 turn.2.1 e + 1)

theorem local_rotatePair (c : LayoutClassView) :
    Local (fun (bytes : Bytes) x => bytes[x]?) (c.rotatePair rotate delta) c.Owns := by
  constructor
  · intro bytes turn x hx
    have hlo := fun h => hx ⟨_, .inl rfl, h⟩
    have hhi := fun h => hx ⟨_, .inr rfl, h⟩
    simp only [not_or, imp_false] at hlo hhi
    simp only [rotatePair, writeElement]
    rw [List.getElem?_set_ne (Ne.symm hhi.2), List.getElem?_set_ne (Ne.symm hhi.1),
      List.getElem?_set_ne (Ne.symm hlo.2), List.getElem?_set_ne (Ne.symm hlo.1)]
  · intro bytes bytes' turn hsame x hx
    have hread : ∀ e, c.pairing.InPair c.half turn.2.2 e →
        readElement bytes (c.offset turn.1 turn.2.1 e) = readElement bytes' (c.offset turn.1 turn.2.1 e) := by
      intro e he
      simp only [readElement, List.getD_eq_getElem?_getD, hsame _ ⟨e, he, .inl rfl⟩, hsame _ ⟨e, he, .inr rfl⟩]
    simp only [rotatePair, writeElement, hread _ (.inl rfl), hread _ (.inr rfl), List.getElem?_set', hsame x hx]

theorem mem_turns : turn ∈ c.turns length ↔
    turn.1 < length / c.bytesPerToken ∧ turn.2.1 < c.kvHeads.toNat ∧ turn.2.2 < c.half := by
  obtain ⟨token, head, i⟩ := turn
  simp [turns, List.mem_product]

theorem nodup_turns (c : LayoutClassView) (length : Nat) : (c.turns length).Nodup :=
  List.nodup_range.product (List.nodup_range.product List.nodup_range)

theorem length_rotatePair (c : LayoutClassView) (bytes : Bytes) (turn : Nat × Nat × Nat) :
    (c.rotatePair rotate delta bytes turn).length = bytes.length := by
  simp [rotatePair, writeElement]

@[simp]
theorem length_rotated (c : LayoutClassView) (bytes : Bytes) :
    (c.rotated rotate delta bytes).length = bytes.length := by
  rw [rotated]
  generalize c.turns bytes.length = turns
  induction turns generalizing bytes with
  | nil => rfl
  | cons turn turns ih => rw [List.foldl_cons, ih, length_rotatePair]

@[simp]
theorem rotated_nil (c : LayoutClassView) : c.rotated rotate delta [] = [] :=
  List.length_eq_zero_iff.mp (c.length_rotated [])

/-- Every pair of every token and head was rotated once, and the rest is as it was. -/
structure RotatedOnce (rotate : PairRotation) (delta : PositionDelta) (c : LayoutClassView) (before after : Bytes) :
    Prop where
  length : after.length = before.length
  partition : ∀ e < c.ropeDimensionCount.toNat, ∃! i, i < c.half ∧ c.pairing.InPair c.half i e
  pairs : ∀ token < before.length / c.bytesPerToken, ∀ head < c.kvHeads.toNat, ∀ i < c.half,
    let lo := c.offset token head (c.pairing.offsets i c.half).1
    let hi := c.offset token head (c.pairing.offsets i c.half).2
    (readElement after lo, readElement after hi) =
      rotate c.ropeFreqBaseBits c.ropeDimensionCount.toNat delta i (readElement before lo) (readElement before hi)
  tail : ∀ token < before.length / c.bytesPerToken, ∀ head < c.kvHeads.toNat, ∀ e < c.headDim.toNat,
    c.ropeDimensionCount.toNat ≤ e →
      readElement after (c.offset token head e) = readElement before (c.offset token head e)

theorem readElement_writeElement {lo hi : Nat} {a b : Element} (hlo : lo + 1 < bytes.length)
    (hhi : hi + 1 < bytes.length) (hapart : lo + 2 ≤ hi ∨ hi + 2 ≤ lo) :
    readElement (writeElement (writeElement bytes lo a) hi b) lo = a ∧
      readElement (writeElement (writeElement bytes lo a) hi b) hi = b := by
  simp only [readElement, writeElement, List.getD_eq_getElem?_getD, List.getElem?_set, List.length_set]
  constructor <;> ext <;> simp <;> grind

theorem exists_of_owns {x : Nat} (hturn : turn ∈ c.turns length) (hx : c.Owns turn x) :
    ∃ e < 2 * c.half, c.pairing.InPair c.half turn.2.2 e ∧ x / 2 * 2 = c.offset turn.1 turn.2.1 e := by
  obtain ⟨e, he, hx⟩ := hx
  have hlt := offsets_lt c.pairing (mem_turns.mp hturn).2.2
  refine ⟨e, by rcases he with rfl | rfl <;> omega, he, ?_⟩
  rw [offset_eq] at hx ⊢
  omega

/-- Two turns that touch one byte touch one element, which has one pair. -/
theorem Rotatable.apart {x : Nat} {k k' : Nat × Nat × Nat} (hc : c.Rotatable length) (hk : k ∈ c.turns length)
    (hk' : k' ∈ c.turns length) (hx : c.Owns k x) (hx' : c.Owns k' x) : k = k' := by
  obtain ⟨e, he, hpair, heq⟩ := exists_of_owns hk hx
  obtain ⟨e', he', hpair', heq'⟩ := exists_of_owns hk' hx'
  obtain ⟨-, hhead, hi⟩ := mem_turns.mp hk
  obtain ⟨-, hhead', hi'⟩ := mem_turns.mp hk'
  obtain ⟨htoken, hheads, rfl⟩ := offset_inj hhead (he.trans_le hc.fits) hhead' (he'.trans_le hc.fits)
    (heq.symm.trans heq')
  exact Prod.ext htoken (Prod.ext hheads ((existsUnique_pair c.pairing he).unique ⟨hi, hpair⟩ ⟨hi', hpair'⟩))

theorem Rotatable.rotatedOnce (hc : c.Rotatable bytes.length) :
    c.RotatedOnce rotate delta bytes (c.rotated rotate delta bytes) := by
  refine ⟨length_rotated c bytes, fun e he => existsUnique_pair _ (hc.rotary ▸ he), ?_, ?_⟩
  · intro token htoken head hhead i hi lo hi'
    have hmem : (token, head, i) ∈ c.turns bytes.length := mem_turns.mpr ⟨htoken, hhead, hi⟩
    have howned : ∀ x, c.Owns (token, head, i) x →
        (c.rotated rotate delta bytes)[x]? = (c.rotatePair rotate delta bytes (token, head, i))[x]? :=
      fun x hx => c.local_rotatePair.foldl_owned (c.nodup_turns _) (fun _ hk _ hk' _ => hc.apart hk hk') hmem hx bytes
    have hread : ∀ e, c.pairing.InPair c.half i e →
        readElement (c.rotated rotate delta bytes) (c.offset token head e) =
          readElement (c.rotatePair rotate delta bytes (token, head, i)) (c.offset token head e) := by
      intro e he
      simp only [readElement, List.getD_eq_getElem?_getD, howned _ ⟨e, he, .inl rfl⟩, howned _ ⟨e, he, .inr rfl⟩]
    obtain ⟨h0, h1, hne⟩ := offsets_lt c.pairing hi
    have hwritten := fun a b => readElement_writeElement (a := a) (b := b)
      (offset_lt hc htoken hhead (h0.trans_le hc.fits)) (offset_lt hc htoken hhead (h1.trans_le hc.fits))
      (by simp only [offset_eq]; omega)
    rw [hread _ (.inl rfl), hread _ (.inr rfl)]
    exact Prod.ext (hwritten _ _).1 (hwritten _ _).2
  · intro token htoken head hhead e he htail
    have hframe : ∀ x, x / 2 * 2 = c.offset token head e → (c.rotated rotate delta bytes)[x]? = bytes[x]? := by
      intro x hx
      apply c.local_rotatePair.foldl_frame
      intro turn hturn howns
      obtain ⟨e', he', -, heq⟩ := exists_of_owns hturn howns
      obtain ⟨-, -, rfl⟩ := offset_inj hhead he (mem_turns.mp hturn).2.1 (he'.trans_le hc.fits) (hx.symm.trans heq)
      rw [hc.rotary] at htail
      omega
    simp only [readElement, List.getD_eq_getElem?_getD]
    rw [hframe _ (by rw [offset_eq]; omega), hframe _ (by rw [offset_eq]; omega)]

end LayoutClassView

/-! ## Planes one after another -/

def Rotates (delta : PositionDelta) (v : Visit) : Prop :=
  (v.1.ropeConvention ≠ .none ∧ v.2.stateName = "attn.k") ∧ delta ≠ 0

instance (v : Visit) : Decidable (Rotates delta v) := inferInstanceAs (Decidable (_ ∧ _))

/-- A visited plane is there, and its geometry fits when it is rotated. -/
def admits (delta : PositionDelta) (planes : Planes) (v : Visit) : Except StoreError Unit :=
  match planes v.2 with
  | none => .error .notFound
  | some plane => if Rotates delta v then v.1.checkRotation plane.length else .ok ()

def visited (rotate : PairRotation) (delta : PositionDelta) (planes : Planes) (v : Visit) : Planes :=
  if Rotates delta v then Function.update planes v.2 ((planes v.2).map (v.1.rotated rotate delta)) else planes

/-- The visits that rotate the plane of a key. -/
def rotations (delta : PositionDelta) (visits : List Visit) (key : StateKey) :
    List Visit :=
  visits.filter fun v => Rotates delta v ∧ v.2 = key

theorem relocatePlaneBytes_of_rotates (h : Rotates delta (c, key)) :
    relocatePlaneBytes rotate c key.stateName delta bytes =
      (c.checkRotation bytes.length).map fun _ => (.deltaRotated, c.rotated rotate delta bytes) := by
  have hkept : ¬ (c.ropeConvention = .none ∨ key.stateName ≠ "attn.k") := by simpa using h.1
  rw [relocatePlaneBytes, if_neg hkept, if_neg h.2, LayoutClassView.rotateKInplace]
  cases c.checkRotation bytes.length <;> rfl

theorem relocatePlaneBytes_of_not_rotates (rotate : PairRotation) (bytes : Bytes) (h : ¬ Rotates delta (c, key)) :
    ∃ action, relocatePlaneBytes rotate c key.stateName delta bytes = .ok (action, bytes) := by
  unfold relocatePlaneBytes
  split_ifs with hkept hzero
  · exact ⟨_, rfl⟩
  · exact ⟨_, rfl⟩
  · exact absurd ⟨by simpa using hkept, hzero⟩ h

theorem relocateVisits_of_error (h : admits delta planes v = .error e) :
    relocateVisits rotate delta report planes (v :: visits) = (.error e, planes) := by
  obtain ⟨c, key⟩ := v
  simp only [admits] at h
  simp only [relocateVisits]
  cases hplane : planes key with
  | none =>
    rw [hplane] at h
    cases h
    rfl
  | some plane =>
    simp only [hplane] at h
    split_ifs at h with hrotates
    simp only [relocatePlaneBytes_of_rotates hrotates, h]
    rfl

theorem relocateVisits_of_ok (rotate : PairRotation) (report : SessionRelocateReport)
    (visits : List Visit) (h : admits delta planes v = .ok ()) : ∃ report',
    relocateVisits rotate delta report planes (v :: visits) =
      relocateVisits rotate delta report' (visited rotate delta planes v) visits := by
  obtain ⟨c, key⟩ := v
  simp only [admits] at h
  simp only [relocateVisits, visited]
  cases hplane : planes key with
  | none => simp [hplane] at h
  | some plane =>
    simp only [hplane] at h
    split_ifs at h ⊢ with hrotates
    · simp only [relocatePlaneBytes_of_rotates hrotates, h]
      exact ⟨_, rfl⟩
    · obtain ⟨action, haction⟩ := relocatePlaneBytes_of_not_rotates rotate plane hrotates
      simp only [haction, ← hplane, Function.update_eq_self]
      exact ⟨_, rfl⟩

/-- A visit keeps the presence and lengths of planes, which is all the checks look at. -/
theorem admits_visited : admits delta (visited rotate delta planes u) v = admits delta planes v := by
  unfold visited
  split_ifs with hrotates
  · by_cases hkey : v.2 = u.2
    · cases hplane : planes u.2 <;> simp [admits, hkey, hplane]
    · simp [admits, hkey]
  · rfl

theorem relocateVisits_append (rotate : PairRotation) (report : SessionRelocateReport) (visits : List Visit)
    (h : ∀ v ∈ before, admits delta planes v = .ok ()) : ∃ report',
    relocateVisits rotate delta report planes (before ++ visits) =
      relocateVisits rotate delta report' (before.foldl (visited rotate delta) planes) visits := by
  induction before generalizing planes report with
  | nil => exact ⟨report, rfl⟩
  | cons v before ih =>
    rw [List.forall_mem_cons] at h
    obtain ⟨next, hnext⟩ := relocateVisits_of_ok rotate report (before ++ visits) h.1
    obtain ⟨last, hlast⟩ := ih next fun u hu => (admits_visited).trans (h.2 u hu)
    exact ⟨last, hnext.trans hlast⟩

theorem foldl_visited : (visits.foldl (visited rotate delta) planes) key =
    (rotations delta visits key).foldl (fun plane v => plane.map (v.1.rotated rotate delta)) (planes key) := by
  induction visits generalizing planes with
  | nil => rfl
  | cons v visits ih =>
    rw [List.foldl_cons, ih]
    simp only [rotations, List.filter_cons, visited]
    by_cases hrotates : Rotates delta v <;> by_cases hkey : v.2 = key
    · subst hkey
      simp [hrotates]
    · simp [hrotates, hkey, Function.update_of_ne (Ne.symm hkey)]
    · simp [hrotates]
    · simp [hrotates]

theorem foldl_rotated_nil (l : List Visit) :
    l.foldl (fun plane v => plane.map (v.1.rotated rotate delta)) (some []) = some ([] : Bytes) := by
  induction l with
  | nil => rfl
  | cons v l ih => simpa using ih

/-- A rotation of the low elements alone reaches the first element of a plane. -/
theorem LayoutClassView.RotatedOnce.first {f : Element → Element} {plane' : Bytes} (hc : c.Rotatable plane.length)
    (hplane : plane ≠ []) (h : c.RotatedOnce (fun _ _ _ _ x y => (f x, y)) delta plane plane') :
    readElement plane' 0 = f (readElement plane 0) := by
  have hpos : 0 < plane.length := List.length_pos_iff.mpr hplane
  have htokens : 0 < plane.length / c.bytesPerToken := by
    apply Nat.pos_of_ne_zero
    intro hzero
    have hwhole := hc.whole
    rw [hzero] at hwhole
    omega
  have hzero : c.offset 0 0 (c.pairing.offsets 0 c.half).1 = 0 := by
    cases c.pairing <;> simp [LayoutClassView.offset, PairingConvention.offsets]
  have hfirst := congrArg Prod.fst (h.pairs 0 htokens 0 hc.heads 0 hc.half_pos)
  rwa [hzero] at hfirst

theorem foldl_rotated_first (delta : PositionDelta) (f : Element → Element) {l : List Visit}
    (hplane : plane ≠ []) (hl : ∀ v ∈ l, v.1.Rotatable plane.length) : ∃ plane',
    l.foldl (fun plane v => plane.map (v.1.rotated (fun _ _ _ _ x y => (f x, y)) delta)) (some plane) = some plane' ∧
      readElement plane' 0 = f^[l.length] (readElement plane 0) := by
  induction l generalizing plane with
  | nil => exact ⟨plane, rfl, rfl⟩
  | cons v l ih =>
    rw [List.forall_mem_cons] at hl
    have hlength : (v.1.rotated (fun _ _ _ _ x y => (f x, y)) delta plane).length = plane.length :=
      v.1.length_rotated plane
    have hne := List.ne_nil_of_length_pos (hlength ▸ List.length_pos_iff.mpr hplane)
    obtain ⟨plane', hfold, hread⟩ := ih hne (fun u hu => hlength.symm ▸ hl.2 u hu)
    rw [hl.1.rotatedOnce.first hl.1 hplane] at hread
    exact ⟨plane', hfold, hread⟩

/-! ## All or nothing -/

/-- The rotating planes are rotated once, and every other plane is unchanged. -/
structure Relocated (rotate : PairRotation) (layout : PortablePrefillLayoutV2) (delta : PositionDelta)
    (before after : Planes) : Prop where
  rotated : ∀ v ∈ layout.visits, Rotates delta v → ∃ plane plane', before v.2 = some plane ∧
    after v.2 = some plane' ∧ v.1.RotatedOnce rotate delta plane plane'
  kept : ∀ key, (∀ v ∈ layout.visits, Rotates delta v → v.2 ≠ key) → after key = before key

/-- A report comes with the whole relocation, an error with no change. -/
def AllOrNothing (rotate : PairRotation) (layout : PortablePrefillLayoutV2) (delta : PositionDelta) (planes : Planes) :
    Prop :=
  match relocateSessionPlanes rotate layout delta planes with
  | (.ok _, after) => Relocated rotate layout delta planes after
  | (.error e, after) => e ≠ .panicked → after = planes

/-- Planes rotated before a refused one are empty, and without a refusal only an empty plane is rotated twice. -/
def Relocatable (layout : PortablePrefillLayoutV2) (delta : PositionDelta) (planes : Planes) : Prop :=
  (∀ before v after e, layout.visits = before ++ v :: after → (∀ u ∈ before, admits delta planes u = .ok ()) →
    admits delta planes v = .error e → e ≠ .panicked →
    ∀ u ∈ before, Rotates delta u → planes u.2 = some []) ∧
  ((∀ v ∈ layout.visits, admits delta planes v = .ok ()) →
    ∀ key plane, planes key = some plane → plane ≠ [] → (rotations delta layout.visits key).length ≤ 1)

theorem mem_rotations : v ∈ rotations delta visits key ↔ v ∈ visits ∧ Rotates delta v ∧ v.2 = key := by
  simp [rotations]

theorem rotatable_of_admits (h : admits delta planes v = .ok ()) (hrotates : Rotates delta v) :
    ∃ plane, planes v.2 = some plane ∧ v.1.Rotatable plane.length := by
  unfold admits at h
  cases hplane : planes v.2 with
  | none => simp [hplane] at h
  | some plane =>
    simp only [hplane, if_pos hrotates] at h
    exact ⟨plane, rfl, LayoutClassView.rotatable_of_checkRotation h⟩

theorem rotatable_of_mem_rotations (h : ∀ v ∈ visits, admits delta planes v = .ok ())
    (hplane : planes key = some plane) :
    ∀ v ∈ rotations delta visits key, v.1.Rotatable plane.length := by
  intro v hv
  obtain ⟨hmem, hrotates, rfl⟩ := mem_rotations.mp hv
  obtain ⟨other, hother, hrotatable⟩ := rotatable_of_admits (h v hmem) hrotates
  rw [hplane, Option.some.injEq] at hother
  exact hother ▸ hrotatable

/-- The visits up to the first refused one, if there is one. -/
theorem visits_cases (delta : PositionDelta) (planes : Planes) (visits : List Visit) :
    (∀ v ∈ visits, admits delta planes v = .ok ()) ∨ ∃ before v after e, visits = before ++ v :: after ∧
      (∀ u ∈ before, admits delta planes u = .ok ()) ∧ admits delta planes v = .error e := by
  induction visits with
  | nil => exact .inl (by simp)
  | cons u visits ih =>
    cases hu : admits delta planes u with
    | error e => exact .inr ⟨[], u, visits, e, rfl, by simp, hu⟩
    | ok _ =>
      rcases ih with hall | ⟨before, v, after, e, rfl, hbefore, hv⟩
      · exact .inl (List.forall_mem_cons.mpr ⟨hu, hall⟩)
      · exact .inr ⟨u :: before, v, after, e, rfl, List.forall_mem_cons.mpr ⟨hu, hbefore⟩, hv⟩

theorem relocateSessionPlanes_of_ok (rotate : PairRotation) (h : ∀ v ∈ layout.visits, admits delta planes v = .ok ()) :
    ∃ report,
    relocateSessionPlanes rotate layout delta planes =
      (.ok report, layout.visits.foldl (visited rotate delta) planes) := by
  obtain ⟨report, hreport⟩ := relocateVisits_append rotate ⟨0, 0, 0, true⟩ [] h
  rw [List.append_nil] at hreport
  exact ⟨report, hreport⟩

theorem relocateSessionPlanes_of_error (heq : layout.visits = before ++ v :: after)
    (hbefore : ∀ u ∈ before, admits delta planes u = .ok ())
    (hv : admits delta planes v = .error e) : relocateSessionPlanes rotate layout delta planes =
      (.error e, before.foldl (visited rotate delta) planes) := by
  have hkept : ∀ (l : List Visit) (planes : Planes),
      admits delta (l.foldl (visited rotate delta) planes) v = admits delta planes v := by
    intro l
    induction l with
    | nil => exact fun _ => rfl
    | cons u l ih => exact fun planes => (ih _).trans admits_visited
  obtain ⟨report, hreport⟩ := relocateVisits_append rotate ⟨0, 0, 0, true⟩ (v :: after) hbefore
  rw [relocateSessionPlanes, heq, hreport]
  exact relocateVisits_of_error ((hkept before planes).trans hv)

theorem Relocatable.allOrNothing (h : Relocatable layout delta planes) : AllOrNothing rotate layout delta planes := by
  unfold AllOrNothing
  rcases visits_cases delta planes layout.visits with hall | ⟨before, v, after, e, heq, hbefore, hv⟩
  · obtain ⟨report, hreport⟩ := relocateSessionPlanes_of_ok rotate hall
    rw [hreport]
    constructor
    · intro v hv hrotates
      obtain ⟨plane, hplane, hrotatable⟩ := rotatable_of_admits (hall v hv) hrotates
      have hmem : v ∈ rotations delta layout.visits v.2 := mem_rotations.mpr ⟨hv, hrotates, rfl⟩
      refine ⟨plane, v.1.rotated rotate delta plane, hplane, ?_, hrotatable.rotatedOnce⟩
      rw [foldl_visited, hplane]
      by_cases hempty : plane = []
      · rw [hempty, foldl_rotated_nil, LayoutClassView.rotated_nil]
      · have hlength := h.2 hall v.2 plane hplane hempty
        obtain ⟨u, hu⟩ := List.length_eq_one_iff.mp (le_antisymm hlength (List.length_pos_of_mem hmem))
        rw [hu, List.mem_singleton] at hmem
        rw [hu, hmem]
        rfl
    · intro key hkey
      have hnone : rotations delta layout.visits key = [] :=
        List.eq_nil_iff_forall_not_mem.mpr fun v hv => hkey v (mem_rotations.mp hv).1 (mem_rotations.mp hv).2.1
          (mem_rotations.mp hv).2.2
      rw [foldl_visited, hnone]
      rfl
  · rw [relocateSessionPlanes_of_error heq hbefore hv]
    intro he
    funext key
    rw [foldl_visited]
    cases hl : rotations delta before key with
    | nil => rfl
    | cons u l =>
      have hu : u ∈ rotations delta before key := hl ▸ List.mem_cons_self
      obtain ⟨hmem, hrotates, rfl⟩ := mem_rotations.mp hu
      rw [h.1 before v after e heq hbefore hv he u hmem hrotates, foldl_rotated_nil]

/-- A map that tells never, once and more often apart. -/
theorem exists_probe (x : Element) : ∃ (b : Element) (f : Element → Element), b ≠ f x ∧ (∀ n, f^[n + 1] x ≠ x) ∧
    ∀ n, f^[n + 2] x = b := by
  have : Nontrivial UInt8 := ⟨0, 1, by decide⟩
  obtain ⟨low, hlow⟩ := exists_ne x.1
  obtain ⟨high, hhigh⟩ := exists_ne x.2
  have ha : (low, x.2) ≠ x := fun heq => hlow (congrArg Prod.fst heq)
  have hb : (x.1, high) ≠ x := fun heq => hhigh (congrArg Prod.snd heq)
  let f : Element → Element := fun y => if y = x then (low, x.2) else (x.1, high)
  have hx : f x = (low, x.2) := if_pos rfl
  have hlast : ∀ n, f^[n + 2] x = (x.1, high) := by
    intro n
    rw [Function.iterate_succ_apply, Function.iterate_succ_apply, hx, show f (low, x.2) = _ from if_neg ha]
    exact Function.iterate_fixed (show f (x.1, high) = _ from if_neg hb) n
  refine ⟨(x.1, high), f, fun heq => hlow (congrArg Prod.fst (heq.trans hx)).symm, fun n => ?_, hlast⟩
  cases n with
  | zero =>
    rw [Function.iterate_one, hx]
    exact ha
  | succ n =>
    rw [hlast]
    exact hb

theorem Relocatable.of_allOrNothing (h : ∀ rotate, AllOrNothing rotate layout delta planes) :
    Relocatable layout delta planes := by
  constructor
  · intro before v after e heq hbefore hv he u hu hrotates
    obtain ⟨plane, hplane, -⟩ := rotatable_of_admits (hbefore u hu) hrotates
    by_contra hempty
    have hne : plane ≠ [] := fun hnil => hempty (hnil ▸ hplane)
    obtain ⟨b, f, -, hmoved, -⟩ := exists_probe (readElement plane 0)
    obtain ⟨plane', hfold, hread⟩ := foldl_rotated_first delta f hne (rotatable_of_mem_rotations hbefore hplane)
    have hkept := h fun _ _ _ _ x y => (f x, y)
    rw [AllOrNothing, relocateSessionPlanes_of_error heq hbefore hv] at hkept
    have hkey := congrFun (hkept he) u.2
    rw [foldl_visited, hplane, hfold, Option.some.injEq] at hkey
    have hmem : u ∈ rotations delta before u.2 := mem_rotations.mpr ⟨hu, hrotates, rfl⟩
    obtain ⟨n, hn⟩ := Nat.exists_eq_succ_of_ne_zero (List.length_pos_of_mem hmem).ne'
    rw [hkey, hn] at hread
    exact hmoved n hread.symm
  · intro hall key plane hplane hne
    by_contra htwice
    obtain ⟨n, hn⟩ := Nat.exists_eq_add_of_lt (not_le.mp htwice)
    obtain ⟨v, hv⟩ := List.exists_mem_of_length_pos (show 0 < (rotations delta layout.visits key).length by omega)
    have hrotatable := rotatable_of_mem_rotations hall hplane
    obtain ⟨b, f, hb, -, hlast⟩ := exists_probe (readElement plane 0)
    obtain ⟨plane', hfold, hread⟩ := foldl_rotated_first delta f hne hrotatable
    obtain ⟨report, hreport⟩ := relocateSessionPlanes_of_ok (fun _ _ _ _ x y => (f x, y)) hall
    have hrelocated := h fun _ _ _ _ x y => (f x, y)
    rw [AllOrNothing, hreport] at hrelocated
    obtain ⟨hmem, hrotates, rfl⟩ := mem_rotations.mp hv
    obtain ⟨before, after, hbefore, hafter, honce⟩ := hrelocated.rotated v hmem hrotates
    rw [foldl_visited, hplane, hfold, Option.some.injEq] at hafter
    rw [hplane, Option.some.injEq] at hbefore
    subst hbefore hafter
    rw [honce.first (hrotatable v hv) hne, hn, Nat.add_comm 1 n, hlast] at hread
    exact hb hread.symm

/-- A relocation rotates each plane once or fails and leaves every plane as it was, whatever the rotation of a pair
does, exactly when no plane with bytes is rotated twice or before one that is refused. -/
theorem session_relocation_all_or_nothing (layout : PortablePrefillLayoutV2) (delta : PositionDelta) (planes : Planes) :
    (∀ rotate, AllOrNothing rotate layout delta planes) ↔ Relocatable layout delta planes :=
  ⟨Relocatable.of_allOrNothing, fun h _ => h.allOrNothing⟩

/-- Two rotating layers with one head of two elements. -/
def twoLayers : PortablePrefillLayoutV2 where
  numLayers := 2
  classes := [⟨"gqa-full", 0, 2, 1, [], 1, 2, 0, 0x40C3880000000000, 2, "none", .neox⟩]

/-- A session of one token whose second layer is missing. -/
def firstLayerOnly : Planes := fun key => if key.layer = 0 then some [1, 0, 2, 0] else none

theorem firstLayerOnly_half_relocated : ¬ AllOrNothing (fun _ _ _ _ x y => (y, x)) twoLayers 1 firstLayerOnly := by
  intro h
  have hkept : (relocateSessionPlanes (fun _ _ _ _ x y => (y, x)) twoLayers 1 firstLayerOnly).2 = firstLayerOnly :=
    h (show StoreError.notFound ≠ .panicked by decide)
  exact absurd (congrFun hkept ⟨0, "attn.k"⟩) (by decide)

end Kvpack.Prefill
