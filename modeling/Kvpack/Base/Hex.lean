import Kvpack.Base.Bytes

/-!
# Hexadecimal text

Bytes written as two lowercase digits each, and the reading of such text, which takes digits of either case.
-/

namespace Base

def hexDigit (n : UInt8) : Char := Char.ofNat (if n < 10 then 48 + n.toNat else 87 + n.toNat)

def hexEncode (bs : Bytes) : String := String.ofList (bs.flatMap fun b => [hexDigit (b / 16), hexDigit (b % 16)])

def hexValue (b : UInt8) : Option UInt8 :=
  if 48 ≤ b ∧ b ≤ 57 then some (b - 48)
  else if 97 ≤ b ∧ b ≤ 102 then some (b - 87)
  else if 65 ≤ b ∧ b ≤ 70 then some (b - 55)
  else none

def hexPairs : Bytes → Option Bytes
  | [] => some []
  | [_] => none
  | high :: low :: rest => do
      let high ← hexValue high
      let low ← hexValue low
      let bytes ← hexPairs rest
      return (high * 16 + low) :: bytes

def hexDecode (s : String) : Option Bytes := hexPairs (utf8 s)

def isLowerHex (b : UInt8) : Bool := decide (48 ≤ b ∧ b ≤ 57 ∨ 97 ≤ b ∧ b ≤ 102)

/-! ## What is written can be read -/

theorem hexDigit_checks : ∀ n : Fin 16, let c := hexDigit (UInt8.ofNat n)
    String.utf8EncodeChar c = [c.val.toUInt8] ∧ isLowerHex c.val.toUInt8 = true ∧
      hexValue c.val.toUInt8 = some (UInt8.ofNat n) := by decide

theorem exists_hexDigit {n : UInt8} (h : n < 16) : ∃ b, String.utf8EncodeChar (hexDigit n) = [b] ∧
    isLowerHex b = true ∧ hexValue b = some n := by
  have hn : n.toNat < 16 := UInt8.lt_iff_toNat_lt.mp h
  have hchecks := hexDigit_checks ⟨n.toNat, hn⟩
  rw [UInt8.ofNat_toNat] at hchecks
  exact ⟨_, hchecks⟩

theorem exists_hexDigits (b : UInt8) : ∃ high low,
    [hexDigit (b / 16), hexDigit (b % 16)].flatMap String.utf8EncodeChar = [high, low] ∧
      isLowerHex high = true ∧ isLowerHex low = true ∧ hexPairs [high, low] = some [b] := by
  have hdiv : b / 16 < 16 := by
    rw [UInt8.lt_iff_toNat_lt, UInt8.toNat_div]
    have := b.toNat_lt
    exact Nat.div_lt_of_lt_mul this
  have hmod : b % 16 < 16 := by
    rw [UInt8.lt_iff_toNat_lt, UInt8.toNat_mod]
    exact Nat.mod_lt _ (by decide)
  obtain ⟨high, hhigh, hhigh', hvalue⟩ := exists_hexDigit hdiv
  obtain ⟨low, hlow, hlow', hvalue'⟩ := exists_hexDigit hmod
  refine ⟨high, low, by simp [hhigh, hlow], hhigh', hlow', ?_⟩
  have hsum : b / 16 * 16 + b % 16 = b := by
    rw [← UInt8.toNat_inj, UInt8.toNat_add, UInt8.toNat_mul, UInt8.toNat_div, UInt8.toNat_mod]
    have := b.toNat_lt
    simp only [UInt8.reduceToNat]
    omega
  simp [hexPairs, hvalue, hvalue', hsum]

theorem utf8_hexEncode (bs : Bytes) :
    utf8 (hexEncode bs) = (bs.flatMap fun b => [hexDigit (b / 16), hexDigit (b % 16)]).flatMap
      String.utf8EncodeChar := by
  simp [utf8, hexEncode, List.utf8Encode]

theorem utf8_hexEncode_cons (b : UInt8) (bs : Bytes) : utf8 (hexEncode (b :: bs)) =
    [hexDigit (b / 16), hexDigit (b % 16)].flatMap String.utf8EncodeChar ++ utf8 (hexEncode bs) := by
  rw [utf8_hexEncode, utf8_hexEncode, List.flatMap_cons, List.flatMap_append]

@[simp]
theorem length_utf8_hexEncode (bs : Bytes) : (utf8 (hexEncode bs)).length = 2 * bs.length := by
  induction bs with
  | nil => rfl
  | cons b bs ih =>
    obtain ⟨high, low, hdigits, -⟩ := exists_hexDigits b
    rw [utf8_hexEncode_cons, hdigits, List.length_append, ih, List.length_cons]
    simp only [List.length_cons, List.length_nil]
    ring

theorem isLowerHex_of_mem_hexEncode {bs : Bytes} {c : UInt8} (h : c ∈ utf8 (hexEncode bs)) : isLowerHex c = true := by
  induction bs with
  | nil => cases h
  | cons b bs ih =>
    obtain ⟨high, low, hdigits, hhigh, hlow, -⟩ := exists_hexDigits b
    rw [utf8_hexEncode_cons, hdigits] at h
    simp only [List.cons_append, List.nil_append, List.mem_cons] at h
    rcases h with rfl | rfl | h
    · exact hhigh
    · exact hlow
    · exact ih h

theorem hexDecode_hexEncode (bs : Bytes) : hexDecode (hexEncode bs) = some bs := by
  unfold hexDecode
  induction bs with
  | nil => rfl
  | cons b bs ih =>
    obtain ⟨high, low, hdigits, -, -, hpair⟩ := exists_hexDigits b
    rw [utf8_hexEncode_cons, hdigits]
    simp only [hexPairs, Option.bind_eq_bind, Option.bind_eq_some_iff, Option.pure_def, Option.some.injEq,
      List.cons.injEq] at hpair
    obtain ⟨high', hhigh, low', hlow, rest, rfl, hvalue, -⟩ := hpair
    simp only [List.cons_append, List.nil_append, hexPairs, hhigh, hlow, ih, Option.bind_eq_bind, Option.bind_some,
      hvalue, Option.pure_def]

theorem hexEncode_inj {bs bs' : Bytes} : hexEncode bs = hexEncode bs' ↔ bs = bs' := by
  constructor
  · intro h
    have hdecode := congrArg hexDecode h
    rw [hexDecode_hexEncode, hexDecode_hexEncode] at hdecode
    exact Option.some.inj hdecode
  · rintro rfl
    rfl

end Base
