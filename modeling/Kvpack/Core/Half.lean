import Kvpack.Base.Ieee
import Kvpack.Core.Basic

/-!
# Half and single precision

The conversions between binary16 and binary32 by bit manipulation, and the platform's operations on singles and
doubles that the statistics use. Bit fields joined with a bitwise or never overlap, so they are added here.
-/

namespace Kvpack.Core

open Base

/-- A single: its sign and the 31 bits below it. -/
structure F32 where
  sign : Bool
  bits : Nat
  bits_lt : bits < 2 ^ 31
  deriving DecidableEq

namespace F32

def ofBits (sign : Bool) (bits : Nat) : F32 := ⟨sign, bits % 2 ^ 31, Nat.mod_lt _ (by decide)⟩

def infinityBits : Nat := 0x7f800000

def infinity : F32 := ofBits false infinityBits
def negInfinity : F32 := ofBits true infinityBits

def isNan (x : F32) : Prop := infinityBits < x.bits
def isFinite (x : F32) : Prop := x.bits < infinityBits

instance (x : F32) : Decidable x.isNan := inferInstanceAs (Decidable (infinityBits < x.bits))
instance (x : F32) : Decidable x.isFinite := inferInstanceAs (Decidable (x.bits < infinityBits))

/-- Numeric order of values that are not NaN: the two zeros have the same key. -/
def key (x : F32) : Int := if x.sign then -(x.bits : Int) else x.bits

/-- The order of `total_cmp`, which also tells the zeros apart and ranks NaN. -/
def totalKey (x : F32) : Int := if x.sign then -(x.bits : Int) - 1 else x.bits

end F32

/-! ## Conversions -/

/-- Shift a nonzero mantissa left until bit 10 is set. -/
def normalizeMantissa (mantissa : Nat) (exponent : Int) : Nat × Int :=
  if 0 < mantissa ∧ mantissa < 2 ^ 10 then normalizeMantissa (2 * mantissa) (exponent - 1) else (mantissa, exponent)
termination_by 2 ^ 10 - mantissa

def f16ToF32 (bits : UInt16) : F32 :=
  let sign := decide (2 ^ 15 ≤ bits.toNat)
  let exponent := bits.toNat / 2 ^ 10 % 2 ^ 5
  let mantissa := bits.toNat % 2 ^ 10
  if exponent = 0 then
    if mantissa = 0 then .ofBits sign 0
    else
      let (mantissa, exponent) := normalizeMantissa mantissa (-14)
      .ofBits sign ((exponent + 127).toNat * 2 ^ 23 + mantissa % 2 ^ 10 * 2 ^ 13)
  else if exponent = 0x1f then
    if mantissa = 0 then .ofBits sign F32.infinityBits
    else .ofBits sign ((F32.infinityBits + mantissa * 2 ^ 13) ||| 0x00400000)
  else .ofBits sign ((exponent + 127 - 15) * 2 ^ 23 + mantissa * 2 ^ 13)

/-- Drop `shift` bits, rounding to nearest even. -/
def roundMantissa (mantissa shift : Nat) : Nat :=
  let dropped := mantissa % 2 ^ shift
  let kept := mantissa / 2 ^ shift
  let halfway := 2 ^ (shift - 1)
  kept + if halfway < dropped ∨ (dropped = halfway ∧ kept % 2 = 1) then 1 else 0

def f32ToF16 (value : F32) : UInt16 :=
  if value.isNan then 0x7e00
  else
    let sign := if value.sign then 0x8000 else 0
    let exponent : Int := (value.bits / 2 ^ 23 : Nat) - 127
    let mantissa := value.bits % 2 ^ 23
    if 15 < exponent then UInt16.ofNat (sign + 0x7c00)
    else if exponent < -24 then UInt16.ofNat sign
    else if -14 ≤ exponent then
      let rounded := roundMantissa mantissa 13
      if rounded = 0x400 then UInt16.ofNat (sign + (exponent + 16).toNat * 2 ^ 10)
      else UInt16.ofNat (sign + (exponent + 15).toNat * 2 ^ 10 + rounded)
    else
      let shift := (-14 - exponent).toNat
      UInt16.ofNat (sign + roundMantissa (mantissa + 2 ^ 23) (13 + shift))

/-! ## Minimum and maximum of singles

Which of two equal zeros is returned is left open by the platform, so the two operations are a parameter. -/

structure MinMax where
  min : F32 → F32 → F32
  max : F32 → F32 → F32
  min_cases : ∀ {a b}, ¬ a.isNan → ¬ b.isNan →
    (min a b = a ∧ a.key ≤ b.key) ∨ (min a b = b ∧ b.key ≤ a.key)
  max_cases : ∀ {a b}, ¬ a.isNan → ¬ b.isNan →
    (max a b = a ∧ b.key ≤ a.key) ∨ (max a b = b ∧ a.key ≤ b.key)

/-- The choice that keeps the first of two equal values. -/
def MinMax.first : MinMax where
  min a b := if a.key ≤ b.key then a else b
  max a b := if b.key ≤ a.key then a else b
  min_cases := by
    intro a b _ _
    split
    · exact Or.inl ⟨rfl, by assumption⟩
    · exact Or.inr ⟨rfl, by omega⟩
  max_cases := by
    intro a b _ _
    split
    · exact Or.inl ⟨rfl, by assumption⟩
    · exact Or.inr ⟨rfl, by omega⟩

/-! ## Non-negative doubles

Only sums of squares and their roots are computed in double precision, so the sign is always clear. A double is its bit
pattern; values are in units of the least subnormal, 2 ^ -1074, which for singles is 2 ^ -149. -/

namespace F64

def infinityBits : Nat := 0x7ff0000000000000

/-- The magnitude of a single, which every double holds exactly. -/
def ofF32 (x : F32) : Nat := roundBits 52 (mag 23 x.bits * 2 ^ 925) 1

def mul (a b : Nat) : Nat := min infinityBits (roundBits 52 (mag 52 a * mag 52 b) (2 ^ 1074))
def add (a b : Nat) : Nat := min infinityBits (roundBits 52 (mag 52 a + mag 52 b) 1)
def sqrt (a : Nat) : Nat := roundSqrt 52 (mag 52 a * 2 ^ 1074)

def toF32 (a : Nat) : F32 := .ofBits false (min F32.infinityBits (roundBits 23 (mag 52 a) (2 ^ 925)))

end F64

end Kvpack.Core
