import Kvpack.Core.Basic

/-!
# Canonical byte fields

The primitive fields of every canonical object. An encoding is the bytes it appends; the decoder is a parser of the
remaining input, so its offset never passes the end.
-/

namespace Kvpack.Core

open Base

variable {n : Nat}

/-! ## Writing -/

def u8TryFrom (n : Nat) : Option UInt8 := if n < 2 ^ 8 then some (UInt8.ofNat n) else none
def u16TryFrom (n : Nat) : Option UInt16 := if n < 2 ^ 16 then some (UInt16.ofNat n) else none
def u32TryFrom (n : Nat) : Option UInt32 := if n < 2 ^ 32 then some (UInt32.ofNat n) else none
def u64TryFrom (n : Nat) : Option UInt64 := if n < 2 ^ 64 then some (UInt64.ofNat n) else none

def encodeString (s : String) : Except PackError Bytes := do
  let len ← okOr (u16TryFrom (utf8 s).length) (.bounds "string is too long")
  return le16 len ++ utf8 s

theorem tryFrom_eq_some {α : Type} {size : Nat} {ofNat : Nat → α} {toNat : α → Nat} {v : α} (hlt : ∀ v, toNat v < size)
    (htoNat : ∀ n < size, toNat (ofNat n) = n) (hofNat : ∀ v, ofNat (toNat v) = v) :
    (if n < size then some (ofNat n) else none) = some v ↔ toNat v = n := by
  split
  · rename_i h
    rw [Option.some_inj]
    constructor
    · rintro rfl
      exact htoNat n h
    · rintro rfl
      exact hofNat v
  · rename_i h
    simp only [reduceCtorEq, false_iff]
    rintro rfl
    exact h (hlt v)

theorem u8TryFrom_eq_some {v : UInt8} : u8TryFrom n = some v ↔ v.toNat = n :=
  tryFrom_eq_some UInt8.toNat_lt (fun _ => UInt8.toNat_ofNat_of_lt') fun _ => UInt8.ofNat_toNat

theorem u16TryFrom_eq_some {v : UInt16} : u16TryFrom n = some v ↔ v.toNat = n :=
  tryFrom_eq_some UInt16.toNat_lt (fun _ => UInt16.toNat_ofNat_of_lt') fun _ => UInt16.ofNat_toNat

theorem u32TryFrom_eq_some {v : UInt32} : u32TryFrom n = some v ↔ v.toNat = n :=
  tryFrom_eq_some UInt32.toNat_lt (fun _ => UInt32.toNat_ofNat_of_lt') fun _ => UInt32.ofNat_toNat

theorem u64TryFrom_eq_some {v : UInt64} : u64TryFrom n = some v ↔ v.toNat = n :=
  tryFrom_eq_some UInt64.toNat_lt (fun _ => UInt64.toNat_ofNat_of_lt') fun _ => UInt64.ofNat_toNat

/-! ## Reading -/

abbrev Decoder (α : Type) := Parser PackError α

namespace Decoder

def truncatedObject : PackError := .truncated "truncated canonical object"

def new (magic : Bytes) : Decoder Unit := do
  let found ← Parser.take truncatedObject 8
  Parser.check (rejectIf (found ≠ magic) (.badMagic "invalid canonical object magic"))

def take (len : Nat) : Decoder Bytes := Parser.take truncatedObject len
def u8 : Decoder UInt8 := Parser.word8 truncatedObject
def u16 : Decoder UInt16 := Parser.word16 truncatedObject
def u32 : Decoder UInt32 := Parser.word32 truncatedObject
def u64 : Decoder UInt64 := Parser.word64 truncatedObject

def byteArr (n : Nat) : Decoder (ByteArr n) := do
  let bs ← take n
  Parser.check (if h : bs.length = n then .ok ⟨bs, h⟩ else .error truncatedObject)

def id : Decoder Id32 := byteArr 32

def string : Decoder String := do
  let len ← u16
  let bs ← take len.toNat
  Parser.check (okOr (ofUtf8 bs) (.semantics "state name is not UTF-8"))

def finish : Decoder Unit := Parser.finish (.reserved "trailing canonical bytes")

def expect16 (expected : UInt16) (e : PackError) : Decoder Unit := do
  let v ← u16
  Parser.check (rejectIf (v ≠ expected) e)

end Decoder

variable {rest magic : Bytes} {s : String} {expected : UInt16} {e : PackError}

theorem finish_eq_ok {p : Unit × Bytes} :
    Decoder.finish.run rest = .ok p ↔ rest = [] ∧ p = ((), []) := by
  show (if rest = [] then _ else _) = _ ↔ _
  split <;> simp_all [eq_comm]

/-! ## Each field reads back what was written, and reads a prefix -/

theorem inverse_new (h : magic.length = 8) : Inverse (Decoder.new magic) fun _ => magic := by
  intro inp _ rest
  simp only [Decoder.new, run_bind_eq_ok, run_take_eq_ok, run_check_eq_ok, rejectIf_eq_ok, not_not]
  constructor
  · rintro ⟨_, _, ⟨-, rfl⟩, rfl, rfl⟩
    rfl
  · rintro rfl
    exact ⟨magic, rest, ⟨h, rfl⟩, rfl, rfl⟩

theorem reads_new (h : magic.length = 8) : Reads (Decoder.new magic) magic () := (inverse_new h).reads ()

theorem inverse_u8 : Inverse Decoder.u8 fun v => [v] := .word8 _
theorem inverse_u16 : Inverse Decoder.u16 le16 := .word16 _
theorem inverse_u32 : Inverse Decoder.u32 le32 := .word32 _
theorem inverse_u64 : Inverse Decoder.u64 le64 := .word64 _

theorem inverse_byteArr (n : Nat) : Inverse (Decoder.byteArr n) fun v => v.val := by
  intro inp v rest
  simp only [Decoder.byteArr, Decoder.take, run_bind_eq_ok, run_take_eq_ok, run_check_eq_ok]
  constructor
  · rintro ⟨bs, _, ⟨hlen, rfl⟩, hv, rfl⟩
    rw [dif_pos hlen] at hv
    cases hv
    rfl
  · rintro rfl
    exact ⟨v.val, rest, ⟨v.property, rfl⟩, dif_pos v.property, rfl⟩

theorem inverse_id : Inverse Decoder.id fun v => v.val := inverse_byteArr 32

theorem reads_u8 (v : UInt8) : Reads Decoder.u8 [v] v := inverse_u8.reads v
theorem reads_u16 (v : UInt16) : Reads Decoder.u16 (le16 v) v := inverse_u16.reads v
theorem reads_u32 (v : UInt32) : Reads Decoder.u32 (le32 v) v := inverse_u32.reads v
theorem reads_u64 (v : UInt64) : Reads Decoder.u64 (le64 v) v := inverse_u64.reads v
theorem reads_id (v : Id32) : Reads Decoder.id v.val v := inverse_id.reads v

theorem run_string_eq_ok {inp : Bytes} :
    Decoder.string.run inp = .ok (s, rest) ↔ ∃ bs, encodeString s = .ok bs ∧ inp = bs ++ rest := by
  simp only [Decoder.string, Decoder.take, run_bind_eq_ok, inverse_u16 _ _ _, run_take_eq_ok, run_check_eq_ok,
    okOr_eq_ok, encodeString, u16TryFrom_eq_some, bind_eq_ok, pure_eq_ok]
  constructor
  · rintro ⟨len, _, rfl, bs, _, ⟨hlen, rfl⟩, hs, rfl⟩
    obtain rfl := utf8_of_ofUtf8 hs
    exact ⟨_, ⟨len, hlen.symm, rfl⟩, (List.append_assoc ..).symm⟩
  · rintro ⟨_, ⟨len, hlen, rfl⟩, rfl⟩
    exact ⟨len, _, List.append_assoc .., utf8 s, rest, ⟨hlen.symm, rfl⟩, ofUtf8_utf8 s, rfl⟩

theorem reads_string {bs : Bytes} (h : encodeString s = .ok bs) : Reads Decoder.string bs s :=
  fun _ => run_string_eq_ok.mpr ⟨bs, h, rfl⟩

theorem inverse_expect16 :
    Inverse (Decoder.expect16 expected e) fun _ => le16 expected := by
  intro inp _ rest
  simp only [Decoder.expect16, run_bind_eq_ok, inverse_u16 _ _ _, run_check_eq_ok, rejectIf_eq_ok, not_not]
  constructor
  · rintro ⟨_, _, rfl, rfl, rfl⟩
    rfl
  · rintro rfl
    exact ⟨expected, rest, rfl, rfl, rfl⟩

theorem reads_expect16 :
    Reads (Decoder.expect16 expected e) (le16 expected) () := inverse_expect16.reads ()

end Kvpack.Core
