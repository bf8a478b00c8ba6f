import Mathlib.Tactic

/-!
# Byte strings and little-endian words

Byte strings are lists of bytes. A word of `w` bytes is written least significant byte first; on words of that
width writing and reading are inverse to each other.
-/

namespace Base

variable {n : Nat} {a b : Bytes}
variable {w offset len : Nat} {bs : Bytes}

abbrev Bytes := List UInt8

abbrev ByteArr (n : Nat) := {bs : Bytes // bs.length = n}

def ByteArr.zero (n : Nat) : ByteArr n := ⟨List.replicate n 0, List.length_replicate⟩

/-! ## Words -/

def leBytes : Nat → Nat → Bytes
  | 0, _ => []
  | w + 1, n => UInt8.ofNat (n % 256) :: leBytes w (n / 256)

def leNat : Bytes → Nat
  | [] => 0
  | b :: bs => b.toNat + 256 * leNat bs

@[simp]
theorem length_leBytes (w n : Nat) : (leBytes w n).length = w := by
  induction w generalizing n with
  | zero => rfl
  | succ w ih => simp [leBytes, ih]

theorem leNat_leBytes {n : Nat} (h : n < 256 ^ w) : leNat (leBytes w n) = n := by
  induction w generalizing n with
  | zero =>
    have : n = 0 := by simpa using h
    simp [leBytes, leNat, this]
  | succ w ih =>
    have hdiv : n / 256 < 256 ^ w := Nat.div_lt_of_lt_mul (by rw [pow_succ] at h; omega)
    have hbyte : (UInt8.ofNat (n % 256)).toNat = n % 256 :=
      UInt8.toNat_ofNat_of_lt' (Nat.mod_lt n (by decide))
    rw [leBytes, leNat, ih hdiv, hbyte]
    omega

theorem leNat_lt (bs : Bytes) : leNat bs < 256 ^ bs.length := by
  induction bs with
  | nil => simp [leNat]
  | cons b bs ih =>
    have hb := b.toNat_lt
    rw [leNat, List.length_cons, pow_succ]
    omega

theorem leBytes_leNat (bs : Bytes) : leBytes bs.length (leNat bs) = bs := by
  induction bs with
  | nil => rfl
  | cons b bs ih =>
    have hb : b.toNat < 256 := b.toNat_lt
    have hmod : (b.toNat + 256 * leNat bs) % 256 = b.toNat := by omega
    have hdiv : (b.toNat + 256 * leNat bs) / 256 = leNat bs := by omega
    simp only [List.length_cons, leBytes, leNat, hmod, hdiv, ih, UInt8.ofNat_toNat]

theorem leBytes_inj {m n : Nat} (hm : m < 256 ^ w) (hn : n < 256 ^ w) :
    leBytes w m = leBytes w n ↔ m = n := by
  constructor
  · intro h
    rw [← leNat_leBytes hm, h, leNat_leBytes hn]
  · rintro rfl
    rfl

/-! ## The four word sizes -/

def le16 (v : UInt16) : Bytes := leBytes 2 v.toNat
def le32 (v : UInt32) : Bytes := leBytes 4 v.toNat
def le64 (v : UInt64) : Bytes := leBytes 8 v.toNat

@[simp] theorem length_le16 (v : UInt16) : (le16 v).length = 2 := length_leBytes 2 _
@[simp] theorem length_le32 (v : UInt32) : (le32 v).length = 4 := length_leBytes 4 _
@[simp] theorem length_le64 (v : UInt64) : (le64 v).length = 8 := length_leBytes 8 _

@[simp]
theorem leNat_le16 (v : UInt16) : leNat (le16 v) = v.toNat := leNat_leBytes v.toNat_lt

@[simp]
theorem leNat_le32 (v : UInt32) : leNat (le32 v) = v.toNat := leNat_leBytes v.toNat_lt

@[simp]
theorem leNat_le64 (v : UInt64) : leNat (le64 v) = v.toNat := leNat_leBytes v.toNat_lt

@[simp]
theorem le16_inj {a b : UInt16} : le16 a = le16 b ↔ a = b := by
  rw [le16, le16, leBytes_inj a.toNat_lt b.toNat_lt, UInt16.toNat_inj]

@[simp]
theorem le32_inj {a b : UInt32} : le32 a = le32 b ↔ a = b := by
  rw [le32, le32, leBytes_inj a.toNat_lt b.toNat_lt, UInt32.toNat_inj]

@[simp]
theorem le64_inj {a b : UInt64} : le64 a = le64 b ↔ a = b := by
  rw [le64, le64, leBytes_inj a.toNat_lt b.toNat_lt, UInt64.toNat_inj]

/-! ## Text -/

def utf8 (s : String) : Bytes := s.toByteArray.data.toList

def ofUtf8 (bs : Bytes) : Option String := String.fromUTF8? ⟨⟨bs⟩⟩

@[simp]
theorem ofUtf8_utf8 (s : String) : ofUtf8 (utf8 s) = some s := by
  unfold ofUtf8 String.fromUTF8? utf8
  exact dif_pos s.isValidUTF8

theorem utf8_of_ofUtf8 {s : String} (h : ofUtf8 bs = some s) : utf8 s = bs := by
  unfold ofUtf8 String.fromUTF8? at h
  split at h
  · cases h
    rfl
  · cases h

theorem utf8_inj {s t : String} (h : utf8 s = utf8 t) : s = t := by
  have h' := congrArg ofUtf8 h
  simpa using h'

/-! ## Fields at fixed offsets -/

def zeros (n : Nat) : Bytes := List.replicate n 0

@[simp] theorem length_zeros (n : Nat) : (zeros n).length = n := List.length_replicate

theorem eq_zero_of_mem_zeros {b : UInt8} (h : b ∈ zeros n) : b = 0 := List.eq_of_mem_replicate h

def field (src : Bytes) (offset len : Nat) : Bytes := (src.drop offset).take len

def field16 (src : Bytes) (offset : Nat) : UInt16 := UInt16.ofNat (leNat (field src offset 2))
def field32 (src : Bytes) (offset : Nat) : UInt32 := UInt32.ofNat (leNat (field src offset 4))
def field64 (src : Bytes) (offset : Nat) : UInt64 := UInt64.ofNat (leNat (field src offset 8))

theorem drop_past (h : a.length ≤ n) : (a ++ b).drop n = b.drop (n - a.length) := by
  rw [List.drop_append, List.drop_eq_nil_of_le h, List.nil_append]

theorem take_past (h : a.length ≤ n) : (a ++ b).take n = a ++ b.take (n - a.length) := by
  rw [List.take_append, List.take_of_length_le h]

theorem field_append_right (h : a.length ≤ offset) :
    field (a ++ b) offset len = field b (offset - a.length) len := by
  rw [field, field, drop_past h]

theorem field_append_left (h : offset + len ≤ a.length) :
    field (a ++ b) offset len = field a offset len := by
  rw [field, field, List.drop_append_of_le_length (by omega), List.take_append_of_le_length (by simp; omega)]

theorem field_whole {a : Bytes} (h : a.length = len) : field a 0 len = a := by
  rw [field, List.drop_zero, ← h, List.take_length]

theorem field_here (h : a.length = len) : field (a ++ b) 0 len = a := by
  rw [field_append_left (by omega), field_whole h]

theorem field16_append_right (h : a.length ≤ offset) :
    field16 (a ++ b) offset = field16 b (offset - a.length) := by
  rw [field16, field16, field_append_right h]

theorem field32_append_right (h : a.length ≤ offset) :
    field32 (a ++ b) offset = field32 b (offset - a.length) := by
  rw [field32, field32, field_append_right h]

theorem field64_append_right (h : a.length ≤ offset) :
    field64 (a ++ b) offset = field64 b (offset - a.length) := by
  rw [field64, field64, field_append_right h]

@[simp]
theorem field16_le16 (v : UInt16) (b : Bytes) : field16 (le16 v ++ b) 0 = v := by
  rw [field16, field_here (length_le16 v), leNat_le16, UInt16.ofNat_toNat]

@[simp]
theorem field32_le32 (v : UInt32) (b : Bytes) : field32 (le32 v ++ b) 0 = v := by
  rw [field32, field_here (length_le32 v), leNat_le32, UInt32.ofNat_toNat]

@[simp]
theorem field64_le64 (v : UInt64) (b : Bytes) : field64 (le64 v ++ b) 0 = v := by
  rw [field64, field_here (length_le64 v), leNat_le64, UInt64.ofNat_toNat]

theorem leNat_zeros (n : Nat) : leNat (zeros n) = 0 := by
  induction n with
  | zero => rfl
  | succ n ih =>
    have h : zeros (n + 1) = 0 :: zeros n := rfl
    rw [h, leNat, ih]
    rfl

theorem zeros_add (m n : Nat) : zeros (m + n) = zeros m ++ zeros n := List.replicate_add m n 0

theorem field16_zeros (n : Nat) (b : Bytes) : field16 (zeros (2 + n) ++ b) 0 = 0 := by
  rw [zeros_add, List.append_assoc, field16, field_here (length_zeros 2), leNat_zeros]
  rfl

theorem field32_zeros (b : Bytes) : field32 (zeros 4 ++ b) 0 = 0 := by
  rw [field32, field_here (length_zeros 4), leNat_zeros]
  rfl

theorem field64_zeros (b : Bytes) : field64 (zeros 8 ++ b) 0 = 0 := by
  rw [field64, field_here (length_zeros 8), leNat_zeros]
  rfl

theorem drop_eq_field (bs : Bytes) (offset len : Nat) :
    bs.drop offset = field bs offset len ++ bs.drop (offset + len) := by
  rw [field, ← List.drop_drop, List.take_append_drop]

theorem length_field (h : offset + len ≤ bs.length) : (field bs offset len).length = len := by
  simp only [field, List.length_take, List.length_drop]
  omega

theorem leNat_field_lt (bs : Bytes) (offset len : Nat) : leNat (field bs offset len) < 256 ^ len := by
  have hle : (field bs offset len).length ≤ len := by simp [field]
  exact lt_of_lt_of_le (leNat_lt _) (Nat.pow_le_pow_right (by decide) hle)

theorem leBytes_field (h : offset + len ≤ bs.length) :
    leBytes len (leNat (field bs offset len)) = field bs offset len := by
  have hback := leBytes_leNat (field bs offset len)
  rwa [length_field h] at hback

/-! A source that is long enough is read off its words. -/

theorem drop_eq_le16 (h : offset + 2 ≤ bs.length) :
    bs.drop offset = le16 (field16 bs offset) ++ bs.drop (offset + 2) := by
  rw [le16, field16, UInt16.toNat_ofNat_of_lt' (leNat_field_lt bs offset 2), leBytes_field h]
  exact drop_eq_field bs offset 2

theorem drop_eq_le32 (h : offset + 4 ≤ bs.length) :
    bs.drop offset = le32 (field32 bs offset) ++ bs.drop (offset + 4) := by
  rw [le32, field32, UInt32.toNat_ofNat_of_lt' (leNat_field_lt bs offset 4), leBytes_field h]
  exact drop_eq_field bs offset 4

/-- The `n` bytes at `offset`, padded with zeros where the source is too short. -/
def arrayAt (n : Nat) (src : Bytes) (offset : Nat) : ByteArr n :=
  ⟨(field src offset n ++ zeros n).take n, by simp⟩

theorem arrayAt_append_right (h : a.length ≤ offset) :
    arrayAt n (a ++ b) offset = arrayAt n b (offset - a.length) := by
  rw [arrayAt]
  simp only [field_append_right h]
  rfl

theorem arrayAt_here (v : ByteArr n) (b : Bytes) : arrayAt n (v.val ++ b) 0 = v := by
  apply Subtype.ext
  rw [arrayAt]
  simp only [field_here v.property]
  rw [List.take_append_of_le_length v.property.ge, List.take_of_length_le v.property.le]

end Base
