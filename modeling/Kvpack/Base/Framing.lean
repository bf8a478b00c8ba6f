import Kvpack.Base.Parse

/-!
# Unique framing

A preimage is a concatenation of fields, and equal preimages have equal fields when each field marks its own end: by a
fixed width, by a length written before it, or by a terminator that does not occur in it. Each lemma takes one field off
both sides.
-/

namespace Base

variable {ε α : Type}
variable {a b r s : Bytes} {P : α → Prop} {f : α → Except ε Bytes}

/-! ## Fields of fixed width -/

theorem append_inj_of_length (h : a.length = b.length) : a ++ r = b ++ s ↔ a = b ∧ r = s := by
  constructor
  · intro heq
    exact List.append_inj heq h
  · rintro ⟨rfl, rfl⟩
    rfl

@[simp]
theorem le16_append_inj {a b : UInt16} : le16 a ++ r = le16 b ++ s ↔ a = b ∧ r = s := by
  rw [append_inj_of_length (by simp), le16_inj]

@[simp]
theorem le32_append_inj {a b : UInt32} : le32 a ++ r = le32 b ++ s ↔ a = b ∧ r = s := by
  rw [append_inj_of_length (by simp), le32_inj]

@[simp]
theorem le64_append_inj {a b : UInt64} : le64 a ++ r = le64 b ++ s ↔ a = b ∧ r = s := by
  rw [append_inj_of_length (by simp), le64_inj]

@[simp]
theorem byteArr_append_inj {n : Nat} {a b : ByteArr n} : a.val ++ r = b.val ++ s ↔ a = b ∧ r = s := by
  rw [append_inj_of_length (by rw [a.property, b.property]), Subtype.ext_iff]

/-! ## Terminated fields -/

theorem append_terminated_inj {t : UInt8} (ha : t ∉ a) (hb : t ∉ b) :
    a ++ t :: r = b ++ t :: s ↔ a = b ∧ r = s := by
  constructor
  · intro h
    induction a generalizing b with
    | nil =>
      cases b with
      | nil => exact ⟨rfl, by simpa using h⟩
      | cons y b =>
        simp only [List.nil_append, List.cons_append, List.cons.injEq] at h
        exact absurd (h.1 ▸ List.mem_cons_self) hb
    | cons x a ih =>
      cases b with
      | nil =>
        simp only [List.nil_append, List.cons_append, List.cons.injEq] at h
        exact absurd (h.1 ▸ List.mem_cons_self) ha
      | cons y b =>
        simp only [List.cons_append, List.cons.injEq] at h
        obtain ⟨rfl, htail⟩ := h
        obtain ⟨rfl, rfl⟩ := ih (fun hm => ha (List.mem_cons_of_mem _ hm)) (fun hm => hb (List.mem_cons_of_mem _ hm))
          htail
        exact ⟨rfl, rfl⟩
  · rintro ⟨rfl, rfl⟩
    rfl

/-! ## Encoders that mark their own end -/

/-- On values with `P`, what `f` writes comes off the front of a string in one way only. -/
def Framed (P : α → Prop) (f : α → Except ε Bytes) : Prop :=
  ∀ ⦃x y a b r s⦄, P x → P y → f x = .ok a → f y = .ok b → a ++ r = b ++ s → x = y ∧ r = s

theorem Framed.of_reads {p : Parser ε α}
    (h : ∀ x a, P x → f x = .ok a → Reads p a x) : Framed P f := by
  intro x y a b r s hx hy ha hb heq
  obtain ⟨rfl, rfl⟩ := (h x a hx ha).unique (h y b hy hb) heq
  exact ⟨rfl, List.append_cancel_left heq⟩

/-- Framed elements make framed lists, once the number of elements is known. -/
theorem Framed.writeAll (hf : Framed P f) {xs ys : List α}
    (hlen : xs.length = ys.length) (hxs : ∀ x ∈ xs, P x) (hys : ∀ y ∈ ys, P y) (ha : writeAll f xs = .ok a)
    (hb : writeAll f ys = .ok b) (heq : a ++ r = b ++ s) : xs = ys ∧ r = s := by
  induction xs generalizing ys a b with
  | nil =>
    cases ys with
    | nil =>
      cases ha
      cases hb
      exact ⟨rfl, heq⟩
    | cons y ys => simp at hlen
  | cons x xs ih =>
    cases ys with
    | nil => simp at hlen
    | cons y ys =>
      simp only [Base.writeAll, bind_eq_ok, pure_eq_ok] at ha hb
      obtain ⟨ax, hax, as, has, rfl⟩ := ha
      obtain ⟨bx, hbx, bs, hbs, rfl⟩ := hb
      rw [List.append_assoc, List.append_assoc] at heq
      obtain ⟨rfl, htail⟩ := hf (hxs x List.mem_cons_self) (hys y List.mem_cons_self) hax hbx heq
      obtain ⟨rfl, rfl⟩ := ih (Nat.succ.inj hlen) (fun z hz => hxs z (List.mem_cons_of_mem _ hz))
        (fun z hz => hys z (List.mem_cons_of_mem _ hz)) has hbs htail
      exact ⟨rfl, rfl⟩

theorem writeAll_ok (f : α → Bytes) (xs : List α) :
    writeAll (fun x => (.ok (f x) : Except ε Bytes)) xs = .ok (xs.flatMap f) := by
  induction xs with
  | nil => rfl
  | cons x xs ih =>
    rw [Base.writeAll, ok_bind, ih]
    rfl

theorem flatMap_append_inj {f : α → Bytes} {xs ys : List α}
    (hf : ∀ ⦃x y r s⦄, P x → P y → f x ++ r = f y ++ s → x = y ∧ r = s) (hlen : xs.length = ys.length)
    (hxs : ∀ x ∈ xs, P x) (hys : ∀ y ∈ ys, P y) (heq : xs.flatMap f ++ r = ys.flatMap f ++ s) : xs = ys ∧ r = s := by
  have hframed : Framed P fun x => (.ok (f x) : Except Unit Bytes) := by
    intro x y a b r s hx hy ha hb heq
    cases ha
    cases hb
    exact hf hx hy heq
  exact hframed.writeAll hlen hxs hys (writeAll_ok f xs) (writeAll_ok f ys) heq

end Base
