import Mathlib.Tactic

/-!
# Early returns and checked arithmetic

A function that returns early on each failed check is a chain of binds in `Except`, left by `rejectIf` and `okOr`;
their inversion lemmas turn a successful run into the facts it checked. Below them, checked operations on 64-bit
words, characterised over the natural numbers.
-/

namespace Base

variable {ε α β : Type}
variable {e : ε} {xs : List α} {ys : List β} {R : α → β → Prop} {a b : UInt64} {values : List UInt64}
variable {c : Prop} {x : Except ε α} {f : β → α → Except ε β}

/-! ## Early returns -/

def rejectIf (c : Prop) [Decidable c] (e : ε) : Except ε Unit :=
  if c then .error e else .ok ()

/-- The value of an optional computation, or the error `e`. -/
def okOr (o : Option α) (e : ε) : Except ε α :=
  match o with
  | some a => .ok a
  | none => .error e

@[simp]
theorem rejectIf_eq_ok [Decidable c] {u : Unit} : rejectIf c e = .ok u ↔ ¬ c := by
  unfold rejectIf
  split <;> simp_all

theorem rejectIf_of_not [Decidable c] (h : ¬ c) : rejectIf c e = .ok () := if_neg h

theorem rejectIf_of [Decidable c] (h : c) : rejectIf c e = .error e := if_pos h

@[simp]
theorem okOr_eq_ok {o : Option α} {a : α} : okOr o e = .ok a ↔ o = some a := by
  cases o <;> simp [okOr]

@[simp]
theorem okOr_some (a : α) : okOr (some a) e = .ok a := rfl

/-- A bind succeeds exactly when its first part does and the second does on its value. -/
@[simp]
theorem bind_eq_ok {f : α → Except ε β} {b : β} :
    (x >>= f) = .ok b ↔ ∃ a, x = .ok a ∧ f a = .ok b := by
  cases x with
  | error _ | ok _ => simp [bind, Except.bind]

theorem exists_ok_of_isOk (h : x.isOk) : ∃ a, x = .ok a := by
  cases x with
  | ok a => exact ⟨a, rfl⟩
  | error e => cases h

@[simp]
theorem exists_unit {p : Unit → Prop} : (∃ u, p u) ↔ p () := Unique.exists_iff

@[simp]
theorem ok_bind (a : α) (f : α → Except ε β) : ((.ok a : Except ε α) >>= f) = f a := rfl

@[simp]
theorem error_bind (e : ε) (f : α → Except ε β) : ((.error e : Except ε α) >>= f) = .error e := rfl

@[simp]
theorem pure_eq_ok {a b : α} : (pure a : Except ε α) = .ok b ↔ a = b := by
  simp [pure, Except.pure]

@[simp]
theorem map_eq_ok {f : α → β} {b : β} :
    (f <$> x) = .ok b ↔ ∃ a, x = .ok a ∧ f a = b := by
  cases x <;> simp [Functor.map, Except.map]

def checkAll (f : α → Except ε Unit) : List α → Except ε Unit
  | [] => .ok ()
  | x :: xs => do
      f x
      checkAll f xs

@[simp]
theorem checkAll_eq_ok {f : α → Except ε Unit} {u : Unit} :
    checkAll f xs = .ok u ↔ ∀ x ∈ xs, f x = .ok () := by
  induction xs with
  | nil => simp [checkAll]
  | cons x xs ih => simp [checkAll, ih]

def collect (xs : List α) (f : α → Except ε β) : Except ε (List β) :=
  match xs with
  | [] => .ok []
  | x :: xs => do
      let y ← f x
      let ys ← collect xs f
      return y :: ys

theorem collect_eq_ok {f : α → Except ε β} :
    collect xs f = .ok ys ↔ List.Forall₂ (fun x y => f x = .ok y) xs ys := by
  induction xs generalizing ys with
  | nil => simp [collect, eq_comm]
  | cons x xs ih =>
    simp only [collect, bind_eq_ok, pure_eq_ok, ih, List.forall₂_cons_left_iff]
    constructor
    · rintro ⟨y, hy, ys, hys, rfl⟩
      exact ⟨y, ys, hy, hys, rfl⟩
    · rintro ⟨y, ys, hy, hys, rfl⟩
      exact ⟨y, hy, ys, hys, rfl⟩

theorem forall₂_exists_left (h : List.Forall₂ R xs ys) {y : β}
    (hy : y ∈ ys) : ∃ x ∈ xs, R x y := by
  induction h with
  | nil => cases hy
  | cons hxy _ ih =>
    rcases List.mem_cons.mp hy with rfl | hy
    · exact ⟨_, List.mem_cons_self, hxy⟩
    · obtain ⟨x, hx, hR⟩ := ih hy
      exact ⟨x, List.mem_cons_of_mem _ hx, hR⟩

theorem forall₂_exists_right (h : List.Forall₂ R xs ys) {x : α}
    (hx : x ∈ xs) : ∃ y ∈ ys, R x y := forall₂_exists_left h.flip hx

theorem exists_forall₂_of_forall (h : ∀ x ∈ xs, ∃ y, R x y) :
    ∃ ys, List.Forall₂ R xs ys := by
  induction xs with
  | nil => exact ⟨[], List.Forall₂.nil⟩
  | cons x xs ih =>
    obtain ⟨y, hy⟩ := h x List.mem_cons_self
    obtain ⟨ys, hys⟩ := ih fun z hz => h z (List.mem_cons_of_mem _ hz)
    exact ⟨y :: ys, List.Forall₂.cons hy hys⟩

theorem forall₂_imp_mem {R S : α → β → Prop} (h : List.Forall₂ R xs ys)
    (himp : ∀ x y, x ∈ xs → R x y → S x y) : List.Forall₂ S xs ys := by
  induction h with
  | nil => exact List.Forall₂.nil
  | cons hxy _ ih =>
    exact List.Forall₂.cons (himp _ _ List.mem_cons_self hxy) (ih fun x y hx => himp x y (List.mem_cons_of_mem _ hx))

theorem forall₂_map_eq {γ : Type} {f : α → γ} {g : β → γ}
    (h : List.Forall₂ R xs ys) (heq : ∀ x y, R x y → g y = f x) : xs.map f = ys.map g := by
  induction h with
  | nil => rfl
  | cons hxy _ ih => rw [List.map_cons, List.map_cons, heq _ _ hxy, ih]

/-! ## Folds that can fail -/

/-- Every element of a successful fold leaves its mark, which the later ones keep. -/
theorem foldlM_marks {I : β → Prop} {P : α → β → Prop} {b b' : β} (hI : I b)
    (hstep : ∀ a ∈ xs, ∀ b b', I b → f b a = .ok b' → I b' ∧ P a b' ∧ ∀ a', P a' b → P a' b')
    (h : xs.foldlM f b = .ok b') : I b' ∧ (∀ a ∈ xs, P a b') ∧ ∀ a, P a b → P a b' := by
  induction xs generalizing b with
  | nil =>
    rw [List.foldlM_nil, pure_eq_ok] at h
    subst h
    exact ⟨hI, nofun, fun _ hp => hp⟩
  | cons x xs ih =>
    rw [List.foldlM_cons, bind_eq_ok] at h
    obtain ⟨c, hx, hrest⟩ := h
    obtain ⟨hc, hmark, hkeep⟩ := hstep x List.mem_cons_self b c hI hx
    obtain ⟨hI', hall, hkeep'⟩ := ih hc (fun a ha => hstep a (List.mem_cons_of_mem _ ha)) hrest
    refine ⟨hI', ?_, fun a ha => hkeep' a (hkeep a ha)⟩
    intro a ha
    rcases List.mem_cons.mp ha with rfl | ha
    · exact hkeep' a hmark
    · exact hall a ha

theorem foldlM_total (hstep : ∀ a ∈ xs, ∀ b, ∃ b', f b a = .ok b') (b : β) :
    ∃ b', xs.foldlM f b = .ok b' := by
  induction xs generalizing b with
  | nil => exact ⟨b, rfl⟩
  | cons x xs ih =>
    obtain ⟨c, hc⟩ := hstep x List.mem_cons_self b
    obtain ⟨b', hb'⟩ := ih (fun a ha => hstep a (List.mem_cons_of_mem _ ha)) c
    exact ⟨b', by rw [List.foldlM_cons, hc, ok_bind, hb']⟩

theorem foldlM_congr {g : β → α → Except ε β} (h : ∀ a ∈ xs, ∀ b, f b a = g b a) (b : β) :
    xs.foldlM f b = xs.foldlM g b := by
  induction xs generalizing b with
  | nil => rfl
  | cons x xs ih =>
    rw [List.foldlM_cons, List.foldlM_cons, h x List.mem_cons_self b]
    congr
    funext c
    exact ih (fun a ha => h a (List.mem_cons_of_mem _ ha)) c

/-! ## Checked operations on 64-bit words -/

def checkedAdd (a b : UInt64) : Option UInt64 :=
  if a.toNat + b.toNat < 2 ^ 64 then some (a + b) else none

def checkedSub (a b : UInt64) : Option UInt64 :=
  if b ≤ a then some (a - b) else none

def checkedMul (a b : UInt64) : Option UInt64 :=
  if a.toNat * b.toNat < 2 ^ 64 then some (a * b) else none

theorem checkedAdd_eq_some {a b c : UInt64} :
    checkedAdd a b = some c ↔ c.toNat = a.toNat + b.toNat := by
  have hc := c.toNat_lt
  unfold checkedAdd
  split
  · rw [Option.some_inj, ← UInt64.toNat_inj, UInt64.toNat_add, Nat.mod_eq_of_lt (by assumption)]
    exact eq_comm
  · constructor
    · simp
    · omega

theorem checkedSub_eq_some {a b c : UInt64} :
    checkedSub a b = some c ↔ a.toNat = c.toNat + b.toNat := by
  unfold checkedSub
  split
  · rename_i h
    have h' : b.toNat ≤ a.toNat := UInt64.le_iff_toNat_le.mp h
    rw [Option.some_inj, ← UInt64.toNat_inj, UInt64.toNat_sub_of_le _ _ h]
    omega
  · rename_i h
    have h' : ¬ b.toNat ≤ a.toNat := fun hle => h (UInt64.le_iff_toNat_le.mpr hle)
    simp only [reduceCtorEq, false_iff]
    omega

theorem checkedMul_eq_some {a b c : UInt64} :
    checkedMul a b = some c ↔ c.toNat = a.toNat * b.toNat := by
  have hc := c.toNat_lt
  unfold checkedMul
  split
  · rw [Option.some_inj, ← UInt64.toNat_inj, UInt64.toNat_mul, Nat.mod_eq_of_lt (by assumption)]
    exact eq_comm
  · constructor
    · simp
    · omega

theorem checkedAdd_isSome (h : a.toNat + b.toNat < 2 ^ 64) :
    checkedAdd a b = some (a + b) := if_pos h

theorem checkedMul_isSome (h : a.toNat * b.toNat < 2 ^ 64) :
    checkedMul a b = some (a * b) := if_pos h

theorem toNat_add_of_lt (h : a.toNat + b.toNat < 2 ^ 64) :
    (a + b).toNat = a.toNat + b.toNat := by
  rw [UInt64.toNat_add, Nat.mod_eq_of_lt h]

theorem toNat_mul_of_lt (h : a.toNat * b.toNat < 2 ^ 64) :
    (a * b).toNat = a.toNat * b.toNat := by
  rw [UInt64.toNat_mul, Nat.mod_eq_of_lt h]

/-- A product taken one factor at a time, from `product`. -/
def checkedProdFrom (e : ε) (product : UInt64) : List UInt64 → Except ε UInt64
  | [] => .ok product
  | value :: values => do
      let next ← okOr (checkedMul product value) e
      checkedProdFrom e next values

def toNats (values : List UInt64) : List Nat := values.map UInt64.toNat

@[simp]
theorem toNats_cons (v : UInt64) (vs : List UInt64) : toNats (v :: vs) = v.toNat :: toNats vs := rfl

@[simp]
theorem toNats_append (vs ws : List UInt64) : toNats (vs ++ ws) = toNats vs ++ toNats ws := List.map_append

theorem toNats_prod_pos (h : 0 ∉ values) : 0 < (toNats values).prod := by
  induction values with
  | nil => exact Nat.one_pos
  | cons v vs ih =>
    rw [List.mem_cons, not_or] at h
    have hv : 0 < v.toNat := Nat.pos_of_ne_zero fun h0 => h.1 (UInt64.toNat_inj.mp h0.symm)
    rw [toNats_cons, List.prod_cons]
    exact Nat.mul_pos hv (ih h.2)

theorem checkedProdFrom_eq_ok {product result : UInt64} :
    checkedProdFrom e product values = .ok result → result.toNat = product.toNat * (toNats values).prod := by
  induction values generalizing product with
  | nil =>
    intro h
    cases h
    exact (Nat.mul_one _).symm
  | cons v vs ih =>
    intro h
    simp only [checkedProdFrom, bind_eq_ok, okOr_eq_ok, checkedMul_eq_some] at h
    obtain ⟨next, hnext, h⟩ := h
    rw [ih h, hnext, toNats_cons, List.prod_cons, Nat.mul_assoc]

/-- With nonzero factors no partial product exceeds the whole one. -/
theorem checkedProdFrom_of_lt {product : UInt64} (h0 : 0 ∉ values)
    (h : product.toNat * (toNats values).prod < 2 ^ 64) : ∃ r, checkedProdFrom e product values = .ok r := by
  induction values generalizing product with
  | nil => exact ⟨product, rfl⟩
  | cons v vs ih =>
    rw [List.mem_cons, not_or] at h0
    rw [toNats_cons, List.prod_cons, ← Nat.mul_assoc] at h
    have hstep : product.toNat * v.toNat < 2 ^ 64 :=
      lt_of_le_of_lt (Nat.le_mul_of_pos_right _ (toNats_prod_pos h0.2)) h
    have hrest : (product * v).toNat * (toNats vs).prod < 2 ^ 64 := by rwa [toNat_mul_of_lt hstep]
    obtain ⟨r, hr⟩ := ih h0.2 hrest
    refine ⟨r, ?_⟩
    simp only [checkedProdFrom, checkedMul_isSome hstep, okOr_some, ok_bind, hr]

theorem ne_zero_iff_toNat_pos {a : UInt64} : a ≠ 0 ↔ 0 < a.toNat := by
  rw [Nat.pos_iff_ne_zero, ne_eq, ne_eq, ← UInt64.toNat_inj]
  rfl

end Base
