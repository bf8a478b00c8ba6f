import Kvpack.Base.Check
import Kvpack.Base.Bytes

/-!
# Parsers of byte strings

A parser takes the remaining input and returns a value with what it left over, or an error. Two properties of a parser
are closed under sequencing, and the third settles a format:

* `Reads p bs v`: on `bs`, whatever follows it, `p` returns `v` and leaves exactly what follows;
* `Yields p Q`: every value `p` returns satisfies `Q`;
* `Inverse p enc`: `p` accepts exactly what `enc` writes.
-/

namespace Base

variable {ε α β : Type}

abbrev Parser (ε α : Type) := StateT Bytes (Except ε) α

namespace Parser

/-- The next `n` bytes, or `e` when fewer remain. -/
def take (e : ε) (n : Nat) : Parser ε Bytes := fun inp =>
  if n ≤ inp.length then .ok (inp.take n, inp.drop n) else .error e

def check (x : Except ε α) : Parser ε α := fun inp => x.map (·, inp)

def times : Nat → Parser ε α → Parser ε (List α)
  | 0, _ => pure []
  | n + 1, p => do
      let v ← p
      let vs ← times n p
      return v :: vs

def finish (e : ε) : Parser ε Unit := fun inp => if inp = [] then .ok ((), []) else .error e

def word8 (e : ε) : Parser ε UInt8 := do
  let bs ← take e 1
  return UInt8.ofNat (leNat bs)

def word16 (e : ε) : Parser ε UInt16 := do
  let bs ← take e 2
  return UInt16.ofNat (leNat bs)

def word32 (e : ε) : Parser ε UInt32 := do
  let bs ← take e 4
  return UInt32.ofNat (leNat bs)

def word64 (e : ε) : Parser ε UInt64 := do
  let bs ← take e 8
  return UInt64.ofNat (leNat bs)

def wordBE32 (e : ε) : Parser ε UInt32 := do
  let bs ← take e 4
  return UInt32.ofNat (leNat bs.reverse)

def wordBE64 (e : ε) : Parser ε UInt64 := do
  let bs ← take e 8
  return UInt64.ofNat (leNat bs.reverse)

end Parser

variable {p : Parser ε α} {f : α → Parser ε β}
variable {inp rest as bs : Bytes} {b : β} {a : α} {x : Except ε α} {e : ε} {n w : Nat} {enc : α → Bytes} {vs : List α}
  {Q : α → Prop}

def writeAll (f : α → Except ε Bytes) : List α → Except ε Bytes
  | [] => .ok []
  | x :: xs => do
      let b ← f x
      let bs ← writeAll f xs
      return b ++ bs

def Reads (p : Parser ε α) (bs : Bytes) (v : α) : Prop := ∀ rest, p.run (bs ++ rest) = .ok (v, rest)

def Yields (p : Parser ε α) (Q : α → Prop) : Prop :=
  ∀ inp v rest, p.run inp = .ok (v, rest) → Q v

/-- `p` accepts exactly what `enc` writes. -/
def Inverse (p : Parser ε α) (enc : α → Bytes) : Prop :=
  ∀ inp v rest, p.run inp = .ok (v, rest) ↔ inp = enc v ++ rest

theorem run_bind_eq_ok :
    (p >>= f).run inp = .ok (b, rest) ↔
      ∃ a mid, p.run inp = .ok (a, mid) ∧ (f a).run mid = .ok (b, rest) := by
  simp [StateT.run_bind]

/-! ## Reading what was written -/

theorem Reads.pure (v : α) : Reads (pure v : Parser ε α) [] v := fun _ => rfl

theorem Reads.bind
    (hp : Reads p as a) (hf : Reads (f a) bs b) : Reads (p >>= f) (as ++ bs) b := by
  intro rest
  rw [List.append_assoc, run_bind_eq_ok]
  exact ⟨a, bs ++ rest, hp _, hf rest⟩

theorem Reads.bind_nil
    (hp : Reads p [] a) (hf : Reads (f a) bs b) : Reads (p >>= f) bs b := hp.bind hf

theorem Reads.bind_pure {f : α → β} (hp : Reads p bs a) :
    Reads (p >>= fun x => Pure.pure (f x)) bs (f a) := by
  have h : Reads (p >>= fun x => Pure.pure (f x)) (bs ++ []) (f a) := hp.bind (Reads.pure (f a))
  rwa [List.append_nil] at h

theorem Reads.check (h : x = .ok a) : Reads (Parser.check x) [] a := by
  intro rest
  rw [h]
  rfl

theorem Reads.take (h : bs.length = n) : Reads (Parser.take e n) bs bs := by
  intro rest
  show (if n ≤ (bs ++ rest).length then _ else _) = _
  subst h
  simp

theorem Reads.times (h : ∀ v ∈ vs, Reads p (enc v) v) :
    Reads (Parser.times vs.length p) (vs.flatMap enc) vs := by
  induction vs with
  | nil => exact Reads.pure []
  | cons v vs ih =>
    rw [List.flatMap_cons]
    exact (h v List.mem_cons_self).bind (ih fun w hw => h w (List.mem_cons_of_mem _ hw)).bind_pure

theorem Reads.times_writeAll {f : α → Except ε Bytes}
    (hw : writeAll f vs = .ok bs) (h : ∀ v ∈ vs, ∀ b, f v = .ok b → Reads p b v) :
    Reads (Parser.times vs.length p) bs vs := by
  induction vs generalizing bs with
  | nil =>
    cases hw
    exact Reads.pure []
  | cons v vs ih =>
    simp only [writeAll, bind_eq_ok, pure_eq_ok] at hw
    obtain ⟨b, hb, bs', hbs', rfl⟩ := hw
    exact (h v List.mem_cons_self b hb).bind
      (ih hbs' fun w hw => h w (List.mem_cons_of_mem _ hw)).bind_pure

/-- Two readings of one input agree: in the value and in how much they read. -/
theorem Reads.unique {as' bs' : Bytes} {b : α} (ha : Reads p as a)
    (hb : Reads p bs b) (h : as ++ as' = bs ++ bs') : a = b ∧ as = bs := by
  have h1 := ha as'
  rw [h, hb bs'] at h1
  simp only [Except.ok.injEq, Prod.mk.injEq] at h1
  obtain ⟨rfl, rfl⟩ := h1
  exact ⟨rfl, List.append_cancel_right h⟩

/-! ## Parsers that undo a writer -/

theorem Inverse.reads (h : Inverse p enc) (v : α) : Reads p (enc v) v := fun _ => (h _ _ _).mpr rfl

theorem run_take_eq_ok :
    (Parser.take e n).run inp = .ok (bs, rest) ↔ bs.length = n ∧ inp = bs ++ rest := by
  constructor
  · intro h
    change (if n ≤ inp.length then _ else _) = _ at h
    split at h
    · cases h
      simpa
    · cases h
  · rintro ⟨hlen, rfl⟩
    exact Reads.take hlen rest

theorem run_check_eq_ok :
    (Parser.check x).run inp = .ok (a, rest) ↔ x = .ok a ∧ inp = rest := by
  show x.map (·, inp) = _ ↔ _
  cases x <;> simp [Except.map]

theorem run_pure_eq_ok {b : α} :
    (pure a : Parser ε α).run inp = .ok (b, rest) ↔ a = b ∧ inp = rest := by
  simp [StateT.run_pure]

theorem run_times_eq_ok
    (h : ∀ inp v rest, p.run inp = .ok (v, rest) ↔ Q v ∧ inp = enc v ++ rest) :
    (Parser.times n p).run inp = .ok (vs, rest) ↔ vs.length = n ∧ (∀ v ∈ vs, Q v) ∧ inp = vs.flatMap enc ++ rest := by
  induction n generalizing inp rest vs with
  | zero =>
    rw [Parser.times, run_pure_eq_ok, List.length_eq_zero_iff]
    constructor
    · rintro ⟨rfl, rfl⟩
      simp
    · rintro ⟨rfl, -, rfl⟩
      simp
  | succ n ih =>
    simp only [Parser.times, run_bind_eq_ok, h, ih, run_pure_eq_ok]
    constructor
    · rintro ⟨v, _, ⟨hv, rfl⟩, vs, _, ⟨hlen, hvs, rfl⟩, rfl, rfl⟩
      simpa [hlen, hv] using hvs
    · rintro ⟨hlen, hvs, rfl⟩
      obtain ⟨v, vs, rfl⟩ := List.exists_cons_of_length_eq_add_one hlen
      rw [List.forall_mem_cons] at hvs
      exact ⟨v, _, ⟨hvs.1, List.append_assoc ..⟩, vs, _, ⟨Nat.succ.inj hlen, hvs.2, rfl⟩, rfl, rfl⟩

theorem Inverse.word {ofNat : Nat → α} {toNat : α → Nat} (hlt : ∀ v, toNat v < 256 ^ w)
    (hofNat : ∀ v, ofNat (toNat v) = v) (htoNat : ∀ n < 256 ^ w, toNat (ofNat n) = n) :
    Inverse (do let bs ← Parser.take e w; return ofNat (leNat bs)) fun v => leBytes w (toNat v) := by
  intro inp v rest
  simp only [run_bind_eq_ok, run_take_eq_ok, run_pure_eq_ok]
  constructor
  · rintro ⟨bs, _, ⟨hlen, rfl⟩, rfl, rfl⟩
    rw [htoNat _ (hlen ▸ leNat_lt bs), ← hlen, leBytes_leNat]
  · rintro rfl
    exact ⟨_, _, ⟨length_leBytes w _, rfl⟩, by rw [leNat_leBytes (hlt v), hofNat], rfl⟩

theorem Inverse.word8 (e : ε) : Inverse (Parser.word8 e) fun v => [v] := by
  have h : Inverse (Parser.word8 e) fun v => leBytes 1 v.toNat :=
    .word UInt8.toNat_lt (fun _ => UInt8.ofNat_toNat) fun _ => UInt8.toNat_ofNat_of_lt'
  simpa [leBytes] using h

theorem Inverse.word16 (e : ε) : Inverse (Parser.word16 e) le16 :=
  .word UInt16.toNat_lt (fun _ => UInt16.ofNat_toNat) fun _ => UInt16.toNat_ofNat_of_lt'

theorem Inverse.word32 (e : ε) : Inverse (Parser.word32 e) le32 :=
  .word UInt32.toNat_lt (fun _ => UInt32.ofNat_toNat) fun _ => UInt32.toNat_ofNat_of_lt'

theorem Inverse.word64 (e : ε) : Inverse (Parser.word64 e) le64 :=
  .word UInt64.toNat_lt (fun _ => UInt64.ofNat_toNat) fun _ => UInt64.toNat_ofNat_of_lt'

theorem Inverse.reversed {f : Bytes → α}
    (h : Inverse (do let bs ← Parser.take e w; return f bs) enc) :
    Inverse (do let bs ← Parser.take e w; return f bs.reverse) fun v => (enc v).reverse := by
  intro inp v rest
  simp only [Inverse, run_bind_eq_ok, run_take_eq_ok, run_pure_eq_ok] at h ⊢
  constructor
  · rintro ⟨bs, rest, ⟨hlen, rfl⟩, rfl, rfl⟩
    have heq := (h (bs.reverse ++ rest) (f bs.reverse) rest).mp
      ⟨_, _, ⟨by rw [List.length_reverse, hlen], rfl⟩, rfl, rfl⟩
    rw [← List.append_cancel_right heq, List.reverse_reverse]
  · rintro rfl
    obtain ⟨bs, _, ⟨hlen, heq⟩, rfl, rfl⟩ := (h (enc v ++ rest) v rest).mpr rfl
    rw [List.append_cancel_right heq]
    exact ⟨_, _, ⟨by rw [List.length_reverse, hlen], rfl⟩, by rw [List.reverse_reverse], rfl⟩

theorem Inverse.wordBE32 (e : ε) : Inverse (Parser.wordBE32 e) fun v => (le32 v).reverse := (Inverse.word32 e).reversed

theorem Inverse.wordBE64 (e : ε) : Inverse (Parser.wordBE64 e) fun v => (le64 v).reverse := (Inverse.word64 e).reversed

/-! ## What a parser returns -/

theorem Yields.pure {v : α} (h : Q v) : Yields (pure v : Parser ε α) Q := by
  intro inp w rest hr
  cases hr
  exact h

theorem Yields.bind {P : α → Prop} {Q : β → Prop}
    (hp : Yields p P) (hf : ∀ a, P a → Yields (f a) Q) : Yields (p >>= f) Q := by
  intro inp b rest h
  obtain ⟨a, mid, ha, hb⟩ := run_bind_eq_ok.mp h
  exact hf a (hp _ _ _ ha) _ _ _ hb

theorem Yields.true (p : Parser ε α) : Yields p fun _ => True := fun _ _ _ _ => trivial

theorem Yields.after {Q : β → Prop} (hf : ∀ a, Yields (f a) Q) :
    Yields (p >>= f) Q := (Yields.true p).bind fun a _ => hf a

theorem Yields.check (x : Except ε α) : Yields (Parser.check x) fun a => x = .ok a := by
  intro inp v rest h
  cases x with
  | error e => cases h
  | ok a =>
    cases h
    rfl

theorem Yields.times (hp : Yields p Q) (n : Nat) :
    Yields (Parser.times n p) fun vs => vs.length = n ∧ ∀ v ∈ vs, Q v := by
  induction n with
  | zero => exact Yields.pure (by simp)
  | succ n ih =>
    refine hp.bind fun v hv => ih.bind fun vs hvs => Yields.pure ?_
    simp only [List.length_cons, List.mem_cons, forall_eq_or_imp]
    exact ⟨by rw [hvs.1], hv, hvs.2⟩

end Base
