import Mathlib.Logic.Relation

/-!
# Programs of atomic steps

A program that works on a durable state by atomic steps. What it knows beside the state is lost in a crash, which can
come before and after every step; a crash point is what the state can then be.
-/

namespace Base

/-- Each step reads and writes the state and decides what comes next; one that fails changes nothing and ends the
program. -/
inductive Prog (σ ε α : Type) : Type 1
  | done (a : α)
  | step {β : Type} (act : σ → Except ε (β × σ)) (next : β → Prog σ ε α)

namespace Prog

variable {σ ε α β : Type}
variable {a : α} {f : α → Prog σ ε β}

def bind : Prog σ ε α → (α → Prog σ ε β) → Prog σ ε β
  | done a, f => f a
  | step act next, f => step act fun b => (next b).bind f

instance : Monad (Prog σ ε) where
  pure := done
  bind := bind

def atomically (act : σ → Except ε (α × σ)) : Prog σ ε α := step act done

def reading (read : σ → Except ε α) : Prog σ ε α := atomically fun s => (fun a => (a, s)) <$> read s

def writing (write : σ → Except ε σ) : Prog σ ε Unit := atomically fun s => (fun s' => ((), s')) <$> write s

/-- One step that cannot fail. -/
def updating (f : σ → σ) : Prog σ ε Unit := writing fun s => .ok (f s)

/-- The program without a crash. -/
def run : Prog σ ε α → σ → Except ε (α × σ)
  | done a, s => .ok (a, s)
  | step act next, s =>
    match act s with
    | .ok (b, s') => (next b).run s'
    | .error e => .error e

/-- The states in which a crash can stop the program. -/
def crashPoints : Prog σ ε α → σ → List σ
  | done _, s => [s]
  | step act next, s => s ::
      match act s with
      | .ok (b, s') => (next b).crashPoints s'
      | .error _ => []

/-- The program keeps `P` from step to step, succeeds, and establishes `Q`. -/
def Completes (P : σ → Prop) (Q : α → σ → Prop) : Prog σ ε α → σ → Prop
  | done a, s => P s ∧ Q a s
  | step act next, s => P s ∧ ∃ b s', act s = .ok (b, s') ∧ (next b).Completes P Q s'

variable {P : σ → Prop} {Q : α → σ → Prop} {R : β → σ → Prop} {p : Prog σ ε α} {s s' : σ}

theorem Completes.crashPoints (h : p.Completes P Q s) (hs' : s' ∈ p.crashPoints s) : P s' := by
  induction p generalizing s with
  | done a =>
    cases List.mem_singleton.mp hs'
    exact h.1
  | step act next ih =>
    obtain ⟨hs, b, s₁, hact, hnext⟩ := h
    simp only [Prog.crashPoints, hact, List.mem_cons] at hs'
    cases hs' with
    | inl heq => exact heq ▸ hs
    | inr hmem => exact ih b hnext hmem

theorem Completes.run (h : p.Completes P Q s) : ∃ a s', p.run s = .ok (a, s') ∧ P s' ∧ Q a s' := by
  induction p generalizing s with
  | done a => exact ⟨a, s, rfl, h⟩
  | step act next ih =>
    obtain ⟨-, b, s₁, hact, hnext⟩ := h
    simp only [Prog.run, hact]
    exact ih b hnext

theorem Completes.done (hs : P s) (ha : Q a s) : (pure a : Prog σ ε α).Completes P Q s := ⟨hs, ha⟩

theorem Completes.bind (h : p.Completes P Q s)
    (hf : ∀ a s, P s → Q a s → (f a).Completes P R s) : (p >>= f).Completes P R s := by
  induction p generalizing s with
  | done a => exact hf a s h.1 h.2
  | step act next ih =>
    obtain ⟨hs, b, s₁, hact, hnext⟩ := h
    exact ⟨hs, b, s₁, hact, ih b hnext⟩

theorem Completes.atomically {act : σ → Except ε (α × σ)} (hs : P s) (hact : act s = .ok (a, s'))
    (hs' : P s') (ha : Q a s') : (Prog.atomically act).Completes P Q s := ⟨hs, a, s', hact, hs', ha⟩

theorem Completes.reading {read : σ → Except ε α} (hs : P s) (hread : read s = .ok a) (ha : Q a s) :
    (Prog.reading read).Completes P Q s :=
  .atomically hs (by rw [hread]; rfl) hs ha

theorem Completes.writing {write : σ → Except ε σ} {Q : Unit → σ → Prop} (hs : P s) (hwrite : write s = .ok s')
    (hs' : P s') (hQ : Q () s') : (Prog.writing write).Completes P Q s :=
  .atomically hs (by rw [hwrite]; rfl) hs' hQ

theorem Completes.updating {f : σ → σ} {Q : Unit → σ → Prop} (hs : P s) (hf : P (f s)) (hQ : Q () (f s)) :
    (Prog.updating f : Prog σ ε Unit).Completes P Q s := ⟨hs, (), f s, rfl, hf, hQ⟩

theorem bind_eq (p : Prog σ ε α) (f : α → Prog σ ε β) : p >>= f = p.bind f := rfl

theorem run_bind (p : Prog σ ε α) (f : α → Prog σ ε β) (s : σ) :
    (p >>= f).run s = p.run s >>= fun r => (f r.1).run r.2 := by
  induction p generalizing s with
  | done a => rfl
  | step act next ih =>
    cases hact : act s with
    | ok r =>
      simp only [bind_eq, Prog.bind, Prog.run, hact]
      exact ih r.1 r.2
    | error e =>
      simp only [bind_eq, Prog.bind, Prog.run, hact]
      rfl

@[simp]
theorem run_pure (a : α) (s : σ) : (pure a : Prog σ ε α).run s = .ok (a, s) := rfl

@[simp]
theorem run_updating (f : σ → σ) (s : σ) : (updating f : Prog σ ε Unit).run s = .ok ((), f s) := rfl

theorem run_reading (read : σ → Except ε α) (s : σ) : (reading read).run s = (fun a => (a, s)) <$> read s := by
  cases hread : read s with
  | ok _ | error _ => simp only [reading, atomically, run, hread]; rfl

theorem run_writing (write : σ → Except ε σ) (s : σ) : (writing write).run s = (fun s' => ((), s')) <$> write s := by
  cases hwrite : write s with
  | ok _ | error _ => simp only [writing, atomically, run, hwrite]; rfl

theorem run_reading_bind (read : σ → Except ε α) (h : read s = .ok a) :
    (reading read >>= f).run s = (f a).run s := by
  rw [run_bind, run_reading, h]
  rfl

/-! ## Crashes one after the other -/

/-- What is left after any number of crashes, each in one of some programs. -/
def Interrupted (programs : Prog σ ε α → Prop) : σ → σ → Prop :=
  Relation.ReflTransGen fun s s' => ∃ p, programs p ∧ s' ∈ p.crashPoints s

theorem Interrupted.invariant {programs : Prog σ ε α → Prop} (h : Interrupted programs s s') (hs : P s)
    (hprograms : ∀ p s, programs p → P s → ∃ Q, p.Completes P Q s) : P s' := by
  induction h with
  | refl => exact hs
  | tail _ hlast ih =>
    obtain ⟨p, hp, hmem⟩ := hlast
    obtain ⟨Q, hcompletes⟩ := hprograms p _ hp ih
    exact hcompletes.crashPoints hmem

end Prog

end Base
