import Mathlib.Tactic

/-!
# Callers that share a state

Several callers work on one state, each through a plan of atomic tasks; a task that fails sends its caller to the
tasks kept for that case. What a caller found out before it planned a task has to be kept by every task of every other
caller, since any number of them can come in between.
-/

namespace Base

variable {σ τ γ : Type} {n : Nat}

structure Caller (τ : Type) where
  plan : List τ
  /-- What the caller does when a task of its plan fails. -/
  recovery : List τ

namespace Caller

variable {x : Caller τ} {t u : τ} {rest : List τ} {required : Bool}

/-- Everything the caller may still do without looking at the state first. -/
def pending (x : Caller τ) : List τ := x.plan ++ x.recovery

/-- The caller goes on after a failure it does not care about, and recovers from any other. -/
def fail (x : Caller τ) (required : Bool) (rest : List τ) : Caller τ :=
  if required then ⟨x.recovery, []⟩ else ⟨rest, x.recovery⟩

theorem mem_pending : u ∈ x.pending ↔ u ∈ x.plan ∨ u ∈ x.recovery := List.mem_append

theorem mem_pending_of_fail (hplan : x.plan = t :: rest) (hu : u ∈ (x.fail required rest).pending) :
    u ∈ x.pending := by
  rw [mem_pending, hplan]
  cases required with
  | true =>
    simp only [fail, if_true, mem_pending, List.not_mem_nil, or_false] at hu
    exact Or.inr hu
  | false =>
    simp only [fail, Bool.false_eq_true, if_false, mem_pending] at hu
    exact hu.imp_left (List.mem_cons_of_mem t)

end Caller

/-- What each pending task of each caller relies on holds in the shared state. -/
def Relied (pending : γ → List τ) (needs : τ → σ → Prop) (callers : Fin n → γ) (s : σ) : Prop :=
  ∀ i, ∀ t ∈ pending (callers i), needs t s

/-- A step of caller `i` that keeps what the others rely on and establishes what `x` relies on. -/
theorem Relied.update {pending : γ → List τ} {needs : τ → σ → Prop} {callers : Fin n → γ} {s s' : σ} {i : Fin n} {x : γ}
    (h : Relied pending needs callers s)
    (hothers : ∀ j ≠ i, ∀ t ∈ pending (callers j), needs t s → needs t s')
    (hown : ∀ t ∈ pending x, needs t s') : Relied pending needs (Function.update callers i x) s' := by
  intro j t ht
  by_cases hj : j = i
  · subst hj
    rw [Function.update_self] at ht
    exact hown t ht
  · rw [Function.update_of_ne hj] at ht
    exact hothers j hj t ht (h j t ht)

end Base
