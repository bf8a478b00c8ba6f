import Mathlib.Tactic

/-!
# Runs of a state machine

A machine is a total step function; a refused event leaves the state as it is. A run applies a list of events in turn,
and a condition on events may be required in the state each of them meets.
-/

namespace Base

variable {σ ε : Type} {step : σ → ε → σ} {ok : σ → ε → Prop} {s : σ} {es : List ε}
variable {es' : List ε} {P : σ → Prop} {ok' : σ → ε → Prop}

def run (step : σ → ε → σ) (s : σ) (es : List ε) : σ := es.foldl step s

/-- Each event of the run satisfies `ok` in the state it is applied to. -/
def Along (step : σ → ε → σ) (ok : σ → ε → Prop) : σ → List ε → Prop
  | _, [] => True
  | s, e :: es => ok s e ∧ Along step ok (step s e) es

instance decidableAlong [∀ s e, Decidable (ok s e)] : ∀ s es, Decidable (Along step ok s es)
  | _, [] => isTrue trivial
  | s, e :: es => @instDecidableAnd _ _ inferInstance (decidableAlong (step s e) es)

@[simp]
theorem run_nil : run step s [] = s := rfl

@[simp]
theorem run_cons {e : ε} : run step s (e :: es) = run step (step s e) es := rfl

theorem run_append : run step s (es ++ es') = run step (run step s es) es' := List.foldl_append

theorem along_append :
    Along step ok s (es ++ es') ↔ Along step ok s es ∧ Along step ok (run step s es) es' := by
  induction es generalizing s with
  | nil => simp [Along]
  | cons e es ih => simp [Along, ih, and_assoc]

/-- What every allowed step preserves holds after every allowed run. -/
theorem Along.invariant (hstep : ∀ s e, ok s e → P s → P (step s e)) (h : Along step ok s es) (hs : P s) :
    P (run step s es) := by
  induction es generalizing s with
  | nil => exact hs
  | cons e es ih => exact ih h.2 (hstep s e h.1 hs)

theorem run_invariant {P : σ → Prop} (hstep : ∀ s e, P s → P (step s e)) (hs : P s) : P (run step s es) := by
  induction es generalizing s with
  | nil => exact hs
  | cons e es ih => exact ih (hstep s e hs)

theorem Along.mono (himp : ∀ s e, ok s e → ok' s e) (h : Along step ok s es) :
    Along step ok' s es := by
  induction es generalizing s with
  | nil => trivial
  | cons e es ih => exact ⟨himp _ _ h.1, ih h.2⟩

/-- Every step of an allowed run has what follows from an invariant. -/
theorem Along.of_invariant (hstep : ∀ s e, ok s e → P s → P (step s e))
    (himp : ∀ s e, ok s e → P s → ok' s e) (h : Along step ok s es) (hs : P s) : Along step ok' s es := by
  induction es generalizing s with
  | nil => trivial
  | cons e es ih => exact ⟨himp s e h.1 hs, ih h.2 (hstep s e h.1 hs)⟩

theorem along_of_forall (h : ∀ e ∈ es, ∀ s, ok s e) : Along step ok s es := by
  induction es generalizing s with
  | nil => trivial
  | cons e es ih => exact ⟨h e List.mem_cons_self s, ih fun e' he => h e' (List.mem_cons_of_mem _ he)⟩

/-- A run stays good while its events are allowed; one that is not spoils all of the rest. -/
theorem run_dichotomy {Q : σ → Prop} (hgood : ∀ s e, P s → ok s e → P (step s e))
    (hspoil : ∀ s e, P s → ¬ ok s e → Q (step s e)) (hbad : ∀ s e, Q s → Q (step s e)) (hs : P s) :
    (Along step ok s es ∧ P (run step s es)) ∨ (¬ Along step ok s es ∧ Q (run step s es)) := by
  induction es generalizing s with
  | nil => exact Or.inl ⟨trivial, hs⟩
  | cons e es ih =>
    by_cases he : ok s e
    · rcases ih (hgood s e hs he) with ⟨halong, hrun⟩ | ⟨halong, hrun⟩
      · exact Or.inl ⟨⟨he, halong⟩, hrun⟩
      · exact Or.inr ⟨fun h => halong h.2, hrun⟩
    · rw [run_cons]
      exact Or.inr ⟨fun h => he h.1, run_invariant hbad (hspoil s e hs he)⟩

/-- What holds only at the end of a run holds from some step on. -/
theorem exists_onset (hs : ¬ P s) (h : P (run step s es)) : ∃ es₁ e es₂, es = es₁ ++ e :: es₂ ∧
    ¬ P (run step s es₁) ∧ ∀ rest, rest <+: es₂ → P (run step (step (run step s es₁) e) rest) := by
  induction es using List.reverseRecOn with
  | nil => exact absurd h hs
  | append_singleton es e ih =>
    by_cases he : P (run step s es)
    · obtain ⟨es₁, e', es₂, rfl, hbefore, hafter⟩ := ih he
      refine ⟨es₁, e', es₂ ++ [e], by simp, hbefore, fun rest hrest => ?_⟩
      rcases List.prefix_concat_iff.mp hrest with rfl | hrest
      · simpa [run_append] using h
      · exact hafter rest hrest
    · rw [run_append] at h
      exact ⟨es, e, [], rfl, he, fun rest hrest => List.prefix_nil.mp hrest ▸ h⟩

end Base
