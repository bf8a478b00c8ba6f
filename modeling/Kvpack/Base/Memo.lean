import Kvpack.Base.Check
import Kvpack.Base.Effect
import Kvpack.Base.Table

/-!
# Memoised lookups

A function that may fail is asked through a table of its earlier answers. The computation is the same as one that asks
the function itself, as long as the answers in the table are still the function's own, and how often it asks is
bounded whatever the table holds.
-/

namespace Base

/-- Earlier answers, and how often the table has been asked. -/
structure Memo (κ ν : Type) where
  answers : Table κ ν
  requests : Nat

variable {κ ν ε α β : Type}

def Memo.empty : Memo κ ν := ⟨Table.empty, 0⟩

/-- The answer of `load`, from the table when it is there. -/
def consult [DecidableEq κ] (load : κ → Except ε ν) (k : κ) : EStateM ε (Memo κ ν) ν := fun m =>
  match m.answers.get? k with
  | some v => .ok v ⟨m.answers, m.requests + 1⟩
  | none =>
    match load k with
    | .ok v => .ok v ⟨m.answers.put k v, m.requests + 1⟩
    | .error e => .error e ⟨m.answers, m.requests + 1⟩

/-! ## How often a computation asks -/

/-- The computation asks at most `n` times, from whatever table it starts. -/
def Asks (n : Nat) (x : EStateM ε (Memo κ ν) α) : Prop := ∀ m, (finalState (x m)).requests ≤ m.requests + n

section Asks

variable {load : κ → Except ε ν} {n k : Nat} {x : EStateM ε (Memo κ ν) α} {f : α → EStateM ε (Memo κ ν) β}

theorem asks_consult [DecidableEq κ] (key : κ) : Asks 1 (consult load key) := by
  intro m
  unfold consult
  cases m.answers.get? key with
  | some v => exact le_rfl
  | none =>
    cases load key with
    | ok _ | error _ => exact le_rfl

theorem asks_outcome (o : Except ε α) : Asks 0 (outcome o : EStateM ε (Memo κ ν) α) := by
  intro m
  cases o with
  | ok _ | error _ => exact le_rfl

theorem asks_pure (a : α) : Asks 0 (pure a : EStateM ε (Memo κ ν) α) := fun _ => le_rfl

theorem asks_throw (e : ε) : Asks 0 (throw e : EStateM ε (Memo κ ν) α) := fun _ => le_rfl

theorem Asks.mono (h : Asks n x) (hle : n ≤ k) : Asks k x :=
  fun m => (h m).trans (Nat.add_le_add_left hle _)

theorem Asks.bind (hx : Asks n x) (hf : ∀ a, Asks k (f a)) : Asks (n + k) (x >>= f) := by
  intro m
  have hfirst := hx m
  cases h : x m with
  | ok a m' =>
    rw [h] at hfirst
    rw [bind_of_ok h]
    calc (finalState (f a m')).requests ≤ m'.requests + k := hf a m'
      _ ≤ m.requests + n + k := Nat.add_le_add_right hfirst _
      _ = m.requests + (n + k) := Nat.add_assoc _ _ _
  | error e m' =>
    rw [h] at hfirst
    rw [bind_of_error h]
    exact hfirst.trans (Nat.add_le_add_left (Nat.le_add_right n k) _)

end Asks

/-! ## What a computation returns -/

section Memoises

variable [DecidableEq κ] (load : κ → Except ε ν)

/-- Every answer in the table is the one the function gives. -/
def Memo.Sound (m : Memo κ ν) : Prop := ∀ k v, m.answers.get? k = some v → load k = .ok v

/-- From every sound table the computation returns `y` and leaves it sound. -/
def Memoises (x : EStateM ε (Memo κ ν) α) (y : Except ε α) : Prop :=
  ∀ m : Memo κ ν, m.Sound load → resultOf (x m) = y ∧ (finalState (x m)).Sound load

variable {load} {x : EStateM ε (Memo κ ν) α} {y : Except ε α} {f : α → EStateM ε (Memo κ ν) β} {g : α → Except ε β}

theorem Memo.sound_empty : (Memo.empty : Memo κ ν).Sound load := by
  intro k v h
  cases h

theorem memoises_consult (key : κ) : Memoises load (consult load key) (load key) := by
  intro m hm
  unfold consult
  cases hget : m.answers.get? key with
  | some v => exact ⟨(hm key v hget).symm, hm⟩
  | none =>
    cases hload : load key with
    | error e => exact ⟨rfl, hm⟩
    | ok v =>
      refine ⟨rfl, ?_⟩
      intro k w hk
      simp only [finalState_ok, Table.get?_put] at hk
      split at hk
      · rename_i heq
        cases hk
        rw [heq, hload]
      · exact hm k w hk

theorem memoises_outcome (o : Except ε α) : Memoises load (outcome o) o := by
  intro m hm
  cases o with
  | ok _ | error _ => exact ⟨rfl, hm⟩

theorem memoises_pure (a : α) : Memoises load (pure a) (.ok a) := fun _ hm => ⟨rfl, hm⟩

theorem memoises_throw (e : ε) : Memoises load (throw e : EStateM ε (Memo κ ν) α) (.error e) := fun _ hm => ⟨rfl, hm⟩

theorem Memoises.bind (hx : Memoises load x y) (hf : ∀ a, Memoises load (f a) (g a)) :
    Memoises load (x >>= f) (y >>= g) := by
  intro m hm
  obtain ⟨hresult, hsound⟩ := hx m hm
  cases h : x m with
  | ok a m' =>
    rw [h] at hresult hsound
    rw [bind_of_ok h, ← hresult]
    exact hf a m' hsound
  | error e m' =>
    rw [h] at hresult hsound
    rw [bind_of_error h, ← hresult]
    exact ⟨rfl, hsound⟩

end Memoises

end Base
