import Mathlib.Logic.Basic

/-!
# Computations whose effects survive their failure

A sequence of effects that stops at the first error and keeps what it has done, as `EStateM` runs it, and the two ways
to go on after an error: ignore it, or clean up and pass it on.
-/

namespace Base

variable {ε σ τ α β : Type}
variable {a : α} {s s' : σ} {e : ε} {x : EStateM ε σ α} {f : α → EStateM ε σ β} {handler : EStateM ε σ β}
  {part : σ → τ} {replace : τ → σ → σ}

/-- The state a computation ends in, whether it has failed or not. -/
def finalState (r : EStateM.Result ε σ α) : σ :=
  match r with
  | .ok _ s => s
  | .error _ s => s

@[simp]
theorem finalState_ok : finalState (.ok a s : EStateM.Result ε σ α) = s := rfl

@[simp]
theorem finalState_error : finalState (.error e s : EStateM.Result ε σ α) = s := rfl

def succeeded (r : EStateM.Result ε σ α) : Bool :=
  match r with
  | .ok _ _ => true
  | .error _ _ => false

def resultOf (r : EStateM.Result ε σ α) : Except ε α :=
  match r with
  | .ok a _ => .ok a
  | .error e _ => .error e

def outcome (x : Except ε α) : EStateM ε σ α := fun s =>
  match x with
  | .ok a => .ok a s
  | .error e => .error e s

/-- The computation, with its result thrown away. -/
def ignoring (x : EStateM ε σ α) : EStateM ε σ Unit := fun s => .ok () (finalState (x s))

/-- The computation; when it fails, the handler runs first. -/
def onError (x : EStateM ε σ α) (handler : EStateM ε σ β) : EStateM ε σ α := fun s =>
  match x s with
  | .ok a s' => .ok a s'
  | .error e s' => .error e (finalState (handler s'))

def onPart {τ : Type} (part : σ → τ) (replace : τ → σ → σ) (x : EStateM ε τ α) : EStateM ε σ α := fun s =>
  match x (part s) with
  | .ok a t => .ok a (replace t s)
  | .error e t => .error e (replace t s)

theorem bind_apply (x : EStateM ε σ α) (f : α → EStateM ε σ β) (s : σ) :
    (x >>= f) s = match x s with
      | .ok a s' => f a s'
      | .error e s' => .error e s' := rfl

theorem bind_of_ok (h : x s = .ok a s') :
    (x >>= f) s = f a s' := by rw [bind_apply, h]

theorem bind_of_error (h : x s = .error e s') :
    (x >>= f) s = .error e s' := by rw [bind_apply, h]

@[simp]
theorem pure_apply (a : α) (s : σ) : (pure a : EStateM ε σ α) s = .ok a s := rfl

theorem get_bind_apply (f : σ → EStateM ε σ α) (s : σ) : ((get : EStateM ε σ σ) >>= f) s = f s s := rfl

@[simp]
theorem finalState_ignoring (x : EStateM ε σ α) (s : σ) : finalState (ignoring x s) = finalState (x s) := rfl

theorem onError_of_ok (h : x s = .ok a s') :
    onError x handler s = .ok a s' := by rw [onError, h]

theorem onError_of_error (h : x s = .error e s') :
    onError x handler s = .error e (finalState (handler s')) := by rw [onError, h]

theorem finalState_bind_pure {b : β} :
    finalState ((x >>= fun _ => pure b) s) = finalState (x s) := by
  cases h : x s with
  | ok a s' => rw [bind_of_ok h, pure_apply, finalState_ok, finalState_ok]
  | error e s' => rw [bind_of_error h, finalState_error, finalState_error]

theorem onPart_of_ok {x : EStateM ε τ α} {t : τ}
    (h : x (part s) = .ok a t) : onPart part replace x s = .ok a (replace t s) := by rw [onPart, h]

theorem onPart_of_error {x : EStateM ε τ α} {t : τ}
    (h : x (part s) = .error e t) : onPart part replace x s = .error e (replace t s) := by rw [onPart, h]

theorem finalState_onPart {x : EStateM ε τ α} :
    finalState (onPart part replace x s) = replace (finalState (x (part s))) s := by
  cases h : x (part s) with
  | ok a t => rw [onPart_of_ok h, finalState_ok, finalState_ok]
  | error e t => rw [onPart_of_error h, finalState_error, finalState_error]

theorem outcome_ok : (outcome (.ok a) : EStateM ε σ α) s = .ok a s := rfl

theorem outcome_error : (outcome (.error e) : EStateM ε σ α) s = .error e s := rfl

theorem ignoring_apply (x : EStateM ε σ α) (s : σ) : ignoring x s = .ok () (finalState (x s)) := rfl

/-! ## Contracts -/

/-- From a state with `P` the computation succeeds with `Q` or fails with `E`. -/
def Contract (P : σ → Prop) (x : EStateM ε σ α) (Q : α → σ → Prop) (E : σ → Prop) : Prop :=
  ∀ s, P s → match x s with
    | .ok a s' => Q a s'
    | .error _ s' => E s'

/-- A computation that keeps `P` whether it fails or not. -/
def Keeps (P : σ → Prop) (x : EStateM ε σ α) : Prop := ∀ s, P s → P (finalState (x s))

section Rules

variable {P : σ → Prop} {Q : α → σ → Prop} {R : β → σ → Prop} {E : σ → Prop} {x : EStateM ε σ α}
  {f : α → EStateM ε σ β}

theorem Contract.of_ok (h : Contract P x Q E) {s s' : σ} {a : α} (hs : P s) (hx : x s = .ok a s') : Q a s' := by
  have hres := h s hs
  rwa [hx] at hres

theorem Contract.of_error (h : Contract P x Q E) {s s' : σ} {e : ε} (hs : P s) (hx : x s = .error e s') : E s' := by
  have hres := h s hs
  rwa [hx] at hres

theorem Contract.bind (hx : Contract P x Q E) (hf : ∀ a, Contract (Q a) (f a) R E) : Contract P (x >>= f) R E := by
  intro s hs
  cases h : x s with
  | ok a s' =>
    rw [bind_of_ok h]
    exact hf a s' (hx.of_ok hs h)
  | error e s' =>
    rw [bind_of_error h]
    exact hx.of_error hs h

theorem Keeps.contract (h : Keeps P x) : Contract P x (fun _ => P) P := by
  intro s hs
  have hfinal := h s hs
  cases hx : x s with
  | ok _ _ | error _ _ => rwa [hx] at hfinal

theorem Contract.keeps (h : Contract P x (fun _ => P) P) : Keeps P x := by
  intro s hs
  cases hx : x s with
  | ok a s' => exact h.of_ok hs hx
  | error e s' => exact h.of_error hs hx

theorem Keeps.bind (hx : Keeps P x) (hf : ∀ a, Keeps P (f a)) : Keeps P (x >>= f) :=
  (hx.contract.bind fun a => (hf a).contract).keeps

theorem keeps_pure (a : α) : Keeps P (pure a : EStateM ε σ α) := fun _ hs => hs

theorem keeps_outcome (o : Except ε α) : Keeps P (outcome o : EStateM ε σ α) := by
  intro s hs
  cases o with
  | ok _ | error _ => exact hs

theorem Keeps.ignoring (h : Keeps P x) : Keeps P (ignoring x) := h

end Rules

end Base
