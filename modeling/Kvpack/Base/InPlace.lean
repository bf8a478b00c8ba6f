import Mathlib.Tactic

/-!
# Loops of in-place updates

A loop of operations each of which reads and writes only its own cells of a memory. When no cell belongs to two
operations, every cell ends as its own operation alone would have left it.
-/

namespace Base

variable {κ σ ι α : Type} {get : σ → ι → α} {op : σ → κ → σ} {owns : κ → ι → Prop} {l : List κ}

/-- The operations read and write only the cells they own. -/
structure Local (get : σ → ι → α) (op : σ → κ → σ) (owns : κ → ι → Prop) : Prop where
  frame : ∀ s k x, ¬ owns k x → get (op s k) x = get s x
  congr : ∀ s s' k, (∀ x, owns k x → get s x = get s' x) → ∀ x, owns k x → get (op s k) x = get (op s' k) x

theorem Local.foldl_frame (h : Local get op owns) {x : ι} (hx : ∀ k ∈ l, ¬ owns k x) (s : σ) :
    get (l.foldl op s) x = get s x := by
  induction l generalizing s with
  | nil => rfl
  | cons k l ih =>
    rw [List.forall_mem_cons] at hx
    rw [List.foldl_cons, ih hx.2, h.frame s k x hx.1]

theorem Local.foldl_owned (h : Local get op owns) (hnodup : l.Nodup)
    (hapart : ∀ k ∈ l, ∀ k' ∈ l, ∀ x, owns k x → owns k' x → k = k') {k : κ} (hk : k ∈ l) {x : ι} (hx : owns k x)
    (s : σ) : get (l.foldl op s) x = get (op s k) x := by
  induction l generalizing s with
  | nil => cases hk
  | cons first l ih =>
    rw [List.nodup_cons] at hnodup
    have hrest : ∀ k ∈ l, k ∈ first :: l := fun _ hk => List.mem_cons_of_mem _ hk
    rw [List.foldl_cons]
    cases hk with
    | head =>
      apply h.foldl_frame
      intro k' hk' hx'
      have heq := hapart k List.mem_cons_self k' (hrest k' hk') x hx hx'
      exact hnodup.1 (heq ▸ hk')
    | tail _ hk =>
      rw [ih hnodup.2 (fun k hk k' hk' => hapart k (hrest k hk) k' (hrest k' hk')) hk]
      apply h.congr _ _ _ _ _ hx
      intro y hy
      apply h.frame
      intro hfirst
      have heq := hapart first List.mem_cons_self k (hrest k hk) y hfirst hy
      exact hnodup.1 (heq ▸ hk)

end Base
