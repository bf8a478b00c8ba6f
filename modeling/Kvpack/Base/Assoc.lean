import Kvpack.Base.Check

/-!
# Maps built by insertion

A finite map as a function to `Option`, filled from a list of pairs by overwriting or by refusing a second insertion;
with distinct keys both give the map of exactly the pairs. A map walked through in key order is the list of its pairs.
-/

namespace Base

variable {ε κ ν : Type} [DecidableEq κ]
variable {m : κ → Option ν} {pairs : List (κ × ν)}

def insertAll (m : κ → Option ν) (pairs : List (κ × ν)) : κ → Option ν :=
  pairs.foldl (fun m p => Function.update m p.1 (some p.2)) m

/-- Insertion that fails with `e` on a key that is already there. -/
def insertNew [DecidableEq ν] (e : ε) (m : κ → Option ν) : List (κ × ν) → Except ε (κ → Option ν)
  | [] => .ok m
  | p :: pairs => do
      rejectIf (m p.1 ≠ none) e
      insertNew e (Function.update m p.1 (some p.2)) pairs

theorem insertAll_of_not_mem {k : κ} (h : k ∉ pairs.map (·.1)) :
    insertAll m pairs k = m k := by
  induction pairs generalizing m with
  | nil => rfl
  | cons p pairs ih =>
    rw [List.map_cons, List.mem_cons, not_or] at h
    rw [insertAll, List.foldl_cons, ← insertAll, ih h.2, Function.update_of_ne h.1]

theorem insertAll_of_mem (hkeys : (pairs.map (·.1)).Nodup) {k : κ} {v : ν}
    (h : (k, v) ∈ pairs) : insertAll m pairs k = some v := by
  induction pairs generalizing m with
  | nil => cases h
  | cons p pairs ih =>
    rw [List.map_cons, List.nodup_cons] at hkeys
    rw [insertAll, List.foldl_cons, ← insertAll]
    rcases List.mem_cons.mp h with rfl | h
    · rw [insertAll_of_not_mem hkeys.1, Function.update_self]
    · exact ih hkeys.2 h

theorem insertNew_eq_insertAll [DecidableEq ν] {e : ε}
    (hkeys : (pairs.map (·.1)).Nodup) (hm : ∀ p ∈ pairs, m p.1 = none) :
    insertNew e m pairs = .ok (insertAll m pairs) := by
  induction pairs generalizing m with
  | nil => rfl
  | cons p pairs ih =>
    rw [List.map_cons, List.nodup_cons] at hkeys
    have hp := hm p List.mem_cons_self
    rw [insertNew, rejectIf_of_not (not_not.mpr hp), ok_bind]
    refine ih hkeys.2 fun q hq => ?_
    have hne : q.1 ≠ p.1 := fun heq => hkeys.1 (heq ▸ List.mem_map_of_mem hq)
    rw [Function.update_of_ne hne]
    exact hm q (List.mem_cons_of_mem _ hq)

/-! ## Maps in the order of their keys -/

/-- Insertion into pairs kept in key order; a key already there gets the new value. -/
def insertOrdered (cmp : κ → κ → Ordering) (k : κ) (v : ν) : List (κ × ν) → List (κ × ν)
  | [] => [(k, v)]
  | p :: pairs =>
    match cmp k p.1 with
    | .lt => (k, v) :: p :: pairs
    | .eq => (k, v) :: pairs
    | .gt => p :: insertOrdered cmp k v pairs

/-- The pairs of a list in the order of their keys, the last one of each key. -/
def orderedMap (cmp : κ → κ → Ordering) (pairs : List (κ × ν)) : List (κ × ν) :=
  pairs.foldl (fun m p => insertOrdered cmp p.1 p.2 m) []

section Ordered

variable {pairs : List (κ × ν)}

omit [DecidableEq κ]

variable {cmp : κ → κ → Ordering}

theorem insertOrdered_perm {k : κ} {v : ν} (h : ∀ p ∈ pairs, cmp k p.1 ≠ .eq) :
    (insertOrdered cmp k v pairs).Perm ((k, v) :: pairs) := by
  induction pairs with
  | nil => exact List.Perm.refl _
  | cons p pairs ih =>
    have hp := h p List.mem_cons_self
    rw [insertOrdered]
    cases hc : cmp k p.1 with
    | lt => exact List.Perm.refl _
    | eq => exact absurd hc hp
    | gt => exact ((ih fun q hq => h q (List.mem_cons_of_mem _ hq)).cons p).trans (List.Perm.swap ..)

theorem foldl_insertOrdered_perm (hcmp : ∀ a b, cmp a b = .eq → a = b) {m : List (κ × ν)}
    (hkeys : ((m ++ pairs).map (·.1)).Nodup) :
    (pairs.foldl (fun m p => insertOrdered cmp p.1 p.2 m) m).Perm (m ++ pairs) := by
  induction pairs generalizing m with
  | nil => simp
  | cons p pairs ih =>
    have hinsert : (insertOrdered cmp p.1 p.2 m).Perm (p :: m) := by
      refine insertOrdered_perm fun q hq heq => ?_
      rw [List.map_append, List.map_cons] at hkeys
      have hdisjoint := List.disjoint_of_nodup_append hkeys
      exact hdisjoint (List.mem_map_of_mem hq) (hcmp _ _ heq ▸ List.mem_cons_self)
    have hmove : (insertOrdered cmp p.1 p.2 m ++ pairs).Perm (m ++ p :: pairs) :=
      (hinsert.append_right pairs).trans List.perm_middle.symm
    exact (ih ((hmove.map _).nodup_iff.mpr hkeys)).trans hmove

theorem orderedMap_perm (hcmp : ∀ a b, cmp a b = .eq → a = b)
    (hkeys : (pairs.map (·.1)).Nodup) : (orderedMap cmp pairs).Perm pairs :=
  foldl_insertOrdered_perm hcmp hkeys

end Ordered

/-! ## Grouping by key -/

/-- Of groups with distinct keys, the elements of one key are one group. -/
theorem filter_flatMap_key {α β : Type} {l : List α} {f : α → List β} {k : α → κ} {key : β → κ}
    (hnodup : (l.map k).Nodup) (hkey : ∀ a ∈ l, ∀ b ∈ f a, key b = k a) {a : α} (ha : a ∈ l) :
    (l.flatMap f).filter (fun b => key b = k a) = f a := by
  induction l with
  | nil => cases ha
  | cons x l ih =>
    rw [List.map_cons, List.nodup_cons] at hnodup
    have hrest : ∀ y ∈ l, ∀ b ∈ f y, key b = k y := fun y hy => hkey y (List.mem_cons_of_mem _ hy)
    rw [List.flatMap_cons, List.filter_append]
    rcases List.mem_cons.mp ha with rfl | ha
    · have hhead : (f a).filter (fun b => key b = k a) = f a := by
        rw [List.filter_eq_self]
        exact fun b hb => decide_eq_true (hkey a List.mem_cons_self b hb)
      have htail : (l.flatMap f).filter (fun b => key b = k a) = [] := by
        rw [List.filter_eq_nil_iff]
        intro b hb hb'
        obtain ⟨y, hy, hby⟩ := List.mem_flatMap.mp hb
        have heq : k y = k a := (hrest y hy b hby).symm.trans (of_decide_eq_true hb')
        exact hnodup.1 (List.mem_map.mpr ⟨y, hy, heq⟩)
      rw [hhead, htail, List.append_nil]
    · have hhead : (f x).filter (fun b => key b = k a) = [] := by
        rw [List.filter_eq_nil_iff]
        intro b hb hb'
        have heq : k a = k x := (of_decide_eq_true hb').symm.trans (hkey x List.mem_cons_self b hb)
        exact hnodup.1 (List.mem_map.mpr ⟨a, ha, heq⟩)
      rw [hhead, List.nil_append]
      exact ih hnodup.2 hrest ha

end Base
