import Mathlib.Tactic

/-!
# Keyed tables

A database table with a primary key: rows with distinct keys. Every writing operation is characterised by what `get?`
returns afterwards and by what it does to a sum over the rows.
-/

namespace Base

/-- Rows under distinct keys. -/
structure Table (κ ν : Type) where
  rows : List (κ × ν)
  nodup : (rows.map (·.1)).Nodup
  deriving DecidableEq

namespace Table

variable {κ ν : Type} {t : Table κ ν} {k k' : κ} {v : ν} {w w' : κ → ν → Nat}
variable {p : κ → ν → Bool}

def empty : Table κ ν := ⟨[], List.nodup_nil⟩

def get? [DecidableEq κ] (t : Table κ ν) (k : κ) : Option ν := (t.rows.find? fun r => r.1 = k).map (·.2)

def filter (t : Table κ ν) (p : κ → ν → Bool) : Table κ ν :=
  ⟨t.rows.filter fun r => p r.1 r.2, (List.filter_sublist.map _).nodup t.nodup⟩

def map (t : Table κ ν) (f : κ → ν → ν) : Table κ ν :=
  ⟨t.rows.map fun r => (r.1, f r.1 r.2), by
    rw [List.map_map]
    exact t.nodup⟩

def any (t : Table κ ν) (p : κ → ν → Bool) : Bool := t.rows.any fun r => p r.1 r.2

def sum (t : Table κ ν) (w : κ → ν → Nat) : Nat := (t.rows.map fun r => w r.1 r.2).sum

theorem sum_add : t.sum (fun k v => w k v + w' k v) = t.sum w + t.sum w' := by
  simp only [sum, List.sum_map_add]

@[simp]
theorem sum_map {f : κ → ν → ν} : (t.map f).sum w = t.sum fun k v => w k (f k v) := by
  simp only [sum, map, List.map_map, Function.comp_def]

@[simp]
theorem map_map {f g : κ → ν → ν} : (t.map f).map g = t.map fun k v => g k (f k v) := by
  simp only [map, List.map_map, Function.comp_def]

@[simp]
theorem filter_filter {p q : κ → ν → Bool} : (t.filter p).filter q = t.filter fun k v => p k v && q k v := by
  simp only [filter, List.filter_filter, Bool.and_comm]

theorem sum_filter : (t.filter p).sum w = t.sum fun k v => if p k v then w k v else 0 := by
  obtain ⟨rows, hnodup⟩ := t
  simp only [sum, filter]
  clear hnodup
  induction rows with
  | nil => rfl
  | cons r rows ih =>
    cases hr : p r.1 r.2 with
    | true | false => simp [hr, ih]

variable [DecidableEq κ]

def erase (t : Table κ ν) (k : κ) : Table κ ν := t.filter fun k' _ => k' ≠ k

theorem not_mem_erase_rows (t : Table κ ν) (k : κ) : k ∉ (t.erase k).rows.map (·.1) := by
  intro h
  obtain ⟨r, hr, rfl⟩ := List.mem_map.mp h
  simpa using (List.mem_filter.mp hr).2

def put (t : Table κ ν) (k : κ) (v : ν) : Table κ ν :=
  ⟨(k, v) :: (t.erase k).rows, List.nodup_cons.mpr ⟨t.not_mem_erase_rows k, (t.erase k).nodup⟩⟩

def modify (t : Table κ ν) (k : κ) (f : ν → ν) : Table κ ν := t.map fun k' v => if k' = k then f v else v

/-! ## Reading -/

theorem get?_eq_some_iff : t.get? k = some v ↔ (k, v) ∈ t.rows := by
  obtain ⟨rows, hnodup⟩ := t
  unfold get?
  induction rows with
  | nil => simp
  | cons r rows ih =>
    rw [List.map_cons, List.nodup_cons] at hnodup
    rw [List.find?_cons, List.mem_cons]
    by_cases hr : r.1 = k
    · have hrest : (k, v) ∉ rows := fun h => hnodup.1 (List.mem_map.mpr ⟨_, h, hr.symm⟩)
      simp only [hr, decide_true, Option.map_some, Option.some.injEq, hrest, or_false]
      constructor
      · rintro rfl
        rw [← hr]
      · intro h
        rw [← h]
    · have hne : (k, v) ≠ r := by
        rintro rfl
        exact hr rfl
      simpa only [hr, decide_false, hne, false_or] using ih hnodup.2

theorem get?_eq_none_iff : t.get? k = none ↔ k ∉ t.rows.map (·.1) := by
  rw [Option.eq_none_iff_forall_ne_some]
  simp only [ne_eq, get?_eq_some_iff, List.mem_map, Prod.exists, exists_and_right, exists_eq_right, not_exists]

@[simp]
theorem get?_empty : (empty : Table κ ν).get? k = none := rfl

@[simp]
theorem any_eq_true : t.any p = true ↔ ∃ k v, t.get? k = some v ∧ p k v = true := by
  simp only [any, List.any_eq_true, Prod.exists, get?_eq_some_iff]

theorem any_eq_false : t.any p = false ↔ ∀ k v, t.get? k = some v → p k v = false := by
  rw [← Bool.not_eq_true, any_eq_true]
  simp only [not_exists, not_and, Bool.not_eq_true]

@[simp]
theorem get?_filter : (t.filter p).get? k = (t.get? k).filter (p k) := by
  ext v
  simp only [get?_eq_some_iff, filter, List.mem_filter, Option.filter_eq_some_iff]

@[simp]
theorem get?_map {f : κ → ν → ν} : (t.map f).get? k = (t.get? k).map (f k) := by
  ext v
  simp only [get?_eq_some_iff, map, List.mem_map, Prod.mk.injEq, Prod.exists, Option.map_eq_some_iff]
  constructor
  · rintro ⟨k', u, hu, rfl, rfl⟩
    exact ⟨u, hu, rfl⟩
  · rintro ⟨u, hu, rfl⟩
    exact ⟨k, u, hu, rfl, rfl⟩

theorem get?_erase : (t.erase k).get? k' = if k' = k then none else t.get? k' := by
  rw [erase, get?_filter]
  split
  · rename_i h
    simp [h]
  · rename_i h
    cases t.get? k' <;> simp [h]

@[simp]
theorem get?_erase_self : (t.erase k).get? k = none := by rw [get?_erase, if_pos rfl]

theorem length_erase_lt (h : t.get? k = some v) : (t.erase k).rows.length < t.rows.length := by
  rw [get?_eq_some_iff] at h
  exact List.length_filter_lt_length_iff_exists.mpr ⟨(k, v), h, by simp⟩

theorem get?_put : (t.put k v).get? k' = if k' = k then some v else t.get? k' := by
  split
  · rename_i h
    rw [get?_eq_some_iff, h]
    exact List.mem_cons_self
  · rename_i h
    rw [get?, put, List.find?_cons, decide_eq_false (Ne.symm h)]
    exact get?_erase.trans (if_neg h)

@[simp]
theorem get?_put_self : (t.put k v).get? k = some v := by rw [get?_put, if_pos rfl]

theorem get?_modify {f : ν → ν} : (t.modify k f).get? k' = if k' = k then (t.get? k').map f else t.get? k' := by
  rw [modify, get?_map]
  split
  · rfl
  · exact Option.map_id'

theorem any_put : (t.put k v).any p = (p k v || t.any fun k' v' => decide (k' ≠ k) && p k' v') := by
  have hput : (t.put k v).any p = (p k v || (t.erase k).any p) := rfl
  rw [hput, any, erase, filter, List.any_filter]
  rfl

theorem any_of_get? (h : t.get? k = some v) :
    t.any p = (p k v || t.any fun k' v' => decide (k' ≠ k) && p k' v') := by
  rw [Bool.eq_iff_iff, Bool.or_eq_true, any_eq_true, any_eq_true]
  constructor
  · rintro ⟨k', v', hget, hp⟩
    by_cases hk : k' = k
    · subst hk
      rw [h, Option.some.injEq] at hget
      exact Or.inl (hget ▸ hp)
    · exact Or.inr ⟨k', v', hget, by simp [hk, hp]⟩
  · rintro (hp | ⟨k', v', hget, hp⟩)
    · exact ⟨k, v, h, hp⟩
    · exact ⟨k', v', hget, by simp at hp; exact hp.2⟩

theorem filter_congr {p q : κ → ν → Bool} (h : ∀ k v, t.get? k = some v → p k v = q k v) :
    t.filter p = t.filter q := by
  have hrows : t.rows.filter (fun r => p r.1 r.2) = t.rows.filter fun r => q r.1 r.2 :=
    List.filter_congr fun r hr => h r.1 r.2 (get?_eq_some_iff.mpr hr)
  simp only [filter, hrows]

/-! ## Sums over the rows -/

theorem sum_congr (h : ∀ k v, t.get? k = some v → w k v = w' k v) : t.sum w = t.sum w' := by
  unfold sum
  congr 1
  exact List.map_congr_left fun r hr => h r.1 r.2 (get?_eq_some_iff.mpr hr)

theorem sum_le_sum (h : ∀ k v, t.get? k = some v → w k v ≤ w' k v) : t.sum w ≤ t.sum w' :=
  List.sum_le_sum fun r hr => h r.1 r.2 (get?_eq_some_iff.mpr hr)

theorem le_sum (h : t.get? k = some v) : w k v ≤ t.sum w :=
  List.le_sum_of_mem (List.mem_map.mpr ⟨(k, v), get?_eq_some_iff.mp h, rfl⟩)

theorem sum_eq_zero (h : ∀ k v, t.get? k = some v → w k v = 0) : t.sum w = 0 := by
  rw [sum, List.sum_eq_zero_iff]
  intro n hn
  obtain ⟨r, hr, rfl⟩ := List.mem_map.mp hn
  exact h r.1 r.2 (get?_eq_some_iff.mpr hr)

theorem sum_eq_add_erase (h : t.get? k = some v) : t.sum w = w k v + (t.erase k).sum w := by
  obtain ⟨rows, hnodup⟩ := t
  rw [get?_eq_some_iff] at h
  simp only [sum, erase, filter] at h ⊢
  induction rows with
  | nil => cases h
  | cons r rows ih =>
    rw [List.map_cons, List.nodup_cons] at hnodup
    rcases List.mem_cons.mp h with rfl | h
    · have hrest : rows.filter (fun r => decide (r.1 ≠ k)) = rows := by
        rw [List.filter_eq_self]
        exact fun r hr => decide_eq_true fun he => hnodup.1 (List.mem_map.mpr ⟨r, hr, he⟩)
      rw [List.map_cons, List.sum_cons, List.filter_cons_of_neg (by simp), hrest]
    · have hne : r.1 ≠ k := by
        rintro rfl
        exact hnodup.1 (List.mem_map.mpr ⟨_, h, rfl⟩)
      rw [List.map_cons, List.sum_cons, List.filter_cons_of_pos (by simpa using hne), List.map_cons, List.sum_cons,
        ih hnodup.2 h]
      omega

theorem sum_eq_add_filter {keys : List κ} {p : κ → Bool} {f : κ → Nat} (hnodup : keys.Nodup)
    (hp : ∀ k, p k ↔ k ∈ keys) (h : ∀ k ∈ keys, ∃ v, t.get? k = some v ∧ w k v = f k) :
    t.sum w = (keys.map f).sum + (t.filter fun k _ => !p k).sum w := by
  induction keys generalizing t p with
  | nil =>
    have hself : (t.filter fun k _ => !p k) = t := by
      have hrows : t.rows.filter (fun r => !p r.1) = t.rows :=
        List.filter_eq_self.mpr fun r _ => by simpa using hp r.1
      simp only [filter, hrows]
    rw [hself, List.map_nil, List.sum_nil, Nat.zero_add]
  | cons k keys ih =>
    rw [List.nodup_cons] at hnodup
    obtain ⟨v, hget, hv⟩ := h k List.mem_cons_self
    have hne {k' : κ} (hk' : k' ∈ keys) : k' ≠ k := fun heq => hnodup.1 (heq ▸ hk')
    have hrest : ∀ k' ∈ keys, ∃ v, (t.erase k).get? k' = some v ∧ w k' v = f k' := by
      intro k' hk'
      rw [get?_erase, if_neg (hne hk')]
      exact h k' (List.mem_cons_of_mem _ hk')
    have hp' : ∀ k', (p k' && decide (k' ≠ k)) = true ↔ k' ∈ keys := by
      intro k'
      rw [Bool.and_eq_true, hp, List.mem_cons, decide_eq_true_eq]
      exact ⟨fun hk' => hk'.1.resolve_left hk'.2, fun hk' => ⟨Or.inr hk', hne hk'⟩⟩
    have hfilter : (t.erase k).filter (fun k' _ => !(p k' && decide (k' ≠ k))) = t.filter fun k' _ => !p k' := by
      rw [erase, filter_filter]
      refine filter_congr fun k' _ _ => ?_
      by_cases hk' : k' = k
      · simp [hk', (hp k).mpr List.mem_cons_self]
      · simp [hk']
    rw [sum_eq_add_erase hget, ih hnodup.2 hp' hrest, hfilter, List.map_cons, List.sum_cons, hv, Nat.add_assoc]

theorem sum_of_keys {keys : List κ} {p : κ → Bool} {f : κ → Nat} (hnodup : keys.Nodup) (hp : ∀ k, p k ↔ k ∈ keys)
    (h : ∀ k ∈ keys, ∃ v, t.get? k = some v ∧ w k v = f k) :
    t.sum (fun k v => if p k then w k v else 0) = (keys.map f).sum := by
  have hsplit := sum_eq_add_filter (t := t) (w := fun k v => if p k then w k v else 0) hnodup hp fun k hk => by
    simpa only [(hp k).mpr hk, if_true] using h k hk
  have hrest : (t.filter fun k _ => !p k).sum (fun k v => if p k then w k v else 0) = 0 := by
    rw [sum_filter]
    refine sum_eq_zero fun k v _ => ?_
    cases p k <;> simp
  rw [hsplit, hrest, Nat.add_zero]

theorem erase_rows_of_none (h : t.get? k = none) : (t.erase k).rows = t.rows := by
  rw [get?_eq_none_iff] at h
  exact List.filter_eq_self.mpr fun r hr => decide_eq_true fun he => h (List.mem_map.mpr ⟨r, hr, he⟩)

theorem sum_put_of_none (h : t.get? k = none) : (t.put k v).sum w = w k v + t.sum w := by
  have hput : (t.put k v).sum w = w k v + (t.erase k).sum w := rfl
  rw [hput, sum, erase_rows_of_none h, sum]

theorem sum_put_of_some {u : ν} (h : t.get? k = some u) : (t.put k v).sum w + w k u = w k v + t.sum w := by
  rw [sum_eq_add_erase h]
  have hput : (t.put k v).sum w = w k v + (t.erase k).sum w := rfl
  omega

end Table

end Base
