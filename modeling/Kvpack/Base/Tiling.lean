import Mathlib.Tactic

/-!
# Segments that tile a range

A segment is a start and a length. `Tiles a l b` says that the segments of `l`, taken in order, run from `a` to `b`
without gap or overlap; `ExactCover` is the same fact as a statement about the positions they contain.
-/

namespace Base

variable {a b k n : Nat} {l l' : List (Nat × Nat)}

/-- Consecutive nonempty segments from `a` to `b`. -/
def Tiles : Nat → List (Nat × Nat) → Nat → Prop
  | a, [], b => a = b
  | a, s :: l, b => s.1 = a ∧ 0 < s.2 ∧ Tiles (a + s.2) l b

/-- Nonempty segments, in order and disjoint, of exactly the positions from `a` up to `b`. -/
structure ExactCover (l : List (Nat × Nat)) (a b : Nat) : Prop where
  nonempty : ∀ s ∈ l, 0 < s.2
  ordered : l.Pairwise fun s t => s.1 + s.2 ≤ t.1
  cover : ∀ x, (∃ s ∈ l, s.1 ≤ x ∧ x < s.1 + s.2) ↔ a ≤ x ∧ x < b

theorem tiles_append :
    Tiles a (l ++ l') b ↔ ∃ m, Tiles a l m ∧ Tiles m l' b := by
  induction l generalizing a with
  | nil => simp [Tiles]
  | cons s l ih => simp [Tiles, ih, and_assoc]

theorem Tiles.append {m : Nat} (h : Tiles a l m) (h' : Tiles m l' b) :
    Tiles a (l ++ l') b := tiles_append.mpr ⟨m, h, h'⟩

theorem Tiles.sum (h : Tiles a l b) : a + (l.map (·.2)).sum = b := by
  induction l generalizing a with
  | nil => simpa [Tiles] using h
  | cons s l ih =>
    have := ih h.2.2
    simp only [List.map_cons, List.sum_cons]
    omega

theorem Tiles.le (h : Tiles a l b) : a ≤ b := by
  have := h.sum
  omega

theorem Tiles.mem (h : Tiles a l b) {s : Nat × Nat} (hs : s ∈ l) :
    a ≤ s.1 ∧ 0 < s.2 ∧ s.1 + s.2 ≤ b := by
  induction l generalizing a with
  | nil => cases hs
  | cons t l ih =>
    obtain ⟨h1, h2, h3⟩ := h
    rcases List.mem_cons.mp hs with rfl | hs
    · have := h3.le
      omega
    · have := ih h3 hs
      omega

theorem Tiles.exactCover (h : Tiles a l b) : ExactCover l a b := by
  refine ⟨fun s hs => (h.mem hs).2.1, ?_, ?_⟩
  · induction l generalizing a with
    | nil => exact List.Pairwise.nil
    | cons s l ih =>
      obtain ⟨h1, h2, h3⟩ := h
      refine List.Pairwise.cons (fun t ht => ?_) (ih h3)
      have := h3.mem ht
      omega
  · intro x
    induction l generalizing a with
    | nil =>
      have hab : a = b := h
      simp only [List.not_mem_nil, false_and, exists_false, false_iff]
      omega
    | cons s l ih =>
      obtain ⟨h1, h2, h3⟩ := h
      have hle := h3.le
      simp only [List.mem_cons, exists_eq_or_imp, ih h3]
      omega

/-- Scaling every segment by `k`: from tokens to bytes, say. -/
theorem Tiles.scale (hk : 0 < k) (h : Tiles a l b) :
    Tiles (a * k) (l.map fun s => (s.1 * k, s.2 * k)) (b * k) := by
  induction l generalizing a with
  | nil =>
    have hab : a = b := h
    exact congrArg (· * k) hab
  | cons s l ih =>
    obtain ⟨h1, h2, h3⟩ := h
    refine ⟨congrArg (· * k) h1, Nat.mul_pos h2 hk, ?_⟩
    have := ih h3
    rwa [Nat.add_mul] at this

theorem Tiles.shift {c : Nat} (h : Tiles (a + c) l (b + c)) :
    Tiles a (l.map fun s => (s.1 - c, s.2)) b := by
  induction l generalizing a with
  | nil =>
    have hab : a + c = b + c := h
    exact Nat.add_right_cancel hab
  | cons s l ih =>
    obtain ⟨h1, h2, h3⟩ := h
    refine ⟨by simp only; omega, h2, ih ?_⟩
    rwa [Nat.add_right_comm]

/-- A tiling is determined by where it starts and by its lengths. -/
theorem Tiles.unique {b' : Nat} (h : Tiles a l b) (h' : Tiles a l' b')
    (hlen : l.map (·.2) = l'.map (·.2)) : l = l' := by
  induction l generalizing a l' with
  | nil => exact (List.map_eq_nil_iff.mp hlen.symm).symm
  | cons s l ih =>
    cases l' with
    | nil => simp at hlen
    | cons t l' =>
      simp only [List.map_cons, List.cons.injEq] at hlen
      obtain ⟨h1, -, h2⟩ := h
      obtain ⟨h1', -, h2'⟩ := h'
      rw [← hlen.1] at h2'
      rw [ih h2 h2' hlen.2, Prod.ext (h1.trans h1'.symm) hlen.1]

/-! ## Blocks of a list -/

/-- The list cut into blocks of `n` elements, the last one possibly shorter. -/
def blocks {α : Type} (n : Nat) (l : List α) : List (List α) :=
  (List.range ((l.length + n - 1) / n)).map fun i => (l.drop (i * n)).take n

theorem flatten_take_blocks {α : Type} (hn : 0 < n) (l : List α) (k : Nat) :
    ((blocks n l).take k).flatten = l.take (k * n) := by
  unfold blocks
  rw [← List.map_take, List.take_range]
  induction k with
  | zero => simp
  | succ k ih =>
    rcases Nat.lt_or_ge k ((l.length + n - 1) / n) with hk | hk
    · rw [min_eq_left hk, List.range_succ, List.map_append, List.flatten_append]
      rw [min_eq_left hk.le] at ih
      rw [ih, Nat.succ_mul, List.take_add]
      simp
    · rw [min_eq_right (by omega)]
      rw [min_eq_right hk] at ih
      have hlen : l.length ≤ k * n := by
        have hdiv := Nat.lt_mul_of_div_lt (Nat.lt_succ_of_le hk) hn
        rw [Nat.succ_mul] at hdiv
        omega
      rw [ih, List.take_of_length_le hlen, List.take_of_length_le (by rw [Nat.succ_mul]; omega)]

theorem length_mem_blocks {α : Type} {l block : List α} (h : block ∈ blocks n l) : block.length ≤ n := by
  obtain ⟨i, -, rfl⟩ := List.mem_map.mp h
  simp

/-- The blocks up to and including one of them are the elements up to its end. -/
theorem flatten_of_blocks_eq {α : Type} (hn : 0 < n) {l block : List α} {before after : List (List α)}
    (h : blocks n l = before ++ block :: after) :
    (before ++ [block]).flatten = l.take (before.length * n + block.length) ∧
      before.length * n + block.length ≤ l.length := by
  have hbefore : before.flatten = l.take (before.length * n) := by
    rw [← flatten_take_blocks hn, h, List.take_left]
  have hlt : before.length < (l.length + n - 1) / n := by
    have hcount := congrArg List.length h
    simp only [blocks, List.length_map, List.length_range, List.length_append, List.length_cons] at hcount
    omega
  have hblock : block = (l.drop (before.length * n)).take n := by
    have hget : (blocks n l)[before.length]? = some block := by simp [h]
    simpa [blocks, hlt] using hget.symm
  have hstart : (before.length + 1) * n ≤ l.length + n - 1 := Nat.mul_le_of_le_div _ _ _ hlt
  rw [Nat.succ_mul] at hstart
  have hlength : block.length = min n (l.length - before.length * n) := by rw [hblock]; simp
  refine ⟨?_, by omega⟩
  have htake : block = (l.drop (before.length * n)).take block.length := by
    rw [hlength, hblock, ← List.length_drop, List.take_eq_take_min]
  rw [List.flatten_append, hbefore, List.take_add, ← htake]
  simp

theorem flatten_blocks {α : Type} (hn : 0 < n) (l : List α) : (blocks n l).flatten = l := by
  have hcount : (blocks n l).length = (l.length + n - 1) / n := by simp [blocks]
  have hle : l.length ≤ (blocks n l).length * n := by
    have hdiv := Nat.lt_div_mul_add hn (a := l.length + n - 1)
    rw [hcount]
    omega
  rw [← List.take_length (l := blocks n l), flatten_take_blocks hn, List.take_of_length_le hle]

theorem getElem?_blocks {α : Type} (hn : 0 < n) {l : List α} (h : (k + 1) * n ≤ l.length) :
    (blocks n l)[k]? = some ((l.drop (k * n)).take n) := by
  have hlt : k < (l.length + n - 1) / n := by
    refine Nat.lt_of_succ_le ((Nat.le_div_iff_mul_le hn).mpr ?_)
    have hstep : k.succ * n = (k + 1) * n := rfl
    omega
  simp [blocks, hlt]

/-! ## Common parts -/

def commonLength {α : Type} [DecidableEq α] : List α → List α → Nat
  | x :: l, y :: l' => if x = y then commonLength l l' + 1 else 0
  | _, _ => 0

theorem le_commonLength_iff {α : Type} [DecidableEq α] {l l' : List α} :
    k ≤ commonLength l l' ↔ l.take k = l'.take k ∧ k ≤ l.length ∧ k ≤ l'.length := by
  induction l generalizing l' k with
  | nil =>
    simp only [commonLength, List.take_nil, List.length_nil, Nat.le_zero]
    constructor
    · rintro rfl
      exact ⟨(List.take_zero).symm, rfl, Nat.zero_le _⟩
    · exact fun h => h.2.1
  | cons x l ih =>
    cases l' with
    | nil =>
      simp only [commonLength, List.length_nil, Nat.le_zero]
      constructor
      · rintro rfl
        exact ⟨rfl, Nat.zero_le _, rfl⟩
      · exact fun h => h.2.2
    | cons y l' =>
      cases k with
      | zero => simp
      | succ k =>
        by_cases hxy : x = y
        · simp [commonLength, hxy, ih]
        · simp [commonLength, hxy]

end Base
