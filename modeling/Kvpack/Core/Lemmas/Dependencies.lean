import Kvpack.Core.Lemmas.Validation

/-!
# Dependencies between states

The depth-first search over the dependencies accepts a graph exactly when it has no cycle: a key is closed only after
everything it depends on, and a key that is met while it is open lies on a cycle.
-/

namespace Kvpack.Core

open Base

/-! ## The search -/

section Search

variable {graph : List (StateKey × List StateKey)} {keys : List StateKey}
variable {key : StateKey} {fuel : Nat} {visiting done : List StateKey}

def dependenciesOf (graph : List (StateKey × List StateKey)) (key : StateKey) : List StateKey :=
  (graph.lookup key).getD []

def Needs (graph : List (StateKey × List StateKey)) (a b : StateKey) : Prop := b ∈ dependenciesOf graph a

/-- No infinite chain of dependencies starts at the key. -/
def Grounded (graph : List (StateKey × List StateKey)) (key : StateKey) : Prop := Acc (Function.swap (Needs graph)) key

theorem Grounded.no_cycle (h : Grounded graph key) : ¬ Relation.TransGen (Needs graph) key key := by
  have hacc : Acc (Relation.TransGen (Function.swap (Needs graph))) key := acc_transGen_iff.mpr h
  rw [← Relation.transGen_swap]
  clear h
  induction hacc with
  | intro k _ ih => exact fun hcycle => ih k hcycle hcycle

theorem visit_succ :
    visit graph (fuel + 1) key visiting done =
      if key ∈ done then .ok done
      else if key ∈ visiting then .error (.graph "state dependency cycle")
      else do
        let done ← (dependenciesOf graph key).foldlM
          (fun done dependency => visit graph fuel dependency (key :: visiting) done) done
        return key :: done := rfl

/-- A search that succeeds closes the key and only grounded keys, and keeps what was closed. -/
theorem visit_eq_ok {done' : List StateKey}
    (hdone : ∀ k ∈ done, Grounded graph k) (h : visit graph fuel key visiting done = .ok done') :
    (∀ k ∈ done', Grounded graph k) ∧ key ∈ done' ∧ done ⊆ done' := by
  induction fuel generalizing key visiting done done' with
  | zero => cases h
  | succ fuel ih =>
    rw [visit_succ] at h
    split at h
    · rename_i hmem
      cases h
      exact ⟨hdone, hmem, List.Subset.refl _⟩
    · split at h
      · cases h
      · simp only [bind_eq_ok, pure_eq_ok] at h
        obtain ⟨closed, hfold, rfl⟩ := h
        obtain ⟨hclosed, hall, hsub⟩ := foldlM_marks hdone
          (fun dependency _ before after hbefore hvisit => ih hbefore hvisit) hfold
        refine ⟨?_, List.mem_cons_self, fun k hk => List.mem_cons_of_mem _ (hsub k hk)⟩
        intro k hk
        rcases List.mem_cons.mp hk with rfl | hk
        · exact Acc.intro _ fun dependency hneeds => hclosed dependency (hall dependency hneeds)
        · exact hclosed k hk

/-- While the stack leads to the key and there is no cycle, the key is not on the stack and the fuel lasts. -/
theorem visit_total (hclosed : ∀ k ∈ keys, dependenciesOf graph k ⊆ keys)
    (hacyclic : ∀ k, ¬ Relation.TransGen (Needs graph) k k) (hkey : key ∈ keys) (hnodup : visiting.Nodup)
    (hsub : visiting ⊆ keys)
    (hpath : ∀ k ∈ visiting, Relation.TransGen (Needs graph) k key) (hfuel : keys.length < fuel + visiting.length)
    (done : List StateKey) : ∃ done', visit graph fuel key visiting done = .ok done' := by
  induction fuel generalizing key visiting done with
  | zero =>
    have hle : visiting.length ≤ keys.length := (hnodup.subperm hsub).length_le
    omega
  | succ fuel ih =>
    rw [visit_succ]
    split
    · exact ⟨done, rfl⟩
    · rename_i hopen
      have hnot : key ∉ visiting := fun hmem => hacyclic key (hpath key hmem)
      rw [if_neg hnot]
      have hstep : ∀ dependency ∈ dependenciesOf graph key, ∀ before,
          ∃ after, visit graph fuel dependency (key :: visiting) before = .ok after := by
        intro dependency hneeds before
        refine ih (hclosed key hkey hneeds) (List.nodup_cons.mpr ⟨hnot, hnodup⟩)
          (List.cons_subset.mpr ⟨hkey, hsub⟩) ?_ (by rw [List.length_cons]; omega) before
        intro k hk
        rcases List.mem_cons.mp hk with rfl | hk
        · exact Relation.TransGen.single hneeds
        · exact (hpath k hk).tail hneeds
      obtain ⟨closed, hfold⟩ := foldlM_total hstep done
      exact ⟨key :: closed, by rw [hfold]; rfl⟩

/-- Fuel that covers the keys off the stack is never used up. -/
theorem visit_fuel (hclosed : ∀ k ∈ keys, dependenciesOf graph k ⊆ keys) (hkey : key ∈ keys) (hnodup : visiting.Nodup)
    (hsub : visiting ⊆ keys) (hfuel : keys.length < fuel + visiting.length) (done : List StateKey) :
    visit graph (fuel + 1) key visiting done = visit graph fuel key visiting done := by
  induction fuel generalizing key visiting done with
  | zero =>
    have hle : visiting.length ≤ keys.length := (hnodup.subperm hsub).length_le
    omega
  | succ fuel ih =>
    rw [visit_succ, visit_succ]
    by_cases hnot : key ∈ visiting
    · simp only [if_pos hnot]
    · have hfold : (dependenciesOf graph key).foldlM
          (fun done dependency => visit graph (fuel + 1) dependency (key :: visiting) done) done =
          (dependenciesOf graph key).foldlM
            (fun done dependency => visit graph fuel dependency (key :: visiting) done) done := by
        refine foldlM_congr (fun dependency hneeds before => ?_) done
        exact ih (hclosed key hkey hneeds) (List.nodup_cons.mpr ⟨hnot, hnodup⟩)
          (List.cons_subset.mpr ⟨hkey, hsub⟩) (by rw [List.length_cons]; omega) before
      rw [hfold]

end Search

/-! ## The validation -/

theorem validateDependencyList_eq_ok {keys dependencies : List StateKey} {key : StateKey} {previous : Option StateKey} :
    validateDependencyList keys key previous dependencies = .ok () ↔
      (∀ d ∈ dependencies, d ≠ key ∧ d ∈ keys) ∧ SortedAfter previous dependencies := by
  induction dependencies generalizing previous with
  | nil =>
    have hsorted : SortedAfter previous [] := by cases previous <;> simp [SortedAfter]
    simp [validateDependencyList, hsorted]
  | cons d ds ih =>
    simp only [validateDependencyList, bind_eq_ok, exists_unit, rejectIf_eq_ok, not_not, ih, sortedAfter_cons,
      List.forall_mem_cons]
    constructor
    · rintro ⟨hne, hmem, horder, hall, hsorted⟩
      exact ⟨⟨⟨hne, hmem⟩, hall⟩, horder, hsorted⟩
    · rintro ⟨⟨⟨hne, hmem⟩, hall⟩, horder, hsorted⟩
      exact ⟨hne, hmem, horder, hall, hsorted⟩

theorem StateKey.eq_of_cmp {a b : StateKey} (h : a.cmp b = .eq) : a = b := by
  unfold cmp at h
  split at h
  · cases h
  · split at h
    · assumption
    · cases h

/-- A state of the list with the first key depends on the second key. -/
def DependsOn (states : List FamilyState) (a b : StateKey) : Prop :=
  ∃ s ∈ states, s.key = a ∧ b ∈ s.dependencies

section Graph

variable {states : List FamilyState}

theorem mem_dependencyGraph (hkeys : (states.map (·.key)).Nodup) {entry : StateKey × List StateKey} :
    entry ∈ dependencyGraph states ↔ ∃ s ∈ states, (s.key, s.dependencies) = entry := by
  have hnodup : ((states.map fun s => (s.key, s.dependencies)).map (·.1)).Nodup := by
    rw [List.map_map]
    exact hkeys
  rw [dependencyGraph, (orderedMap_perm (fun _ _ => StateKey.eq_of_cmp) hnodup).mem_iff, List.mem_map]

theorem keys_dependencyGraph (hkeys : (states.map (·.key)).Nodup) :
    ((dependencyGraph states).map (·.1)).Perm (states.map (·.key)) := by
  have hnodup : ((states.map fun s => (s.key, s.dependencies)).map (·.1)).Nodup := by
    rw [List.map_map]
    exact hkeys
  have hperm := (orderedMap_perm (fun _ _ => StateKey.eq_of_cmp) hnodup).map (·.1)
  rwa [List.map_map] at hperm

theorem lookup_eq_some_iff {l : List (StateKey × List StateKey)} (hl : (l.map (·.1)).Nodup) {k : StateKey}
    {v : List StateKey} : l.lookup k = some v ↔ (k, v) ∈ l := by
  induction l with
  | nil => simp
  | cons p l ih =>
    rw [List.map_cons, List.nodup_cons] at hl
    obtain ⟨k', v'⟩ := p
    by_cases hk : k = k'
    · subst hk
      have hnot : (k, v) ∉ l := fun hmem => hl.1 (List.mem_map.mpr ⟨(k, v), hmem, rfl⟩)
      simp [hnot, eq_comm]
    · have hbeq : (k == k') = false := beq_eq_false_iff_ne.mpr hk
      rw [List.lookup_cons, hbeq]
      simp [hk, ih hl.2]

theorem needs_iff (hkeys : (states.map (·.key)).Nodup) {a b : StateKey} :
    Needs (dependencyGraph states) a b ↔ DependsOn states a b := by
  have hnodup := (keys_dependencyGraph hkeys).nodup_iff.mpr hkeys
  constructor
  · intro h
    cases hlookup : (dependencyGraph states).lookup a with
    | none => simp [Needs, dependenciesOf, hlookup] at h
    | some deps =>
      obtain ⟨s, hs, heq⟩ := (mem_dependencyGraph hkeys).mp ((lookup_eq_some_iff hnodup).mp hlookup)
      cases heq
      rw [Needs, dependenciesOf, hlookup] at h
      exact ⟨s, hs, rfl, h⟩
  · rintro ⟨s, hs, rfl, hb⟩
    have hlookup := (lookup_eq_some_iff hnodup).mpr ((mem_dependencyGraph hkeys).mpr ⟨s, hs, rfl⟩)
    rw [Needs, dependenciesOf, hlookup]
    exact hb

/-- The loop over the keys succeeds exactly on a graph without cycle that no dependency leaves. -/
theorem foldlM_visit_eq_ok (hkeys : (states.map (·.key)).Nodup)
    (hclosed : ∀ s ∈ states, s.dependencies ⊆ states.map (·.key)) :
    (∃ done, (dependencyGraph states).foldlM
        (fun done entry => visit (dependencyGraph states) ((dependencyGraph states).length + 1) entry.1 [] done) [] =
      .ok done) ↔ ∀ k, ¬ Relation.TransGen (DependsOn states) k k := by
  have hneeds : Needs (dependencyGraph states) = DependsOn states := by
    funext a b
    exact propext (needs_iff hkeys)
  have hperm := keys_dependencyGraph hkeys
  constructor
  · rintro ⟨done, hdone⟩ k hcycle
    obtain ⟨hgrounded, hall, -⟩ := foldlM_marks (I := fun done => ∀ k ∈ done, Grounded (dependencyGraph states) k)
      (P := fun entry done => entry.1 ∈ done) (by simp)
      (fun entry _ before after hbefore hvisit => by
        obtain ⟨h1, h2, h3⟩ := visit_eq_ok hbefore hvisit
        exact ⟨h1, h2, fun other hother => h3 hother⟩) hdone
    -- the first state of the cycle is one of the list
    obtain ⟨next, ⟨s, hs, rfl, -⟩, -⟩ := Relation.TransGen.head'_iff.mp hcycle
    have hmem := hall _ ((mem_dependencyGraph hkeys).mpr ⟨s, hs, rfl⟩)
    rw [← hneeds] at hcycle
    exact (hgrounded _ hmem).no_cycle hcycle
  · intro hacyclic
    refine foldlM_total (fun entry hentry before => ?_) []
    obtain ⟨s, hs, rfl⟩ := (mem_dependencyGraph hkeys).mp hentry
    have hinside : ∀ k ∈ states.map (·.key), dependenciesOf (dependencyGraph states) k ⊆ states.map (·.key) := by
      intro k _ d hd
      obtain ⟨t, ht, -, hmem⟩ := (needs_iff hkeys).mp hd
      exact hclosed t ht hmem
    have hlength := hperm.length_eq
    rw [List.length_map] at hlength
    refine visit_total hinside (hneeds ▸ hacyclic) (List.mem_map_of_mem hs) List.nodup_nil (List.nil_subset _)
      (by simp) ?_ before
    rw [hlength, List.length_nil]
    omega

/-- The check passes exactly when the lists are ordered, name other states and form no cycle. -/
theorem validateDependencies_eq_ok (hkeys : (states.map (·.key)).Nodup) :
    validateDependencies states = .ok () ↔
      (∀ s ∈ states, (∀ d ∈ s.dependencies, d ≠ s.key ∧ d ∈ states.map (·.key)) ∧
        s.dependencies.Pairwise (· < ·)) ∧
      ∀ k, ¬ Relation.TransGen (DependsOn states) k k := by
  have hlists : (∀ entry ∈ dependencyGraph states,
      validateDependencyList (states.map (·.key)) entry.1 none entry.2 = .ok ()) ↔
      ∀ s ∈ states, (∀ d ∈ s.dependencies, d ≠ s.key ∧ d ∈ states.map (·.key)) ∧
        s.dependencies.Pairwise (· < ·) := by
    simp only [mem_dependencyGraph hkeys, forall_exists_index, and_imp, forall_apply_eq_imp_iff₂,
      validateDependencyList_eq_ok]
    rfl
  simp only [validateDependencies, bind_eq_ok, exists_unit, checkAll_eq_ok, pure_eq_ok, hlists, and_true]
  refine and_congr_right fun hall => ?_
  exact foldlM_visit_eq_ok hkeys fun s hs d hd => ((hall s hs).1 d hd).2

end Graph

end Kvpack.Core
