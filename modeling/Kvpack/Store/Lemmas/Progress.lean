import Kvpack.Store.Lemmas.Steps

/-!
# Operations in progress

What one step does to the evictions, collections and demotions that other steps have begun.
-/

namespace Kvpack.Store

open Base Kvpack.Core

variable {C : Crypto} {config : StoreConfig} {c : Catalog} {key : Id32} {s s' : State} {e : Event}

/-! ## Files still to remove -/

/-- The victims whose files a collection has still to move. -/
def Collection.waiting (collection : Collection) : List Id32 :=
  collection.pending.map (·.objectKey) ++ collection.current.toList.map (·.objectKey)

theorem Collection.waiting_check {collection : Collection} {victim : Victim} {pending : List Victim}
    {current : Option Moved} (hcurrent : collection.current = none) (hpending : collection.pending = victim :: pending)
    (hcheck : checkVictim victim c = .ok current) :
    Collection.waiting { collection with pending, current } ⊆ collection.waiting := by
  intro key hkey
  simp only [waiting, hpending, hcurrent, List.map_cons, List.mem_append, List.mem_cons] at hkey ⊢
  obtain ⟨-, rfl⟩ | ⟨row, -, rfl⟩ := checkVictim_eq_ok hcheck
  · simp only [Option.toList_none, List.map_nil, List.not_mem_nil, or_false] at hkey
    exact Or.inl (Or.inr hkey)
  · simp only [Option.toList_some, List.map_cons, List.map_nil, List.mem_singleton] at hkey
    tauto

theorem Collection.waiting_move {collection : Collection} {moved : List Moved} :
    Collection.waiting { collection with current := none, moved } ⊆ collection.waiting := by
  intro key hkey
  simp only [waiting, Option.toList_none, List.map_nil, List.append_nil] at hkey
  exact List.mem_append_left _ hkey

/-- A collection that goes on waits for no more files than before. -/
theorem waiting_advance {collections : List Collection} {collection collection' : Collection}
    (hcollection : collection ∈ collections) (hwaiting : collection'.waiting ⊆ collection.waiting) :
    (collection' :: collections.erase collection).flatMap Collection.waiting ⊆
      collections.flatMap Collection.waiting := by
  intro key hkey
  rw [List.flatMap_cons, List.mem_append, List.mem_flatMap] at hkey
  rcases hkey with hkey | ⟨col, hcol, hmem⟩
  · exact List.mem_flatMap.mpr ⟨collection, hcollection, hwaiting hkey⟩
  · exact List.mem_flatMap.mpr ⟨col, List.mem_of_mem_erase hcol, hmem⟩

theorem waiting_erase {collections : List Collection} {collection : Collection} :
    (collections.erase collection).flatMap Collection.waiting ⊆ collections.flatMap Collection.waiting := by
  intro key hkey
  obtain ⟨col, hcol, hmem⟩ := List.mem_flatMap.mp hkey
  exact List.mem_flatMap.mpr ⟨col, List.mem_of_mem_erase hcol, hmem⟩

theorem flatten_advance {removals : List (List Id32)} {removal : List Id32} (hremoval : key :: removal ∈ removals) :
    (removal :: removals.erase (key :: removal)).flatten ⊆ removals.flatten := by
  intro k hk
  rw [List.flatten_cons, List.mem_append, List.mem_flatten] at hk
  rcases hk with hk | ⟨removal', hremoval', hmem⟩
  · exact List.mem_flatten.mpr ⟨_, hremoval, List.mem_cons_of_mem _ hk⟩
  · exact List.mem_flatten.mpr ⟨removal', List.mem_of_mem_erase hremoval', hmem⟩

/-- The files that collections and demotions in progress are going to remove. -/
def State.condemned (s : State) : List Id32 := s.collections.flatMap Collection.waiting ++ s.removals.flatten

theorem State.mem_condemned : key ∈ s.condemned ↔
    (∃ collection ∈ s.collections, key ∈ collection.waiting) ∨ ∃ removal ∈ s.removals, key ∈ removal := by
  simp only [condemned, List.mem_append, List.mem_flatMap, List.mem_flatten]

/-! ## One step -/

/-- What a step does to the clock and to the operations in progress. -/
structure Advanced (s : State) (e : Event) (s' : State) : Prop where
  clock : s.clock ≤ s'.clock
  evictions : ∀ eviction ∈ s'.evictions, eviction ∈ s.evictions ∨
    ∃ id, e = .evict id ∧ evictManifest id s.clock s.catalog = .ok (s'.catalog, eviction)
  demotions : ∀ victims ∈ s'.demotions, victims ∈ s.demotions ∨
    ∃ keys, e = .selectDemotions keys ∧ selectDemotions keys s.clock s.catalog = .ok victims
  condemned : ∀ key ∈ s'.condemned, key ∈ s.condemned ∨ (∃ keys, e = .selectVictims keys ∧ key ∈ keys) ∨
    ∃ victims, e = .demoteVictims victims ∧ key ∈ droppedBytes victims

theorem Advanced.of_subset (hclock : s.clock ≤ s'.clock) (hevictions : s'.evictions ⊆ s.evictions)
    (hdemotions : s'.demotions ⊆ s.demotions)
    (hcollections : s'.collections.flatMap Collection.waiting ⊆ s.collections.flatMap Collection.waiting)
    (hremovals : s'.removals.flatten ⊆ s.removals.flatten) : Advanced s e s' where
  clock := hclock
  evictions _ h := Or.inl (hevictions h)
  demotions _ h := Or.inl (hdemotions h)
  condemned key h := by
    refine Or.inl ?_
    simp only [State.condemned, List.mem_append] at h ⊢
    exact h.imp (@hcollections key) (@hremovals key)

theorem Advanced.of_same (hclock : s.clock ≤ s'.clock)
    (hsame : (s'.evictions, s'.demotions, s'.collections, s'.removals) =
      (s.evictions, s.demotions, s.collections, s.removals)) : Advanced s e s' := by
  simp only [Prod.mk.injEq] at hsame
  obtain ⟨hevictions, hdemotions, hcollections, hremovals⟩ := hsame
  refine .of_subset hclock ?_ ?_ ?_ ?_
  · rw [hevictions]
    exact List.Subset.refl _
  · rw [hdemotions]
    exact List.Subset.refl _
  · rw [hcollections]
    exact List.Subset.refl _
  · rw [hremovals]
    exact List.Subset.refl _

theorem exec_advanced (h : exec C config s e = .ok s') : Advanced s e s' := by
  by_cases hpassive : e.passive = true
  · obtain ⟨_, _, _, _, _, hclock, rfl⟩ := exec_passive h hpassive
    exact .of_same hclock rfl
  cases e with
  | transact t =>
    obtain ⟨c', -, rfl⟩ := exec_transact h
    exact .of_same (le_refl _) rfl
  | catalogPut put =>
    obtain ⟨-, -, c', cataloged, -, rfl⟩ := exec_catalogPut h
    exact .of_same (le_refl _) rfl
  | cleanupPromotion key objectKey =>
    cases h
    by_cases hexclusive : s.catalog.exclusive key objectKey
    · rw [if_pos hexclusive]
      exact .of_same (le_refl _) rfl
    · rw [if_neg hexclusive]
      exact .of_same (le_refl _) rfl
  | evict manifestId =>
    obtain ⟨c', eviction, hevict, rfl⟩ := exec_evict h
    refine ⟨le_refl _, fun eviction' heviction' => ?_, fun _ h => Or.inl h, fun _ h => Or.inl h⟩
    rcases List.mem_cons.mp heviction' with rfl | heviction'
    · exact Or.inr ⟨manifestId, rfl, hevict⟩
    · exact Or.inl heviction'
  | finishEviction eviction =>
    obtain ⟨-, c', -, rfl⟩ := exec_finishEviction h
    exact .of_subset (le_refl _) List.erase_subset (List.Subset.refl _) (List.Subset.refl _) (List.Subset.refl _)
  | selectVictims keys =>
    obtain ⟨c', victims, hselect, rfl⟩ := exec_selectVictims h
    obtain ⟨-, -, -, rfl, -⟩ := selectVictims_eq_ok hselect
    refine ⟨le_refl _, fun _ h => Or.inl h, fun _ h => Or.inl h, fun key hkey => ?_⟩
    rcases State.mem_condemned.mp hkey with ⟨collection, hcollection, hwaiting⟩ | hremoval
    · rcases List.mem_cons.mp hcollection with rfl | hcollection
      · have hmem : key ∈ keys := by simpa [Collection.waiting, Function.comp_def] using hwaiting
        exact Or.inr (Or.inl ⟨keys, rfl, hmem⟩)
      · exact Or.inl (State.mem_condemned.mpr (Or.inl ⟨collection, hcollection, hwaiting⟩))
    · exact Or.inl (State.mem_condemned.mpr (Or.inr hremoval))
  | checkVictim collection =>
    obtain ⟨hcollection, hcurrent, victim, pending, current, hpending, hcheck, rfl⟩ := exec_checkVictim h
    exact .of_subset (le_refl _) (List.Subset.refl _) (List.Subset.refl _)
      (waiting_advance hcollection (Collection.waiting_check hcurrent hpending hcheck)) (List.Subset.refl _)
  | moveVictim collection =>
    obtain ⟨hcollection, moved, hcurrent, rfl⟩ := exec_moveVictim h
    exact .of_subset (le_refl _) (List.Subset.refl _) (List.Subset.refl _)
      (waiting_advance hcollection Collection.waiting_move) (List.Subset.refl _)
  | finishCollection collection =>
    obtain ⟨-, -, -, c', -, rfl⟩ := exec_finishCollection h
    exact .of_subset (le_refl _) (List.Subset.refl _) (List.Subset.refl _) waiting_erase (List.Subset.refl _)
  | selectDemotions keys =>
    obtain ⟨victims, hselect, rfl⟩ := exec_selectDemotions h
    refine ⟨le_refl _, fun _ h => Or.inl h, fun victims' hvictims' => ?_, fun _ h => Or.inl h⟩
    rcases List.mem_cons.mp hvictims' with rfl | hvictims'
    · exact Or.inr ⟨keys, rfl, hselect⟩
    · exact Or.inl hvictims'
  | demoteVictims victims =>
    obtain ⟨-, c', -, rfl⟩ := exec_demoteVictims h
    refine ⟨le_refl _, fun _ h => Or.inl h, fun _ h => Or.inl (List.mem_of_mem_erase h), fun key hkey => ?_⟩
    rcases State.mem_condemned.mp hkey with hcollection | ⟨removal, hremoval, hmem⟩
    · exact Or.inl (State.mem_condemned.mpr (Or.inl hcollection))
    · rcases List.mem_cons.mp hremoval with rfl | hremoval
      · exact Or.inr (Or.inr ⟨victims, rfl, hmem⟩)
      · exact Or.inl (State.mem_condemned.mpr (Or.inr ⟨removal, hremoval, hmem⟩))
  | dropFile removal =>
    obtain ⟨hremoval, key, keys, rfl, rfl⟩ := exec_dropFile h
    exact .of_subset (le_refl _) (List.Subset.refl _) (List.Subset.refl _) (List.Subset.refl _)
      (flatten_advance hremoval)
  | _ => exact absurd rfl hpassive

end Kvpack.Store
