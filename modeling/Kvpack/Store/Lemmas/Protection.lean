import Kvpack.Store.Lemmas.Files

/-!
# Pins, leases and the removal of files

A file is removed some time after the transaction that condemned it. `protectStep` is the condition under which that
transaction finds the object unprotected, so that whatever protects it when the file goes has come later.
-/

namespace Kvpack.Store

open Base Kvpack.Core

variable {C : Crypto} {config : StoreConfig} {c c' : Catalog} {now : Nat} {key leaseId : Id32} {s s' : State}
  {e : Event} {es : List Event}

/-- The object whose file an event of a collection or a demotion removes. -/
def Event.removes : Event → Option Id32
  | .moveVictim collection => collection.current.map (·.objectKey)
  | .dropFile removal => removal.head?
  | _ => none

/-- The condition on a step: a demotion that drops files finds its victims unprotected and on their rung if available,
and no lease is reattached after its time. -/
def protectStep (s : State) : Event → Bool
  | .demoteVictims victims => victims.all fun victim =>
    decide (victim.rung = .restQuantized → ¬ s.catalog.guarded s.clock victim.objectKey) &&
    (s.catalog.chunks.get? victim.objectKey).all fun row =>
      decide (victim.rung = .restQuantized → row.locationState = .available → row.fidelityRung = .restQuantized)
  | .transact (.reattachLease fence _) => (s.catalog.sourceLeases.get? fence.leaseId).all fun lease =>
    !(lease.state = .active && lease.expiresNs ≤ s.clock)
  | _ => true

theorem exec_removes (h : exec C config s e = .ok s') (hremoves : e.removes = some key) : key ∈ s.condemned := by
  cases e with
  | moveVictim collection =>
    obtain ⟨hcollection, moved, hcurrent, rfl⟩ := exec_moveVictim h
    simp only [Event.removes, hcurrent, Option.map_some, Option.some.injEq] at hremoves
    refine State.mem_condemned.mpr (Or.inl ⟨collection, hcollection, ?_⟩)
    simp [Collection.waiting, hcurrent, hremoves]
  | dropFile removal =>
    obtain ⟨hremoval, key', keys, rfl, rfl⟩ := exec_dropFile h
    cases hremoves
    exact State.mem_condemned.mpr (Or.inr ⟨_, hremoval, List.mem_cons_self⟩)
  | _ => cases hremoves

theorem CatalogStep.sourceLeases (h : CatalogStep C config now e c c') :
    c'.sourceLeases = c.sourceLeases ∨ ∃ t, e = .transact t ∧ t.onLeases := by
  cases h with
  | transacted t he _ htransaction => exact htransaction.frame.2.imp_right fun ht => ⟨t, he, ht⟩
  | published upload publications he artifacts _ hpublish =>
    obtain ⟨_, _, _, -, -, -, ⟨-, -, _, rfl⟩ | ⟨tx, hcommit⟩⟩ := publishManifestBatch_eq_ok hpublish
    · exact Or.inl rfl
    · obtain ⟨_, rfl⟩ := hcommit.result
      exact Or.inl rfl
  | evicted id he _ eviction hevict =>
    obtain ⟨_, _, -, -, -, rfl⟩ := evictManifest_eq_ok hevict
    exact Or.inl rfl
  | evictionFinished eviction he _ hfinish =>
    obtain ⟨-, rfl⟩ | ⟨_, _, -, rfl⟩ := finishManifestEviction_eq_ok hfinish
    · exact Or.inl rfl
    · exact Or.inl rfl
  | onObjects _ hobjects =>
    obtain ⟨_, _, _, _, -, -, rfl | ⟨_, _, _, _, -, rfl, -⟩⟩ := hobjects.frame
    · exact Or.inl rfl
    · exact Or.inl rfl

/-! ## Objects that were available -/

theorem CatalogStep.row_added {row : ChunkRow} (h : CatalogStep C config now e c c')
    (hrow : c'.chunks.get? key = some row) : (c.chunks.get? key).isSome ∨ isAvailable c'.chunks key := by
  have hkept : SameContent c.chunks c'.chunks → (c.chunks.get? key).isSome := fun hsame => by
    obtain ⟨row', hrow', -⟩ := hsame key row hrow
    exact Option.isSome_of_eq_some hrow'
  cases h with
  | transacted t he _ htransaction =>
    rw [htransaction.keepsObjects.chunks] at hkept
    exact Or.inl (hkept .refl)
  | published upload publications he artifacts _ hpublish =>
    obtain ⟨_, _, _, -, -, -, ⟨-, -, _, rfl⟩ | ⟨tx, hcommit⟩⟩ := publishManifestBatch_eq_ok hpublish
    · exact Or.inl (hkept .refl)
    · obtain ⟨_, rfl⟩ := hcommit.result
      exact Or.inl (hkept (.map fun _ _ => ⟨rfl, rfl⟩))
  | evicted id he _ eviction hevict =>
    obtain ⟨_, _, -, -, -, rfl⟩ := evictManifest_eq_ok hevict
    exact Or.inl (hkept (.map fun k row => by split <;> exact ⟨rfl, rfl⟩))
  | evictionFinished eviction he _ hfinish =>
    obtain ⟨-, rfl⟩ | ⟨_, _, -, rfl⟩ := finishManifestEviction_eq_ok hfinish
    · exact Or.inl (hkept .refl)
    · exact Or.inl (hkept .refl)
  | onObjects _ hobjects =>
    cases hobjects with
    | exported _ => exact Or.inl (hkept .refl)
    | cataloged objects keyEpoch ledger _ result hcatalog =>
      obtain ⟨c₁, heach, htouched⟩ := catalogChunks_eq_ok hcatalog
      have hchunks : c'.chunks = c₁.chunks := by
        obtain rfl | ⟨_, _, _, _, -, rfl, -⟩ := htouched
        · rfl
        · rfl
      rw [hchunks] at hrow ⊢
      rcases (catalogEach_rows heach).2 key row hrow with hold | ⟨object, -, -, rfl⟩
      · exact Or.inl (Option.isSome_of_eq_some hold)
      · exact Or.inr (isAvailable_iff.mpr ⟨_, hrow, rfl⟩)
    | withdrawn upload objectKey =>
      obtain ⟨chunks, heq, rfl | ⟨-, rfl⟩⟩ := cleanupPromotion_eq c upload objectKey
      · rw [heq] at hkept
        exact Or.inl (hkept .refl)
      · rw [heq] at hkept
        exact Or.inl (hkept .filter)
    | selected keys _ victims hselect =>
      obtain ⟨-, -, -, -, _, _, rfl, -⟩ := selectVictims_eq_ok hselect
      exact Or.inl (hkept (.map fun k row => by split <;> exact ⟨rfl, rfl⟩))
    | collected moved _ hfinish =>
      obtain ⟨outbox, rfl⟩ := finishCollection_eq_ok hfinish
      obtain ⟨chunks, freed, heq, hchunks⟩ := removeRows_eq moved c 0
        (P := fun _ chunks _ => SameContent c.chunks chunks) .refl
        fun _ _ _ _ _ _ hremoval hP => hP.trans hremoval.sameContent
      rw [heq] at hkept
      exact Or.inl (hkept hchunks)
    | demoted victims he _ hdemote =>
      obtain ⟨chunks, durableBytes, rfl, -, hchunks⟩ := demoteVictims_eq_ok
        (P := fun _ chunks _ => SameContent c.chunks chunks) hdemote .refl
        fun _ _ _ _ _ _ hdemotion hP => hP.trans hdemotion.sameContent
      exact Or.inl (hkept hchunks)

theorem Catalog.demotable_available (h : c.demotable now key) : isAvailable c.chunks key := by
  unfold demotable at h
  split at h
  · rename_i row hrow
    simp only [Bool.and_eq_true, decide_eq_true_eq] at h
    exact isAvailable_iff.mpr ⟨row, hrow, h.1.1.1⟩
  · cases h

/-- An object that has a row, or that a demotion in progress has selected. -/
def State.Met (s : State) (key : Id32) : Prop :=
  (s.catalog.chunks.get? key).isSome ∨ ∃ victims ∈ s.demotions, key ∈ victims.map (·.objectKey)

theorem State.Met.was_available (h : (run (step C config) State.initial es).Met key) :
    ∃ es₀, es₀ <+: es ∧ isAvailable (run (step C config) State.initial es₀).catalog.chunks key := by
  have hinitial : ¬ State.initial.Met key := by
    rintro (hrow | ⟨victims, hvictims, -⟩)
    · cases hrow
    · cases hvictims
  obtain ⟨es₁, e, es₂, rfl, hbefore, hafter⟩ := exists_onset (P := fun s : State => s.Met key) hinitial h
  replace hafter := hafter [] List.nil_prefix
  obtain ⟨s', hexec, hstep⟩ := step_onset (P := fun s : State => s.Met key) hbefore hafter
  rw [hstep] at hafter
  rcases hafter with hrow | ⟨victims, hvictims, hmem⟩
  · obtain ⟨row, hrow⟩ := Option.isSome_iff_exists.mp hrow
    have havailable := ((exec_catalogStep hexec).row_added hrow).resolve_left fun hold => hbefore (Or.inl hold)
    refine ⟨es₁ ++ [e], ⟨es₂, by simp⟩, ?_⟩
    rwa [run_append, run_cons, run_nil, hstep]
  · obtain ⟨keys, rfl, hselect⟩ := ((exec_advanced hexec).demotions victims hvictims).resolve_left
      fun hold => hbefore (Or.inr ⟨victims, hold, hmem⟩)
    obtain ⟨-, hdemotable, rfl, -⟩ := selectDemotions_eq_ok hselect
    exact ⟨es₁, ⟨_, rfl⟩, Catalog.demotable_available (hdemotable key hmem)⟩

/-! ## Protection -/

theorem Catalog.not_guarded (h : ¬ c.guarded now key) :
    (∀ pinId, c.pins.get? pinId ≠ some key) ∧
      ∀ leaseId lease, c.sourceLeases.get? leaseId = some lease → ¬ lease.protects now .chunk key := by
  rw [guarded, Bool.or_eq_true, not_or] at h
  refine ⟨fun pinId hpin => h.1 ?_, fun leaseId lease hlease hprotects => h.2 ?_⟩
  · exact Table.any_eq_true.mpr ⟨pinId, key, hpin, decide_eq_true rfl⟩
  · exact Table.any_eq_true.mpr ⟨leaseId, lease, hlease, hprotects⟩

/-- A lease that does not protect the object now. -/
def State.Lapsed (s : State) (leaseId key : Id32) : Prop :=
  ∃ lease, s.catalog.sourceLeases.get? leaseId = some lease ∧ ¬ lease.protects s.clock .chunk key

theorem SourceLease.protects_mono (lease : SourceLease) {now' : Nat} {kind : ObjectKind} (hle : now ≤ now')
    (h : lease.protects now' kind key) : lease.protects now kind key := by
  simp only [protects, Bool.and_eq_true, Bool.or_eq_true, decide_eq_true_eq] at h ⊢
  exact ⟨h.1, h.2.imp_right fun hactive => ⟨hactive.1, lt_of_le_of_lt hle hactive.2⟩⟩

/-- A lease that has lapsed stays so, unless it is reattached after its time. -/
theorem exec_lapsed (hexec : exec C config s e = .ok s') (hok : protectStep s e) (h : s.Lapsed leaseId key) :
    s'.Lapsed leaseId key := by
  obtain ⟨lease, hlease, hlapsed⟩ := h
  rcases (exec_catalogStep hexec).sourceLeases with heq | ⟨t, rfl, ht⟩
  · exact ⟨lease, heq ▸ hlease, fun hprotects => hlapsed (lease.protects_mono (exec_advanced hexec).clock hprotects)⟩
  · obtain ⟨c', happly, rfl⟩ := exec_transact hexec
    cases t with
    | acquireLease request =>
      obtain rfl | ⟨id, lease', hnone, rfl⟩ := acquireSourceLease_eq_ok happly
      · exact ⟨lease, hlease, hlapsed⟩
      · refine ⟨lease, ?_, hlapsed⟩
        have hne : leaseId ≠ id := by
          rintro rfl
          rw [hnone] at hlease
          cases hlease
        rw [Table.get?_put, if_neg hne, hlease]
    | reattachLease fence maximumDurationNs =>
      obtain ⟨lease', hlease', hreleased, rfl⟩ := reattachSourceLease_eq_ok happly
      by_cases hid : leaseId = fence.leaseId
      · subst hid
        rw [hlease', Option.some.injEq] at hlease
        subst hlease
        refine ⟨_, Table.get?_put_self, fun hprotects => ?_⟩
        -- the lease names the object, so it must have run out
        simp only [protectStep, hlease', Option.all_some, Bool.not_eq_true', Bool.and_eq_false_iff,
          decide_eq_false_iff_not] at hok
        simp only [SourceLease.protects, Bool.and_eq_true, Bool.or_eq_true, decide_eq_true_eq] at hprotects hlapsed
        cases hstate : lease'.state with
        | active => exact hlapsed ⟨hprotects.1, Or.inr ⟨hstate, lt_of_not_ge (hok.resolve_left fun hne => hne hstate)⟩⟩
        | uncertain => exact hlapsed ⟨hprotects.1, Or.inl hstate⟩
        | released => exact hreleased hstate
      · exact ⟨lease, by rw [Table.get?_put, if_neg hid, hlease], hlapsed⟩
    | releaseLease id ownerId authorityTerm =>
      obtain ⟨lease', rfl, hlease'⟩ := releaseSourceLease_eq_ok happly
      by_cases hid : leaseId = id
      · subst hid
        refine ⟨_, Table.get?_put_self, fun hprotects => ?_⟩
        simp [SourceLease.protects] at hprotects
      · exact ⟨lease, by rw [Table.get?_put, if_neg hid, hlease], hlapsed⟩
    | _ => cases ht

theorem run_lapsed (hsteps : Along (step C config) (fun s e => protectStep s e) s es) (h : s.Lapsed leaseId key) :
    (run (step C config) s es).Lapsed leaseId key :=
  along_preserves hsteps (fun _ _ _ hok hexec => exec_lapsed hexec hok) h

/-- The step that condemns a file finds its object unprotected and leaves it unavailable. -/
theorem exec_condemns (hexec : exec C config s e = .ok s') (hok : protectStep s e) (hbefore : key ∉ s.condemned)
    (hafter : key ∈ s'.condemned) :
    s.Met key ∧ ¬ isAvailable s'.catalog.chunks key ∧ ¬ s'.catalog.guarded s'.clock key := by
  rcases ((exec_advanced hexec).condemned key hafter).resolve_left hbefore with ⟨keys, rfl, hkey⟩ | ⟨victims, rfl, hkey⟩
  · obtain ⟨c', victims, hselect, rfl⟩ := exec_selectVictims hexec
    obtain ⟨-, -, hcollectable, -, _, _, rfl, -⟩ := selectVictims_eq_ok hselect
    obtain ⟨row, hrow, -, -, hguarded, -⟩ := Catalog.collectable_eq_true.mp (hcollectable key hkey)
    refine ⟨Or.inl (Option.isSome_of_eq_some hrow), evictRows_unavailable hkey, ?_⟩
    change ¬ s.catalog.guarded s.clock key
    rw [hguarded]
    exact Bool.false_ne_true
  · obtain ⟨hvictims, c', hdemote, rfl⟩ := exec_demoteVictims hexec
    simp only [protectStep, List.all_eq_true, Bool.and_eq_true, decide_eq_true_eq] at hok
    have hunavailable := demoteVictims_unavailable hdemote (fun victim hvictim hrung row hrow hstate => by
      have hrows := (hok victim hvictim).2
      rw [hrow, Option.all_some] at hrows
      exact of_decide_eq_true hrows hrung hstate) hkey
    simp only [droppedBytes, List.mem_map, List.mem_filter, decide_eq_true_eq] at hkey
    obtain ⟨victim, ⟨hvictim, hrung⟩, rfl⟩ := hkey
    refine ⟨Or.inr ⟨victims, hvictims, List.mem_map.mpr ⟨victim, hvictim, rfl⟩⟩, hunavailable, ?_⟩
    obtain ⟨_, _, rfl, -, -⟩ := demoteVictims_eq_ok (P := fun _ _ _ => True) hdemote trivial
      fun _ _ _ _ _ _ _ _ => trivial
    exact (hok victim hvictim).1 hrung

/-- What protects a condemned object came after it stopped being available and was condemned for good. -/
theorem run_condemned (hsteps : Along (step C config) (fun s e => protectStep s e) State.initial es)
    (hkey : key ∈ (run (step C config) State.initial es).condemned) :
    ∃ es₀ es₁, es₀ <+: es₁ ∧ es₁ <+: es ∧
      isAvailable (run (step C config) State.initial es₀).catalog.chunks key ∧
      ¬ isAvailable (run (step C config) State.initial es₁).catalog.chunks key ∧
      (∀ es₂, es₁ <+: es₂ → es₂ <+: es → key ∈ (run (step C config) State.initial es₂).condemned) ∧
      (∀ pinId, (run (step C config) State.initial es₁).catalog.pins.get? pinId ≠ some key) ∧
      ∀ leaseId lease, (run (step C config) State.initial es).catalog.sourceLeases.get? leaseId = some lease →
        lease.protects (run (step C config) State.initial es).clock .chunk key →
        (run (step C config) State.initial es₁).catalog.sourceLeases.get? leaseId = none := by
  obtain ⟨es₁, e, es₂, rfl, hbefore, hthrough⟩ :=
    exists_onset (P := fun s : State => key ∈ s.condemned) (by simp [State.condemned, State.initial]) hkey
  have hafter := hthrough [] List.nil_prefix
  obtain ⟨s', hexec, hstep⟩ := step_onset (P := fun s : State => key ∈ s.condemned) hbefore hafter
  obtain ⟨-, hok, hrest⟩ := along_append.mp hsteps
  obtain ⟨hmet, hunavailable, hguarded⟩ := exec_condemns hexec hok hbefore (hstep ▸ hafter)
  obtain ⟨hpins, hleases⟩ := Catalog.not_guarded hguarded
  obtain ⟨es₀, hearlier, havailable⟩ := hmet.was_available
  have hrun : run (step C config) State.initial (es₁ ++ [e]) = s' := by rw [run_append, run_cons, run_nil, hstep]
  refine ⟨es₀, es₁ ++ [e], hearlier.trans (List.prefix_append _ _), ⟨es₂, by simp⟩, havailable, ?_⟩
  rw [hrun]
  refine ⟨hunavailable, ?_, hpins, fun leaseId lease hlease hprotects => ?_⟩
  · rintro _ ⟨rest, rfl⟩ hrest
    rw [List.append_assoc, List.singleton_append] at hrest ⊢
    rw [run_append]
    exact hthrough rest (List.cons_prefix_cons.mp ((List.prefix_append_right_inj es₁).mp hrest)).2
  cases hthen : s'.catalog.sourceLeases.get? leaseId with
  | none => rfl
  | some lease₁ =>
    rw [hstep] at hrest
    obtain ⟨lease₂, hlease₂, hlapsed⟩ := run_lapsed hrest ⟨lease₁, hthen, hleases leaseId lease₁ hthen⟩
    rw [run_append, run_cons, hstep] at hlease hprotects
    rw [hlease, Option.some.injEq] at hlease₂
    rw [← hlease₂] at hlapsed
    exact absurd hprotects hlapsed

end Kvpack.Store
