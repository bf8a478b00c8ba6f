import Kvpack.Core.Theorems
import Kvpack.Restore.Lemmas.Scatter

/-!
# Results on restoring

The scatter plan of an authenticated chain restores each state exactly once, byte for byte.
-/

namespace Kvpack.Restore

open Base Kvpack.Core

/-! ## Scatter plans -/

/-- The operations of each state are in order, disjoint and cover its bytes at the leaf's cut; each writes its chunk's
bytes; the states add up to the restored bytes of the leaf. -/
theorem scatterPlan_tiles {context : ValidationContext} {chain : List AuthenticatedManifest}
    {states : List RestoreStatePlan} {operations : List RestoreChunkOperation}
    (hchain : AuthenticatedChain context chain) (h : buildScatterPlan chain = .ok (states, operations)) :
    ∃ leaf, chain.getLast? = some leaf ∧ chain.length ≤ 8 ∧
      List.Forall₂ (fun t plan => plan.declaration.key = t.1.key ∧
          plan.plaintextBytes.toNat =
            (fullTokens leaf.manifest.inputCut.tokenCount t.1 t.2.1).toNat * t.1.tokenBytes)
        leaf.manifest.triples states ∧
      (∀ plan ∈ states,
        ExactCover ((operationsOf plan.declaration.key operations).map (·.range)) 0 plan.plaintextBytes.toNat) ∧
      (∀ op ∈ operations, op.span.plaintextBytes = op.reference.plaintextBytes ∧
        ∃ plan ∈ states, plan.declaration.key = op.stateKey) ∧
      (states.map (·.plaintextBytes.toNat)).sum = leaf.manifest.realizedSchema.completeRestoredBytes.toNat := by
  obtain ⟨leaf, states', hleaf, hv, hplans, hbuild⟩ := hchain.buildScatterPlan
  rw [hbuild] at h
  split at h
  · cases h
  obtain ⟨rfl, rfl⟩ := Prod.mk.inj (Except.ok.inj h)
  have hkeys : ∀ t ∈ leaf.manifest.triples, t.2.2.key = t.1.key := by
    intro t ht
    have hs := hv.states t ht
    rw [hs.family_key, hs.payload_key]
  refine ⟨leaf, hleaf, hchain.length_le, ?_, ?_, ?_, ?_⟩
  · exact forall₂_imp_mem hplans fun t plan ht hp => ⟨hp.key.trans (hkeys t ht), hp.plaintextBytes⟩
  · intro plan hplan
    obtain ⟨t, ht, hp⟩ := forall₂_exists_left hplans hplan
    rw [hp.key, hp.plaintextBytes]
    exact (hchain.tiles hleaf ht).exactCover
  · intro op hop
    obtain ⟨hsize, hmem⟩ := hchain.operation_mem hleaf hop
    obtain ⟨t, ht, hkey⟩ := List.mem_map.mp hmem
    obtain ⟨plan, hplan, hp⟩ := forall₂_exists_right hplans ht
    exact ⟨hsize, plan, hplan, hp.key.trans hkey⟩
  · have hbytes : states'.map (·.plaintextBytes.toNat) =
        leaf.manifest.triples.map fun t => (stateBytes leaf.manifest.inputCut.tokenCount t.1 t.2.1).2 :=
      (forall₂_map_eq hplans fun _ _ hp => hp.plaintextBytes).symm
    rw [hbytes, hv.complete]

/-! A full manifest of two tokens and a delta of three, as an instance. -/

def byteFull : CutManifest :=
  byteManifest .full 10 0 2 byteFull_stop byteFull_count
    [byteState ⟨0, "k"⟩ [], byteState ⟨0, "v"⟩ [⟨0, "k"⟩]] [⟨1, [⟨0, "k"⟩]⟩, ⟨4, [⟨0, "v"⟩]⟩]

def byteChain : List AuthenticatedManifest := [⟨repeatedId 7, byteFull⟩, ⟨repeatedId 12, byteDelta⟩]

theorem byteChain_authenticated : AuthenticatedChain ValidationContext.default byteChain :=
  @AuthenticatedChain.extend _ [] _ _ _ (.root (by decide) rfl) (by decide) rfl rfl rfl rfl rfl rfl

theorem byteChain_tiles :
    ∃ states operations, buildScatterPlan byteChain = .ok (states, operations) ∧
      (states.map (·.plaintextBytes.toNat)).sum = 10 := by
  obtain ⟨leaf, states, hleaf, -, -, hbuild⟩ := byteChain_authenticated.buildScatterPlan
  cases hleaf
  rw [if_neg (by decide)] at hbuild
  obtain ⟨leaf, hleaf, -, -, -, -, hsum⟩ := scatterPlan_tiles byteChain_authenticated hbuild
  cases hleaf
  exact ⟨states, _, hbuild, hsum⟩

end Kvpack.Restore
