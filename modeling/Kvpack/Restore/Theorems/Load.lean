import Kvpack.Restore.Lemmas.Load
import Kvpack.Store.Theorems.Ledgers

/-!
# Results on loading chains

A chain that comes out of the store is well formed and was read in at most eight steps, whatever the store holds, and
with a cache from earlier candidates the same chains come out.
-/

namespace Kvpack.Restore

open Base Kvpack.Core Store

/-- Loading a chain asks for at most eight manifests. A cache of what the store answers changes nothing about the
result and stays one; a chain returned is well formed. With a cache of what the store says of chunks, what an empty
cache leads to is found as well, and the complete chains are the same. -/
theorem authenticated_chain_wellFormed {C : Crypto} {store : LocalStore} {minimumKeyEpoch : UInt64}
    {context : ValidationContext} {memo : ManifestCache} {cache : AvailabilityCache}
    (hmemo : memo.Sound (loadAuthenticatedManifest C store minimumKeyEpoch context))
    (hcache : AvailabilitySound store cache) (leafId : Id32) (expected : Option (Id32 × Id32 × InputCutId)) :
    let walk := authenticateChainCached (loadAuthenticatedManifest C store minimumKeyEpoch context) C leafId expected
    (∀ start, (finalState (walk start)).requests ≤ start.requests + 8) ∧
      resultOf (walk memo) = resultOf (walk Memo.empty) ∧
      (finalState (walk memo)).Sound (loadAuthenticatedManifest C store minimumKeyEpoch context) ∧
      (∀ chain, resultOf (walk memo) = .ok chain → WellFormedChain chain) ∧
      (∀ chain disposition, chainChunkDisposition store chain = .ok disposition →
        ∃ cache', chainChunkDispositionCached store chain cache = .ok (disposition, cache')) ∧
      (∀ chain disposition, disposition.complete = true →
        ((∃ cache', chainChunkDispositionCached store chain cache = .ok (disposition, cache')) ↔
          chainChunkDisposition store chain = .ok disposition)) ∧
      ∀ chain disposition cache', chainChunkDispositionCached store chain cache = .ok (disposition, cache') →
        AvailabilitySound store cache' := by
  intro walk
  have hwalk : Memoises (loadAuthenticatedManifest C store minimumKeyEpoch context) walk _ :=
    memoises_authenticateChainCached C leafId expected
  refine ⟨asks_authenticateChainCached C leafId expected, ?_, (hwalk memo hmemo).2, ?_, ?_, ?_, ?_⟩
  · rw [(hwalk memo hmemo).1, (hwalk Memo.empty Memo.sound_empty).1]
  · intro chain hchain
    rw [(hwalk memo hmemo).1] at hchain
    exact (authenticatedChain_of_authenticate (fun _ _ => validateManifest_of_load) hchain).1.wellFormed
  · exact fun chain disposition h => chainChunkDispositionCached_of_uncached hcache h
  · intro chain disposition hcomplete
    constructor
    · rintro ⟨cache', h⟩
      exact chainChunkDisposition_of_cached hcache h hcomplete
    · exact chainChunkDispositionCached_of_uncached hcache
  · exact fun chain disposition cache' h => (chainChunkDispositionCached_eq_ok hcache h).1

/-! A store with a full manifest and a delta over it, as an instance. -/

def packOf (m : CutManifest) : Bytes :=
  match encodeAuthenticatedPack checksumCrypto m flatKeys false ValidationContext.default ⟨none, none⟩ with
  | .ok pack => pack.bytes
  | .error _ => []

def idOf (m : CutManifest) : Id32 :=
  match m.encodeCanonical with
  | .ok canonical => manifestId checksumCrypto canonical
  | .error _ => zeroId

def rowOf (m : CutManifest) : ManifestRow where
  keyEpoch := m.keyEpoch
  fileBytes := (packOf m).length
  restoredBytes := m.realizedSchema.completeRestoredBytes
  semanticId := semanticModelId checksumCrypto m.semanticModel
  familyId := repeatedId 1
  tokenCount := m.inputCut.tokenCount
  parentId := none
  parentDepth := m.realizedSchema.kind.depth
  generation := 1

def packStore (manifests : List CutManifest) : LocalStore where
  config := byteConfig
  catalog := { Catalog.initial with
    manifests := manifests.foldl (fun rows m => rows.put (idOf m) (rowOf m)) Table.empty }
  chunkLocations := Table.empty
  manifestFile id := okOr ((manifests.find? fun m => idOf m = id).map packOf) .notFound
  chunkFile _ := .absent
  keySchedule _ := .ok flatKeys

/-- The manifest of three more tokens. -/
def packedDelta : CutManifest :=
  byteManifest (.delta (idOf Store.byteFull) (byteCut 10 2) 1) 11 2 3 byteDelta_stop byteDelta_count
    [byteState ⟨0, "k"⟩ []] [⟨1, [⟨0, "k"⟩]⟩]

def deltaStore : LocalStore := packStore [Store.byteFull, packedDelta]

/-- The delta is loaded after its parent, with what the store has said by then. -/
theorem deltaStore_chain :
    let walk := authenticateChainCached
      (loadAuthenticatedManifest checksumCrypto deltaStore 1 ValidationContext.default) checksumCrypto
    let memo := finalState (walk (idOf Store.byteFull) none Memo.empty)
    memo.answers.rows.length = 1 ∧
      ∃ chain, resultOf (walk (idOf packedDelta) none memo) = .ok chain ∧ chain.length = 2 ∧ WellFormedChain chain := by
  intro walk memo
  obtain ⟨-, -, hmemo, -⟩ := authenticated_chain_wellFormed (C := checksumCrypto) Memo.sound_empty
    (availabilitySound_empty : AvailabilitySound deltaStore _) (idOf Store.byteFull) none
  have hlocal : localAvailability deltaStore (byteChunk 2) = .ok .missing := rfl
  obtain ⟨-, -, -, hwellFormed, -⟩ :=
    authenticated_chain_wellFormed hmemo (availabilitySound_empty.put hlocal) (idOf packedDelta) none
  have hlengths : memo.answers.rows.length = 1 ∧
      (resultOf (walk (idOf packedDelta) none memo)).map List.length = .ok 2 := by decide +kernel
  obtain ⟨chain, hchain, hlength⟩ := map_eq_ok.mp hlengths.2
  exact ⟨hlengths.1, chain, hchain, hlength, hwellFormed chain hchain⟩

end Kvpack.Restore
