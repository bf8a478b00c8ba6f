import Kvpack.Store.Lemmas.Eviction
import Kvpack.Store.Theorems.Recovery

/-!
# Interrupted evictions

An eviction that a crash has stopped is finished by recovery, which also finishes every other eviction that it finds.
-/

namespace Kvpack.Store

open Base Kvpack.Core

variable {C : Crypto} {config : StoreConfig} {supportsEpoch : UInt64 → Bool} {d : Disk} {now bound : Nat} {s s' : Image}

/-! ## Recovery without a crash -/

/-- A store and an image with the same rows and the same files of chunks. -/
structure Image.Of (st : State) (s : Image) : Prop where
  catalog : st.catalog = s.catalog
  files : ∀ key, key ∈ st.files ↔ (.chunk, key) ∈ s.files

theorem Image.Of.moved {st : State} {id : Id32} (h : Image.Of st s) (kind : ObjectKind) :
    Image.Of (if kind = .chunk then st.removeFile id else st) (unlinkTrash kind id (moveToTrash kind id s)) where
  catalog := by
    rw [moved_catalog, ← h.catalog]
    split <;> rfl
  files key := by
    have hfiles : (unlinkTrash kind id (moveToTrash kind id s)).files = s.files.filter (· ≠ (kind, id)) := by
      unfold moveToTrash
      split
      · rfl
      · rename_i hnot
        refine (List.filter_eq_self.mpr fun object hmem => ?_).symm
        simpa using fun heq : object = (kind, id) => hnot (heq ▸ hmem)
    rw [hfiles, List.mem_filter, ← h.files]
    split
    · rename_i hkind
      simp [State.removeFile, hkind]
    · rename_i hkind
      simp [Ne.symm hkind]

theorem finishManifestEvictionSteps_run {st : State} {eviction : Eviction} (h : Image.Of st s)
    (hrun : (finishManifestEvictionSteps eviction now).run s = .ok ((), s')) :
    ∃ catalog, finishManifestEviction eviction now st.catalog = .ok catalog ∧ Image.Of { st with catalog } s' := by
  simp only [finishManifestEvictionSteps, moveAndUnlink, Prog.run_bind, Prog.run_updating, ok_bind, Prog.run_writing,
    commitManifestEviction, map_eq_ok, bind_eq_ok, pure_eq_ok] at hrun
  obtain ⟨_, ⟨catalog, hfinish, rfl⟩, heq⟩ := hrun
  cases heq
  rw [moved_catalog] at hfinish
  exact ⟨catalog, by rw [h.catalog]; exact hfinish, rfl, (h.moved .manifest).files⟩

theorem finishChunkEvictionSteps_run {st : State} {key : Id32} {row : ChunkRow} (h : Image.Of st s)
    (hrow : s.catalog.chunks.get? key = some row) (hrun : (finishChunkEvictionSteps key now).run s = .ok ((), s')) :
    ∃ catalog, finishChunkEviction key now st.catalog = .ok catalog ∧
      Image.Of { st.removeFile key with catalog } s' := by
  rw [h.catalog]
  by_cases hbad : row.refcount ≠ 0 ∨ ¬ row.locationState.leaving
  · simp only [finishChunkEvictionSteps, Prog.run_bind, Prog.run_reading, checkLeaving, hrow, rejectIf_of hbad,
      error_bind] at hrun
    cases hrun
  · have hcheck : checkLeaving key s.catalog =
        .ok (some ⟨key, row.objectBytes, row.fidelityRung = .tombstone⟩) := by
      simp only [checkLeaving, hrow, rejectIf_of_not hbad, ok_bind]
      rfl
    rw [finishChunkEvictionSteps, Prog.run_reading_bind (fun s : Image => checkLeaving key s.catalog) hcheck] at hrun
    simp only [moveAndUnlink, Prog.run_bind, Prog.run_updating, ok_bind, Prog.run_writing, commitCollection, map_eq_ok,
      bind_eq_ok, pure_eq_ok] at hrun
    obtain ⟨_, ⟨catalog, hfinish, rfl⟩, heq⟩ := hrun
    cases heq
    rw [moved_catalog] at hfinish
    refine ⟨catalog, ?_, rfl, (h.moved .chunk).files⟩
    simp only [finishChunkEviction, hrow, rejectIf_of_not hbad, ok_bind]
    exact hfinish

/-- Without a crash, the steps of recovery do what the recovery of an opening does. -/
theorem reconcileSteps_run {st : State} {n : Nat} (h : Image.Of st s)
    (hrun : (reconcileSteps now bound).run s = .ok (n, s')) :
    ∃ st', reconcileEvictions now bound st = .ok st' ∧ Image.Of st' s' := by
  induction bound generalizing s st n with
  | zero =>
    cases hrun
    exact ⟨st, rfl, h⟩
  | succ bound ih =>
    rw [reconcileSteps, Prog.run_reading_bind nextManifest rfl] at hrun
    simp only [reconcileEvictions, h.catalog]
    cases hfirst : firstRow s.catalog.manifests fun id _ => s.catalog.leavingManifest id with
    | some r =>
      simp only [hfirst, Prog.run_bind, bind_eq_ok] at hrun
      obtain ⟨⟨⟨⟩, s₁⟩, hfinish, ⟨m, s₂⟩, hrest, heq⟩ := hrun
      obtain ⟨catalog, hcatalog, hof⟩ := finishManifestEvictionSteps_run h hfinish
      cases heq
      rw [h.catalog] at hcatalog
      simp only [hcatalog, ok_bind]
      exact ih hof hrest
    | none =>
      simp only [hfirst, Prog.run_reading_bind nextChunk rfl] at hrun
      cases hchunk : firstRow s.catalog.chunks fun _ row => row.locationState.leaving with
      | some r =>
        simp only [hchunk, Prog.run_bind, bind_eq_ok] at hrun
        obtain ⟨⟨⟨⟩, s₁⟩, hfinish, ⟨m, s₂⟩, hrest, heq⟩ := hrun
        obtain ⟨catalog, hcatalog, hof⟩ :=
          finishChunkEvictionSteps_run h (firstRow_eq_some hchunk).1 hfinish
        cases heq
        rw [h.catalog] at hcatalog
        simp only [hcatalog, ok_bind]
        exact ih hof hrest
      | none =>
        simp only [hchunk, Prog.run_pure] at hrun
        cases hrun
        exact ⟨st, rfl, h⟩

/-! ## Recovery after a crash -/

theorem Reachable.rungsSound (h : Reachable C config supportsEpoch d) : RungsSound d.store.catalog.chunks :=
  h.catalog_invariant (P := fun c => RungsSound c.chunks)
    (fun _ _ _ _ hstep => hstep.chunks_induct fun _ _ hchange => hchange.rungsSound) fun _ _ hget => by cases hget

theorem Reachable.start {request : EvictionRequest} {started : StartedEviction} {s₁ : Image}
    (hreach : Reachable C config supportsEpoch d) (hs : s.catalog = d.store.catalog)
    (h : request.start now s = .ok (started, s₁)) : EvictionStarted request started s s₁ := by
  have hsound : RecoverySound s.catalog := by rw [hs]; exact hreach.recoverySound
  have hrungs : RungsSound s.catalog.chunks := by
    rw [hs]
    exact hreach.rungsSound
  cases request with
  | manifest manifestId => exact start_manifest C config hsound h
  | chunks keys => exact start_chunks C config hsound hrungs h

/-- An eviction and any number of recoveries are stopped by crashes. The recovery after them succeeds and leaves what
the eviction and a recovery leave without a crash, or the eviction alone if there was no other to finish. -/
theorem interrupted_eviction_finished {request : EvictionRequest} {started : StartedEviction} {s₁ s₂ s₃ : Image}
    {now₀ now' : Nat} (hreach : Reachable C config supportsEpoch d) (hs : s.catalog = d.store.catalog)
    (hstart : request.start now₀ s = .ok (started, s₁))
    (hroom : s₁.catalog.pendingAudit + s₁.catalog.leavingCount ≤ maxPendingAuditRecords) (hnow : now ≠ 0)
    (hcrash : s₂ ∈ (started.finish now).crashPoints s₁) (hcrashes : Prog.Interrupted IsRecovery s₂ s₃)
    (hnow' : now' ≠ 0) (hbound : s₃.catalog.leavingCount ≤ bound) :
    ∃ n s₄ t, (reconcileSteps now' bound).run s₃ = .ok (n, s₄) ∧ (started.finish now).run s₁ = .ok ((), t) ∧
      (∀ bound', t.catalog.leavingCount ≤ bound' →
        ∃ n' t', (reconcileSteps now' bound').run t = .ok (n', t') ∧ s₄.rows = t'.rows) ∧
      (s.catalog.leavingCount = 0 → s₄.rows = t.rows) := by
  have hstarted := hreach.start hs hstart
  have h₁ : Image.Settling s₁.settled s₁ := ⟨hstarted.sound, hroom, rfl⟩
  have hfinish := hstarted.finish h₁ hnow
  have h₃ : Image.Settling s₁.settled s₃ := by
    refine hcrashes.invariant (hfinish.crashPoints hcrash) fun p s hp hsettling => ?_
    obtain ⟨_, _, hzero, rfl⟩ := hp
    exact ⟨_, reconcileSteps_completes hsettling hzero⟩
  obtain ⟨n, s₄, hrecover, h₄, hnone⟩ := (reconcileSteps_completes h₃ hnow').run
  obtain ⟨⟨⟩, t, hrun, ht, hcount⟩ := hfinish.run
  have hrows := h₄.rows (hnone hbound)
  refine ⟨n, s₄, t, hrecover, hrun, fun bound' hbound' => ?_, fun hbefore => ?_⟩
  · obtain ⟨n', t', hagain, ht', hnone'⟩ := (reconcileSteps_completes ht hnow').run
    exact ⟨n', t', hagain, hrows.trans (ht'.rows (hnone' hbound')).symm⟩
  · have hzero : t.catalog.leavingCount = 0 := by
      have hall := hstarted.leavingCount hbefore
      omega
    exact hrows.trans (ht.rows hzero).symm

def otherObject : ChunkObject := ⟨repeatedId 7, repeatedId 8, repeatedId 9, 2, List.replicate 8192 0⟩

/-- Two objects that nothing refers to. -/
def looseObjects (es : List Event) : Disk :=
  run (fun d e => d.step checksumCrypto byteConfig e) Disk.initial
    ((abandonedEvents (repeatedId 20) byteObject ++ abandonedEvents (repeatedId 21) otherObject ++ es).map .store)

def looseImage (es : List Event) : Image where
  catalog := (looseObjects es).store.catalog
  chunkLocations := (Table.empty.put (repeatedId 5) .available).put (repeatedId 8) .available
  policyObjects := Table.empty.put (repeatedId 5) ⟨1, .probationarySegment, 0, 1, 0⟩
  files := (looseObjects es).store.files.map fun key => (.chunk, key)
  trash := []

theorem looseImage_catalog (es : List Event) : (looseImage es).catalog = (looseObjects es).store.catalog := rfl

theorem looseObjects_reachable (es : List Event) :
    Reachable checksumCrypto byteConfig (fun _ => true) (looseObjects es) := (Reachable.created (by decide)).run

theorem looseImage_of (es : List Event) : Image.Of (looseObjects es).store (looseImage es) :=
  ⟨rfl, fun key => by simp [looseImage]⟩

set_option maxRecDepth 20000 in
theorem looseImage_reconciled :
    ∃ n s' st', (reconcileSteps 3 2).run (looseImage [.selectVictims [repeatedId 5]]) = .ok (n, s') ∧
      reconcileEvictions 3 2 (looseObjects [.selectVictims [repeatedId 5]]).store = .ok st' ∧ Image.Of st' s' := by
  obtain ⟨⟨n, s'⟩, hrun⟩ := exists_ok_of_isOk
    (x := (reconcileSteps 3 2).run (looseImage [.selectVictims [repeatedId 5]])) (by decide +kernel)
  obtain ⟨st', hreconcile, hof⟩ := reconcileSteps_run (looseImage_of _) hrun
  exact ⟨n, s', st', hrun, hreconcile, hof⟩

set_option maxRecDepth 20000 in
/-- A collection of both objects is stopped after the rename of the first file. -/
theorem stoppedCollection_finished :
    ∃ started s₁ n s₄ t,
      (EvictionRequest.chunks [repeatedId 5, repeatedId 8]).start 2 (looseImage []) = .ok (started, s₁) ∧
      (reconcileSteps 3 2).run (moveToTrash .chunk (repeatedId 5) s₁) = .ok (n, s₄) ∧
      (started.finish 2).run s₁ = .ok ((), t) ∧ s₄.rows = t.rows := by
  have hok : ((EvictionRequest.chunks [repeatedId 5, repeatedId 8]).start 2 (looseImage [])).isOk := by decide +kernel
  have hfacts : ((EvictionRequest.chunks [repeatedId 5, repeatedId 8]).start 2 (looseImage [])).toOption.all fun r =>
      r.2.catalog.pendingAudit + r.2.catalog.leavingCount ≤ maxPendingAuditRecords ∧
        moveToTrash .chunk (repeatedId 5) r.2 ∈ (r.1.finish 2).crashPoints r.2 ∧
        (moveToTrash .chunk (repeatedId 5) r.2).catalog.leavingCount ≤ 2 := by decide +kernel
  have hnone : (looseImage []).catalog.leavingCount = 0 := by decide +kernel
  obtain ⟨⟨started, s₁⟩, hstart⟩ := exists_ok_of_isOk hok
  rw [hstart] at hfacts
  obtain ⟨hroom, hcrash, hbound⟩ := of_decide_eq_true hfacts
  obtain ⟨n, s₄, t, hrecover, hrun, -, hsame⟩ := interrupted_eviction_finished (looseObjects_reachable [])
    (looseImage_catalog []) hstart hroom (by decide) hcrash .refl (by decide : 3 ≠ 0) hbound
  exact ⟨started, s₁, n, s₄, t, hstart, hrecover, hrun, hsame hnone⟩

set_option maxRecDepth 20000 in
/-- A collection of the first object was refused its last transaction. One of the second leaves it so, but a recovery
collects both. -/
theorem recovery_finishes_other_evictions :
    let s := looseImage [.selectVictims [repeatedId 5]]
    Reachable checksumCrypto byteConfig (fun _ => true) (looseObjects [.selectVictims [repeatedId 5]]) ∧
      ∃ started s₁ n s₄ t, (EvictionRequest.chunks [repeatedId 8]).start 2 s = .ok (started, s₁) ∧
        s₁.catalog.pendingAudit + s₁.catalog.leavingCount ≤ maxPendingAuditRecords ∧ s₁.catalog.leavingCount = 2 ∧
        (reconcileSteps 2 2).run s₁ = .ok (n, s₄) ∧ (started.finish 2).run s₁ = .ok ((), t) ∧
        s₄.catalog.chunks.get? (repeatedId 5) = none ∧ t.catalog.chunks.get? (repeatedId 5) ≠ none := by
  intro s
  have hstarts : ((EvictionRequest.chunks [repeatedId 8]).start 2 s).isOk := by decide +kernel
  have hends : ((EvictionRequest.chunks [repeatedId 8]).start 2 s).toOption.all fun r =>
      r.2.catalog.pendingAudit + r.2.catalog.leavingCount ≤ maxPendingAuditRecords ∧ r.2.catalog.leavingCount = 2 ∧
      ((reconcileSteps 2 2).run r.2).isOk ∧ ((r.1.finish 2).run r.2).isOk ∧
      ((reconcileSteps 2 2).run r.2).toOption.all (fun q => q.2.catalog.chunks.get? (repeatedId 5) = none) ∧
      ((r.1.finish 2).run r.2).toOption.all fun q => q.2.catalog.chunks.get? (repeatedId 5) ≠ none := by
    decide +kernel
  obtain ⟨⟨started, s₁⟩, hstart⟩ := exists_ok_of_isOk hstarts
  rw [hstart] at hends
  obtain ⟨hroom, hcount, hrecovers, hfinishes, hrecovered, hfinished⟩ := of_decide_eq_true hends
  obtain ⟨⟨n, s₄⟩, hrecover⟩ := exists_ok_of_isOk hrecovers
  obtain ⟨⟨⟨⟩, t⟩, hfinish⟩ := exists_ok_of_isOk hfinishes
  rw [hrecover] at hrecovered
  rw [hfinish] at hfinished
  exact ⟨looseObjects_reachable _, started, s₁, n, s₄, t, hstart, hroom, hcount, hrecover, hfinish,
    of_decide_eq_true hrecovered, of_decide_eq_true hfinished⟩

end Kvpack.Store
