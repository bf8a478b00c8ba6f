import Kvpack.Restore.Parallel

/-!
# What a parallel restore guarantees

Whatever the interleaving, every operation is written at most once and every pin is accounted for: it is released, kept
for the caller, or held by exactly one thread.
-/

namespace Kvpack.Restore

open Base Kvpack.Core ParallelRestore

variable {total parallelism i o : Nat} {s : ParallelRestore} {decoded : Decoded} {write : Except StoreError Unit}
  {es : List Event}

/-! ## What the threads hold -/

theorem sum_set {workers : List Worker} {w : Worker} (f : Worker → Nat) (h : workers[i]? = some w) :
    ∃ rest, (workers.map f).sum = f w + rest ∧ ∀ w', ((workers.set i w').map f).sum = f w' + rest := by
  obtain ⟨hi, rfl⟩ := List.getElem?_eq_some_iff.mp h
  refine ⟨((workers.eraseIdx i).map f).sum, ?_, fun w' => ?_⟩
  · rw [← List.sum_cons, ← List.map_cons]
    exact ((List.getElem_cons_eraseIdx_perm hi).map f).sum_eq.symm
  · rw [← List.sum_cons, ← List.map_cons]
    exact ((List.set_perm_cons_eraseIdx hi w').map f).sum_eq

/-- Whether a message is the pin of operation `o`. -/
@[grind] def pinOf (o ordinal : Nat) (result : Decoded) : Nat := if result.isOk ∧ ordinal = o then 1 else 0

@[grind] def errorOf (result : Decoded) : Nat := if result.isOk then 0 else 1

@[grind] def Worker.pinsOf (o : Nat) : Worker → Nat
  | .idle | .returned => 0
  | .claimed ordinal | .decoding ordinal => if ordinal = o then 1 else 0
  | .sending ordinal result => pinOf o ordinal result

@[grind] def Worker.errors : Worker → Nat
  | .sending _ result => errorOf result
  | _ => 0

/-- The messages the collector has dealt with and not stored yet. -/
@[grind] def Collector.settled : Collector → List Nat
  | .settling pin => pin.toList
  | _ => []

@[grind] def Collector.pinsOf (o : Nat) : Collector → Nat
  | .received ordinal result => pinOf o ordinal result
  | collector => collector.settled.count o

@[grind] def Collector.errors : Collector → Nat
  | .received _ result => errorOf result
  | _ => 0

namespace ParallelRestore

/-- Every claimed operation is in one place, and no other operation is in any. -/
def Accounted (total : Nat) (s : ParallelRestore) : Prop :=
  ∀ o, s.released.count o + s.pins.count o + s.collector.pinsOf o +
    (s.channel.map fun m => pinOf o m.1 m.2).sum + (s.workers.map (Worker.pinsOf o)).sum =
      if o < min s.next total then 1 else 0

theorem work_accounted (h : Accounted total s) : Accounted total (s.work total parallelism i decoded) := by
  intro o
  have ho := h o
  cases hw : s.workers[i]? with
  | none => simpa only [work, hw] using ho
  | some w =>
    obtain ⟨rest, hold, hnew⟩ := sum_set (Worker.pinsOf o) hw
    rw [hold] at ho
    cases w <;> simp only [work, hw] <;> grind

theorem collect_accounted (h : Accounted total s) : Accounted total (s.collect write) := by
  intro o
  have ho := h o
  unfold collect
  cases hcollector : s.collector with
  | receiving => cases hchannel : s.channel <;> grind
  | received ordinal result => cases result <;> grind [Except.toBool]
  | settling pin => cases pin <;> grind

/-! ## Why a restore may stop short -/

@[grind] def errors (s : ParallelRestore) : Nat :=
  (if s.pendingError.isSome then 1 else 0) + s.collector.errors +
    (s.channel.map fun m => errorOf m.2).sum + (s.workers.map Worker.errors).sum

/-- The restore was cancelled or there is an error, reported or on its way. -/
@[grind] def Stopped (s : ParallelRestore) : Prop := s.cancelled = true ∨ 0 < s.errors

/-- Nothing stops short without a reason. -/
structure Justified (total : Nat) (s : ParallelRestore) : Prop where
  failed : s.failed = true → s.pendingError.isSome
  released : s.released ≠ [] → s.Stopped
  returned : .returned ∈ s.workers → total ≤ s.next ∨ s.Stopped
  spawned : s.workers ≠ []

theorem work_justified (h : Justified total s) : Justified total (s.work total parallelism i decoded) := by
  cases hw : s.workers[i]? with
  | none => simpa only [work, hw] using h
  | some w =>
    obtain ⟨rest, hold, hnew⟩ := sum_set Worker.errors hw
    obtain ⟨hfailed, hreleased, hreturned, hspawned⟩ := h
    -- an error leaves the worker only for the channel, and a worker that returns or releases has a reason to
    cases w <;> simp only [work, hw] <;> constructor <;> grind [List.mem_or_eq_of_mem_set, List.set_eq_nil_iff]

theorem collect_justified (h : Justified total s) : Justified total (s.collect write) := by
  obtain ⟨hfailed, hreleased, hreturned, hspawned⟩ := h
  unfold collect
  cases hcollector : s.collector with
  | receiving => cases hchannel : s.channel <;> constructor <;> grind
  | received ordinal result => cases result <;> constructor <;> grind [Except.toBool]
  | settling pin => constructor <;> grind

/-- The sink has what the collector stored, up to the first error. -/
def Recorded (s : ParallelRestore) : Prop :=
  s.written.map (·.1) <+: s.pins ++ s.collector.settled ∧
    (s.pendingError = none → s.written.map (·.1) = s.pins ++ s.collector.settled)

theorem work_recorded (h : Recorded s) : Recorded (s.work total parallelism i decoded) := by
  unfold work
  repeat' split
  all_goals exact h

theorem collect_recorded (h : Recorded s) : Recorded (s.collect write) := by
  unfold Recorded collect at *
  cases hcollector : s.collector with
  | receiving => cases hchannel : s.channel <;> simpa [hcollector, Collector.settled] using h
  | settling pin => simpa [hcollector, Collector.settled] using h
  | received ordinal result =>
    simp only [hcollector, Collector.settled, List.append_nil] at h
    have hlonger := h.1.trans (List.prefix_append s.pins [ordinal])
    cases result with
    | error error => simpa [Collector.settled] using h.1
    | ok plaintext =>
      -- only a write that succeeds without an error before it is recorded
      cases hpending : s.pendingError with
      | some _ => simpa [hpending, Collector.settled] using hlonger
      | none => cases s.cancelled <;> cases write <;> simp [Collector.settled, h.2 hpending]

theorem run_sound : let s := run (step total parallelism) (start total parallelism) es
    Accounted total s ∧ Justified total s ∧ Recorded s := by
  refine run_invariant (P := fun s => Accounted total s ∧ Justified total s ∧ Recorded s) (fun s e h => ?_)
    ⟨fun o => ?_, ?_, ?_⟩
  · obtain ⟨haccounted, hjustified, hrecorded⟩ := h
    cases e with
    | cancel =>
      exact ⟨haccounted, ⟨hjustified.failed, fun _ => Or.inl rfl, fun _ => Or.inr (Or.inl rfl), hjustified.spawned⟩,
        hrecorded⟩
    | work i decoded => exact ⟨work_accounted haccounted, work_justified hjustified, work_recorded hrecorded⟩
    | collect write => exact ⟨collect_accounted haccounted, collect_justified hjustified, collect_recorded hrecorded⟩
  · simp [start, Collector.pinsOf, Collector.settled, Worker.pinsOf]
  · constructor <;> simp [start]
  · simp [Recorded, start, Collector.settled]

/-! ## The end of a restore -/

theorem Finished.sum_eq_zero {f : Worker → Nat} (h : s.Finished) (hf : f .returned = 0) :
    (s.workers.map f).sum = 0 := by
  refine List.sum_eq_zero fun n hn => ?_
  obtain ⟨w, hw, rfl⟩ := List.mem_map.mp hn
  rw [h.1 w hw, hf]

/-- At the end the pins are with the caller, or released, or were never claimed. -/
theorem Finished.perm (hfinished : s.Finished) (h : Accounted total s) :
    (s.released ++ s.pins).Perm (List.range (min s.next total)) := by
  refine List.perm_iff_count.mpr fun o => ?_
  have ho := h o
  rw [hfinished.sum_eq_zero rfl, hfinished.2.1, hfinished.2.2] at ho
  rw [List.count_append, List.count_range]
  simpa [Collector.pinsOf, Collector.settled] using ho

/-- The pins that an error is left with are those nobody has released. -/
theorem Finished.perm_all (hfinished : s.Finished) (h : Accounted total s) :
    (s.released ++ (s.pins ++ (List.range total).drop (min s.next total))).Perm (List.range total) := by
  rw [← List.append_assoc]
  calc s.released ++ s.pins ++ (List.range total).drop (min s.next total)
    _ |>.Perm (List.range (min s.next total) ++ (List.range total).drop (min s.next total)) :=
      (hfinished.perm h).append_right _
    _ = List.range total := by
      rw [← List.take_append_drop (min s.next total) (List.range total), List.take_range]
      simp

theorem released_of_perm {released rest : List Nat} (h : (released ++ rest).Perm (List.range total)) :
    let all := released ++ releaseRestorePinBatch rest
    all.Subperm (List.range total) ∧ (all.Perm (List.range total) ∨ all.length + maxReleasedPins < total) := by
  unfold releaseRestorePinBatch
  split
  · rename_i hmany
    have hlength := h.length_eq
    rw [List.length_append, List.length_range] at hlength
    rw [List.append_nil]
    exact ⟨(List.sublist_append_left _ _).subperm.trans h.subperm, Or.inr (by omega)⟩
  · exact ⟨h.subperm, Or.inl h⟩

theorem Finished.cancelled (hfinished : s.Finished) (hnone : s.pendingError = none) (h : s.Stopped) :
    s.cancelled = true := by
  refine h.resolve_right ?_
  rw [errors, hfinished.sum_eq_zero rfl, hfinished.2.1, hfinished.2.2, hnone]
  exact Nat.lt_irrefl 0

/-- However the threads interleave, a restore that has ended has written no operation twice. If it failed, no pin has
been released twice, and every pin has been released unless more than a million were left to the last release. If not,
the pins returned are those of what was written, in order: of all operations unless the restore was cancelled. -/
theorem parallel_restore_accounts
    (hfinished : (run (step total parallelism) (start total parallelism) es).Finished) :
    let s := run (step total parallelism) (start total parallelism) es
    (s.written.map (·.1)).Nodup ∧
      (∀ error released, s.result total = (.error error, released) → released.Subperm (List.range total) ∧
        (released.Perm (List.range total) ∨ released.length + maxReleasedPins < total)) ∧
      ∀ pins released, s.result total = (.ok pins, released) →
        pins.Pairwise (· < ·) ∧ pins.Perm (s.written.map (·.1)) ∧ (pins.length = total ∨ s.cancelled = true) ∧
          (pins.length = total → pins = List.range total ∧ released = []) := by
  intro s
  obtain ⟨haccounted, ⟨-, hreleased, hreturned, hspawned⟩, hwritten, hcomplete⟩ :
      Accounted total s ∧ Justified total s ∧ Recorded s := run_sound
  have hperm : (s.released ++ s.pins).Perm (List.range (min s.next total)) := hfinished.perm haccounted
  have hpins : s.pins.Nodup := (hperm.nodup_iff.mpr List.nodup_range).of_append_right
  have hcollector : s.collector = .receiving := hfinished.2.2
  simp only [hcollector, Collector.settled, List.append_nil] at hwritten hcomplete
  refine ⟨hwritten.sublist.nodup hpins, ?_⟩
  unfold result
  cases hpending : s.pendingError with
  | some e =>
    refine ⟨fun error released hresult => ?_, fun pins released hresult => (by cases hresult)⟩
    cases hresult
    exact released_of_perm (hfinished.perm_all haccounted)
  | none =>
    refine ⟨fun error released hresult => (by cases hresult), fun pins released hresult => ?_⟩
    cases hresult
    have hsort := List.perm_insertionSort (· ≤ ·) s.pins
    have hordered := List.pairwise_insertionSort (· ≤ ·) s.pins
    have hlength := hperm.length_eq
    rw [List.length_append, List.length_range] at hlength
    refine ⟨?_, (hcomplete hpending).symm ▸ hsort, ?_, fun hall => ?_⟩
    · exact (hordered.and (hsort.nodup_iff.mpr hpins)).imp fun h => Nat.lt_of_le_of_ne h.1 h.2
    · rw [List.length_insertionSort]
      by_cases hcancelled : s.cancelled = true
      · exact Or.inr hcancelled
      · have hnot : ¬ s.Stopped := fun h => hcancelled (hfinished.cancelled hpending h)
        obtain ⟨w, hw⟩ := List.exists_mem_of_ne_nil _ hspawned
        have hnext := (hreturned (hfinished.1 w hw ▸ hw)).resolve_right hnot
        rw [not_imp_comm.mp hreleased hnot, List.length_nil] at hlength
        omega
    · rw [List.length_insertionSort] at hall
      have hnil : s.released = [] := List.length_eq_zero_iff.mp (by omega)
      rw [hnil, List.nil_append, show min s.next total = total by omega] at hperm
      exact ⟨(hsort.trans hperm).eq_of_pairwise' hordered List.pairwise_le_range, hnil⟩

def oneOperation : List Event :=
  List.replicate 4 (.work 0 (.ok [7])) ++ List.replicate 3 (.collect (.ok ())) ++ [.work 0 (.ok [])]

theorem oneOperation_accounts :
    (run (step 1 2) (start 1 2) oneOperation).Finished ∧
      [0].Perm ((run (step 1 2) (start 1 2) oneOperation).written.map (·.1)) := by
  have hfinished : (run (step 1 2) (start 1 2) oneOperation).Finished :=
    ⟨fun _ h => List.mem_singleton.mp h, rfl, rfl⟩
  exact ⟨hfinished, ((parallel_restore_accounts hfinished).2.2 [0] [] rfl).2.1⟩

/-! ## Progress -/

@[grind] def rank : Worker → Nat
  | .returned => 0
  | .idle => 1
  | .sending _ _ => 5
  | .decoding _ => 6
  | .claimed _ => 7

/-- A bound on the accesses that are left. -/
@[grind] def remaining (total : Nat) (s : ParallelRestore) : Nat :=
  7 * (total - s.next) + (s.workers.map rank).sum + 3 * s.channel.length +
    match s.collector with
    | .receiving => 0
    | .settling _ => 1
    | .received _ _ => 2

theorem exists_progress (total : Nat) (hparallelism : 0 < parallelism) (h : ¬ s.Finished) :
    ∃ e, e ≠ .cancel ∧ remaining total (step total parallelism s e) < remaining total s := by
  by_cases hdrained : s.channel = [] ∧ s.collector = .receiving
  · -- some worker has not returned, and the channel has room for what it sends
    obtain ⟨w, hw, hne⟩ : ∃ w ∈ s.workers, w ≠ .returned := by simpa [Finished, hdrained] using h
    obtain ⟨i, hi⟩ := List.mem_iff_getElem?.mp hw
    obtain ⟨rest, hold, hnew⟩ := sum_set rank hi
    refine ⟨.work i (.ok []), fun h => (by cases h), ?_⟩
    cases w <;> simp only [step, work, hi] <;> grind
  · refine ⟨.collect (.ok ()), fun h => (by cases h), ?_⟩
    simp only [step, collect]
    cases hcollector : s.collector with
    | receiving => cases hchannel : s.channel <;> grind
    | received ordinal result => cases result <;> grind
    | settling pin => grind

/-- From every state, however it was reached, the threads can finish without a cancellation. -/
theorem restore_never_stuck (hparallelism : 0 < parallelism) :
    ∃ es : List Event, .cancel ∉ es ∧ (run (step total parallelism) s es).Finished := by
  induction hn : remaining total s using Nat.strong_induction_on generalizing s with
  | _ n ih =>
    by_cases hfinished : s.Finished
    · exact ⟨[], List.not_mem_nil, hfinished⟩
    · obtain ⟨e, hcancel, hless⟩ := exists_progress total hparallelism hfinished
      obtain ⟨es, hes, hend⟩ := ih _ (hn ▸ hless) rfl
      exact ⟨e :: es, List.not_mem_cons_of_ne_of_not_mem hcancel.symm hes, hend⟩

theorem restore_never_stuck_two :
    ∃ es : List Event, .cancel ∉ es ∧ (run (step 3 2) (start 3 2) es).Finished :=
  restore_never_stuck Nat.two_pos

end ParallelRestore

end Kvpack.Restore
