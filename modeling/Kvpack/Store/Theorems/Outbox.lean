import Kvpack.Store.Lemmas.Outbox

/-!
# Audit export without gaps

Whatever the order of appends, loads, deliveries, failures, acknowledgements and crashes: records reach the exporter and
are marked in the order of their sequences, none is left out, and the retention takes only what has been marked.
-/

namespace Kvpack.Store

open Base Kvpack.Core

namespace ExportSystem

variable {s : ExportSystem}

structure GapFree (s : ExportSystem) : Prop where
  /-- Records are marked delivered one after the other, from the first on. -/
  delivered : s.delivered = List.range' 1 s.delivered.length
  /-- Every batch handed over carries consecutive sequences. -/
  batches : ∀ b ∈ s.exported, b.records ≠ [] ∧ b.sequences = List.range' b.firstSequence b.records.length
  start : ∀ b ∈ s.exported.head?, b.firstSequence = 1
  /-- A batch starts where the unacknowledged one before it did, or directly after it. -/
  follows : s.exported.IsChain fun a b => b.firstSequence = a.firstSequence ∨ b.firstSequence = a.lastSequence + 1
  pruned : ∀ sequence ∈ s.pruned, sequence ∈ s.delivered
  /-- A row of the table is marked exactly when its sequence has been delivered. -/
  marked : ∀ row ∈ s.stream.outbox.rows, row.deliveredNs ≠ none ↔ row.sequence ∈ s.delivered
  /-- Every sequence given out has been delivered or is pending. -/
  allocated : ∀ sequence, 1 ≤ sequence → sequence < s.stream.state.nextSequence →
    sequence ∈ s.delivered ∨ ∃ row ∈ s.stream.outbox.pending, row.sequence = sequence
  capacity : s.stream.outbox.pending.length ≤ maxPendingAuditRecords
  /-- A load of any size succeeds: it never finds a gap. -/
  loads : ∀ maximumRecords, ∃ batch, s.stream.loadBatch maximumRecords = .ok batch

theorem Ordered.gapFree (h : s.Ordered) : s.GapFree := by
  refine ⟨h.delivered, h.batches, h.start, h.follows, h.pruned, ?_, ?_, h.stream.capacity, ?_⟩
  · intro row hrow
    rw [h.delivered, List.mem_range'_1]
    constructor
    · intro hsent
      obtain ⟨hpos, hle⟩ := h.stream.outbox.sent row hrow hsent
      omega
    · rintro ⟨-, hlt⟩ hnone
      have hmem : row.sequence ∈ s.stream.outbox.pending.map (·.sequence) :=
        List.mem_map_of_mem (OutboxTable.mem_pending.mpr ⟨hrow, hnone⟩)
      rw [h.stream.outbox.pending, List.mem_range'_1] at hmem
      omega
  · intro sequence hpos hlt
    rw [h.stream.next] at hlt
    by_cases hle : sequence ≤ s.delivered.length
    · left
      rw [h.delivered, List.mem_range'_1]
      omega
    · right
      have hmem : sequence ∈ s.stream.outbox.pending.map (·.sequence) := by
        rw [h.stream.outbox.pending, List.mem_range'_1]
        omega
      exact List.mem_map.mp hmem
  · intro maximumRecords
    exact ⟨_, h.stream.loadBatch maximumRecords⟩

/-- Audit export is gap free over every interleaving. -/
theorem audit_export_gapFree (events : List ExportEvent) : (run step initial events).GapFree :=
  (run_invariant (fun _ event hs => hs.step event) ordered_initial : (run step initial events).Ordered).gapFree

end ExportSystem

end Kvpack.Store
