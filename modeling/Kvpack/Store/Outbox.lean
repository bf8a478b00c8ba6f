import Kvpack.Base.Run
import Kvpack.Store.Catalog

/-!
# The audit outbox and its export

The stream of one tenant: the rows of the outbox under their sequence numbers, and the counters beside them. Every
lifecycle transaction checks the capacity and then appends; an exporter, one at a time, loads a batch of pending rows,
hands it over, and acknowledges and prunes in a transaction of its own.
-/

namespace Kvpack.Store

open Base Kvpack.Core

/-! ## The table -/

structure OutboxRow where
  sequence : Nat
  key : AuditEventKey
  occurredNs : Nat
  deliveredNs : Option Nat
  deliveryAttempts : Nat
  deriving DecidableEq

/-- The primary key is the sequence, and an index keeps the events distinct. -/
structure OutboxTable where
  rows : List OutboxRow
  sequence_nodup : (rows.map (·.sequence)).Nodup
  key_nodup : (rows.map (·.key)).Nodup

namespace OutboxTable

variable (t : OutboxTable)

def empty : OutboxTable := ⟨[], List.nodup_nil, List.nodup_nil⟩

def holds (key : AuditEventKey) : Bool := decide (key ∈ t.rows.map (·.key))

def conflicts (row : OutboxRow) : Bool := decide (row.sequence ∈ t.rows.map (·.sequence)) || t.holds row.key

def pending : List OutboxRow := t.rows.filter fun row => row.deliveredNs.isNone

theorem nodup_map_concat {α β : Type} {f : α → β} {l : List α} {a : α} (hl : (l.map f).Nodup) (ha : f a ∉ l.map f) :
    ((l ++ [a]).map f).Nodup := by
  rw [List.map_append, List.map_singleton, ← List.concat_eq_append]
  exact hl.concat ha

/-- `INSERT OR IGNORE`. -/
def insertOrIgnore (row : OutboxRow) : OutboxTable :=
  if h : t.conflicts row = true then t
  else ⟨t.rows ++ [row], nodup_map_concat t.sequence_nodup fun hmem => h (by simp [conflicts, hmem]),
    nodup_map_concat t.key_nodup fun hmem => h (by simp [conflicts, holds, hmem])⟩

/-- `UPDATE … SET delivered_ns=?, delivery_attempts=delivery_attempts+1 WHERE sequence=? AND delivered_ns IS NULL`. -/
def markDelivered (sequence delivered : Nat) : OutboxTable :=
  let mark (row : OutboxRow) : OutboxRow :=
    if row.sequence = sequence ∧ row.deliveredNs = none then
      { row with deliveredNs := some delivered, deliveryAttempts := row.deliveryAttempts + 1 }
    else row
  ⟨t.rows.map mark, by
    have hmark : (·.sequence) ∘ mark = (·.sequence) := by
      funext row
      simp only [mark, Function.comp_apply]
      split <;> rfl
    rw [List.map_map, hmark]
    exact t.sequence_nodup, by
    have hmark : (·.key) ∘ mark = (·.key) := by
      funext row
      simp only [mark, Function.comp_apply]
      split <;> rfl
    rw [List.map_map, hmark]
    exact t.key_nodup⟩

/-- How many rows that update changes. -/
def marking (sequence : Nat) : Nat :=
  (t.rows.filter fun row => row.sequence = sequence ∧ row.deliveredNs = none).length

/-- `DELETE … WHERE`. -/
def delete (p : OutboxRow → Bool) : OutboxTable :=
  ⟨t.rows.filter fun row => !p row, (List.filter_sublist.map _).nodup t.sequence_nodup,
    (List.filter_sublist.map _).nodup t.key_nodup⟩

end OutboxTable

structure AuditState where
  nextSequence : Nat
  lastFlushedNs : Nat
  backpressureEvents : Nat
  deliveryFailures : Nat
  retentionPrunedRecords : Nat
  lostRecords : Nat
  deriving DecidableEq

structure AuditStream where
  outbox : OutboxTable
  state : AuditState

def AuditStream.initial : AuditStream := ⟨.empty, ⟨1, 0, 0, 0, 0, 0⟩⟩

/-! ## Appending -/

/-- A number as an argument of a statement: columns are signed. -/
def toSql (n : Nat) : Except StoreError Nat := do
  rejectIf (maxI64 < n) (.catalog "out of range integral type conversion attempted")
  return n

/-- The events without the repetitions of those seen before. -/
def uniqueEvents : List AuditEventKey → List AuditEventKey → List AuditEventKey
  | _, [] => []
  | seen, event :: events =>
    if event ∈ seen then uniqueEvents seen events else event :: uniqueEvents (event :: seen) events

namespace AuditStream

variable (s : AuditStream)

def preflightEvents (events : List AuditEventKey) : Except StoreError (AuditCapacity × AuditStream) := do
  let unique := uniqueEvents [] events
  rejectIf (∃ event ∈ unique, isZeroId event.objectId ∨ maxI64 < event.generation)
    (.state "audit event identity or generation is invalid")
  let needed := (unique.filter fun event => !s.outbox.holds event).length
  if maxPendingAuditRecords < s.outbox.pending.length + needed then
    return (.backpressured, { s with state := { s.state with backpressureEvents := s.state.backpressureEvents + 1 } })
  else
    return (.ready, s)

/-- The loop over the events: the table, the next sequence and the rows inserted. -/
def appendLoop (occurredNs : Nat) : OutboxTable → Nat → Nat → List AuditEventKey →
    Except StoreError (OutboxTable × Nat × Nat)
  | t, next, inserted, [] => .ok (t, next, inserted)
  | t, next, inserted, event :: events => do
      let sequence ← toSql next
      let generation ← toSql event.generation
      let occurred ← toSql occurredNs
      let row : OutboxRow := ⟨sequence, { event with generation }, occurred, none, 0⟩
      if t.conflicts row then
        appendLoop occurredNs t next inserted events
      else do
        rejectIf (2 ^ 64 ≤ next + 1) (.state "audit sequence exhausted")
        appendLoop occurredNs (t.insertOrIgnore row) (next + 1) (inserted + 1) events

def appendEvents (events : List AuditEventKey) (occurredUnixNs : Nat) : Except StoreError (AuditStream × Nat) := do
  rejectIf (occurredUnixNs = 0) (.state "audit event timestamp is invalid")
  let (outbox, next, inserted) ←
    appendLoop occurredUnixNs s.outbox s.state.nextSequence 0 (uniqueEvents [] events)
  let nextSequence ← toSql next
  return (⟨outbox, { s.state with nextSequence }⟩, inserted)

/-- What a lifecycle transaction does to the stream. The counter of the refused check is committed; other errors roll
back. -/
def record (events : List AuditEventKey) (occurredUnixNs : Nat) : Except StoreError Unit × AuditStream :=
  match s.preflightEvents events with
  | .error e => (.error e, s)
  | .ok (.backpressured, s') => (.error .busy, s')
  | .ok (.ready, s') =>
    match s'.appendEvents events occurredUnixNs with
    | .error e => (.error e, s)
    | .ok (s'', _) => (.ok (), s'')

/-! ## Batches -/

end AuditStream

structure AuditRecord where
  sequence : Nat
  key : AuditEventKey
  occurredUnixNs : Nat
  deriving DecidableEq

structure AuditBatch where
  records : List AuditRecord
  deriving DecidableEq

def OutboxRow.record (row : OutboxRow) : AuditRecord := ⟨row.sequence, row.key, row.occurredNs⟩

namespace AuditBatch

variable (b : AuditBatch)

def sequences : List Nat := b.records.map (·.sequence)

def firstSequence : Nat := (b.records.head?.map (·.sequence)).getD 0

def lastSequence : Nat := (b.records.getLast?.map (·.sequence)).getD 0

end AuditBatch

/-- Some record does not follow the one before it. -/
def hasGap : List AuditRecord → Bool
  | a :: b :: rest => decide (b.sequence ≠ min (a.sequence + 1) (2 ^ 64 - 1)) || hasGap (b :: rest)
  | _ => false

def maxAuditBatchRecords : Nat := 512
def maxRetainedDeliveredAuditRecords : Nat := 4096
def deliveredAuditRetentionNs : Nat := 7 * 24 * 60 * 60 * 1000000000

namespace AuditStream

variable (s : AuditStream)

def loadBatch (maximumRecords : Nat) : Except StoreError AuditBatch := do
  let records := ((s.outbox.pending.mergeSort fun a b => decide (a.sequence ≤ b.sequence)).take maximumRecords).map
    OutboxRow.record
  rejectIf (hasGap records = true) (.state "publication audit sequence contains a gap")
  return ⟨records⟩

/-- The two deletions of the retention, with the rows they delete. -/
def pruneDelivered (now : Nat) : AuditStream × List OutboxRow :=
  let cutoff := now - deliveredAuditRetentionNs
  let expired (row : OutboxRow) : Bool := row.deliveredNs.any fun delivered => decide (delivered < cutoff)
  let outbox := s.outbox.delete expired
  let newest := (outbox.rows.filter fun row => row.deliveredNs.isSome).mergeSort fun a b =>
    decide (b.sequence ≤ a.sequence)
  let surplus (row : OutboxRow) : Bool :=
    (newest[maxRetainedDeliveredAuditRecords - 1]?).any fun threshold =>
      row.deliveredNs.isSome && decide (row.sequence < threshold.sequence)
  let deleted := s.outbox.rows.filter expired ++ outbox.rows.filter surplus
  (⟨outbox.delete surplus, { s.state with
      retentionPrunedRecords := s.state.retentionPrunedRecords + deleted.length }⟩, deleted)

/-- The loop that marks the records of a batch. -/
def markLoop (delivered : Nat) : OutboxTable → List AuditRecord → Except StoreError OutboxTable
  | t, [] => .ok t
  | t, record :: records => do
      let sequence ← toSql record.sequence
      let deliveredNs ← toSql delivered
      rejectIf (t.marking sequence ≠ 1) (.state "audit batch acknowledgement changed")
      markLoop delivered (t.markDelivered sequence deliveredNs) records

/-- The transaction that acknowledges a batch, with the rows it prunes. -/
def acknowledge (batch : AuditBatch) (delivered : Nat) : Except StoreError (AuditStream × List OutboxRow) := do
  let outbox ← markLoop delivered s.outbox batch.records
  let lastFlushedNs ← toSql delivered
  return pruneDelivered ⟨outbox, { s.state with lastFlushedNs }⟩ delivered

def recordDeliveryFailure : AuditStream :=
  { s with state := { s.state with deliveryFailures := s.state.deliveryFailures + 1 } }

end AuditStream

/-! ## Exports and appends in any order -/

/-- Where the one export that may run stands, holding the lock since its load. -/
inductive ExportPhase where
  | idle
  | exporting (batch : AuditBatch)
  | failing (batch : AuditBatch)
  | acknowledging (batch : AuditBatch)
  deriving DecidableEq

structure ExportSystem where
  stream : AuditStream
  phase : ExportPhase
  /-- History: the batches handed to the exporter. -/
  exported : List AuditBatch
  /-- History: the sequences marked delivered, in order. -/
  delivered : List Nat
  /-- History: the sequences pruned. -/
  pruned : List Nat

def ExportSystem.initial : ExportSystem := ⟨.initial, .idle, [], [], []⟩

inductive ExportEvent where
  /-- A lifecycle transaction. -/
  | append (events : List AuditEventKey) (occurredUnixNs : Nat)
  | load (maximumRecords : Nat)
  /-- The exporter returns. -/
  | returned (ok : Bool)
  | recordFailure
  | acknowledge (delivered : Nat)
  /-- The process ends and the store is opened again. -/
  | crash

namespace ExportSystem

def load (s : ExportSystem) (maximumRecords : Nat) : ExportSystem :=
  if maximumRecords = 0 ∨ maxAuditBatchRecords < maximumRecords then s
  else
    match s.stream.loadBatch maximumRecords with
    | .error _ => s
    | .ok batch =>
      if batch.records = [] then s else { s with phase := .exporting batch, exported := s.exported ++ [batch] }

def step (s : ExportSystem) : ExportEvent → ExportSystem
  | .append events occurredUnixNs => { s with stream := (s.stream.record events occurredUnixNs).2 }
  | .load maximumRecords =>
    match s.phase with
    | .idle => s.load maximumRecords
    | _ => s
  | .returned ok =>
    match s.phase with
    | .exporting batch => { s with phase := if ok then .acknowledging batch else .failing batch }
    | _ => s
  | .recordFailure =>
    match s.phase with
    | .failing _ => { s with stream := s.stream.recordDeliveryFailure, phase := .idle }
    | _ => s
  | .acknowledge delivered =>
    match s.phase with
    | .acknowledging batch =>
      match s.stream.acknowledge batch delivered with
      | .error _ => { s with phase := .idle }
      | .ok (stream, deleted) =>
        { s with stream, phase := .idle, delivered := s.delivered ++ batch.sequences,
                 pruned := s.pruned ++ deleted.map (·.sequence) }
    | _ => s
  | .crash => { s with phase := .idle }

end ExportSystem

end Kvpack.Store
