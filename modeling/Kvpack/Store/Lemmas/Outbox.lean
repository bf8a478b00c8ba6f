import Kvpack.Store.Outbox

/-!
# The order of the audit stream

Pending rows carry the sequences that directly follow those delivered. Appends extend them at the end,
acknowledgements take from the front, and the retention touches delivered rows only.
-/

namespace Kvpack.Store

open Base Kvpack.Core

/-! ## The table -/

namespace OutboxTable

variable {t : OutboxTable} {n : Nat} {row : OutboxRow}
variable {p : OutboxRow → Bool} {rest : List OutboxRow}

/-- The first `n` sequences have been delivered; the pending rows carry the next ones. -/
structure Ordered (t : OutboxTable) (n : Nat) : Prop where
  sorted : t.rows.Pairwise fun a b => a.sequence < b.sequence
  pending : t.pending.map (·.sequence) = List.range' (n + 1) t.pending.length
  sent : ∀ row ∈ t.rows, row.deliveredNs ≠ none → 1 ≤ row.sequence ∧ row.sequence ≤ n
  bounded : ∀ row ∈ t.rows, row.sequence ≤ maxI64

theorem mem_pending : row ∈ t.pending ↔ row ∈ t.rows ∧ row.deliveredNs = none := by
  simp [pending]

theorem Ordered.sequence_le (h : t.Ordered n) (hrow : row ∈ t.rows) : row.sequence < n + 1 + t.pending.length := by
  by_cases hpending : row.deliveredNs = none
  · have hmem : row.sequence ∈ t.pending.map (·.sequence) := List.mem_map_of_mem (mem_pending.mpr ⟨hrow, hpending⟩)
    rw [h.pending, List.mem_range'_1] at hmem
    exact hmem.2
  · have hle := (h.sent row hrow hpending).2
    omega

theorem ordered_empty : empty.Ordered 0 :=
  ⟨.nil, rfl, nofun, nofun⟩

theorem Ordered.conflicts_eq (h : t.Ordered n) (hsequence : row.sequence = n + 1 + t.pending.length) :
    t.conflicts row = t.holds row.key := by
  have hfresh : row.sequence ∉ t.rows.map (·.sequence) := by
    intro hmem
    obtain ⟨row', hrow', heq⟩ := List.mem_map.mp hmem
    have hlt := h.sequence_le hrow'
    omega
  rw [conflicts, decide_eq_false hfresh, Bool.false_or]

theorem rows_insertOrIgnore (h : t.conflicts row = false) : (t.insertOrIgnore row).rows = t.rows ++ [row] := by
  rw [insertOrIgnore, dif_neg (by simp [h])]

theorem pending_insertOrIgnore (h : t.conflicts row = false) (hpending : row.deliveredNs = none) :
    (t.insertOrIgnore row).pending = t.pending ++ [row] := by
  rw [pending, rows_insertOrIgnore h, List.filter_append]
  simp [pending, hpending]

theorem Ordered.insertOrIgnore (h : t.Ordered n) (hsequence : row.sequence = n + 1 + t.pending.length)
    (hpending : row.deliveredNs = none) (hbound : row.sequence ≤ maxI64) (hfree : t.conflicts row = false) :
    (t.insertOrIgnore row).Ordered n := by
  have hrows := rows_insertOrIgnore hfree
  refine ⟨?_, ?_, ?_, ?_⟩
  · rw [hrows, List.pairwise_append]
    refine ⟨h.sorted, List.pairwise_singleton _ _, ?_⟩
    intro a ha b hb
    rw [List.mem_singleton.mp hb, hsequence]
    exact h.sequence_le ha
  · rw [pending_insertOrIgnore hfree hpending, List.map_append, h.pending, List.length_append, List.map_singleton,
      hsequence, List.length_singleton, List.range'_concat, Nat.one_mul]
  · intro row' hrow' hsent
    rw [hrows] at hrow'
    rcases List.mem_append.mp hrow' with hold | hnew
    · exact h.sent row' hold hsent
    · rw [List.mem_singleton.mp hnew] at hsent
      exact absurd hpending hsent
  · intro row' hrow'
    rw [hrows] at hrow'
    rcases List.mem_append.mp hrow' with hold | hnew
    · exact h.bounded row' hold
    · rw [List.mem_singleton.mp hnew]
      exact hbound

theorem holds_insertOrIgnore {key : AuditEventKey} (h : t.holds key = true) :
    (t.insertOrIgnore row).holds key = true := by
  unfold insertOrIgnore
  split
  · exact h
  · simp only [holds, decide_eq_true_eq] at h ⊢
    rw [List.map_append]
    exact List.mem_append_left _ h

theorem pending_delete (hp : ∀ row, p row = true → row.deliveredNs ≠ none) :
    (t.delete p).pending = t.pending := by
  rw [pending, delete, List.filter_filter, pending]
  refine List.filter_congr ?_
  intro row _
  cases hrow : p row with
  | false => simp
  | true => simp [Option.ne_none_iff_isSome.mp (hp row hrow)]

theorem Ordered.delete (h : t.Ordered n) (hp : ∀ row, p row = true → row.deliveredNs ≠ none) :
    (t.delete p).Ordered n := by
  have hsub : ∀ row ∈ (t.delete p).rows, row ∈ t.rows := fun row hrow => List.mem_of_mem_filter hrow
  refine ⟨h.sorted.sublist List.filter_sublist, ?_, fun row hrow => h.sent row (hsub row hrow),
    fun row hrow => h.bounded row (hsub row hrow)⟩
  rw [pending_delete hp]
  exact h.pending

/-! ## Marking the first pending row -/

theorem Ordered.pending_cons (h : t.Ordered n) (hpending : t.pending = row :: rest) :
    row.sequence = n + 1 ∧ rest.map (·.sequence) = List.range' (n + 1 + 1) rest.length ∧
      ∀ row' ∈ rest, n + 1 < row'.sequence := by
  have hsequences := h.pending
  rw [hpending, List.map_cons, List.length_cons, List.range'_succ, List.cons.injEq] at hsequences
  refine ⟨hsequences.1, hsequences.2, fun row' hrow' => ?_⟩
  have hmem : row'.sequence ∈ List.range' (n + 1 + 1) rest.length := by
    rw [← hsequences.2]
    exact List.mem_map_of_mem hrow'
  exact (List.mem_range'_1.mp hmem).1

/-- A table of distinct sequences has one row of the first pending sequence. -/
theorem Ordered.marking_eq (h : t.Ordered n) (hpending : t.pending = row :: rest) :
    row.sequence = n + 1 ∧ t.marking (n + 1) = 1 := by
  obtain ⟨hfirst, -, hlater⟩ := h.pending_cons hpending
  refine ⟨hfirst, ?_⟩
  have hfilter : t.rows.filter (fun row => row.sequence = n + 1 ∧ row.deliveredNs = none) =
      t.pending.filter fun row => row.sequence = n + 1 := by
    rw [OutboxTable.pending, List.filter_filter]
    refine List.filter_congr ?_
    intro row _
    cases row.deliveredNs <;> simp
  have hrest : rest.filter (fun row => row.sequence = n + 1) = [] := by
    rw [List.filter_eq_nil_iff]
    intro row' hrow'
    simpa using (hlater row' hrow').ne'
  rw [marking, hfilter, hpending, List.filter_cons, if_pos (by simp [hfirst]), hrest]
  rfl

theorem mem_markDelivered {sequence delivered : Nat} (h : row ∈ (t.markDelivered sequence delivered).rows) :
    ∃ row₀ ∈ t.rows, row.sequence = row₀.sequence ∧
      (row = row₀ ∨ row₀.sequence = sequence ∧ row₀.deliveredNs = none) := by
  obtain ⟨row₀, hrow₀, rfl⟩ := List.mem_map.mp h
  refine ⟨row₀, hrow₀, ?_⟩
  split
  · rename_i hmarked
    exact ⟨rfl, .inr hmarked⟩
  · exact ⟨rfl, .inl rfl⟩

/-- Marking takes the row of that sequence out of the pending rows. -/
theorem pending_markDelivered (sequence delivered : Nat) :
    (t.markDelivered sequence delivered).pending = t.pending.filter fun row => row.sequence ≠ sequence := by
  obtain ⟨rows, _, _⟩ := t
  simp only [pending, markDelivered]
  clear * -
  induction rows with
  | nil => rfl
  | cons row rows ih =>
    rw [List.map_cons, List.filter_cons, List.filter_cons]
    cases hsent : row.deliveredNs with
    | some d => simpa [hsent] using ih
    | none =>
      by_cases hsequence : row.sequence = sequence
      · simpa [hsent, hsequence] using ih
      · simpa [hsent, hsequence] using ih

theorem Ordered.markDelivered (h : t.Ordered n) (hpending : t.pending = row :: rest)
    (delivered : Nat) :
    (t.markDelivered (n + 1) delivered).Ordered (n + 1) ∧ (t.markDelivered (n + 1) delivered).pending = rest := by
  obtain ⟨hfirst, hsequences, hlater⟩ := h.pending_cons hpending
  have hrest : (t.markDelivered (n + 1) delivered).pending = rest := by
    rw [pending_markDelivered, hpending, List.filter_cons, if_neg (by simp [hfirst]), List.filter_eq_self]
    intro row' hrow'
    simpa using (hlater row' hrow').ne'
  refine ⟨⟨?_, ?_, ?_, ?_⟩, hrest⟩
  · rw [OutboxTable.markDelivered, List.pairwise_map]
    refine h.sorted.imp ?_
    intro a b hab
    split <;> split <;> exact hab
  · rw [hrest]
    exact hsequences
  · intro row' hrow' hsent
    obtain ⟨row₀, hrow₀, hsame, rfl | ⟨hsequence, -⟩⟩ := mem_markDelivered hrow'
    · obtain ⟨hpos, hle⟩ := h.sent row' hrow₀ hsent
      exact ⟨hpos, by omega⟩
    · omega
  · intro row' hrow'
    obtain ⟨row₀, hrow₀, hsame, -⟩ := mem_markDelivered hrow'
    rw [hsame]
    exact h.bounded row₀ hrow₀

end OutboxTable

/-! ## Transactions -/

namespace AuditStream

variable {s s' : AuditStream} {n : Nat}
variable {occurredNs inserted delivered : Nat} {events : List AuditEventKey} {records : List AuditRecord}

/-- The stream of which `n` records have been delivered. -/
structure Ordered (s : AuditStream) (n : Nat) : Prop where
  outbox : s.outbox.Ordered n
  next : s.state.nextSequence = n + 1 + s.outbox.pending.length
  capacity : s.outbox.pending.length ≤ maxPendingAuditRecords

theorem toSql_eq_ok {n m : Nat} : toSql n = .ok m ↔ m = n ∧ n ≤ maxI64 := by
  simp only [toSql, bind_eq_ok, exists_unit, rejectIf_eq_ok, pure_eq_ok, not_lt]
  constructor
  · rintro ⟨hle, rfl⟩
    exact ⟨rfl, hle⟩
  · rintro ⟨rfl, hle⟩
    exact ⟨hle, rfl⟩

theorem appendLoop_eq_ok {next next' inserted' : Nat} {t t' : OutboxTable} (h : t.Ordered n)
    (hnext : next = n + 1 + t.pending.length)
    (hloop : appendLoop occurredNs t next inserted events = .ok (t', next', inserted')) :
    t'.Ordered n ∧ next' = n + 1 + t'.pending.length ∧ t.pending <+: t'.pending ∧
      t'.pending.length ≤ t.pending.length + (events.filter fun event => !t.holds event).length := by
  induction events generalizing t next inserted with
  | nil =>
    cases hloop
    exact ⟨h, hnext, List.prefix_rfl, Nat.le_add_right _ _⟩
  | cons event events ih =>
    simp only [appendLoop, bind_eq_ok, toSql_eq_ok, and_assoc, exists_eq_left] at hloop
    obtain ⟨hbound, -, -, hloop⟩ := hloop
    split at hloop
    · rename_i hconflict
      rw [h.conflicts_eq hnext] at hconflict
      obtain ⟨hordered, hnext', hstart, hcount⟩ := ih h hnext hloop
      refine ⟨hordered, hnext', hstart, ?_⟩
      rw [List.filter_cons, if_neg (by simpa using hconflict)]
      exact hcount
    · rename_i hconflict
      have hfree := Bool.not_eq_true _ |>.mp hconflict
      simp only [bind_eq_ok, exists_unit, rejectIf_eq_ok] at hloop
      obtain ⟨-, hloop⟩ := hloop
      have hpending := OutboxTable.pending_insertOrIgnore hfree rfl
      have hordered₁ := h.insertOrIgnore hnext rfl hbound hfree
      have hnext₁ : next + 1 = n + 1 + (t.insertOrIgnore ⟨next, event, occurredNs, none, 0⟩).pending.length := by
        rw [hpending, List.length_append, List.length_singleton]
        omega
      obtain ⟨hordered, hnext', hstart, hcount⟩ := ih (t := t.insertOrIgnore ⟨next, event, occurredNs, none, 0⟩)
        hordered₁ hnext₁ hloop
      rw [h.conflicts_eq hnext] at hfree
      refine ⟨hordered, hnext', ?_, ?_⟩
      · rw [hpending] at hstart
        exact (List.prefix_append _ _).trans hstart
      · have hfewer : (events.filter fun event' =>
            !(t.insertOrIgnore ⟨next, event, occurredNs, none, 0⟩).holds event').length ≤
          (events.filter fun event' => !t.holds event').length := by
          refine (List.monotone_filter_right _ ?_).length_le
          intro event' hnot
          cases hheld : t.holds event' with
          | false => rfl
          | true => simp [OutboxTable.holds_insertOrIgnore hheld] at hnot
        rw [hpending, List.length_append, List.length_singleton] at hcount
        rw [List.filter_cons, if_pos (by simpa using hfree), List.length_cons]
        omega

theorem Ordered.appendEvents (h : s.Ordered n)
    (hneeded : s.outbox.pending.length + ((uniqueEvents [] events).filter fun event => !s.outbox.holds event).length ≤
      maxPendingAuditRecords) (happend : s.appendEvents events occurredNs = .ok (s', inserted)) :
    s'.Ordered n ∧ s.outbox.pending <+: s'.outbox.pending := by
  simp only [AuditStream.appendEvents, bind_eq_ok, exists_unit, rejectIf_eq_ok, toSql_eq_ok, pure_eq_ok, Prod.exists,
    and_assoc, exists_eq_left, Prod.mk.injEq] at happend
  obtain ⟨-, outbox, next, _, hloop, -, rfl, -⟩ := happend
  obtain ⟨hordered, hnext, hstart, hcount⟩ := appendLoop_eq_ok h.outbox h.next hloop
  exact ⟨⟨hordered, hnext, hcount.trans hneeded⟩, hstart⟩

/-- A lifecycle transaction keeps the order, whether it commits or not. -/
theorem Ordered.record (h : s.Ordered n) (events : List AuditEventKey) (occurredNs : Nat) :
    (s.record events occurredNs).2.Ordered n ∧ s.outbox.pending <+: (s.record events occurredNs).2.outbox.pending := by
  unfold AuditStream.record
  cases hpreflight : s.preflightEvents events with
  | error e => exact ⟨h, List.prefix_rfl⟩
  | ok checked =>
    obtain ⟨capacity, s₁⟩ := checked
    simp only [AuditStream.preflightEvents, bind_eq_ok, exists_unit, rejectIf_eq_ok] at hpreflight
    obtain ⟨-, hpreflight⟩ := hpreflight
    split at hpreflight
    · cases hpreflight
      exact ⟨⟨h.outbox, h.next, h.capacity⟩, List.prefix_rfl⟩
    · rename_i hroom
      cases hpreflight
      dsimp only
      cases happend : s.appendEvents events occurredNs with
      | error e => exact ⟨h, List.prefix_rfl⟩
      | ok result => exact h.appendEvents (not_lt.mp hroom) happend

/-! ## Batches -/

theorem take_range' (start length count : Nat) :
    (List.range' start length).take count = List.range' start (min count length) := by
  apply List.ext_getElem
  · simp
  · intro i _ _
    simp

theorem hasGap_eq_false {start : Nat}
    (h : records.map (·.sequence) = List.range' start records.length) (hbound : ∀ r ∈ records, r.sequence ≤ maxI64) :
    hasGap records = false := by
  induction records generalizing start with
  | nil => rfl
  | cons a records ih =>
    rw [List.map_cons, List.length_cons, List.range'_succ, List.cons.injEq] at h
    have hrest := ih h.2 fun r hr => hbound r (List.mem_cons_of_mem _ hr)
    cases records with
    | nil => rfl
    | cons b records =>
      have hnext := h.2
      rw [List.map_cons, List.length_cons, List.range'_succ, List.cons.injEq] at hnext
      have hle := hbound a List.mem_cons_self
      simp only [hasGap, hrest, Bool.or_false, decide_eq_false_iff_not, ne_eq, not_not, h.1, hnext.1]
      rw [h.1, maxI64] at hle
      omega

theorem Ordered.loadBatch (h : s.Ordered n) (maximumRecords : Nat) :
    s.loadBatch maximumRecords = .ok ⟨(s.outbox.pending.take maximumRecords).map OutboxRow.record⟩ := by
  have hsorted : s.outbox.pending.mergeSort (fun a b => decide (a.sequence ≤ b.sequence)) = s.outbox.pending := by
    refine List.mergeSort_of_pairwise ?_
    refine (h.outbox.sorted.sublist List.filter_sublist).imp ?_
    intro a b hab
    exact decide_eq_true hab.le
  have hsequences : ((s.outbox.pending.take maximumRecords).map OutboxRow.record).map (·.sequence) =
      List.range' (n + 1) ((s.outbox.pending.take maximumRecords).map OutboxRow.record).length := by
    have htake : (s.outbox.pending.map (·.sequence)).take maximumRecords =
        (List.range' (n + 1) s.outbox.pending.length).take maximumRecords := by rw [h.outbox.pending]
    rw [List.map_map, List.length_map, List.length_take, ← take_range', ← htake, List.map_take]
    rfl
  have hbound : ∀ r ∈ (s.outbox.pending.take maximumRecords).map OutboxRow.record, r.sequence ≤ maxI64 := by
    intro r hr
    obtain ⟨row, hrow, rfl⟩ := List.mem_map.mp hr
    exact h.outbox.bounded row (OutboxTable.mem_pending.mp (List.mem_of_mem_take hrow)).1
  have hgap : ¬ hasGap ((s.outbox.pending.take maximumRecords).map OutboxRow.record) = true := by
    rw [hasGap_eq_false hsequences hbound]
    exact Bool.false_ne_true
  rw [AuditStream.loadBatch, hsorted, rejectIf_of_not hgap]
  rfl

/-! ## Acknowledgements -/

/-- Marking the first pending records takes them out of the pending rows. -/
theorem markLoop_eq_ok {t t' : OutboxTable} (h : t.Ordered n)
    (hstart : records <+: t.pending.map OutboxRow.record) (hloop : markLoop delivered t records = .ok t') :
    t'.Ordered (n + records.length) ∧ t'.pending = t.pending.drop records.length := by
  induction records generalizing t n with
  | nil =>
    cases hloop
    exact ⟨h, rfl⟩
  | cons record records ih =>
    cases hpending : t.pending with
    | nil =>
      rw [hpending] at hstart
      simp at hstart
    | cons row rest =>
      rw [hpending, List.map_cons, List.cons_prefix_cons] at hstart
      obtain ⟨rfl, hstart⟩ := hstart
      obtain ⟨hsequence, -⟩ := h.marking_eq hpending
      simp only [markLoop, bind_eq_ok, exists_unit, rejectIf_eq_ok, toSql_eq_ok, and_assoc, exists_eq_left] at hloop
      obtain ⟨-, -, -, hloop⟩ := hloop
      have hsame : row.record.sequence = n + 1 := hsequence
      rw [hsame] at hloop
      obtain ⟨hmarked, hrest⟩ := h.markDelivered hpending delivered
      obtain ⟨hordered, hdrop⟩ := ih hmarked (by rw [hrest]; exact hstart) hloop
      rw [List.length_cons, Nat.add_comm records.length, ← Nat.add_assoc]
      refine ⟨hordered, ?_⟩
      rw [hdrop, hrest, Nat.add_comm 1, List.drop_succ_cons]

theorem Ordered.pruneDelivered (h : s.Ordered n) (now : Nat) :
    (s.pruneDelivered now).1.Ordered n ∧ (s.pruneDelivered now).1.outbox.pending = s.outbox.pending ∧
      ∀ row ∈ (s.pruneDelivered now).2, 1 ≤ row.sequence ∧ row.sequence ≤ n := by
  unfold AuditStream.pruneDelivered
  extract_lets cutoff expired outbox newest surplus deleted
  have hexpired : ∀ row, expired row = true → row.deliveredNs ≠ none := by
    intro row hrow hnone
    simp [expired, hnone] at hrow
  have hsurplus : ∀ row, surplus row = true → row.deliveredNs ≠ none := by
    intro row hrow hnone
    simp [surplus, hnone] at hrow
  have houtbox : outbox.Ordered n := h.outbox.delete hexpired
  have hpending : (outbox.delete surplus).pending = s.outbox.pending :=
    (OutboxTable.pending_delete hsurplus).trans (OutboxTable.pending_delete hexpired)
  refine ⟨⟨houtbox.delete hsurplus, ?_, ?_⟩, hpending, ?_⟩
  · rw [hpending]
    exact h.next
  · rw [hpending]
    exact h.capacity
  · intro row hrow
    rcases List.mem_append.mp hrow with hrow | hrow
    · obtain ⟨hmem, hdeleted⟩ := List.mem_filter.mp hrow
      exact h.outbox.sent row hmem (hexpired row hdeleted)
    · obtain ⟨hmem, hdeleted⟩ := List.mem_filter.mp hrow
      exact houtbox.sent row hmem (hsurplus row hdeleted)

/-- An acknowledgement moves the records of its batch to the delivered ones. -/
theorem Ordered.acknowledge {batch : AuditBatch} {deleted : List OutboxRow} (h : s.Ordered n)
    (hstart : batch.records <+: s.outbox.pending.map OutboxRow.record)
    (hack : s.acknowledge batch delivered = .ok (s', deleted)) :
    s'.Ordered (n + batch.records.length) ∧
      ∀ row ∈ deleted, 1 ≤ row.sequence ∧ row.sequence ≤ n + batch.records.length := by
  simp only [AuditStream.acknowledge, bind_eq_ok, toSql_eq_ok, pure_eq_ok, and_assoc, exists_eq_left] at hack
  obtain ⟨outbox, hloop, -, hprune⟩ := hack
  obtain ⟨hordered, hpending⟩ := markLoop_eq_ok h.outbox hstart hloop
  have hlength : batch.records.length ≤ s.outbox.pending.length := by
    simpa using hstart.length_le
  have hmarked : Ordered ⟨outbox, { s.state with lastFlushedNs := delivered }⟩ (n + batch.records.length) := by
    refine ⟨hordered, ?_, ?_⟩
    · rw [hpending, List.length_drop, h.next]
      omega
    · rw [hpending, List.length_drop]
      exact (Nat.sub_le _ _).trans h.capacity
  obtain ⟨hpruned, -, hdeleted⟩ := hmarked.pruneDelivered delivered
  rw [hprune] at hpruned hdeleted
  exact ⟨hpruned, hdeleted⟩

end AuditStream

/-! ## Exports -/

namespace AuditBatch

variable {b : AuditBatch} {start : Nat}

theorem firstSequence_eq (hne : b.records ≠ []) (h : b.sequences = List.range' start b.records.length) :
    b.firstSequence = start := by
  obtain ⟨records⟩ := b
  cases records with
  | nil => exact absurd rfl hne
  | cons r records =>
    simp only [sequences, List.map_cons, List.length_cons, List.range'_succ, List.cons.injEq] at h
    exact h.1

theorem lastSequence_eq (hne : b.records ≠ []) (h : b.sequences = List.range' start b.records.length) :
    b.lastSequence + 1 = start + b.records.length := by
  have hlast : b.sequences.getLast? = some (start + b.records.length - 1) := by
    rw [h, List.getLast?_range', if_neg (by simpa using hne)]
  have hpos := List.length_pos_iff.mpr hne
  rw [sequences, List.getLast?_map] at hlast
  rw [lastSequence, hlast]
  simp only [Option.getD_some]
  omega

end AuditBatch

def ExportPhase.batch? : ExportPhase → Option AuditBatch
  | .idle => none
  | .exporting batch | .failing batch | .acknowledging batch => some batch

namespace ExportSystem

variable {s : ExportSystem}
variable {stream : AuditStream} {batch : AuditBatch}

/-- A batch starts again where the one before it did, or directly after it. -/
def Follows (a b : AuditBatch) : Prop :=
  b.firstSequence = a.firstSequence ∨ b.firstSequence = a.lastSequence + 1

structure Ordered (s : ExportSystem) : Prop where
  stream : s.stream.Ordered s.delivered.length
  delivered : s.delivered = List.range' 1 s.delivered.length
  pruned : ∀ sequence ∈ s.pruned, sequence ∈ s.delivered
  phase : ∀ b ∈ s.phase.batch?, s.exported.getLast? = some b ∧
    b.records <+: s.stream.outbox.pending.map OutboxRow.record
  batches : ∀ b ∈ s.exported, b.records ≠ [] ∧ b.sequences = List.range' b.firstSequence b.records.length
  start : ∀ b ∈ s.exported.head?, b.firstSequence = 1
  follows : s.exported.IsChain Follows
  last : ∀ b ∈ s.exported.getLast?,
    s.delivered.length + 1 = b.firstSequence ∨ s.delivered.length + 1 = b.lastSequence + 1
  unsent : s.exported = [] → s.delivered = []

theorem ordered_initial : initial.Ordered :=
  ⟨⟨OutboxTable.ordered_empty, rfl, by decide⟩, rfl, nofun, nofun, nofun, nofun, .nil, nofun, fun _ => rfl⟩

theorem sequences_of_prefix {n : Nat} {b : AuditBatch} (h : stream.Ordered n)
    (hstart : b.records <+: stream.outbox.pending.map OutboxRow.record) :
    b.sequences = List.range' (n + 1) b.records.length := by
  have hlength : b.records.length ≤ stream.outbox.pending.length := by simpa using hstart.length_le
  have hsequences : stream.outbox.pending.map (·.sequence) =
      (stream.outbox.pending.map OutboxRow.record).map (·.sequence) := by
    rw [List.map_map]
    rfl
  rw [AuditBatch.sequences, List.prefix_iff_eq_take.mp hstart, List.map_take, ← hsequences, h.outbox.pending,
    AuditStream.take_range', List.length_take, List.length_map]

theorem Ordered.exporting (h : s.Ordered) (hne : batch.records ≠ [])
    (hstart : batch.records <+: s.stream.outbox.pending.map OutboxRow.record) :
    Ordered { s with phase := .exporting batch, exported := s.exported ++ [batch] } := by
  have hsequences := sequences_of_prefix h.stream hstart
  have hfirst := AuditBatch.firstSequence_eq hne hsequences
  refine ⟨h.stream, h.delivered, h.pruned, ?_, ?_, ?_, ?_, ?_, ?_⟩
  · intro b hb
    cases hb
    exact ⟨List.getLast?_concat, hstart⟩
  · intro b hb
    rcases List.mem_append.mp hb with hb | hb
    · exact h.batches b hb
    · rw [List.mem_singleton.mp hb, hfirst]
      exact ⟨hne, hsequences⟩
  · intro b hb
    cases hexported : s.exported with
    | nil =>
      simp only [hexported, List.nil_append, List.head?_cons, Option.mem_def, Option.some.injEq] at hb
      rw [← hb, hfirst, h.unsent hexported]
      rfl
    | cons b' rest =>
      refine h.start b ?_
      simpa [hexported] using hb
  · refine h.follows.append (List.isChain_singleton _) ?_
    intro a ha b hb
    simp only [List.head?_cons, Option.mem_def, Option.some.injEq] at hb
    rw [← hb, Follows, hfirst]
    exact h.last a ha
  · intro b hb
    simp only [List.getLast?_concat, Option.mem_def, Option.some.injEq] at hb
    rw [← hb]
    exact .inl hfirst.symm
  · intro hempty
    simp at hempty

theorem Ordered.load (h : s.Ordered) (maximumRecords : Nat) : (s.load maximumRecords).Ordered := by
  unfold ExportSystem.load
  split
  · exact h
  · rw [h.stream.loadBatch]
    dsimp only
    split
    · exact h
    · rename_i hne
      exact h.exporting hne ((List.take_prefix _ _).map _)

theorem Ordered.acknowledged {delivered : Nat} {deleted : List OutboxRow}
    (h : s.Ordered) (hphase : s.phase = .acknowledging batch)
    (hack : s.stream.acknowledge batch delivered = .ok (stream, deleted)) :
    Ordered { s with stream, phase := .idle, delivered := s.delivered ++ batch.sequences,
                     pruned := s.pruned ++ deleted.map (·.sequence) } := by
  obtain ⟨hlast, hstart⟩ := h.phase batch (by rw [hphase]; rfl)
  have hmem := List.mem_of_getLast? hlast
  obtain ⟨hne, -⟩ := h.batches batch hmem
  have hsequences := sequences_of_prefix h.stream hstart
  obtain ⟨hstream, hdeleted⟩ := h.stream.acknowledge hstart hack
  have hlength : (s.delivered ++ batch.sequences).length = s.delivered.length + batch.records.length := by
    rw [List.length_append, AuditBatch.sequences, List.length_map]
  have hdelivered : s.delivered ++ batch.sequences = List.range' 1 (s.delivered ++ batch.sequences).length := by
    rw [hlength, hsequences, ← List.range'_append_1, ← h.delivered, Nat.add_comm 1]
  refine ⟨?_, hdelivered, ?_, nofun, h.batches, h.start, h.follows, ?_, ?_⟩
  · dsimp only
    rw [hlength]
    exact hstream
  · intro sequence hpruned
    rcases List.mem_append.mp hpruned with hpruned | hpruned
    · exact List.mem_append_left _ (h.pruned sequence hpruned)
    · obtain ⟨row, hrow, rfl⟩ := List.mem_map.mp hpruned
      obtain ⟨hpos, hle⟩ := hdeleted row hrow
      dsimp only
      rw [hdelivered, List.mem_range'_1, hlength]
      omega
  · intro b hb
    obtain rfl : batch = b := Option.some.inj (hlast.symm.trans hb)
    right
    dsimp only
    rw [hlength, AuditBatch.lastSequence_eq hne hsequences]
    omega
  · intro hempty
    dsimp only at hempty
    rw [hempty] at hmem
    cases hmem

theorem Ordered.step (h : s.Ordered) (event : ExportEvent) : (s.step event).Ordered := by
  have hidle : Ordered { s with phase := .idle } :=
    ⟨h.stream, h.delivered, h.pruned, nofun, h.batches, h.start, h.follows, h.last, h.unsent⟩
  cases event with
  | append events occurredUnixNs =>
    obtain ⟨hstream, hstart⟩ := h.stream.record events occurredUnixNs
    refine ⟨hstream, h.delivered, h.pruned, ?_, h.batches, h.start, h.follows, h.last, h.unsent⟩
    intro b hb
    obtain ⟨hlast, hbatch⟩ := h.phase b hb
    exact ⟨hlast, hbatch.trans (hstart.map _)⟩
  | load maximumRecords =>
    cases hphase : s.phase with
    | idle => simpa only [ExportSystem.step, hphase] using h.load maximumRecords
    | exporting _ | failing _ | acknowledging _ => simpa only [ExportSystem.step, hphase] using h
  | returned ok =>
    cases hphase : s.phase with
    | exporting batch =>
      have hbatch := h.phase batch (by rw [hphase]; rfl)
      simp only [ExportSystem.step, hphase]
      refine ⟨h.stream, h.delivered, h.pruned, ?_, h.batches, h.start, h.follows, h.last, h.unsent⟩
      intro b hb
      obtain rfl : batch = b := by
        cases ok <;> exact Option.some.inj hb
      exact hbatch
    | idle | failing _ | acknowledging _ => simpa only [ExportSystem.step, hphase] using h
  | recordFailure =>
    cases hphase : s.phase with
    | failing batch =>
      simp only [ExportSystem.step, hphase]
      exact ⟨⟨h.stream.outbox, h.stream.next, h.stream.capacity⟩, h.delivered, h.pruned, nofun, h.batches, h.start,
        h.follows, h.last, h.unsent⟩
    | idle | exporting _ | acknowledging _ => simpa only [ExportSystem.step, hphase] using h
  | acknowledge delivered =>
    cases hphase : s.phase with
    | acknowledging batch =>
      simp only [ExportSystem.step, hphase]
      cases hack : s.stream.acknowledge batch delivered with
      | error e => exact hidle
      | ok result => exact h.acknowledged hphase hack
    | idle | exporting _ | failing _ => simpa only [ExportSystem.step, hphase] using h
  | crash => exact hidle

end ExportSystem

end Kvpack.Store
