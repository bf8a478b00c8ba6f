import Kvpack.Base.Run
import Kvpack.Handoff.Lemmas.V2

/-!
# What has been delivered

The calls the sink has received determine which segments it holds. While the receiver is receiving, its counters and
tables agree with these segments; once a seal has been accepted, the seal does.
-/

namespace Kvpack.Handoff

open Base Kvpack.Core

/-! ## Descriptors -/

namespace SegmentDescriptorV2

/-- The logical range of a descriptor, as the table of ranges holds it. -/
def range (d : SegmentDescriptorV2) : SegmentRangeKey × UInt64 × UInt64 :=
  (d.rangeKey, d.logicalStart, d.logicalStart + d.logicalCount)

/-- Two descriptors of one plane have ranges apart. -/
def Disjoint (a b : SegmentDescriptorV2) : Prop :=
  a.rangeKey = b.rangeKey → a.logicalStart.toNat + a.logicalCount.toNat ≤ b.logicalStart.toNat ∨
    b.logicalStart.toNat + b.logicalCount.toNat ≤ a.logicalStart.toNat

/-- The rules for a descriptor alone. -/
structure Valid (ids : List String) (d : SegmentDescriptorV2) : Prop where
  known : d.componentId ∈ ids
  count : d.logicalCount ≠ 0
  elements : d.elementsPerToken ≠ 0
  bytes : d.byteLen ≠ 0
  digest : validateHex "segment" d.sha256 = .ok ()
  geometry : ∃ width, elementWidth d.elementType = some width ∧
    d.byteLen.toNat = d.logicalCount.toNat * d.elementsPerToken.toNat * width.toNat
  fits : d.logicalStart.toNat + d.logicalCount.toNat < 2 ^ 64

end SegmentDescriptorV2

variable {ids : List String} {m : BeginManifestV2} {key : String} {state : ReceiverState}
  {tail mid after : List SinkCall}

theorem elementWidth_pos {type : String} {width : UInt64} (h : elementWidth type = some width) : 0 < width.toNat := by
  unfold elementWidth at h
  split at h
  · cases h
    decide
  · cases h
    decide
  · cases h

/-- Two checked products are the product, which the declared length bounds. -/
theorem checkedMul_bind_eq_some {a b c n : UInt64} (hc : 0 < c.toNat) :
    ((checkedMul a b).bind fun m => checkedMul m c) = some n ↔ n.toNat = a.toNat * b.toNat * c.toNat := by
  simp only [Option.bind_eq_some_iff, checkedMul_eq_some]
  constructor
  · rintro ⟨m, hm, hn⟩
    rw [hn, hm]
  · intro hn
    have hlt : a.toNat * b.toNat < 2 ^ 64 := by
      have hle : a.toNat * b.toNat ≤ n.toNat := hn ▸ Nat.le_mul_of_pos_right _ hc
      exact lt_of_le_of_lt hle n.toNat_lt
    refine ⟨a * b, toNat_mul_of_lt hlt, ?_⟩
    rw [hn, toNat_mul_of_lt hlt]

theorem validateSegmentDescriptor_eq_ok {d : SegmentDescriptorV2} {ranges ranges' : SegmentRanges} :
    validateSegmentDescriptor d ids ranges = .ok ranges' ↔ d.Valid ids ∧
      (∀ r ∈ ranges, r.1 = d.rangeKey → ¬ (d.logicalStart < r.2.2 ∧ r.2.1 < d.logicalStart + d.logicalCount)) ∧
      ranges' = ranges ++ [d.range] := by
  simp only [validateSegmentDescriptor, bind_eq_ok, exists_unit, rejectIf_eq_ok, okOr_eq_ok, pure_eq_ok, not_or,
    not_not, not_exists, not_and]
  constructor
  · rintro ⟨⟨hknown, hcount, helements, hbytes⟩, hdigest, width, hwidth, expected, hexpected, rfl, stop, hstop, hclear,
      rfl⟩
    have hgeometry := (checkedMul_bind_eq_some (elementWidth_pos hwidth)).mp hexpected
    have hsum := checkedAdd_eq_some.mp hstop
    have hfits : d.logicalStart.toNat + d.logicalCount.toNat < 2 ^ 64 := hsum ▸ stop.toNat_lt
    obtain rfl : stop = d.logicalStart + d.logicalCount := by
      rw [← UInt64.toNat_inj, hsum, toNat_add_of_lt hfits]
    exact ⟨⟨hknown, hcount, helements, hbytes, hdigest, ⟨width, hwidth, by simpa using hgeometry⟩, hfits⟩, hclear, rfl⟩
  · rintro ⟨⟨hknown, hcount, helements, hbytes, hdigest, ⟨width, hwidth, hgeometry⟩, hfits⟩, hclear, rfl⟩
    refine ⟨⟨hknown, hcount, helements, hbytes⟩, hdigest, width, hwidth, d.byteLen, ?_, rfl, _, checkedAdd_isSome hfits,
      hclear, rfl⟩
    rw [checkedMul_bind_eq_some (elementWidth_pos hwidth)]
    simpa using hgeometry

theorem disjoint_of_range {a b : SegmentDescriptorV2}
    (ha : a.logicalStart.toNat + a.logicalCount.toNat < 2 ^ 64)
    (hb : b.logicalStart.toNat + b.logicalCount.toNat < 2 ^ 64)
    (h : a.range.1 = b.rangeKey → ¬ (b.logicalStart < a.range.2.2 ∧ a.range.2.1 < b.logicalStart + b.logicalCount)) :
    a.Disjoint b := by
  intro hkey
  have hclear := h hkey
  simp only [SegmentDescriptorV2.range, UInt64.lt_iff_toNat_lt, toNat_add_of_lt ha, toNat_add_of_lt hb] at hclear
  omega

theorem checkSegments_eq_ok {index : Nat} {ranges : SegmentRanges}
    {segments : List SegmentDescriptorV2} (h : checkSegments ids index ranges segments = .ok ()) :
    (∀ d ∈ segments, d.Valid ids) ∧ segments.map (·.sequence.toNat) = List.range' index segments.length ∧
      segments.Pairwise SegmentDescriptorV2.Disjoint ∧
      ∀ d ∈ segments, ∀ r ∈ ranges, r.1 = d.rangeKey →
        ¬ (d.logicalStart < r.2.2 ∧ r.2.1 < d.logicalStart + d.logicalCount) := by
  induction segments generalizing index ranges with
  | nil => exact ⟨by simp, rfl, .nil, by simp⟩
  | cons d rest ih =>
    simp only [checkSegments, bind_eq_ok, exists_unit, rejectIf_eq_ok, not_not] at h
    obtain ⟨hsequence, ranges', hvalidate, hrest⟩ := h
    obtain ⟨hvalid, hclear, rfl⟩ := validateSegmentDescriptor_eq_ok.mp hvalidate
    obtain ⟨hall, hsequences, hpairwise, hranges⟩ := ih hrest
    refine ⟨?_, ?_, ?_, ?_⟩
    · simpa using ⟨hvalid, hall⟩
    · rw [List.map_cons, hsequence, hsequences, List.length_cons, List.range'_succ]
    · refine List.pairwise_cons.mpr ⟨?_, hpairwise⟩
      intro d' hd'
      exact disjoint_of_range hvalid.fits (hall d' hd').fits
        (hranges d' hd' d.range (List.mem_append_right _ List.mem_cons_self))
    · intro d' hd' r hr
      rcases List.mem_cons.mp hd' with rfl | hd'
      · exact hclear r hr
      · exact hranges d' hd' r (List.mem_append_left _ hr)

theorem BeginManifestV2.check_segments {now epoch : UInt64}
    (h : m.check now key epoch = .ok ()) :
    (m.deferredSegments = true → m.segments = []) ∧
      m.segments.map (·.sequence.toNat) = List.range' 0 m.segments.length ∧
      m.segments.Pairwise SegmentDescriptorV2.Disjoint := by
  simp only [BeginManifestV2.check, bind_eq_ok, exists_unit, rejectIf_eq_ok, not_or, not_and, not_not] at h
  obtain ⟨-, -, -, -, -, -, -, -, -, -, hmode, -, -, -, hsegments, -⟩ := h
  obtain ⟨-, hsequence, hdisjoint, -⟩ := checkSegments_eq_ok hsegments
  exact ⟨hmode.2.1, hsequence, hdisjoint⟩

theorem BeginManifestV2.check_target {now epoch : UInt64}
    (h : m.check now key epoch = .ok ()) : ∃ c ∈ m.components, c.required = true := by
  simp only [BeginManifestV2.check, bind_eq_ok, exists_unit, rejectIf_eq_ok, not_not] at h
  obtain ⟨-, -, -, -, -, -, -, -, -, -, -, -, -, ⟨c, hc, -, hneeded⟩, -, -⟩ := h
  exact ⟨c, hc, hneeded⟩

/-! ## The calls of a receiver -/

/-- The segments the sink has accepted. -/
def delivered (calls : List SinkCall) : List VerifiedSegmentV2 :=
  calls.filterMap fun call =>
    match call with
    | .segmentReady segment true => some segment
    | _ => none

/-- The calls before the seal: the begin and the segments, all accepted. -/
def opening (segments : List VerifiedSegmentV2) : List SinkCall := .begin_ :: segments.map (.segmentReady · true)

/-- The calls between the accepted segments and the abort. -/
inductive Interrupted : List SinkCall → Prop
  | receiving : Interrupted []
  | segment (segment) : Interrupted [.segmentReady segment false]
  | unprepared (manifest) : Interrupted [.prepareCommit manifest false]
  | prepared (manifest) : Interrupted [.prepareCommit manifest true]
  | uncommitted (manifest) : Interrupted [.prepareCommit manifest true, .commit false]

/-- The calls after the accepted segments, by the state they lead to. -/
def Closing : ReceiverState → List SinkCall → Prop
  | .receiving, tail => tail = []
  | .prepared, tail => ∃ manifest, tail = [.prepareCommit manifest true]
  | .committed, tail => ∃ manifest, tail = [.prepareCommit manifest true, .commit true]
  | .aborted, tail => ∃ middle, Interrupted middle ∧ tail = middle ++ [SinkCall.abort]

theorem delivered_opening (segments : List VerifiedSegmentV2) : delivered (opening segments) = segments := by
  induction segments with
  | nil => rfl
  | cons s segments ih => simp [delivered, opening]

theorem delivered_append (calls calls' : List SinkCall) :
    delivered (calls ++ calls') = delivered calls ++ delivered calls' := List.filterMap_append

/-! ## Where commits and aborts stand -/

def SinkCall.isCommit : SinkCall → Bool
  | .commit _ => true
  | _ => false

def SinkCall.isAbort : SinkCall → Bool
  | .abort => true
  | _ => false

theorem Closing.before_commit {ok : Bool}
    (h : Closing state tail) (htail : tail = mid ++ SinkCall.commit ok :: after) :
    (∃ manifest, mid = [.prepareCommit manifest true]) ∧ after = if ok then [] else [.abort] := by
  cases state with
  | receiving =>
    subst h
    simp at htail
  | prepared =>
    obtain ⟨manifest, rfl⟩ := h
    simp [List.cons_eq_append_iff] at htail
  | committed =>
    obtain ⟨manifest, rfl⟩ := h
    simp [List.cons_eq_append_iff] at htail
    obtain ⟨rfl, rfl, rfl⟩ := htail
    simp
  | aborted =>
    obtain ⟨middle, hmiddle, rfl⟩ := h
    cases hmiddle <;> simp [List.cons_eq_append_iff] at htail
    obtain ⟨rfl, rfl, rfl⟩ := htail
    simp

theorem Closing.around_abort
    (h : Closing state tail) (htail : tail = mid ++ SinkCall.abort :: after) :
    after = [] ∧ SinkCall.commit true ∉ mid := by
  cases state with
  | receiving =>
    subst h
    simp at htail
  | prepared | committed =>
    obtain ⟨manifest, rfl⟩ := h
    simp [List.cons_eq_append_iff] at htail
  | aborted =>
    obtain ⟨middle, hmiddle, rfl⟩ := h
    cases hmiddle <;> simp [List.cons_eq_append_iff] at htail <;> grind

theorem split_opening {segments : List VerifiedSegmentV2} {before : List SinkCall} {call : SinkCall}
    (hcall : call ∉ opening segments) (h : opening segments ++ tail = before ++ call :: after) :
    ∃ mid, before = opening segments ++ mid ∧ tail = mid ++ call :: after := by
  rcases List.append_eq_append_iff.mp h with ⟨mid, hbefore, htail⟩ | ⟨mid, hopening, hafter⟩
  · exact ⟨mid, hbefore, htail⟩
  · cases mid with
    | nil =>
      rw [List.append_nil] at hopening
      exact ⟨[], by simp [hopening], by simpa using hafter.symm⟩
    | cons c mid =>
      cases hafter
      exact absurd (by simp [hopening]) hcall

theorem Closing.commits_le (h : Closing state tail) :
    (tail.filter SinkCall.isCommit).length ≤ 1 ∧ (tail.filter SinkCall.isAbort).length ≤ 1 := by
  cases state with
  | receiving =>
    subst h
    simp
  | prepared | committed =>
    obtain ⟨manifest, rfl⟩ := h
    simp [List.filter, SinkCall.isCommit, SinkCall.isAbort]
  | aborted =>
    obtain ⟨middle, hmiddle, rfl⟩ := h
    cases hmiddle <;> simp [List.filter, SinkCall.isCommit, SinkCall.isAbort]

theorem filter_opening (segments : List VerifiedSegmentV2) :
    (opening segments).filter SinkCall.isCommit = [] ∧ (opening segments).filter SinkCall.isAbort = [] := by
  simp [opening, SinkCall.isCommit, SinkCall.isAbort]

namespace AtomicReceiverV2

variable {S : Type} {C : Crypto} {H : HandoffSinkV2 S} {r r' : AtomicReceiverV2 S}
variable {call : Call} {descriptor : SegmentDescriptorV2} {payload : Bytes} {ranges : SegmentRanges}
  {extra : List SinkCall} {strict : Prop} {sink : S} {begin_ : ValidatedBeginV2} {key : MacKey} {calls : List Call}

/-- The segments that the sink of a receiver holds. -/
def segments (r : AtomicReceiverV2 S) : List VerifiedSegmentV2 := delivered r.calls

/-- While a receiver is receiving, its fields agree with the segments delivered. -/
structure Agrees (r : AtomicReceiverV2 S) : Prop where
  next : r.next = r.segments.length
  total : r.total.toNat = (r.segments.map (·.payload.length)).sum
  seen : ∀ id, id ∈ r.seenComponents ↔ ∃ s ∈ r.segments, s.descriptor.componentId = id
  declared : r.begin_.manifest.deferredSegments = false →
    r.segments.map (·.descriptor) = r.begin_.manifest.segments.take r.segments.length
  ranges : r.begin_.manifest.deferredSegments = true → ∀ s ∈ r.segments,
    s.descriptor.Valid (r.begin_.manifest.components.map (·.id)) ∧ s.descriptor.range ∈ r.deferredRanges

/-- The running hashes have taken in exactly the segments delivered. -/
def Hashed (r : AtomicReceiverV2 S) : Prop :=
  r.descriptorHash = r.segments.flatMap (·.descriptor.toJson.canonical) ∧ r.payloadHash = r.segments.flatMap (·.payload)

/-- Nothing is missing from the segments a seal was accepted for. -/
def Complete (r : AtomicReceiverV2 S) : Prop :=
  (r.begin_.manifest.deferredSegments = false → r.segments.map (·.descriptor) = r.begin_.manifest.segments) ∧
    (r.begin_.manifest.deferredSegments = true →
      ∀ c ∈ r.begin_.manifest.components, c.required = true → ∃ s ∈ r.segments, s.descriptor.componentId = c.id)

/-- The seal is authenticated over the digests of the segments delivered. -/
structure Authentic (C : Crypto) (r : AtomicReceiverV2 S) (manifest : SealManifestV2) : Prop where
  tag : verifyHex C r.key manifest.core.toJson.canonical manifest.hmacSha256 = .ok ()
  transferId : manifest.core.transferId = r.begin_.manifest.transferId
  generation : manifest.core.generation = r.begin_.manifest.generation
  begin_ : manifest.core.beginSha256 = sha256Hex C r.begin_.canonical
  descriptors : manifest.core.descriptorSha256 = sha256Hex C (r.segments.flatMap (·.descriptor.toJson.canonical))
  payloads : manifest.core.payloadSha256 = sha256Hex C (r.segments.flatMap (·.payload))
  count : manifest.core.segmentCount.toNat = r.segments.length
  total : manifest.core.totalBytes.toNat = (r.segments.map (·.payload.length)).sum

/-- The invariant of a receiver; `strict` holds until a segment overflows the total. -/
structure Sound (C : Crypto) (strict : Prop) (r : AtomicReceiverV2 S) : Prop where
  shape : ∃ tail, r.calls = opening r.segments ++ tail ∧ Closing r.state tail
  verified : ∀ s ∈ r.segments, Matches C s.descriptor s.payload
  sequence : r.segments.map (·.descriptor.sequence.toNat) = List.range r.segments.length
  disjoint : (r.segments.map (·.descriptor)).Pairwise SegmentDescriptorV2.Disjoint
  agrees : r.state = .receiving → r.Agrees
  hashed : strict → r.state = .receiving → r.Hashed
  complete : ∀ manifest, SinkCall.prepareCommit manifest true ∈ r.calls → r.Complete
  authentic : strict → ∀ manifest, SinkCall.prepareCommit manifest true ∈ r.calls → r.Authentic C manifest

/-- The call brings a segment with which the total no longer fits 64 bits. -/
def Overflows (C : Crypto) (r : AtomicReceiverV2 S) (call : Call) : Prop :=
  ∃ descriptor payload ranges, r.state = .receiving ∧ Announced r call descriptor payload ranges ∧
    Matches C descriptor payload ∧ 2 ^ 64 ≤ r.total.toNat + descriptor.byteLen.toNat

/-! ## Steps -/

theorem Announced.deferredRanges_subset (h : Announced r call descriptor payload ranges) :
    ∀ x ∈ r.deferredRanges, x ∈ ranges := by
  intro x hx
  cases h with
  | declared => exact hx
  | deferred _ _ hvalid =>
    obtain ⟨-, -, rfl⟩ := validateSegmentDescriptor_eq_ok.mp hvalid
    exact List.mem_append_left _ hx

theorem checkedAdd_eq_none {a b : UInt64} (h : checkedAdd a b = none) : 2 ^ 64 ≤ a.toNat + b.toNat := by
  unfold checkedAdd at h
  split at h
  · cases h
  · omega

theorem segments_of_append (hcalls : r'.calls = r.calls ++ extra) (hextra : delivered extra = []) :
    r'.segments = r.segments := by
  rw [segments, hcalls, delivered_append, hextra, List.append_nil, segments]

theorem Complete.congr (h : r.Complete) (hbegin : r'.begin_ = r.begin_) (hsegments : r'.segments = r.segments) :
    r'.Complete := by
  rw [Complete, hbegin, hsegments]
  exact h

theorem Authentic.congr {manifest : SealManifestV2} (h : r.Authentic C manifest) (hbegin : r'.begin_ = r.begin_)
    (hkey : r'.key = r.key) (hsegments : r'.segments = r.segments) : r'.Authentic C manifest := by
  obtain ⟨h1, h2, h3, h4, h5, h6, h7, h8⟩ := h
  constructor <;> simp only [hbegin, hkey, hsegments] <;> assumption

/-- The calls with which an open receiver can leave for good, before the abort. -/
inductive Leaves (r : AtomicReceiverV2 S) : List SinkCall → Prop
  | quietly : Leaves r []
  | segment {segment} : r.state = .receiving → Leaves r [.segmentReady segment false]
  | unprepared {manifest} : r.state = .receiving → Leaves r [.prepareCommit manifest false]
  | uncommitted : r.state = .prepared → Leaves r [.commit false]

theorem Leaves.delivered (h : Leaves r extra) : delivered extra = [] := by
  cases h <;> rfl

theorem Leaves.not_prepared (h : Leaves r extra) (manifest : SealManifestV2) :
    SinkCall.prepareCommit manifest true ∉ extra := by
  cases h <;> simp

theorem Leaves.interrupted {extra tail : List SinkCall} (h : Leaves r extra)
    (hopen : r.state = .receiving ∨ r.state = .prepared) (htail : Closing r.state tail) :
    Interrupted (tail ++ extra) := by
  rcases hopen with hstate | hstate
  · rw [hstate] at htail
    obtain rfl : tail = [] := htail
    cases h with
    | quietly => exact .receiving
    | segment => exact .segment _
    | unprepared => exact .unprepared _
    | uncommitted hprepared =>
      rw [hstate] at hprepared
      cases hprepared
  · rw [hstate] at htail
    obtain ⟨manifest, rfl⟩ := htail
    cases h with
    | quietly => exact .prepared _
    | segment hreceiving =>
      rw [hstate] at hreceiving
      cases hreceiving
    | unprepared hreceiving =>
      rw [hstate] at hreceiving
      cases hreceiving
    | uncommitted => exact .uncommitted _

theorem close_fields (hopen : r.state = .receiving ∨ r.state = .prepared) :
    (close H r).begin_ = r.begin_ ∧ (close H r).key = r.key ∧ (close H r).state = .aborted ∧
      (close H r).calls = r.calls ++ [SinkCall.abort] := by
  rw [close_of_open hopen]
  exact ⟨rfl, rfl, rfl, rfl⟩

/-- A receiver that is no longer receiving need only say which seal it has accepted. -/
theorem Sound.leave (h : Sound C strict r) (hbegin : r'.begin_ = r.begin_) (hkey : r'.key = r.key)
    (hsegments : r'.segments = r.segments) (hstate : r'.state ≠ .receiving)
    (hshape : ∃ tail, r'.calls = opening r.segments ++ tail ∧ Closing r'.state tail)
    (hsealed : ∀ manifest, SinkCall.prepareCommit manifest true ∈ r'.calls →
      r.Complete ∧ (strict → r.Authentic C manifest)) : Sound C strict r' where
  shape := hsegments ▸ hshape
  verified := hsegments ▸ h.verified
  sequence := hsegments ▸ h.sequence
  disjoint := hsegments ▸ h.disjoint
  agrees hreceiving := absurd hreceiving hstate
  hashed _ hreceiving := absurd hreceiving hstate
  complete manifest hmem := (hsealed manifest hmem).1.congr hbegin hsegments
  authentic hstrict manifest hmem := ((hsealed manifest hmem).2 hstrict).congr hbegin hkey hsegments

/-- Closing an open receiver keeps the invariant, whatever its counters. -/
theorem Sound.close (h : Sound C strict r) (hopen : r.state = .receiving ∨ r.state = .prepared)
    (hleaves : Leaves r extra) {r₁ : AtomicReceiverV2 S} (hbegin : r₁.begin_ = r.begin_)
    (hkey : r₁.key = r.key) (hstate : r₁.state = r.state) (hcalls : r₁.calls = r.calls ++ extra) :
    Sound C strict (close H r₁) := by
  have hopen₁ : r₁.state = .receiving ∨ r₁.state = .prepared := by rwa [hstate]
  obtain ⟨hbegin', hkey', hstate', hcalls'⟩ := close_fields (H := H) hopen₁
  rw [hbegin] at hbegin'
  rw [hkey] at hkey'
  rw [hcalls, List.append_assoc] at hcalls'
  have hextra : Kvpack.Handoff.delivered (extra ++ [SinkCall.abort]) = [] := by
    rw [delivered_append, hleaves.delivered]
    rfl
  obtain ⟨tail, hshape, hclosing⟩ := h.shape
  refine h.leave hbegin' hkey' (segments_of_append hcalls' hextra) (by simp [hstate'])
    ⟨tail ++ extra ++ [SinkCall.abort], ?_, ?_⟩ fun manifest hmem => ?_
  · rw [hcalls', hshape]
    simp only [List.append_assoc]
  · rw [hstate']
    exact ⟨tail ++ extra, hleaves.interrupted hopen hclosing, rfl⟩
  · rw [hcalls'] at hmem
    have hold : SinkCall.prepareCommit manifest true ∈ r.calls := by
      simpa [hleaves.not_prepared manifest] using hmem
    exact ⟨h.complete manifest hold, fun hstrict => h.authentic hstrict manifest hold⟩

/-- An announced descriptor comes next and is apart from what was delivered. -/
theorem Announced.follows
    (h : Announced r call descriptor payload ranges) (hagrees : r.Agrees) :
    descriptor.sequence.toNat = r.segments.length ∧
      (∀ s ∈ r.segments, s.descriptor.Disjoint descriptor) ∧
      (r.begin_.manifest.deferredSegments = false →
        r.begin_.manifest.segments[r.segments.length]? = some descriptor) ∧
      (r.begin_.manifest.deferredSegments = true →
        descriptor.Valid (r.begin_.manifest.components.map (·.id)) ∧ descriptor.range ∈ ranges) := by
  obtain ⟨now, key, epoch, hcheck⟩ := r.begin_.accepted
  obtain ⟨hmode, hsequence, hdisjoint⟩ := BeginManifestV2.check_segments hcheck
  cases h with
  | @declared sequence payload descriptor hget hcalled =>
    rw [hagrees.next] at hget
    have hdeclared : r.begin_.manifest.deferredSegments = false := by
      by_contra hdeferred
      rw [hmode (Bool.not_eq_false _ |>.mp hdeferred)] at hget
      cases hget
    obtain ⟨hlt, hdescriptor⟩ := List.getElem?_eq_some_iff.mp hget
    refine ⟨?_, ?_, fun _ => hget, ?_⟩
    · have hnumber := congrArg (·[r.segments.length]?) hsequence
      simpa [hget, List.getElem?_range' hlt] using hnumber
    · intro s hs
      have hmem : s.descriptor ∈ r.begin_.manifest.segments.take r.segments.length := by
        rw [← hagrees.declared hdeclared]
        exact List.mem_map_of_mem hs
      obtain ⟨k, hk, hkeq⟩ := List.mem_take_iff_getElem.mp hmem
      rw [← hkeq, ← hdescriptor]
      exact List.pairwise_iff_getElem.mp hdisjoint _ _ _ _ (lt_of_lt_of_le hk (Nat.min_le_left _ _))
    · intro hdeferred
      rw [hdeclared] at hdeferred
      cases hdeferred
  | @deferred descriptor payload ranges hdeferred hnext hvalidate =>
    obtain ⟨hvalid, hclear, rfl⟩ := validateSegmentDescriptor_eq_ok.mp hvalidate
    refine ⟨hnext.trans hagrees.next, ?_, ?_, ?_⟩
    · intro s hs
      obtain ⟨hvalid', hrange⟩ := hagrees.ranges hdeferred s hs
      exact disjoint_of_range hvalid'.fits hvalid.fits (hclear _ hrange)
    · intro hdeclared
      rw [hdeferred] at hdeclared
      cases hdeclared
    · exact fun _ => ⟨hvalid, List.mem_append_right _ List.mem_cons_self⟩

theorem segments_accepted (descriptor : SegmentDescriptorV2) (payload : Bytes) (total : UInt64) (sink : S) :
    (accepted r descriptor payload total sink).segments = r.segments ++ [⟨descriptor, payload⟩] :=
  delivered_append _ _

theorem Agrees.accepted
    {total : UInt64} (hagrees : r.Agrees) (h : Announced r call descriptor payload ranges)
    (hmatch : Matches C descriptor payload) (htotal : checkedAdd r.total descriptor.byteLen = some total) :
    (accepted { r with deferredRanges := ranges } descriptor payload total sink).Agrees := by
  have hsegments : (AtomicReceiverV2.accepted { r with deferredRanges := ranges } descriptor payload total
      sink).segments = r.segments ++ [⟨descriptor, payload⟩] := segments_accepted descriptor payload total sink
  obtain ⟨-, -, hdeclared, hdeferred⟩ := h.follows hagrees
  constructor
  · rw [hsegments, List.length_append]
    exact congrArg (· + 1) hagrees.next
  · rw [hsegments, List.map_append, List.sum_append, ← hagrees.total]
    have hsum := checkedAdd_eq_some.mp htotal
    rw [← hmatch.1] at hsum
    exact hsum
  · intro id
    rw [hsegments]
    simp only [AtomicReceiverV2.accepted, List.mem_insert_iff, hagrees.seen id, List.mem_append, List.mem_singleton,
      or_and_right, exists_or, exists_eq_left]
    rw [or_comm, eq_comm]
  · intro hmode
    have hnext := hdeclared hmode
    rw [hsegments, List.map_append, hagrees.declared hmode, List.length_append, List.length_singleton,
      List.take_add_one]
    simp only [AtomicReceiverV2.accepted, handed, taken, hnext]
    rfl
  · intro hmode s hs
    rw [hsegments] at hs
    rcases List.mem_append.mp hs with hs | hs
    · obtain ⟨hvalid, hrange⟩ := hagrees.ranges hmode s hs
      exact ⟨hvalid, h.deferredRanges_subset _ hrange⟩
    · rw [List.mem_singleton.mp hs]
      exact hdeferred hmode

theorem Sound.accepted {total : UInt64} (h : Sound C strict r) (hstate : r.state = .receiving)
    (hannounced : Announced r call descriptor payload ranges) (hmatch : Matches C descriptor payload)
    (htotal : checkedAdd r.total descriptor.byteLen = some total) :
    Sound C strict (accepted { r with deferredRanges := ranges } descriptor payload total sink) := by
  have hsegments : (AtomicReceiverV2.accepted { r with deferredRanges := ranges } descriptor payload total
      sink).segments = r.segments ++ [⟨descriptor, payload⟩] := segments_accepted descriptor payload total sink
  have hagrees := h.agrees hstate
  obtain ⟨hsequence, hdisjoint, -, -⟩ := hannounced.follows hagrees
  obtain ⟨tail, hshape, hclosing⟩ := h.shape
  rw [hstate] at hclosing
  obtain rfl : tail = [] := hclosing
  have hcalls : (AtomicReceiverV2.accepted { r with deferredRanges := ranges } descriptor payload total sink).calls =
      opening (r.segments ++ [⟨descriptor, payload⟩]) := by
    change r.calls ++ [SinkCall.segmentReady ⟨descriptor, payload⟩ true] = _
    rw [hshape]
    simp [opening]
  have hunsealed : ∀ manifest, SinkCall.prepareCommit manifest true ∉
      (AtomicReceiverV2.accepted { r with deferredRanges := ranges } descriptor payload total sink).calls := by
    intro manifest
    rw [hcalls]
    simp [opening]
  refine ⟨⟨[], ?_, ?_⟩, ?_, ?_, ?_, ?_, ?_, ?_, ?_⟩
  · rw [hsegments, List.append_nil, hcalls]
  · change Closing r.state []
    rw [hstate]
    rfl
  · intro s hs
    rw [hsegments] at hs
    rcases List.mem_append.mp hs with hs | hs
    · exact h.verified s hs
    · rw [List.mem_singleton.mp hs]
      exact hmatch
  · rw [hsegments, List.map_append, h.sequence, List.length_append, List.length_singleton, List.range_succ]
    simp [hsequence]
  · rw [hsegments, List.map_append, List.pairwise_append]
    refine ⟨h.disjoint, List.pairwise_singleton _ _, ?_⟩
    intro a ha b hb
    obtain ⟨s, hs, rfl⟩ := List.mem_map.mp ha
    obtain rfl : b = descriptor := by simpa using hb
    exact hdisjoint s hs
  · exact fun _ => hagrees.accepted hannounced hmatch htotal
  · intro hstrict _
    obtain ⟨hdescriptors, hpayloads⟩ := h.hashed hstrict hstate
    rw [Hashed, hsegments]
    simp [AtomicReceiverV2.accepted, handed, taken, hdescriptors, hpayloads]
  · exact fun manifest hmem => absurd hmem (hunsealed manifest)
  · exact fun _ manifest hmem => absurd hmem (hunsealed manifest)

theorem Sealable.complete {core : SealCoreV2} (hagrees : r.Agrees) (h : Sealable C r core) : r.Complete := by
  obtain ⟨-, hall, hrequired, -⟩ := h
  refine ⟨?_, ?_⟩
  · intro hmode
    have hnext : r.next = r.begin_.manifest.segments.length := by
      simpa [allSegments, hmode] using hall
    rw [hagrees.declared hmode, ← hagrees.next, hnext, List.take_length]
  · intro hmode c hc hneeded
    exact (hagrees.seen c.id).mp (hrequired hmode c hc hneeded)

theorem Sealable.authentic {manifest : SealManifestV2} (hagrees : r.Agrees) (hhashed : r.Hashed)
    (h : Sealable C r manifest.core)
    (hverify : verifyHex C r.key manifest.core.toJson.canonical manifest.hmacSha256 = .ok ()) :
    r.Authentic C manifest := by
  obtain ⟨-, -, -, hmatch⟩ := h
  simp only [sealMismatch, not_or, not_not] at hmatch
  obtain ⟨htransfer, hgeneration, hcount, htotal, hbegin, hdescriptors, hpayloads⟩ := hmatch
  rw [hhashed.1] at hdescriptors
  rw [hhashed.2] at hpayloads
  exact ⟨hverify, htransfer, hgeneration, hbegin, hdescriptors, hpayloads, hcount.trans hagrees.next,
    (congrArg UInt64.toNat htotal).trans hagrees.total⟩

theorem Sound.prepared {manifest : SealManifestV2} (h : Sound C strict r)
    (hsealable : Sealable C r manifest.core)
    (hverify : verifyHex C r.key manifest.core.toJson.canonical manifest.hmacSha256 = .ok ()) :
    Sound C strict { r with sink, state := .prepared, calls := r.calls ++ [SinkCall.prepareCommit manifest true] } := by
  have hstate := hsealable.1
  have hagrees := h.agrees hstate
  obtain ⟨tail, hshape, hclosing⟩ := h.shape
  rw [hstate] at hclosing
  obtain rfl : tail = [] := hclosing
  rw [List.append_nil] at hshape
  refine h.leave rfl rfl (segments_of_append rfl rfl) nofun ⟨[.prepareCommit manifest true], ?_, manifest, rfl⟩
    fun m hm => ⟨hsealable.complete hagrees, fun hstrict => ?_⟩
  · rw [← hshape]
  · obtain rfl : m = manifest := by simpa [hshape, opening] using hm
    exact hsealable.authentic hagrees (h.hashed hstrict hstate) hverify

theorem Sound.committed (h : Sound C strict r) (hstate : r.state = .prepared) :
    Sound C strict { r with sink, state := .committed, calls := r.calls ++ [SinkCall.commit true] } := by
  obtain ⟨tail, hshape, hclosing⟩ := h.shape
  rw [hstate] at hclosing
  obtain ⟨manifest, rfl⟩ := hclosing
  refine h.leave rfl rfl (segments_of_append rfl rfl) nofun
    ⟨[.prepareCommit manifest true, .commit true], ?_, manifest, rfl⟩ fun m hm => ?_
  · change r.calls ++ [SinkCall.commit true] = _
    rw [hshape]
    simp
  · have hold : SinkCall.prepareCommit m true ∈ r.calls := by simpa using hm
    exact ⟨h.complete m hold, fun hstrict => h.authentic hstrict m hold⟩

/-- Only the hashes and the table of ranges change when the total overflows. -/
theorem Sound.overflowed (h : Sound C strict r) (hnot : ¬ strict)
    (hannounced : Announced r call descriptor payload ranges) :
    Sound C strict (taken { r with deferredRanges := ranges } descriptor payload) := by
  refine ⟨h.shape, h.verified, h.sequence, h.disjoint, ?_, fun hstrict => absurd hstrict hnot, h.complete,
    fun hstrict => absurd hstrict hnot⟩
  intro hstate
  obtain ⟨hnext, htotal, hseen, hdeclared, hranges⟩ := h.agrees hstate
  refine ⟨hnext, htotal, hseen, hdeclared, ?_⟩
  intro hmode s hs
  obtain ⟨hvalid, hrange⟩ := hranges hmode s hs
  exact ⟨hvalid, hannounced.deferredRanges_subset _ hrange⟩

theorem Sound.step (h : Sound C strict r) (call : Call) (hoverflow : strict → ¬ Overflows C r call) :
    Sound C strict (step C H r call) := by
  refine step_induct fun result r' hperformed => ?_
  cases hperformed with
  | settled _ => exact h
  | closed hopen => exact h.close hopen .quietly rfl rfl rfl (List.append_nil _).symm
  | overflowed hstate hannounced hmatch htotal =>
    refine h.overflowed ?_ hannounced
    intro hstrict
    exact hoverflow hstrict ⟨_, _, _, hstate, hannounced, hmatch, checkedAdd_eq_none htotal⟩
  | accepted hstate hannounced hmatch htotal hsink => exact h.accepted hstate hannounced hmatch htotal
  | rejected hstate hannounced hmatch htotal => exact h.close (.inl hstate) (.segment hstate) rfl rfl rfl rfl
  | unsealed _ _ => exact h
  | prepared hsealable hverify => exact h.prepared hsealable hverify
  | unprepared hsealable => exact h.close (.inl hsealable.1) (.unprepared hsealable.1) rfl rfl rfl rfl
  | committed hstate => exact h.committed hstate
  | uncommitted hstate => exact h.close (.inr hstate) (.uncommitted hstate) rfl rfl rfl rfl

theorem sound_start
    (h : start H begin_ key sink = .ok r) : Sound C strict r := by
  unfold start at h
  split at h
  · cases h
  · cases h
    refine ⟨⟨[], rfl, rfl⟩, ?_, rfl, .nil, ?_, fun _ _ => ⟨rfl, rfl⟩, ?_, ?_⟩
    · simp [segments, delivered]
    · intro _
      exact ⟨rfl, rfl, by simp [segments, delivered], fun _ => by simp [segments, delivered],
        by simp [segments, delivered]⟩
    · simp
    · simp

theorem step_begin (r : AtomicReceiverV2 S) (call : Call) :
    (step C H r call).begin_ = r.begin_ ∧ (step C H r call).key = r.key := by
  refine step_induct (P := fun r' => r'.begin_ = r.begin_ ∧ r'.key = r.key) fun result r' hperformed => ?_
  have hclose : ∀ r₁ : AtomicReceiverV2 S, (close H r₁).begin_ = r₁.begin_ ∧ (close H r₁).key = r₁.key := by
    intro r₁
    rcases open_or_settled r₁ with hopen | hsettled
    · exact ⟨(close_fields hopen).1, (close_fields hopen).2.1⟩
    · rw [close_of_settled hsettled]
      exact ⟨rfl, rfl⟩
  cases hperformed with
  | settled _ => exact ⟨rfl, rfl⟩
  | closed _ => exact hclose _
  | overflowed _ _ _ _ | accepted _ _ _ _ _ => exact ⟨rfl, rfl⟩
  | rejected _ _ _ _ => exact hclose _
  | unsealed _ _ | prepared _ _ => exact ⟨rfl, rfl⟩
  | unprepared _ => exact hclose _
  | committed _ => exact ⟨rfl, rfl⟩
  | uncommitted _ => exact hclose _

theorem begin_run
    (h : start H begin_ key sink = .ok r) :
    (run (step C H) r calls).begin_ = begin_ ∧ (run (step C H) r calls).key = key := by
  refine run_invariant (P := fun r : AtomicReceiverV2 S => r.begin_ = begin_ ∧ r.key = key) ?_ ?_
  · rintro r call ⟨hbegin, hkey⟩
    obtain ⟨hbegin', hkey'⟩ := step_begin (C := C) (H := H) r call
    exact ⟨hbegin'.trans hbegin, hkey'.trans hkey⟩
  · unfold start at h
    split at h
    · cases h
    · cases h
      exact ⟨rfl, rfl⟩

theorem sound_run
    (h : start H begin_ key sink = .ok r) : Sound C False (run (step C H) r calls) :=
  run_invariant (fun _ call hs => hs.step call False.elim) (sound_start h)

theorem sound_run_strict
    (h : start H begin_ key sink = .ok r)
    (hcalls : Along (step C H) (fun r call => ¬ Overflows C r call) r calls) :
    Sound C True (run (step C H) r calls) :=
  hcalls.invariant (fun _ call hok hs => hs.step call fun _ => hok) (sound_start h)

end AtomicReceiverV2

end Kvpack.Handoff
