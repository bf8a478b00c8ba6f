import Kvpack.Handoff.Lemmas.Delivery

/-!
# Runs of an honest producer

A producer that keeps the rules for segments and signs what it has sent. Signer and receiver go through the segments in
loops of their own; both come to the same bytes, counts and totals.
-/

namespace Kvpack.Handoff

open Base Kvpack.Core AtomicReceiverV2

variable {segments : List VerifiedSegmentV2}
variable {C : Crypto} {index : Nat} {b : ValidatedBeginV2}

/-- None of the methods of the sink fails. -/
structure HandoffSinkV2.Accepting {S : Type} (H : HandoffSinkV2 S) : Prop where
  begin_ : ∀ b s, ∃ s', H.begin_ b s = (.ok (), s')
  segmentReady : ∀ segment s, ∃ s', H.segmentReady segment s = (.ok (), s')
  prepareCommit : ∀ manifest s, ∃ s', H.prepareCommit manifest s = (.ok (), s')
  commit : ∀ s, ∃ generation s', H.commit s = (.ok generation, s')

/-- The rules for the segments of a transfer. -/
structure Honest (C : Crypto) (b : ValidatedBeginV2) (segments : List VerifiedSegmentV2) : Prop where
  sequence : segments.map (·.descriptor.sequence.toNat) = List.range segments.length
  matching : ∀ s ∈ segments, Matches C s.descriptor s.payload
  declared : b.manifest.deferredSegments = false → segments.map (·.descriptor) = b.manifest.segments
  valid : b.manifest.deferredSegments = true →
    ∀ s ∈ segments, s.descriptor.Valid (b.manifest.components.map (·.id))
  disjoint : b.manifest.deferredSegments = true →
    (segments.map (·.descriptor)).Pairwise SegmentDescriptorV2.Disjoint
  required : b.manifest.deferredSegments = true →
    ∀ c ∈ b.manifest.components, c.required = true → ∃ s ∈ segments, s.descriptor.componentId = c.id

def deliver (b : ValidatedBeginV2) (s : VerifiedSegmentV2) : Call :=
  if b.manifest.deferredSegments then .segmentReadyDeferred s.descriptor s.payload
  else .segmentReady s.descriptor.sequence s.payload

/-! ## The signer -/

theorem signSegments_eq_ok {descriptors payloads descriptors' payloads' : Bytes}
    {total total' : UInt64}
    (h : signSegments C index descriptors payloads total (segments.map fun s => (s.descriptor, s.payload)) =
      .ok (descriptors', payloads', total')) :
    descriptors' = descriptors ++ segments.flatMap (·.descriptor.toJson.canonical) ∧
      payloads' = payloads ++ segments.flatMap (·.payload) ∧
      total'.toNat = total.toNat + (segments.map (·.payload.length)).sum := by
  induction segments generalizing index descriptors payloads total with
  | nil =>
    cases h
    simp
  | cons s segments ih =>
    simp only [List.map_cons, signSegments, bind_eq_ok, exists_unit, rejectIf_eq_ok, okOr_eq_ok, not_or,
      not_not] at h
    obtain ⟨⟨-, hlength, -⟩, sum, hsum, hrest⟩ := h
    obtain ⟨hdescriptors, hpayloads, htotal⟩ := ih hrest
    refine ⟨?_, ?_, ?_⟩
    · rw [hdescriptors, List.flatMap_cons, List.append_assoc]
    · rw [hpayloads, List.flatMap_cons, List.append_assoc]
    · rw [htotal, checkedAdd_eq_some.mp hsum, hlength, List.map_cons, List.sum_cons, Nat.add_assoc]

theorem sign_eq_ok {key : MacKey}
    {manifest : SealManifestV2}
    (h : SealManifestV2.sign C b (segments.map (·.descriptor)) (segments.map (·.payload)) key = .ok manifest) :
    manifest.core.transferId = b.manifest.transferId ∧ manifest.core.generation = b.manifest.generation ∧
      manifest.core.beginSha256 = sha256Hex C b.canonical ∧
      manifest.core.descriptorSha256 = sha256Hex C (segments.flatMap (·.descriptor.toJson.canonical)) ∧
      manifest.core.payloadSha256 = sha256Hex C (segments.flatMap (·.payload)) ∧
      manifest.core.segmentCount.toNat = segments.length ∧
      manifest.core.totalBytes.toNat = (segments.map (·.payload.length)).sum ∧
      manifest.hmacSha256 = tagHex C key manifest.core.toJson.canonical := by
  have hzip : (segments.map (·.descriptor)).zip (segments.map (·.payload)) =
      segments.map fun s => (s.descriptor, s.payload) := by rw [List.zip_map']
  simp only [SealManifestV2.sign, hzip, bind_eq_ok, exists_unit, okOr_eq_ok, pure_eq_ok, Prod.exists] at h
  obtain ⟨-, descriptors, payloads, total, hsigned, count, hcount, rfl⟩ := h
  obtain ⟨rfl, rfl, htotal⟩ := signSegments_eq_ok hsigned
  refine ⟨rfl, rfl, rfl, rfl, rfl, ?_, ?_, rfl⟩
  · simpa using u32TryFrom_eq_some.mp hcount
  · simpa using htotal

theorem exists_signSegments {descriptors payloads : Bytes} {total : UInt64}
    (hsequence : segments.map (·.descriptor.sequence.toNat) = List.range' index segments.length)
    (hmatching : ∀ s ∈ segments, Matches C s.descriptor s.payload)
    (hfits : total.toNat + (segments.map (·.payload.length)).sum < 2 ^ 64) :
    ∃ signed, signSegments C index descriptors payloads total (segments.map fun s => (s.descriptor, s.payload)) =
      .ok signed := by
  induction segments generalizing index descriptors payloads total with
  | nil => exact ⟨_, rfl⟩
  | cons s segments ih =>
    rw [List.map_cons, List.length_cons, List.range'_succ, List.cons.injEq] at hsequence
    obtain ⟨hlength, hdigest⟩ := hmatching s List.mem_cons_self
    rw [List.map_cons, List.sum_cons, hlength] at hfits
    have hsum : total.toNat + s.descriptor.byteLen.toNat < 2 ^ 64 := by omega
    obtain ⟨signed, hsigned⟩ := ih hsequence.2 (fun s' hs' => hmatching s' (List.mem_cons_of_mem _ hs'))
      (by rw [toNat_add_of_lt hsum]; omega)
    refine ⟨signed, ?_⟩
    rw [List.map_cons, signSegments, rejectIf_of_not (by simp [hsequence.1, hlength, hdigest]),
      checkedAdd_isSome hsum]
    exact hsigned

theorem exists_sign (h : Honest C b segments)
    (hcount : segments.length < 2 ^ 32) (hfits : (segments.map (·.payload.length)).sum < 2 ^ 64) (key : MacKey) :
    ∃ manifest,
      SealManifestV2.sign C b (segments.map (·.descriptor)) (segments.map (·.payload)) key = .ok manifest := by
  have hzip : (segments.map (·.descriptor)).zip (segments.map (·.payload)) =
      segments.map fun s => (s.descriptor, s.payload) := by rw [List.zip_map']
  have hsigned : ∃ signed, signSegments C 0 [] [] 0 (segments.map fun s => (s.descriptor, s.payload)) = .ok signed :=
    exists_signSegments (h.sequence.trans List.range_eq_range') h.matching (by simpa using hfits)
  obtain ⟨⟨descriptors, payloads, total⟩, hsigned⟩ := hsigned
  have hcounted : u32TryFrom segments.length = some (UInt32.ofNat segments.length) := if_pos hcount
  cases hresult : SealManifestV2.sign C b (segments.map (·.descriptor)) (segments.map (·.payload)) key with
  | ok manifest => exact ⟨manifest, rfl⟩
  | error e => simp [SealManifestV2.sign, hzip, hsigned, hcounted, rejectIf_of_not] at hresult

/-! ## The receiver -/

section Run

variable {S : Type} {C : Crypto} {H : HandoffSinkV2 S} {r : AtomicReceiverV2 S} {b : ValidatedBeginV2} {key : MacKey}
variable {segments : List VerifiedSegmentV2} {manifest : SealManifestV2}

/-- The receiver has taken these segments of the transfer and waits for more. -/
structure Ready (C : Crypto) (b : ValidatedBeginV2) (key : MacKey) (r : AtomicReceiverV2 S)
    (sent : List VerifiedSegmentV2) : Prop where
  sound : Sound C True r
  begin_ : r.begin_ = b
  key_eq : r.key = key
  state : r.state = .receiving
  segments : r.segments = sent
  ranges : b.manifest.deferredSegments = true → r.deferredRanges = sent.map (·.descriptor.range)

theorem exists_ready (haccepting : H.Accepting) (b : ValidatedBeginV2) (key : MacKey) (sink : S) :
    ∃ r, start H b key sink = .ok r ∧ Ready C b key r [] := by
  obtain ⟨sink', hbegin⟩ := haccepting.begin_ b sink
  cases hstart : start H b key sink with
  | error e =>
    simp [start, hbegin] at hstart
  | ok r =>
    have hsound : Sound C True r := sound_start hstart
    simp only [start, hbegin, Except.ok.injEq] at hstart
    subst hstart
    exact ⟨_, rfl, hsound, rfl, rfl, rfl, rfl, fun _ => rfl⟩

/-- The next segment of an honest transfer is announced as it should be. -/
theorem Ready.announced {sent rest : List VerifiedSegmentV2} {s : VerifiedSegmentV2} (h : Ready C b key r sent)
    (hhonest : Honest C b (sent ++ s :: rest)) :
    ∃ ranges, Announced r (deliver b s) s.descriptor s.payload ranges ∧
      (b.manifest.deferredSegments = true → ranges = (sent ++ [s]).map (·.descriptor.range)) := by
  have hagrees := h.sound.agrees h.state
  have hnext : r.next = sent.length := hagrees.next.trans (congrArg List.length h.segments)
  cases hmode : b.manifest.deferredSegments with
  | false =>
    have hget : b.manifest.segments[sent.length]? = some s.descriptor := by
      rw [← hhonest.declared hmode]
      simp
    refine ⟨r.deferredRanges, ?_, fun hdeferred => by cases hdeferred⟩
    rw [deliver, hmode]
    exact .declared (by rw [h.begin_, hnext]; exact hget) rfl
  | true =>
    have hvalid := hhonest.valid hmode s (List.mem_append_right _ List.mem_cons_self)
    have hsequence : s.descriptor.sequence.toNat = sent.length := by
      have hnumber := congrArg (·[sent.length]?) hhonest.sequence
      simpa using hnumber
    have hdisjoint := hhonest.disjoint hmode
    rw [List.map_append, List.map_cons, List.pairwise_append] at hdisjoint
    have hclear : ∀ x ∈ r.deferredRanges, x.1 = s.descriptor.rangeKey →
        ¬ (s.descriptor.logicalStart < x.2.2 ∧ x.2.1 < s.descriptor.logicalStart + s.descriptor.logicalCount) := by
      intro x hx hkey
      rw [h.ranges hmode] at hx
      obtain ⟨s', hs', rfl⟩ := List.mem_map.mp hx
      have hfits := (hhonest.valid hmode s' (List.mem_append_left _ hs')).fits
      have hapart := hdisjoint.2.2 s'.descriptor (List.mem_map_of_mem hs') s.descriptor List.mem_cons_self hkey
      simp only [SegmentDescriptorV2.range, UInt64.lt_iff_toNat_lt, toNat_add_of_lt hfits,
        toNat_add_of_lt hvalid.fits]
      omega
    refine ⟨r.deferredRanges ++ [s.descriptor.range], ?_, ?_⟩
    · rw [deliver, hmode]
      refine .deferred (by rw [h.begin_]; exact hmode) (hsequence.trans hnext.symm) ?_
      exact validateSegmentDescriptor_eq_ok.mpr ⟨by rw [h.begin_]; exact hvalid, hclear, rfl⟩
    · intro _
      rw [h.ranges hmode, List.map_append]
      rfl

/-- An announced segment that matches and fits is accepted by a working sink. -/
theorem perform_of_announced (haccepting : H.Accepting) {call : Call} {descriptor : SegmentDescriptorV2}
    {payload : Bytes} {ranges : SegmentRanges} (hstate : r.state = .receiving)
    (h : Announced r call descriptor payload ranges) (hmatch : Matches C descriptor payload)
    (hfits : r.total.toNat + descriptor.byteLen.toNat < 2 ^ 64) :
    ∃ sink, perform C H call r =
      .ok () (accepted { r with deferredRanges := ranges } descriptor payload (r.total + descriptor.byteLen) sink) := by
  obtain ⟨sink, hsink⟩ := haccepting.segmentReady ⟨descriptor, payload⟩ r.sink
  refine ⟨sink, ?_⟩
  have hmatching : ¬ (payload.length ≠ descriptor.byteLen.toNat ∨ sha256Hex C payload ≠ descriptor.sha256) := by
    rw [not_or, not_not, not_not]
    exact hmatch
  rw [h.perform_eq hstate, acceptSegment_apply, if_neg hmatching]
  simp only [checkedAdd_isSome hfits, hsink]

/-- Delivering the rest of an honest transfer succeeds, call by call. -/
theorem Ready.run (haccepting : H.Accepting) {sent rest : List VerifiedSegmentV2} (h : Ready C b key r sent)
    (hhonest : Honest C b (sent ++ rest)) (hfits : ((sent ++ rest).map (·.payload.length)).sum < 2 ^ 64) :
    Along (step C H) (fun r call => resultOf (perform C H call r) = .ok ()) r (rest.map (deliver b)) ∧
      Ready C b key (Base.run (step C H) r (rest.map (deliver b))) (sent ++ rest) := by
  induction rest generalizing r sent with
  | nil =>
    refine ⟨trivial, ?_⟩
    rw [List.append_nil]
    exact h
  | cons s rest ih =>
    have hagrees := h.sound.agrees h.state
    have hmatch := hhonest.matching s (List.mem_append_right _ List.mem_cons_self)
    have htotal : r.total.toNat + s.descriptor.byteLen.toNat < 2 ^ 64 := by
      rw [hagrees.total, h.segments, ← hmatch.1]
      rw [List.map_append, List.map_cons, List.sum_append, List.sum_cons] at hfits
      omega
    obtain ⟨ranges, hannounced, hranges⟩ := h.announced hhonest
    obtain ⟨sink, hperform⟩ := perform_of_announced haccepting h.state hannounced hmatch htotal
    have hstep : step C H r (deliver b s) = accepted { r with deferredRanges := ranges } s.descriptor s.payload
        (r.total + s.descriptor.byteLen) sink := by
      rw [step, hperform]
      rfl
    have hready : Ready C b key (step C H r (deliver b s)) (sent ++ [s]) := by
      rw [hstep]
      refine ⟨h.sound.accepted h.state hannounced hmatch (checkedAdd_isSome htotal), h.begin_, h.key_eq, h.state, ?_,
        hranges⟩
      rw [← h.segments]
      exact segments_accepted (r := { r with deferredRanges := ranges }) _ _ _ _
    rw [List.append_cons] at hhonest hfits
    obtain ⟨halong, hfinal⟩ := ih hready hhonest hfits
    refine ⟨⟨congrArg resultOf hperform, halong⟩, ?_⟩
    rw [List.append_cons]
    exact hfinal

/-- The segments of an honest transfer are taken, from the start to the last. -/
theorem ready_of_honest (haccepting : H.Accepting) {sink : S}
    (hstart : start H b key sink = .ok r) (hhonest : Honest C b segments)
    (hfits : (segments.map (·.payload.length)).sum < 2 ^ 64) :
    Along (step C H) (fun r call => resultOf (perform C H call r) = .ok ()) r (segments.map (deliver b)) ∧
      Ready C b key (Base.run (step C H) r (segments.map (deliver b))) segments := by
  obtain ⟨r', hstart', hready⟩ := exists_ready (C := C) haccepting b key sink
  obtain rfl : r = r' := Except.ok.inj (hstart.symm.trans hstart')
  exact hready.run haccepting hhonest hfits

/-- The seal of an honest transfer speaks of what the receiver has taken. -/
theorem Ready.sealable (h : Ready C b key r segments)
    (hhonest : Honest C b segments)
    (hsign : SealManifestV2.sign C b (segments.map (·.descriptor)) (segments.map (·.payload)) key = .ok manifest) :
    Sealable C r manifest.core := by
  obtain ⟨htransfer, hgeneration, hbegin, hdescriptors, hpayloads, hcount, htotal, -⟩ := sign_eq_ok hsign
  have hagrees := h.sound.agrees h.state
  obtain ⟨hhashedDescriptors, hhashedPayloads⟩ := h.sound.hashed trivial h.state
  have hnext := hagrees.next
  have hreceived := hagrees.total
  rw [h.segments] at hnext hreceived hhashedDescriptors hhashedPayloads
  refine ⟨h.state, ?_, ?_, ?_⟩
  · cases hmode : b.manifest.deferredSegments with
    | false =>
      have hlength : segments.length = b.manifest.segments.length := by
        rw [← hhonest.declared hmode, List.length_map]
      simp [allSegments, h.begin_, hmode, hnext, hlength]
    | true =>
      obtain ⟨now, keyId, epoch, hcheck⟩ := b.accepted
      obtain ⟨c, hc, hneeded⟩ := BeginManifestV2.check_target hcheck
      obtain ⟨s, hs, -⟩ := hhonest.required hmode c hc hneeded
      simp [allSegments, h.begin_, hmode, hnext, List.length_pos_of_mem hs]
  · intro hmode c hc hneeded
    rw [h.begin_] at hmode hc
    rw [hagrees.seen, h.segments]
    exact hhonest.required hmode c hc hneeded
  · simp only [sealMismatch, not_or, not_not, h.begin_, hhashedDescriptors, hhashedPayloads]
    refine ⟨htransfer, hgeneration, hcount.trans hnext.symm, ?_, hbegin, hdescriptors, hpayloads⟩
    rw [← UInt64.toNat_inj, htotal, hreceived]

/-- A seal of what the receiver has taken, with its tag, is prepared and committed. -/
theorem commits_of_sealable (haccepting : H.Accepting) (hsealable : Sealable C r manifest.core)
    (htag : manifest.hmacSha256 = tagHex C r.key manifest.core.toJson.canonical) :
    ∃ r₁ r₂, perform C H (.prepareCommit manifest) r = .ok () r₁ ∧ perform C H .commit r₁ = .ok () r₂ ∧
      r₂.state = .committed ∧ r₂.calls = r.calls ++ [SinkCall.prepareCommit manifest true, .commit true] := by
  obtain ⟨sink, hprepare⟩ := haccepting.prepareCommit manifest r.sink
  obtain ⟨generation, sink', hcommit⟩ := haccepting.commit sink
  have hhex : validateHex "seal HMAC" manifest.hmacSha256 = .ok () := by
    rw [htag]
    exact validateHex_hexEncode _ _
  have hverify : verifyHex C r.key manifest.core.toJson.canonical manifest.hmacSha256 = .ok () := by
    rw [htag]
    exact verifyHex_tagHex _ _
  refine ⟨{ r with sink, state := .prepared, calls := r.calls ++ [SinkCall.prepareCommit manifest true] },
    { r with
      sink := sink', state := .committed,
      calls := r.calls ++ [SinkCall.prepareCommit manifest true] ++ [SinkCall.commit true] },
    ?_, ?_, rfl, List.append_assoc _ _ _⟩
  · refine (prepareCommit_of_sealable hsealable).trans ?_
    simp only [hhex, hverify, hprepare]
  · rw [commit_apply, if_neg (by simp)]
    simp only [hcommit]

theorem Ready.calls_eq (h : Ready C b key r segments) :
    r.calls = opening segments := by
  obtain ⟨tail, hshape, hclosing⟩ := h.sound.shape
  rw [h.state] at hclosing
  obtain rfl : tail = [] := hclosing
  rw [hshape, h.segments, List.append_nil]

theorem honest_run (haccepting : H.Accepting) {sink : S}
    (hstart : start H b key sink = .ok r) (hhonest : Honest C b segments)
    (hsign : SealManifestV2.sign C b (segments.map (·.descriptor)) (segments.map (·.payload)) key = .ok manifest) :
    Along (step C H) (fun r call => resultOf (perform C H call r) = .ok ()) r
        (segments.map (deliver b) ++ [Call.prepareCommit manifest, Call.commit]) ∧
      (run (step C H) r (segments.map (deliver b) ++ [Call.prepareCommit manifest, Call.commit])).state = .committed ∧
      (run (step C H) r (segments.map (deliver b) ++ [Call.prepareCommit manifest, Call.commit])).calls =
        opening segments ++ [SinkCall.prepareCommit manifest true, .commit true] := by
  obtain ⟨-, -, -, -, -, -, htotal, htag⟩ := sign_eq_ok hsign
  have hfits : (segments.map (·.payload.length)).sum < 2 ^ 64 := htotal ▸ manifest.core.totalBytes.toNat_lt
  obtain ⟨halong, hready⟩ := ready_of_honest haccepting hstart hhonest hfits
  obtain ⟨r₁, r₂, hprepare, hcommit, hstate, hcalls⟩ :=
    commits_of_sealable haccepting (hready.sealable hhonest hsign) (by rw [hready.key_eq]; exact htag)
  rw [hready.calls_eq] at hcalls
  have hstep₁ : step C H (Base.run (step C H) r (segments.map (deliver b))) (.prepareCommit manifest) = r₁ :=
    congrArg finalState hprepare
  have hstep₂ : step C H r₁ .commit = r₂ := congrArg finalState hcommit
  rw [along_append, run_append]
  refine ⟨⟨halong, ?_, ?_, trivial⟩, ?_⟩
  · exact congrArg resultOf hprepare
  · rw [hstep₁]
    exact congrArg resultOf hcommit
  · rw [run_cons, run_cons, run_nil, hstep₁, hstep₂]
    exact ⟨hstate, hcalls⟩

end Run

end Kvpack.Handoff
