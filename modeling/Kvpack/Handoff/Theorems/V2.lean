import Kvpack.Handoff.Lemmas.Honest

/-!
# The receiver over whole transfers

What a sink sees of any sequence of calls, what becomes of a transfer once a call has failed, which components a
committed transfer holds, and that an honest producer gets through.
-/

namespace Kvpack.Handoff

open Base Kvpack.Core AtomicReceiverV2

variable {S : Type} {C : Crypto} {H : HandoffSinkV2 S} {r : AtomicReceiverV2 S} {b : ValidatedBeginV2} {key : MacKey}

/-! ## A small transfer -/

/-- A sink that does what it is told. -/
def quietSink : HandoffSinkV2 Unit where
  begin_ _ _ := (.ok (), ())
  segmentReady _ _ := (.ok (), ())
  prepareCommit _ _ := (.ok (), ())
  commit _ := (.ok ⟨"", 0, 0, 0⟩, ())
  abort _ := ()

theorem quietSink_accepting : quietSink.Accepting :=
  ⟨fun _ _ => ⟨(), rfl⟩, fun _ _ => ⟨(), rfl⟩, fun _ _ => ⟨(), rfl⟩, fun _ => ⟨_, (), rfl⟩⟩

def digestText (n : UInt8) : String := hexEncode (repeatedId n).val

/-- A manifest of two components, in either mode. -/
def smallManifest (deferred : Bool) (targetRequired visionRequired : Bool) (segments : List SegmentDescriptorV2) :
    BeginManifestV2 where
  protocol := liveHandoffProtocolV2
  transferId := "transfer-1"
  generation := 7
  createdUnixMs := 1
  expiresUnixMs := 100
  identity := ⟨digestText 1, digestText 2, digestText 3, "model", digestText 4, "tokenizer", digestText 5⟩
  promptTokenIds := [1]
  multimodal := none
  hmac := ⟨"key", 1⟩
  components :=
    [⟨"target", .targetKv, targetRequired, digestText 6⟩, ⟨"vision", .visionContext, visionRequired, digestText 7⟩]
  deferredSegments := deferred
  segments := segments

/-- A segment of zero rows, the `i`-th of a plane. -/
def plainSegment (C : Crypto) (component : String) (count i : Nat) : VerifiedSegmentV2 where
  payload := List.replicate (2 * count) 0
  descriptor :=
    { sequence := UInt32.ofNat i, componentId := component, role := .nopeKey, layer := none,
      logicalStart := UInt64.ofNat (i * count), logicalCount := UInt64.ofNat count, elementType := "f16_le",
      elementsPerToken := 1, byteLen := UInt64.ofNat (2 * count), sha256 := sha256Hex C (List.replicate (2 * count) 0) }

/-- The first rows of a plane, in segments of equal size. -/
def plainSegments (C : Crypto) (component : String) (count n : Nat) : List VerifiedSegmentV2 :=
  (List.range n).map (plainSegment C component count)

section Plain

variable {component : String} {count n i : Nat} {ids : List String}

theorem plainSegment_matches (h : 2 * count < 2 ^ 64) :
    Matches C (plainSegment C component count i).descriptor (plainSegment C component count i).payload := by
  refine ⟨?_, rfl⟩
  rw [plainSegment, List.length_replicate, UInt64.toNat_ofNat_of_lt' h]

theorem plainSegment_valid (hcount : 0 < count) (hbytes : 2 * count < 2 ^ 64) (hfits : (i + 1) * count < 2 ^ 64)
    (hknown : component ∈ ids) : (plainSegment C component count i).descriptor.Valid ids := by
  have hstart : i * count + count < 2 ^ 64 := by rwa [← Nat.succ_mul]
  have hcountNat : (UInt64.ofNat count).toNat = count :=
    UInt64.toNat_ofNat_of_lt' (lt_of_le_of_lt (Nat.le_add_left _ _) hstart)
  have hstartNat : (UInt64.ofNat (i * count)).toNat = i * count :=
    UInt64.toNat_ofNat_of_lt' (lt_of_le_of_lt (Nat.le_add_right _ _) hstart)
  have hbytesNat : (UInt64.ofNat (2 * count)).toNat = 2 * count := UInt64.toNat_ofNat_of_lt' hbytes
  refine ⟨hknown, ?_, by simp [plainSegment], ?_, validateHex_hexEncode _ _, ⟨2, rfl, ?_⟩, ?_⟩
  · intro hzero
    have := congrArg UInt64.toNat hzero
    rw [plainSegment, hcountNat] at this
    exact absurd this hcount.ne'
  · intro hzero
    have := congrArg UInt64.toNat hzero
    rw [plainSegment, hbytesNat, UInt64.toNat_zero] at this
    omega
  · rw [plainSegment, hbytesNat, hcountNat, Nat.mul_comm]
    simp
  · rw [plainSegment, hstartNat, hcountNat]
    exact hstart

theorem plainSegment_disjoint {j : Nat} (hij : i < j) (hfits : (j + 1) * count < 2 ^ 64) :
    (plainSegment C component count i).descriptor.Disjoint (plainSegment C component count j).descriptor := by
  intro _
  have hle : (i + 1) * count ≤ j * count := Nat.mul_le_mul_right _ hij
  rw [Nat.succ_mul] at hle hfits
  have hstart : i * count < 2 ^ 64 := by omega
  have hcount : count < 2 ^ 64 := by omega
  have hnext : j * count < 2 ^ 64 := by omega
  left
  simp only [plainSegment]
  rw [UInt64.toNat_ofNat_of_lt' hstart, UInt64.toNat_ofNat_of_lt' hcount, UInt64.toNat_ofNat_of_lt' hnext]
  exact hle

/-- Such segments are an honest transfer of their component. -/
theorem honest_plainSegments (hcount : 0 < count) (hbytes : 2 * count < 2 ^ 64) (hfits : n * count < 2 ^ 64)
    (hpos : 0 < n) (hn : n ≤ 2 ^ 32) (hmode : b.manifest.deferredSegments = true)
    (hknown : component ∈ b.manifest.components.map (·.id))
    (honly : ∀ c ∈ b.manifest.components, c.required = true → c.id = component) :
    Honest C b (plainSegments C component count n) := by
  have hfit : ∀ i < n, (i + 1) * count < 2 ^ 64 :=
    fun i hi => lt_of_le_of_lt (Nat.mul_le_mul_right _ hi) hfits
  refine ⟨?_, ?_, ?_, ?_, ?_, ?_⟩
  · rw [plainSegments, List.map_map, List.length_map, List.length_range]
    refine (List.map_congr_left ?_).trans (List.map_id _)
    intro i hi
    exact UInt32.toNat_ofNat_of_lt' (lt_of_lt_of_le (List.mem_range.mp hi) hn)
  · intro s hs
    obtain ⟨i, -, rfl⟩ := List.mem_map.mp hs
    exact plainSegment_matches hbytes
  · intro hdeclared
    rw [hmode] at hdeclared
    cases hdeclared
  · intro _ s hs
    obtain ⟨i, hi, rfl⟩ := List.mem_map.mp hs
    exact plainSegment_valid hcount hbytes (hfit i (List.mem_range.mp hi)) hknown
  · intro _
    rw [plainSegments, List.map_map, List.pairwise_map]
    refine (List.pairwise_lt_range).imp_of_mem ?_
    intro i j _ hj hij
    exact plainSegment_disjoint hij (hfit j (List.mem_range.mp hj))
  · intro _ c hc hneeded
    exact ⟨plainSegment C component count 0, List.mem_map_of_mem (List.mem_range.mpr hpos), (honly c hc hneeded).symm⟩

theorem plainSegments_length (component : String) (count n : Nat) :
    ((plainSegments C component count n).flatMap (·.payload)).length = n * (2 * count) ∧
      ((plainSegments C component count n).map (·.payload.length)).sum = n * (2 * count) := by
  have hlengths : (plainSegments C component count n).map (·.payload.length) = List.replicate n (2 * count) := by
    rw [plainSegments, List.map_map, List.eq_replicate_iff]
    simp [plainSegment]
  refine ⟨?_, ?_⟩
  · rw [List.length_flatMap, hlengths, List.sum_replicate, smul_eq_mul]
  · rw [hlengths, List.sum_replicate, smul_eq_mul]

end Plain

variable {segments : List VerifiedSegmentV2} {manifest : SealManifestV2} {call : Call}

set_option maxRecDepth 20000 in
/-- The transfer whose target component is streamed. -/
def streamedBegin : ValidatedBeginV2 :=
  ⟨smallManifest true true false [], _, ⟨10, "key", 1, by decide⟩, rfl⟩

theorem streamedBegin_honest {count n : Nat} (hcount : 0 < count) (hbytes : 2 * count < 2 ^ 64)
    (hfits : n * count < 2 ^ 64) (hpos : 0 < n) (hn : n ≤ 2 ^ 32) :
    Honest C streamedBegin (plainSegments C "target" count n) := by
  refine honest_plainSegments hcount hbytes hfits hpos hn rfl ?_ ?_
  · simp [streamedBegin, smallManifest]
  · simp [streamedBegin, smallManifest]

/-- The streamed transfer starts, and its producer can sign it. -/
theorem exists_streamed (count n : Nat) (hcount : 0 < count) (hpos : 0 < n) (hn : n < 2 ^ 32)
    (hfits : n * (2 * count) < 2 ^ 64) :
    ∃ manifest r, start quietSink streamedBegin (repeatedId 1) () = .ok r ∧
      Honest C streamedBegin (plainSegments C "target" count n) ∧
      SealManifestV2.sign C streamedBegin ((plainSegments C "target" count n).map (·.descriptor))
        ((plainSegments C "target" count n).map (·.payload)) (repeatedId 1) = .ok manifest := by
  have hbytes : 2 * count ≤ n * (2 * count) := Nat.le_mul_of_pos_left _ hpos
  have hrows : n * count ≤ n * (2 * count) := Nat.mul_le_mul_left _ (Nat.le_mul_of_pos_left _ (by decide))
  have hhonest : Honest C streamedBegin (plainSegments C "target" count n) :=
    streamedBegin_honest hcount (by omega) (by omega) hpos hn.le
  obtain ⟨manifest, hsign⟩ := exists_sign hhonest (by rw [plainSegments, List.length_map, List.length_range]; exact hn)
    (by rw [(plainSegments_length "target" count n).2]; exact hfits) (repeatedId 1)
  obtain ⟨r, hstart, -⟩ := exists_ready (C := C) quietSink_accepting streamedBegin (repeatedId 1) ()
  exact ⟨manifest, r, hstart, hhonest, hsign⟩

/-! ## Completeness -/

theorem segments_of_calls
    (h : r.calls = opening segments ++ [SinkCall.prepareCommit manifest true, .commit true]) :
    r.segments = segments := by
  rw [AtomicReceiverV2.segments, h, delivered_append, delivered_opening]
  exact List.append_nil _

theorem honest_producer_commits {segments : List VerifiedSegmentV2} {manifest : SealManifestV2}
    (haccepting : H.Accepting) (hhonest : Honest C b segments)
    (hsign : SealManifestV2.sign C b (segments.map (·.descriptor)) (segments.map (·.payload)) key = .ok manifest)
    (sink : S) :
    ∃ r, start H b key sink = .ok r ∧
      Along (step C H) (fun r call => resultOf (perform C H call r) = .ok ()) r
        (segments.map (deliver b) ++ [Call.prepareCommit manifest, Call.commit]) ∧
      let r' := run (step C H) r (segments.map (deliver b) ++ [Call.prepareCommit manifest, Call.commit])
      r'.state = .committed ∧ r'.segments = segments ∧ r'.calls.filter SinkCall.isCommit = [.commit true] := by
  obtain ⟨r, hstart, -⟩ := exists_ready (C := C) haccepting b key sink
  obtain ⟨halong, hstate, hcalls⟩ := honest_run haccepting hstart hhonest hsign
  refine ⟨r, hstart, halong, hstate, ?_, ?_⟩
  · exact segments_of_calls hcalls
  · rw [hcalls, List.filter_append, (filter_opening segments).1]
    rfl

theorem streamed_transfer_commits :
    ∃ manifest r, start quietSink streamedBegin (repeatedId 1) () = .ok r ∧
      (run (step checksumCrypto quietSink) r ((plainSegments checksumCrypto "target" 1 2).map (deliver streamedBegin) ++
        [Call.prepareCommit manifest, Call.commit])).state = .committed := by
  obtain ⟨manifest, -, -, hhonest, hsign⟩ :=
    exists_streamed (C := checksumCrypto) 1 2 Nat.one_pos Nat.two_pos (by decide) (by decide)
  obtain ⟨r, hstart, -, hstate, -⟩ := honest_producer_commits quietSink_accepting hhonest hsign ()
  exact ⟨manifest, r, hstart, hstate⟩

/-! ## Required components -/

/-- A committed transfer holds every required component if the begin declares a segment for each. -/
theorem committed_required_iff {calls : List Call} {sink : S} (hstart : start H b key sink = .ok r)
    (hcommitted : (run (step C H) r calls).state = .committed) :
    (∀ c ∈ b.manifest.components, c.required = true →
        ∃ s ∈ (run (step C H) r calls).segments, s.descriptor.componentId = c.id) ↔
      (b.manifest.deferredSegments = true ∨
        ∀ c ∈ b.manifest.components, c.required = true → ∃ d ∈ b.manifest.segments, d.componentId = c.id) := by
  have hsound : Sound C False (run (step C H) r calls) := sound_run hstart
  have hbegin : (run (step C H) r calls).begin_ = b := (begin_run hstart).1
  obtain ⟨tail, hcalls, hclosing⟩ := hsound.shape
  rw [hcommitted] at hclosing
  obtain ⟨manifest, rfl⟩ := hclosing
  obtain ⟨hdeclared, hdeferred⟩ := hsound.complete manifest (by rw [hcalls]; simp)
  rw [hbegin] at hdeclared hdeferred
  cases hmode : b.manifest.deferredSegments with
  | true => exact iff_of_true (hdeferred hmode) (.inl rfl)
  | false =>
    simp only [Bool.false_eq_true, false_or, ← hdeclared hmode, List.mem_map, exists_exists_and_eq_and]

theorem streamed_transfer_required :
    ∃ calls r, start quietSink streamedBegin (repeatedId 1) () = .ok r ∧
      ∃ s ∈ (run (step checksumCrypto quietSink) r calls).segments, s.descriptor.componentId = "target" := by
  obtain ⟨manifest, r, hstart, hhonest, hsign⟩ :=
    exists_streamed (C := checksumCrypto) 1 1 Nat.one_pos Nat.one_pos (by decide) (by decide)
  obtain ⟨-, hcommitted, -⟩ := honest_run quietSink_accepting hstart hhonest hsign
  exact ⟨_, r, hstart, (committed_required_iff hstart hcommitted).mpr (.inl rfl)
    ⟨"target", .targetKv, true, digestText 6⟩ (by simp [streamedBegin, smallManifest]) rfl⟩

set_option maxRecDepth 20000 in
/-- A transfer that requires its target component and declares only the other one. -/
def targetlessBegin : ValidatedBeginV2 :=
  ⟨smallManifest false true false [(plainSegment checksumCrypto "vision" 1 0).descriptor], _,
    ⟨10, "key", 1, by decide⟩, rfl⟩

theorem targetless_transfer_commits :
    ∃ manifest r, start quietSink targetlessBegin (repeatedId 1) () = .ok r ∧
      let r' := run (step checksumCrypto quietSink) r
        [.segmentReady 0 [0, 0], .prepareCommit manifest, .commit]
      r'.state = .committed ∧
        ∃ c ∈ targetlessBegin.manifest.components, c.kind = .targetKv ∧ c.required = true ∧
          ∀ s ∈ r'.segments, s.descriptor.componentId ≠ c.id := by
  have hhonest : Honest checksumCrypto targetlessBegin [plainSegment checksumCrypto "vision" 1 0] := by
    refine ⟨rfl, ?_, fun _ => rfl, nofun, nofun, nofun⟩
    intro s hs
    rw [List.mem_singleton.mp hs]
    exact plainSegment_matches (by decide)
  obtain ⟨manifest, hsign⟩ := exists_sign hhonest (by decide) (by decide) (repeatedId 1)
  obtain ⟨r, hstart, -⟩ := exists_ready (C := checksumCrypto) quietSink_accepting targetlessBegin (repeatedId 1) ()
  obtain ⟨-, hcommitted, hcalls⟩ := honest_run quietSink_accepting hstart hhonest hsign
  refine ⟨manifest, r, hstart, hcommitted, ⟨"target", .targetKv, true, digestText 6⟩, ?_, rfl, rfl, ?_⟩
  · simp [targetlessBegin, smallManifest]
  · intro s hs
    obtain rfl : s = plainSegment checksumCrypto "vision" 1 0 :=
      List.mem_singleton.mp (segments_of_calls hcalls ▸ hs)
    decide

/-! ## Failing closed -/

/-- The call fails and leaves the receiver open: a fitting seal whose tag is no digest, or an overflowing segment. -/
def LeavesOpen (C : Crypto) (r : AtomicReceiverV2 S) (call : Call) : Prop :=
  (∃ manifest, call = .prepareCommit manifest ∧ Sealable C r manifest.core ∧
    ¬ ((utf8 manifest.hmacSha256).length = 64 ∧ ∀ c ∈ utf8 manifest.hmacSha256, isLowerHex c = true)) ∨
    Overflows C r call

def AtomicReceiverV2.Call.isFinal : Call → Bool
  | .prepareCommit _ | .commit => true
  | _ => false

theorem prepareCommit_of_malformed (hsealable : Sealable C r manifest.core)
    (htag : ¬ ((utf8 manifest.hmacSha256).length = 64 ∧ ∀ c ∈ utf8 manifest.hmacSha256, isLowerHex c = true)) :
    ∃ e, perform C H (.prepareCommit manifest) r = .error e r := by
  cases hhex : validateHex "seal HMAC" manifest.hmacSha256 with
  | ok u => exact absurd (validateHex_eq_ok.mp hhex) htag
  | error e =>
    refine ⟨e, (prepareCommit_of_sealable hsealable).trans ?_⟩
    simp only [hhex]

theorem perform_of_overflow {descriptor : SegmentDescriptorV2} {payload : Bytes} {ranges : SegmentRanges}
    (hstate : r.state = .receiving) (hannounced : Announced r call descriptor payload ranges)
    (hmatch : Matches C descriptor payload) (hoverflow : 2 ^ 64 ≤ r.total.toNat + descriptor.byteLen.toNat) :
    perform C H call r = .error (.validation "total byte count overflow")
      (taken { r with deferredRanges := ranges } descriptor payload) := by
  have hmatching : ¬ (payload.length ≠ descriptor.byteLen.toNat ∨ sha256Hex C payload ≠ descriptor.sha256) := by
    rw [not_or, not_not, not_not]
    exact hmatch
  have htotal : checkedAdd r.total descriptor.byteLen = none := by
    rw [checkedAdd, if_neg (Nat.not_lt.mpr hoverflow)]
  rw [hannounced.perform_eq hstate, acceptSegment_apply, if_neg hmatching]
  simp only [htotal]

theorem settled_of_error {e : HandoffError} (hopen : ¬ LeavesOpen C r call)
    (he : resultOf (perform C H call r) = .error e) : (step C H r call).state = .aborted ∨ r.state = .committed := by
  have hperformed : Performed C H r call (resultOf (perform C H call r)) (step C H r call) := performed r call
  rw [he] at hperformed
  generalize step C H r call = r' at hperformed ⊢
  have hclose : ∀ r₁ : AtomicReceiverV2 S, r₁.state = .receiving ∨ r₁.state = .prepared →
      (AtomicReceiverV2.close H r₁).state = .aborted := fun r₁ h => (close_fields h).2.2.1
  cases hperformed with
  | settled hsettled => exact hsettled.symm
  | closed hstate => exact .inl (hclose _ hstate)
  | overflowed hstate hannounced hmatch htotal =>
    exact absurd (.inr ⟨_, _, _, hstate, hannounced, hmatch, checkedAdd_eq_none htotal⟩) hopen
  | rejected hstate => exact .inl (hclose _ (.inl hstate))
  | unsealed hsealable hhex =>
    refine absurd (.inl ⟨_, rfl, hsealable, ?_⟩) hopen
    intro htag
    rw [validateHex_eq_ok.mpr htag] at hhex
    cases hhex
  | unprepared hsealable => exact .inl (hclose _ (.inl hsealable.1))
  | uncommitted hstate => exact .inl (hclose _ (.inr hstate))

theorem refuses_of_settled (h : r.state = .committed ∨ r.state = .aborted) (hfinal : call.isFinal = true) :
    ∃ e, resultOf (perform C H call r) = .error e := by
  cases call with
  | prepareCommit manifest =>
    have hnot : ¬ Sealable C r manifest.core := by
      rintro ⟨hstate, -⟩
      rcases h with h | h <;> simp [h] at hstate
    obtain ⟨message, hresult⟩ := prepareCommit_of_not_sealable (H := H) hnot
    exact ⟨_, congrArg resultOf hresult⟩
  | commit =>
    have hnot : r.state ≠ .prepared := by
      rcases h with h | h <;> simp [h]
    rw [commit_apply, if_pos hnot]
    exact ⟨_, rfl⟩
  | segmentReady | segmentReadyDeferred | abort => cases hfinal

/-- An error closes the receiver exactly when it is not from one of the two open exits, and a receiver so closed is
never prepared or committed again. -/
theorem error_closes_iff (C : Crypto) (H : HandoffSinkV2 S) (r : AtomicReceiverV2 S) (call : Call) :
    ((∀ e, resultOf (perform C H call r) = .error e → (step C H r call).state = .aborted ∨ r.state = .committed) ↔
        ¬ LeavesOpen C r call) ∧
      (¬ LeavesOpen C r call → ∀ e, resultOf (perform C H call r) = .error e → ∀ calls,
        Along (step C H) (fun r call => call.isFinal = true → ∃ e, resultOf (perform C H call r) = .error e)
          (step C H r call) calls) := by
  refine ⟨⟨?_, fun hopen e he => settled_of_error hopen he⟩, ?_⟩
  · rintro hcloses (⟨manifest, rfl, hsealable, htag⟩ | hoverflows)
    · obtain ⟨e, hresult⟩ := prepareCommit_of_malformed (H := H) hsealable htag
      have hstep : step C H r (.prepareCommit manifest) = r := congrArg finalState hresult
      have hsettled := hcloses e (congrArg resultOf hresult)
      rw [hstep, hsealable.1] at hsettled
      simp at hsettled
    · obtain ⟨descriptor, payload, ranges, hstate, hannounced, hmatch, hoverflow⟩ := hoverflows
      have hresult := perform_of_overflow (H := H) hstate hannounced hmatch hoverflow
      have hstep : step C H r call = taken { r with deferredRanges := ranges } descriptor payload :=
        congrArg finalState hresult
      have hsettled := hcloses _ (congrArg resultOf hresult)
      rw [hstep, hstate] at hsettled
      simp [taken] at hsettled
  · intro hopen e he calls
    have hsettled : (step C H r call).state = .committed ∨ (step C H r call).state = .aborted := by
      rcases settled_of_error hopen he with haborted | hcommitted
      · exact .inr haborted
      · rw [step_of_settled (.inl hcommitted)]
        exact .inl hcommitted
    generalize step C H r call = r' at hsettled
    induction calls with
    | nil => trivial
    | cons call' calls ih =>
      refine ⟨fun hfinal => refuses_of_settled hsettled hfinal, ?_⟩
      rw [step_of_settled hsettled]
      exact ih

theorem early_commit_closes :
    ∃ r, start quietSink streamedBegin (repeatedId 1) () = .ok r ∧ ¬ LeavesOpen checksumCrypto r .commit ∧
      resultOf (perform checksumCrypto quietSink .commit r) = .error (.validation "commit before prepared seal") ∧
      ((step checksumCrypto quietSink r .commit).state = .aborted ∨ r.state = .committed) := by
  obtain ⟨r, hstart, hready⟩ :=
    exists_ready (C := checksumCrypto) quietSink_accepting streamedBegin (repeatedId 1) ()
  have hopen : ¬ LeavesOpen checksumCrypto r .commit := by
    rintro (⟨manifest, hcall, -⟩ | ⟨descriptor, payload, ranges, -, hannounced, -⟩)
    · cases hcall
    · cases hannounced
  have herror : resultOf (perform checksumCrypto quietSink .commit r) =
      .error (.validation "commit before prepared seal") := by
    rw [commit_apply, if_pos (by simp [hready.state])]
    rfl
  exact ⟨r, hstart, hopen, herror, (error_closes_iff checksumCrypto quietSink r .commit).1.mpr hopen _ herror⟩

/-- After a seal with an empty tag was refused, the same seal with its tag is committed. -/
theorem malformed_tag_then_commit :
    ∃ manifest r, start quietSink streamedBegin (repeatedId 1) () = .ok r ∧
      let r₁ := run (step checksumCrypto quietSink) r
        ((plainSegments checksumCrypto "target" 1 1).map (deliver streamedBegin))
      let malformed : SealManifestV2 := { manifest with hmacSha256 := "" }
      (∃ e, resultOf (perform checksumCrypto quietSink (.prepareCommit malformed) r₁) = .error e) ∧
        (step checksumCrypto quietSink r₁ (.prepareCommit malformed)).state = .receiving ∧ r₁.state = .receiving ∧
        (run (step checksumCrypto quietSink) r₁
          [.prepareCommit malformed, .prepareCommit manifest, .commit]).state = .committed := by
  obtain ⟨manifest, r, hstart, hhonest, hsign⟩ :=
    exists_streamed (C := checksumCrypto) 1 1 Nat.one_pos Nat.one_pos (by decide) (by decide)
  obtain ⟨-, -, -, -, -, -, htotal, htag⟩ := sign_eq_ok hsign
  obtain ⟨-, hready⟩ := ready_of_honest quietSink_accepting hstart hhonest (htotal ▸ manifest.core.totalBytes.toNat_lt)
  refine ⟨manifest, r, hstart, ?_⟩
  generalize run (step checksumCrypto quietSink) r
    ((plainSegments checksumCrypto "target" 1 1).map (deliver streamedBegin)) = r₁ at hready ⊢
  have hsealable := hready.sealable hhonest hsign
  have hempty : (utf8 "").length ≠ 64 := by decide
  obtain ⟨e, hmalformed⟩ : ∃ e, perform checksumCrypto quietSink (.prepareCommit { manifest with hmacSha256 := "" })
      r₁ = .error e r₁ := prepareCommit_of_malformed hsealable fun htag => absurd htag.1 hempty
  have hsame : step checksumCrypto quietSink r₁ (.prepareCommit { manifest with hmacSha256 := "" }) = r₁ :=
    congrArg finalState hmalformed
  obtain ⟨r₂, r₃, hprepare, hcommit, hstate, -⟩ :=
    commits_of_sealable quietSink_accepting hsealable (by rw [hready.key_eq]; exact htag)
  have hstep₂ : step checksumCrypto quietSink r₁ (.prepareCommit manifest) = r₂ := congrArg finalState hprepare
  have hstep₃ : step checksumCrypto quietSink r₂ .commit = r₃ := congrArg finalState hcommit
  refine ⟨⟨e, congrArg resultOf hmalformed⟩, ?_, hready.state, ?_⟩
  · rw [hsame]
    exact hready.state
  · rw [run_cons, hsame, run_cons, hstep₂, run_cons, hstep₃, run_nil]
    exact hstate

/-! ## What the sink is promised -/

/-- At most one commit, after a seal authenticated over exactly the segments delivered; at most one abort; nothing
after either, save the abort after a failed commit. -/
structure Disciplined (C : Crypto) (r : AtomicReceiverV2 S) : Prop where
  commits : (r.calls.filter SinkCall.isCommit).length ≤ 1
  authentic : ∀ before ok after, r.calls = before ++ SinkCall.commit ok :: after →
    ∃ manifest, before = opening r.segments ++ [SinkCall.prepareCommit manifest true] ∧ r.Authentic C manifest
  sequence : r.segments.map (·.descriptor.sequence.toNat) = List.range r.segments.length
  disjoint : (r.segments.map (·.descriptor)).Pairwise SegmentDescriptorV2.Disjoint
  aborts : (r.calls.filter SinkCall.isAbort).length ≤ 1
  aborted : ∀ before after, r.calls = before ++ SinkCall.abort :: after → after = [] ∧ SinkCall.commit true ∉ before
  committed : ∀ before ok after, r.calls = before ++ SinkCall.commit ok :: after → after = if ok then [] else [.abort]

theorem AtomicReceiverV2.Sound.disciplined (h : Sound C True r) : Disciplined C r := by
  obtain ⟨tail, hcalls, hclosing⟩ := h.shape
  obtain ⟨hcommits, haborts⟩ := hclosing.commits_le
  obtain ⟨hcommit, habort⟩ := filter_opening r.segments
  have hsplit : ∀ before ok after, r.calls = before ++ SinkCall.commit ok :: after → ∃ mid,
      before = opening r.segments ++ mid ∧ tail = mid ++ SinkCall.commit ok :: after := by
    intro before ok after heq
    exact split_opening (by simp [opening]) (hcalls.symm.trans heq)
  refine ⟨?_, ?_, h.sequence, h.disjoint, ?_, ?_, ?_⟩
  · rw [hcalls, List.filter_append, hcommit]
    exact hcommits
  · intro before ok after heq
    obtain ⟨mid, rfl, htail⟩ := hsplit before ok after heq
    obtain ⟨⟨manifest, rfl⟩, -⟩ := hclosing.before_commit htail
    exact ⟨manifest, rfl, h.authentic trivial manifest (by rw [hcalls, htail]; simp)⟩
  · rw [hcalls, List.filter_append, habort]
    exact haborts
  · intro before after heq
    obtain ⟨mid, rfl, htail⟩ := split_opening (by simp [opening]) (hcalls.symm.trans heq)
    obtain ⟨hlast, huncommitted⟩ := hclosing.around_abort htail
    exact ⟨hlast, by simp [opening, huncommitted]⟩
  · intro before ok after heq
    obtain ⟨mid, -, htail⟩ := hsplit before ok after heq
    exact (hclosing.before_commit htail).2

/-- Every run in which the total does not overflow keeps the promise. -/
theorem run_disciplined {calls : List Call} {sink : S} (hstart : start H b key sink = .ok r)
    (hcalls : Along (step C H) (fun r call => ¬ Overflows C r call) r calls) :
    (run (step C H) r calls).begin_ = b ∧ (run (step C H) r calls).key = key ∧
      Disciplined C (run (step C H) r calls) :=
  ⟨(begin_run hstart).1, (begin_run hstart).2, (sound_run_strict hstart hcalls).disciplined⟩

theorem not_overflows_of_ok (h : resultOf (perform C H call r) = .ok ()) : ¬ Overflows C r call := by
  rintro ⟨descriptor, payload, ranges, hstate, hannounced, hmatch, hoverflow⟩
  rw [perform_of_overflow hstate hannounced hmatch hoverflow] at h
  cases h

theorem streamed_transfer_disciplined :
    ∃ manifest r, start quietSink streamedBegin (repeatedId 1) () = .ok r ∧
      Disciplined checksumCrypto (run (step checksumCrypto quietSink) r
        ((plainSegments checksumCrypto "target" 1 3).map (deliver streamedBegin) ++
          [Call.prepareCommit manifest, Call.commit])) := by
  obtain ⟨manifest, r, hstart, hhonest, hsign⟩ :=
    exists_streamed (C := checksumCrypto) 1 3 Nat.one_pos (by decide) (by decide) (by decide)
  obtain ⟨halong, -, -⟩ := honest_run quietSink_accepting hstart hhonest hsign
  exact ⟨manifest, r, hstart, (run_disciplined hstart (halong.mono fun _ _ => not_overflows_of_ok)).2.2⟩

/-- A digest that tells strings of different lengths apart. -/
def lengthCrypto : Crypto :=
  { checksumCrypto with sha256 := fun bs => ⟨leBytes 32 bs.length, length_leBytes 32 bs.length⟩ }

theorem length_eq_of_sha256Hex {x y : Bytes} (hx : x.length < 256 ^ 32) (hy : y.length < 256 ^ 32)
    (h : sha256Hex lengthCrypto x = sha256Hex lengthCrypto y) : x.length = y.length := by
  have hbytes : leBytes 32 x.length = leBytes 32 y.length := hexEncode_inj.mp h
  rw [← leNat_leBytes hx, ← leNat_leBytes hy, hbytes]

/-- The seal for a receiver whose hashes have one segment more than its counters. -/
def overSeal (C : Crypto) (key : MacKey) (core : SealCoreV2) (r : AtomicReceiverV2 S) (s : VerifiedSegmentV2) :
    SealManifestV2 :=
  let core : SealCoreV2 := { core with
    descriptorSha256 := sha256Hex C (r.descriptorHash ++ s.descriptor.toJson.canonical)
    payloadSha256 := sha256Hex C (r.payloadHash ++ s.payload) }
  ⟨core, tagHex C key core.toJson.canonical⟩

theorem overSeal_sealable {core : SealCoreV2} (h : Sealable C r core) (key : MacKey) (s : VerifiedSegmentV2)
    (ranges : SegmentRanges) :
    Sealable C (taken { r with deferredRanges := ranges } s.descriptor s.payload) (overSeal C key core r s).core := by
  obtain ⟨hstate, hall, hrequired, hmatch⟩ := h
  refine ⟨hstate, hall, hrequired, ?_⟩
  simp only [sealMismatch, not_or, not_not] at hmatch ⊢
  obtain ⟨htransfer, hgeneration, hcount, htotal, hbegin, -, -⟩ := hmatch
  exact ⟨htransfer, hgeneration, hcount, htotal, hbegin, rfl, rfl⟩

theorem Disciplined.payloads (h : Disciplined C r)
    (hcalls : r.calls = opening segments ++ [SinkCall.prepareCommit manifest true, .commit true]) :
    manifest.core.payloadSha256 = sha256Hex C (segments.flatMap (·.payload)) := by
  obtain ⟨manifest', hbefore, hauthentic⟩ :=
    h.authentic (opening segments ++ [SinkCall.prepareCommit manifest true]) true [] (by simp [hcalls])
  rw [segments_of_calls hcalls] at hbefore
  have hpayloads := hauthentic.payloads
  rw [segments_of_calls hcalls] at hpayloads
  simp only [List.append_cancel_left_eq, List.cons.injEq, SinkCall.prepareCommit.injEq, and_true] at hbefore
  rw [hbefore]
  exact hpayloads

/-- An honest transfer, a segment that overflows its total, and a seal that hashes the segment without counting it. -/
theorem undisciplined_of_overflow (haccepting : H.Accepting) {s : VerifiedSegmentV2}
    {core : SealCoreV2} (h : Ready C b key r segments) (hhonest : Honest C b (segments ++ [s]))
    (hsealable : Sealable C r core) (hoverflow : 2 ^ 64 ≤ r.total.toNat + s.descriptor.byteLen.toNat)
    (hdigest : sha256Hex C (segments.flatMap (·.payload) ++ s.payload) ≠ sha256Hex C (segments.flatMap (·.payload))) :
    ∃ manifest,
      let r' := run (step C H) r [deliver b s, .prepareCommit manifest, .commit]
      r'.state = .committed ∧ r'.segments = segments ∧ ¬ Disciplined C r' := by
  refine ⟨overSeal C key core r s, ?_⟩
  obtain ⟨ranges, hannounced, -⟩ := h.announced hhonest
  have hmatch := hhonest.matching s (by simp)
  have hstep₁ : step C H r (deliver b s) = taken { r with deferredRanges := ranges } s.descriptor s.payload :=
    congrArg finalState (perform_of_overflow h.state hannounced hmatch hoverflow)
  obtain ⟨r₂, r₃, hprepare, hcommit, hstate, hcalls⟩ := commits_of_sealable haccepting
    (overSeal_sealable hsealable key s ranges) (by rw [← h.key_eq]; rfl)
  have hstep₂ : step C H _ (.prepareCommit (overSeal C key core r s)) = r₂ := congrArg finalState hprepare
  have hstep₃ : step C H r₂ .commit = r₃ := congrArg finalState hcommit
  rw [run_cons, hstep₁, run_cons, hstep₂, run_cons, hstep₃, run_nil]
  have hcalls : r₃.calls = opening segments ++
      [SinkCall.prepareCommit (overSeal C key core r s) true, .commit true] := by
    rw [hcalls, ← h.calls_eq]
    rfl
  refine ⟨hstate, segments_of_calls hcalls, ?_⟩
  intro hdisciplined
  have hhashed := (h.sound.hashed trivial h.state).2
  rw [h.segments] at hhashed
  rw [← hhashed] at hdigest
  exact hdigest ((hdisciplined.payloads hcalls).trans (by rw [hhashed]))

theorem exists_overflow {count : Nat} (hthree : 3 * (2 * count) < 2 ^ 64) (hfour : 2 ^ 64 ≤ 4 * (2 * count)) :
    ∃ manifest r, start quietSink streamedBegin (repeatedId 1) () = .ok r ∧
      let r' := run (step lengthCrypto quietSink) r
        ((plainSegments lengthCrypto "target" count 4).map (deliver streamedBegin) ++
          [Call.prepareCommit manifest, Call.commit])
      r'.state = .committed ∧ r'.segments = plainSegments lengthCrypto "target" count 3 ∧
        ¬ Disciplined lengthCrypto r' := by
  have hsplit : plainSegments lengthCrypto "target" count 4 = plainSegments lengthCrypto "target" count 3 ++
      [plainSegment lengthCrypto "target" count 3] := by
    rw [plainSegments, List.range_succ, List.map_append]
    rfl
  obtain ⟨manifest, r, hstart, hhonest, hsign⟩ :=
    exists_streamed (C := lengthCrypto) count 3 (by omega) (by decide) (by decide) hthree
  have hhonest₄ : Honest lengthCrypto streamedBegin (plainSegments lengthCrypto "target" count 4) :=
    streamedBegin_honest (by omega) (by omega) (by omega) (by decide) (by decide)
  rw [hsplit] at hhonest₄
  obtain ⟨hbytes, hsum⟩ := plainSegments_length (C := lengthCrypto) "target" count 3
  obtain ⟨-, hready⟩ := ready_of_honest quietSink_accepting hstart hhonest (by omega)
  have hsealable := hready.sealable hhonest hsign
  have hoverflow : 2 ^ 64 ≤ (run (step lengthCrypto quietSink) r
      ((plainSegments lengthCrypto "target" count 3).map (deliver streamedBegin))).total.toNat +
      (plainSegment lengthCrypto "target" count 3).descriptor.byteLen.toNat := by
    rw [(hready.sound.agrees hready.state).total, hready.segments, hsum, ← (hhonest₄.matching _ (by simp)).1,
      plainSegment, List.length_replicate]
    omega
  have hdigest : sha256Hex lengthCrypto ((plainSegments lengthCrypto "target" count 3).flatMap (·.payload) ++
        (plainSegment lengthCrypto "target" count 3).payload) ≠
      sha256Hex lengthCrypto ((plainSegments lengthCrypto "target" count 3).flatMap (·.payload)) := by
    intro heq
    have hlength := length_eq_of_sha256Hex ?_ ?_ heq
    · rw [List.length_append, hbytes, plainSegment, List.length_replicate] at hlength
      omega
    · rw [List.length_append, hbytes, plainSegment, List.length_replicate]
      omega
    · rw [hbytes]
      omega
  obtain ⟨manifest', hover⟩ := undisciplined_of_overflow quietSink_accepting hready hhonest₄ hsealable hoverflow hdigest
  refine ⟨manifest', r, hstart, ?_⟩
  rw [hsplit, List.map_append, List.append_assoc, run_append]
  exact hover

/-- Four segments of which the last overflows: a seal over all four digests with the counts of three is committed, and
the sink holds three. -/
theorem overflow_undisciplined :
    ∃ manifest r, start quietSink streamedBegin (repeatedId 1) () = .ok r ∧
      let r' := run (step lengthCrypto quietSink) r
        ((plainSegments lengthCrypto "target" (2 ^ 61) 4).map (deliver streamedBegin) ++
          [Call.prepareCommit manifest, Call.commit])
      r'.state = .committed ∧ r'.segments = plainSegments lengthCrypto "target" (2 ^ 61) 3 ∧
        ¬ Disciplined lengthCrypto r' :=
  exists_overflow (by decide) (by decide)

end Kvpack.Handoff
