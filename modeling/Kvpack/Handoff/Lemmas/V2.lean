import Kvpack.Handoff.V2

/-!
# What a call on the receiver does

Each method is first written as one equation for its result and the receiver it leaves; from these comes the list of
everything a call can do, off which every later fact is read.
-/

namespace Kvpack.Handoff

open Base Kvpack.Core

/-- A receiver starts from what the validation has returned. -/
theorem ValidatedBeginV2.exists_validate (b : ValidatedBeginV2) :
    ∃ nowUnixMs expectedKeyId minimumEpoch, validate b.manifest nowUnixMs expectedKeyId minimumEpoch = .ok b := by
  obtain ⟨m, _, ⟨nowUnixMs, expectedKeyId, minimumEpoch, hcheck⟩, rfl⟩ := b
  refine ⟨nowUnixMs, expectedKeyId, minimumEpoch, ?_⟩
  unfold validate
  split
  · rename_i e herror
    rw [hcheck] at herror
    cases herror
  · rfl

namespace AtomicReceiverV2

variable {S : Type} {C : Crypto} {H : HandoffSinkV2 S} {r r' : AtomicReceiverV2 S}

/-! ## Methods as equations -/

def close (H : HandoffSinkV2 S) (r : AtomicReceiverV2 S) : AtomicReceiverV2 S :=
  match r.state with
  | .committed | .aborted => r
  | .receiving | .prepared => { r with sink := H.abort r.sink, state := .aborted, calls := r.calls ++ [SinkCall.abort] }

theorem abort_apply (r : AtomicReceiverV2 S) : abort H r = .ok () (close H r) := by
  unfold abort close
  cases r.state <;> rfl

theorem close_of_open (h : r.state = .receiving ∨ r.state = .prepared) :
    close H r = { r with sink := H.abort r.sink, state := .aborted, calls := r.calls ++ [SinkCall.abort] } := by
  unfold close
  rcases h with h | h <;> rw [h]

theorem close_of_settled (h : r.state = .committed ∨ r.state = .aborted) : close H r = r := by
  unfold close
  rcases h with h | h <;> rw [h]

theorem fail_apply {α : Type} (message : String) (r : AtomicReceiverV2 S) :
    (fail H message : ReceiverM S α) r = .error (.validation message) (close H r) := by
  rw [fail, bind_of_ok (abort_apply r)]
  rfl

theorem onError_abort {α : Type} {x : ReceiverM S α} {e : HandoffError} (h : x r = .error e r') :
    onError x (abort H) r = .error e (close H r') :=
  (onError_of_error h).trans (congrArg (fun result => EStateM.Result.error e (finalState result)) (abort_apply r'))

theorem callSink_of_ok {α : Type} {call : Bool → SinkCall} {method : S → Except HandoffError α × S} {a : α} {sink : S}
    (h : method r.sink = (.ok a, sink)) :
    callSink call method r = .ok a { r with sink, calls := r.calls ++ [call true] } := by
  unfold callSink
  rw [h]

theorem callSink_of_error {α : Type} {call : Bool → SinkCall} {method : S → Except HandoffError α × S}
    {e : HandoffError} {sink : S} (h : method r.sink = (.error e, sink)) :
    callSink call method r = .error e { r with sink, calls := r.calls ++ [call false] } := by
  unfold callSink
  rw [h]

def taken (r : AtomicReceiverV2 S) (descriptor : SegmentDescriptorV2) (payload : Bytes) : AtomicReceiverV2 S :=
  { r with descriptorHash := r.descriptorHash ++ descriptor.toJson.canonical, payloadHash := r.payloadHash ++ payload }

def handed (r : AtomicReceiverV2 S) (descriptor : SegmentDescriptorV2) (payload : Bytes) (total : UInt64) (sink : S)
    (ok : Bool) : AtomicReceiverV2 S :=
  { taken r descriptor payload with total, sink, calls := r.calls ++ [SinkCall.segmentReady ⟨descriptor, payload⟩ ok] }

def accepted (r : AtomicReceiverV2 S) (descriptor : SegmentDescriptorV2) (payload : Bytes) (total : UInt64) (sink : S) :
    AtomicReceiverV2 S :=
  { handed r descriptor payload total sink true with
    seenComponents := r.seenComponents.insert descriptor.componentId, next := r.next + 1 }

theorem acceptSegment_apply (descriptor : SegmentDescriptorV2) (payload : Bytes) (r : AtomicReceiverV2 S) :
    acceptSegment C H descriptor payload r =
      if payload.length ≠ descriptor.byteLen.toNat ∨ sha256Hex C payload ≠ descriptor.sha256 then
        .error (.validation "segment length or digest mismatch") (close H r)
      else
        match checkedAdd r.total descriptor.byteLen with
        | none => .error (.validation "total byte count overflow") (taken r descriptor payload)
        | some total =>
          match H.segmentReady ⟨descriptor, payload⟩ r.sink with
          | (.ok _, sink) => .ok () (accepted r descriptor payload total sink)
          | (.error e, sink) => .error e (close H (handed r descriptor payload total sink false)) := by
  split
  · rename_i hmismatch
    have hverify : VerifiedSegmentV2.verify C descriptor payload =
        .error (.validation "segment length or digest mismatch") := by
      rw [VerifiedSegmentV2.verify, rejectIf_of hmismatch]
      rfl
    simp only [acceptSegment, hverify]
    exact bind_of_error (onError_abort rfl)
  · rename_i hmatch
    have hverify : VerifiedSegmentV2.verify C descriptor payload = .ok ⟨descriptor, payload⟩ := by
      rw [VerifiedSegmentV2.verify, rejectIf_of_not hmatch]
      rfl
    simp only [acceptSegment, hverify]
    refine (bind_of_ok (onError_of_ok rfl)).trans ?_
    have htaken : (modify fun r : AtomicReceiverV2 S =>
        { r with descriptorHash := r.descriptorHash ++ descriptor.toJson.canonical,
                 payloadHash := r.payloadHash ++ payload } : ReceiverM S Unit) r =
        .ok () (taken r descriptor payload) := rfl
    refine (bind_of_ok htaken).trans ((get_bind_apply _ _).trans ?_)
    cases htotal : checkedAdd r.total descriptor.byteLen with
    | none => exact bind_of_error (by rw [taken, htotal]; rfl)
    | some total =>
      have hadded : (outcome (okOr (checkedAdd (taken r descriptor payload).total descriptor.byteLen)
          (.validation "total byte count overflow")) : ReceiverM S UInt64) (taken r descriptor payload) =
          .ok total (taken r descriptor payload) := by
        rw [taken, htotal]
        rfl
      refine (bind_of_ok hadded).trans ((bind_of_ok rfl).trans ?_)
      rcases hsink : H.segmentReady ⟨descriptor, payload⟩ r.sink with ⟨result, sink⟩
      cases result with
      | ok u => exact bind_of_ok (onError_of_ok (callSink_of_ok hsink))
      | error e => exact bind_of_error (onError_abort (callSink_of_error hsink))

/-- What was delivered is what the seal speaks of, and nothing required is missing. -/
def Sealable (C : Crypto) (r : AtomicReceiverV2 S) (core : SealCoreV2) : Prop :=
  r.state = .receiving ∧ allSegments r = true ∧
    (r.begin_.manifest.deferredSegments = true →
      ∀ c ∈ r.begin_.manifest.components, c.required = true → c.id ∈ r.seenComponents) ∧
    ¬ sealMismatch C r core

theorem prepareCommit_of_not_sealable {manifest : SealManifestV2} (h : ¬ Sealable C r manifest.core) :
    ∃ message, prepareCommit C H manifest r = .error (.validation message) (close H r) := by
  have hget : prepareCommit C H manifest r = _ := get_bind_apply _ r
  rw [hget]
  split
  · exact ⟨_, fail_apply _ r⟩
  rename_i hsegments
  split
  · exact ⟨_, fail_apply _ r⟩
  rename_i hrequired
  split
  · exact ⟨_, fail_apply _ r⟩
  rename_i hmatch
  simp only [not_or, not_not, Bool.not_eq_false, not_and, not_exists] at hsegments hrequired
  exact absurd ⟨hsegments.1, hsegments.2, hrequired, hmatch⟩ h

theorem prepareCommit_of_sealable {manifest : SealManifestV2} (h : Sealable C r manifest.core) :
    prepareCommit C H manifest r =
      match validateHex "seal HMAC" manifest.hmacSha256 with
      | .error e => .error e r
      | .ok _ =>
        match verifyHex C r.key manifest.core.toJson.canonical manifest.hmacSha256 with
        | .error e => .error e (close H r)
        | .ok _ =>
          match H.prepareCommit manifest r.sink with
          | (.ok _, sink) =>
            .ok () { r with sink, state := .prepared, calls := r.calls ++ [SinkCall.prepareCommit manifest true] }
          | (.error e, sink) =>
            .error e (close H { r with sink, calls := r.calls ++ [SinkCall.prepareCommit manifest false] }) := by
  obtain ⟨hstate, hall, hrequired, hmatch⟩ := h
  have hsegments : ¬ (r.state ≠ .receiving ∨ allSegments r = false) := by simp [hstate, hall]
  have hseen : ¬ (r.begin_.manifest.deferredSegments = true ∧
      ∃ c ∈ r.begin_.manifest.components, c.required = true ∧ c.id ∉ r.seenComponents) := by
    rintro ⟨hdeferred, c, hc, hneeded, hnot⟩
    exact hnot (hrequired hdeferred c hc hneeded)
  have hget : prepareCommit C H manifest r = _ := get_bind_apply _ r
  rw [hget]
  simp only [if_neg hsegments, if_neg hseen, if_neg hmatch]
  cases validateHex "seal HMAC" manifest.hmacSha256 with
  | error e => exact bind_of_error outcome_error
  | ok u =>
    refine (bind_of_ok outcome_ok).trans ?_
    cases verifyHex C r.key manifest.core.toJson.canonical manifest.hmacSha256 with
    | error e => exact bind_of_error (onError_abort outcome_error)
    | ok u =>
      refine (bind_of_ok (onError_of_ok outcome_ok)).trans ?_
      rcases hsink : H.prepareCommit manifest r.sink with ⟨result, sink⟩
      cases result with
      | ok u => exact bind_of_ok (onError_of_ok (callSink_of_ok hsink))
      | error e => exact bind_of_error (onError_abort (callSink_of_error hsink))

theorem commit_apply (r : AtomicReceiverV2 S) :
    perform C H .commit r =
      if r.state ≠ .prepared then .error (.validation "commit before prepared seal") (close H r)
      else
        match H.commit r.sink with
        | (.ok _, sink) => .ok () { r with sink, state := .committed, calls := r.calls ++ [SinkCall.commit true] }
        | (.error e, sink) => .error e (close H { r with sink, calls := r.calls ++ [SinkCall.commit false] }) := by
  have hget : commit H r = _ := get_bind_apply _ r
  split
  · rename_i hstate
    rw [if_pos hstate] at hget
    exact bind_of_error (hget.trans (fail_apply _ r))
  · rename_i hstate
    rw [if_neg hstate] at hget
    rcases hsink : H.commit r.sink with ⟨result, sink⟩
    cases result with
    | ok generation =>
      exact bind_of_ok (hget.trans (bind_of_ok (onError_of_ok (callSink_of_ok hsink))))
    | error e => exact bind_of_error (hget.trans (bind_of_error (onError_abort (callSink_of_error hsink))))

/-! ## Everything a call can do -/

/-- The segment a call brings, and the ranges known once its descriptor is. -/
inductive Announced (r : AtomicReceiverV2 S) : Call → SegmentDescriptorV2 → Bytes → SegmentRanges → Prop
  | declared {sequence payload descriptor} : r.begin_.manifest.segments[r.next]? = some descriptor →
      descriptor.sequence = sequence → Announced r (.segmentReady sequence payload) descriptor payload r.deferredRanges
  | deferred {descriptor payload ranges} : r.begin_.manifest.deferredSegments = true →
      descriptor.sequence.toNat = r.next →
      validateSegmentDescriptor descriptor (r.begin_.manifest.components.map (·.id)) r.deferredRanges = .ok ranges →
      Announced r (.segmentReadyDeferred descriptor payload) descriptor payload ranges

/-- The payload is the one its descriptor promises. -/
def Matches (C : Crypto) (descriptor : SegmentDescriptorV2) (payload : Bytes) : Prop :=
  payload.length = descriptor.byteLen.toNat ∧ sha256Hex C payload = descriptor.sha256

inductive Performed (C : Crypto) (H : HandoffSinkV2 S) (r : AtomicReceiverV2 S) :
    Call → Except HandoffError Unit → AtomicReceiverV2 S → Prop
  | settled {call result} : r.state = .committed ∨ r.state = .aborted → Performed C H r call result r
  | closed {call result ranges} : r.state = .receiving ∨ r.state = .prepared →
      Performed C H r call result (close H { r with deferredRanges := ranges })
  | overflowed {call descriptor payload ranges e} : r.state = .receiving →
      Announced r call descriptor payload ranges → Matches C descriptor payload →
      checkedAdd r.total descriptor.byteLen = none →
      Performed C H r call (.error e) (taken { r with deferredRanges := ranges } descriptor payload)
  | accepted {call descriptor payload ranges total sink} : r.state = .receiving →
      Announced r call descriptor payload ranges → Matches C descriptor payload →
      checkedAdd r.total descriptor.byteLen = some total →
      H.segmentReady ⟨descriptor, payload⟩ r.sink = (.ok (), sink) →
      Performed C H r call (.ok ()) (accepted { r with deferredRanges := ranges } descriptor payload total sink)
  | rejected {call descriptor payload ranges total sink e} : r.state = .receiving →
      Announced r call descriptor payload ranges → Matches C descriptor payload →
      checkedAdd r.total descriptor.byteLen = some total →
      Performed C H r call (.error e)
        (close H (handed { r with deferredRanges := ranges } descriptor payload total sink false))
  | unsealed {manifest e} : Sealable C r manifest.core → validateHex "seal HMAC" manifest.hmacSha256 = .error e →
      Performed C H r (.prepareCommit manifest) (.error e) r
  | prepared {manifest sink} : Sealable C r manifest.core →
      verifyHex C r.key manifest.core.toJson.canonical manifest.hmacSha256 = .ok () →
      Performed C H r (.prepareCommit manifest) (.ok ())
        { r with sink, state := .prepared, calls := r.calls ++ [SinkCall.prepareCommit manifest true] }
  | unprepared {manifest sink e} : Sealable C r manifest.core →
      Performed C H r (.prepareCommit manifest) (.error e)
        (close H { r with sink, calls := r.calls ++ [SinkCall.prepareCommit manifest false] })
  | committed {sink} : r.state = .prepared →
      Performed C H r .commit (.ok ()) { r with sink, state := .committed, calls := r.calls ++ [SinkCall.commit true] }
  | uncommitted {sink e} : r.state = .prepared →
      Performed C H r .commit (.error e) (close H { r with sink, calls := r.calls ++ [SinkCall.commit false] })

theorem open_or_settled (r : AtomicReceiverV2 S) :
    (r.state = .receiving ∨ r.state = .prepared) ∨ r.state = .committed ∨ r.state = .aborted := by
  cases r.state with
  | receiving => exact .inl (.inl rfl)
  | prepared => exact .inl (.inr rfl)
  | committed => exact .inr (.inl rfl)
  | aborted => exact .inr (.inr rfl)

theorem performed_close {call : Call} {result : Except HandoffError Unit} :
    Performed C H r call result (close H r) := by
  rcases open_or_settled r with hopen | hsettled
  · exact .closed hopen
  · rw [close_of_settled hsettled]
    exact .settled hsettled

theorem performed_acceptSegment {call : Call} {descriptor : SegmentDescriptorV2} {payload : Bytes}
    {ranges : SegmentRanges} (hstate : r.state = .receiving) (h : Announced r call descriptor payload ranges) :
    let result := acceptSegment C H descriptor payload { r with deferredRanges := ranges }
    Performed C H r call (resultOf result) (finalState result) := by
  rw [acceptSegment_apply]
  split
  · exact .closed (.inl hstate)
  · rename_i hmismatch
    have hmatch : Matches C descriptor payload := by
      simpa only [Matches, not_or, not_not] using hmismatch
    cases htotal : checkedAdd r.total descriptor.byteLen with
    | none => exact .overflowed hstate h hmatch htotal
    | some total =>
      rcases hsink : H.segmentReady ⟨descriptor, payload⟩ r.sink with ⟨result, sink⟩
      cases result with
      | ok u => exact .accepted hstate h hmatch htotal hsink
      | error e => exact .rejected hstate h hmatch htotal

theorem Announced.perform_eq {call : Call} {descriptor : SegmentDescriptorV2} {payload : Bytes} {ranges : SegmentRanges}
    (h : Announced r call descriptor payload ranges) (hstate : r.state = .receiving) :
    perform C H call r = acceptSegment C H descriptor payload { r with deferredRanges := ranges } := by
  cases h with
  | declared hget hsequence =>
    have hopen : ¬ r.state ≠ .receiving := not_not.mpr hstate
    have hcalled : ¬ descriptor.sequence ≠ _ := not_not.mpr hsequence
    simp only [perform, segmentReady, get_bind_apply, if_neg hopen, hget, if_neg hcalled]
  | deferred hmode hnext hvalidate =>
    have hopen : ¬ (r.state ≠ .receiving ∨ r.begin_.manifest.deferredSegments = false) := by simp [hstate, hmode]
    have hcalled : ¬ descriptor.sequence.toNat ≠ r.next := not_not.mpr hnext
    simp only [perform, segmentReadyDeferred, get_bind_apply, if_neg hopen, if_neg hcalled, hvalidate]
    rfl

theorem performed (r : AtomicReceiverV2 S) (call : Call) :
    Performed C H r call (resultOf (perform C H call r)) (step C H r call) := by
  have hclose : ∀ result, Performed C H r call result (close H r) := fun _ => performed_close
  have hfail (message : String) :
      let result := (fail H message : ReceiverM S Unit) r
      Performed C H r call (resultOf result) (finalState result) := by
    rw [fail_apply]
    exact hclose _
  unfold step
  cases call with
  | segmentReady sequence payload =>
    have hget : perform C H (.segmentReady sequence payload) r = _ := get_bind_apply _ r
    rw [hget]
    split
    · exact hfail _
    rename_i hstate
    cases hdescriptor : r.begin_.manifest.segments[r.next]? with
    | none => exact hfail _
    | some descriptor =>
      dsimp only
      split
      · exact hfail _
      rename_i hsequence
      exact performed_acceptSegment (not_not.mp hstate) (.declared hdescriptor (not_not.mp hsequence))
  | segmentReadyDeferred descriptor payload =>
    have hget : perform C H (.segmentReadyDeferred descriptor payload) r = _ := get_bind_apply _ r
    rw [hget]
    split
    · exact hfail _
    rename_i hmode
    simp only [not_or, not_not, Bool.not_eq_false] at hmode
    split
    · exact hfail _
    rename_i hsequence
    dsimp only
    cases hranges : validateSegmentDescriptor descriptor (r.begin_.manifest.components.map (·.id)) r.deferredRanges with
    | error e =>
      rw [bind_of_error (onError_abort outcome_error)]
      exact hclose _
    | ok ranges =>
      rw [bind_of_ok (onError_of_ok outcome_ok)]
      exact performed_acceptSegment hmode.1 (.deferred hmode.2 (not_not.mp hsequence) hranges)
  | prepareCommit manifest =>
    simp only [perform]
    by_cases hsealable : Sealable C r manifest.core
    · rw [prepareCommit_of_sealable hsealable]
      cases hhex : validateHex "seal HMAC" manifest.hmacSha256 with
      | error e => exact .unsealed hsealable hhex
      | ok u =>
        cases hverify : verifyHex C r.key manifest.core.toJson.canonical manifest.hmacSha256 with
        | error e => exact hclose _
        | ok u =>
          rcases H.prepareCommit manifest r.sink with ⟨result, sink⟩
          cases result with
          | ok u => exact .prepared hsealable hverify
          | error e => exact .unprepared hsealable
    · obtain ⟨message, hresult⟩ := prepareCommit_of_not_sealable (H := H) hsealable
      rw [hresult]
      exact hclose _
  | commit =>
    rw [commit_apply]
    split
    · exact hclose _
    · rename_i hstate
      rcases H.commit r.sink with ⟨result, sink⟩
      cases result with
      | ok generation => exact .committed (not_not.mp hstate)
      | error e => exact .uncommitted (not_not.mp hstate)
  | abort =>
    simp only [perform, abort_apply]
    exact hclose _

/-- What holds of everything a call can do holds of the step. -/
theorem step_induct {call : Call} {P : AtomicReceiverV2 S → Prop}
    (h : ∀ result r', Performed C H r call result r' → P r') : P (step C H r call) := h _ _ (performed r call)

theorem step_of_settled (h : r.state = .committed ∨ r.state = .aborted) (call : Call) : step C H r call = r := by
  have hclosed : r.state ≠ .receiving ∧ r.state ≠ .prepared := by
    rcases h with h | h <;> simp [h]
  refine step_induct (P := fun r' => r' = r) fun result r' hperformed => ?_
  cases hperformed with
  | settled _ => rfl
  | closed hopen => exact absurd hopen (not_or.mpr hclosed)
  | overflowed hstate => exact absurd hstate hclosed.1
  | accepted hstate => exact absurd hstate hclosed.1
  | rejected hstate => exact absurd hstate hclosed.1
  | unsealed hsealable => exact absurd hsealable.1 hclosed.1
  | prepared hsealable => exact absurd hsealable.1 hclosed.1
  | unprepared hsealable => exact absurd hsealable.1 hclosed.1
  | committed hstate => exact absurd hstate hclosed.2
  | uncommitted hstate => exact absurd hstate hclosed.2

end AtomicReceiverV2

end Kvpack.Handoff
