import Kvpack.Base.Run
import Kvpack.Handoff.Lemmas.Verify

/-!
# The incremental verifier accepts what the rules for a whole stream accept
-/

namespace Kvpack.Handoff.IncrementalVerifierV1

open Base Kvpack.Core

variable {C : Crypto} {m : BeginManifestV1} {limits : ValidationLimits} {v : IncrementalVerifierV1 m}

/-- The verdict on a stream is that of the rules; a rejected plane changes nothing, and a walk listed anew gives the
same verdict on a header. -/
theorem verifier_agrees (h : IncrementalVerifierV1.new m limits = .ok v) :
    (∀ planes manifest, succeeded (verifyStream C planes manifest v) = true ↔ StreamRules C m planes manifest) ∧
      ∀ calls : List Call,
        (∀ header payload e v', verifyPlane C header payload (run (call C) v calls) = .error e v' →
          v' = run (call C) v calls) ∧
        ∀ header, (run (call C) v calls).validateNextHeader header =
          (run (call C) v calls).validateNextHeaderAnew header := by
  simp only [IncrementalVerifierV1.new, bind_eq_ok, exists_unit, pure_eq_ok] at h
  obtain ⟨hvalid, rfl⟩ := h
  refine ⟨fun planes manifest => verifyStream_succeeds_iff (BeginManifestV1.accepted_of_validate hvalid),
    fun calls => ?_⟩
  have hstep (v : IncrementalVerifierV1 m) (c : Call) (hv : ∃ planes, After limits planes v) :
      ∃ planes, After limits planes (v.call C c) := by
    obtain ⟨planes, hv⟩ := hv
    exact hv.call c
  obtain ⟨planes, hafter⟩ : ∃ planes, After limits planes (run (call C) (initial m limits) calls) :=
    run_invariant hstep ⟨[], After.initial⟩
  exact ⟨fun header payload e v' herror => verifyPlane_eq_error herror, fun header => hafter.validateNextHeader⟩

/-- A transfer of one layer with unrotated keys. -/
def prerope : BeginManifestV1 where
  cachedTokenCount := 1
  createdUnixMs := 100
  deadlineUnixMs := 200
  endpoints := ⟨"ferrite-v1", "mac", "vllm-v1", "spark", "lab"⟩
  expectedLayerFrames := 2
  expectedPayloadBytes := 6
  geometry := ⟨1, 8, 1, 1⟩
  identity := ⟨String.ofList (List.replicate 64 '0'), String.ofList (List.replicate 64 '1'),
    String.ofList (List.replicate 64 '2'), "repo@rev", String.ofList (List.replicate 64 '3'), "repo@rev",
    String.ofList (List.replicate 64 '4')⟩
  portableAbi := portableKvAbiV2Prerope
  precision := ⟨"float16", "float16", "bf16"⟩
  protocol := liveHandoffProtocolV1
  schemaVersion := liveHandoffSchemaV1
  strategy := .consumerLastPromptToken
  tokenIdsSha256 := tokenIdsSha256 checksumCrypto [7, 8]
  transferId := String.ofList (List.replicate 64 '6')
  layoutTable := [⟨"full", "float16", [], 0, 1, 1, [.key, .value], 1, 1, 0⟩]
  schedule := none
  hmacKeyId := none

def preropeLimits : ValidationLimits := { ValidationLimits.default with nowUnixMs := 100 }

/-- The two planes of the layer, the key with the given number. -/
def preropePlanes (key : Bytes) : List VerifiedPlaneV1 :=
  (prerope.planes.zip [key, [0, 0x3c]]).zipIdx.map fun entry =>
    ⟨entry.1.1.header prerope entry.2 (sha256Hex checksumCrypto entry.1.2) (entry.1.1.tags.headD none), entry.1.2⟩

def preropeSeal (planes : List VerifiedPlaneV1) : SealManifestV1 :=
  sealOf checksumCrypto prerope planes [7, 8] 150
    (some ⟨0, 1, String.ofList (List.replicate 64 'a'), String.ofList (List.replicate 64 'b')⟩)

theorem prerope_new : IncrementalVerifierV1.new prerope preropeLimits = .ok (initial prerope preropeLimits) := by
  have h : prerope.validate preropeLimits = .ok () := by decide
  rw [IncrementalVerifierV1.new, h]
  rfl

theorem preropeSeal_valid (key : Bytes) :
    (preropeSeal (preropePlanes key)).validateFor checksumCrypto prerope ((preropePlanes key).map (·.header)) 6
      (sha256Hex checksumCrypto ((preropePlanes key).flatMap (·.bytes))) = .ok () := by
  refine sealOf_validateFor rfl rfl rfl (by decide) (by decide) ?_ rfl
  simp only [SealManifestV1.canaryOk, sealOf]
  decide

theorem prerope_rules : StreamRules checksumCrypto prerope (preropePlanes [0, 0, 0x80, 0x3f])
    (preropeSeal (preropePlanes [0, 0, 0x80, 0x3f])) := by
  have hplanes : ∀ entry ∈ (preropePlanes [0, 0, 0x80, 0x3f]).zipIdx,
      entry.1.header.validateFor prerope (UInt32.ofNat entry.2) = .ok () ∧
        sha256Hex checksumCrypto entry.1.bytes = entry.1.header.sha256 ∧
        entry.1.bytes.length = entry.1.header.byteLength.toNat ∧
        (entry.1.header.role = .key → validatePreropeKeyPlaneFinite entry.1.bytes = .ok ()) := by decide
  refine ⟨fun i p hp => ?_, 6, rfl, preropeSeal_valid _⟩
  have hmem : (p, i) ∈ (preropePlanes [0, 0, 0x80, 0x3f]).zipIdx := List.mem_zipIdx_iff_getElem?.mpr hp
  obtain ⟨hheader, hdigest, hlength, hfinite⟩ := hplanes (p, i) hmem
  exact ⟨hheader, hdigest, hlength, fun _ => hfinite⟩

theorem prerope_agrees :
    IncrementalVerifierV1.new prerope preropeLimits = .ok (initial prerope preropeLimits) ∧
      StreamRules checksumCrypto prerope (preropePlanes [0, 0, 0x80, 0x3f])
        (preropeSeal (preropePlanes [0, 0, 0x80, 0x3f])) ∧
      succeeded (verifyStream checksumCrypto (preropePlanes [0, 0, 0x80, 0x3f])
        (preropeSeal (preropePlanes [0, 0, 0x80, 0x3f])) (initial prerope preropeLimits)) = true :=
  ⟨prerope_new, prerope_rules, ((verifier_agrees prerope_new).1 _ _).mpr prerope_rules⟩

/-- A key that is not a number passes every other rule and is rejected. -/
theorem prerope_nan_rejected :
    IncrementalVerifierV1.new prerope preropeLimits = .ok (initial prerope preropeLimits) ∧
      (∀ entry ∈ (preropePlanes [0, 0, 0xc0, 0x7f]).zipIdx,
        entry.1.header.validateFor prerope (UInt32.ofNat entry.2) = .ok () ∧
          sha256Hex checksumCrypto entry.1.bytes = entry.1.header.sha256) ∧
      (preropeSeal (preropePlanes [0, 0, 0xc0, 0x7f])).validateFor checksumCrypto prerope
        ((preropePlanes [0, 0, 0xc0, 0x7f]).map (·.header)) 6
        (sha256Hex checksumCrypto ((preropePlanes [0, 0, 0xc0, 0x7f]).flatMap (·.bytes))) = .ok () ∧
      succeeded (verifyStream checksumCrypto (preropePlanes [0, 0, 0xc0, 0x7f])
        (preropeSeal (preropePlanes [0, 0, 0xc0, 0x7f])) (initial prerope preropeLimits)) = false := by
  refine ⟨prerope_new, by decide, preropeSeal_valid _, ?_⟩
  have hvalid : prerope.validate preropeLimits = .ok () := by decide
  rw [← Bool.not_eq_true, verifyStream_succeeds_iff (BeginManifestV1.accepted_of_validate hvalid)]
  intro hrules
  have hnan := (hrules.plane 0 _ rfl).finite rfl rfl
  exact absurd hnan (by decide)

end Kvpack.Handoff.IncrementalVerifierV1
