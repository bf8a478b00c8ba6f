import Kvpack.Handoff.Batch
import Kvpack.Handoff.Lemmas.Planes

/-!
# The verifier against the rules for a whole stream

After any number of accepted planes the state of the verifier is a function of them, and a plane is accepted exactly
when it satisfies the rules at the next place.
-/

namespace Kvpack.Handoff

open Base Kvpack.Core

variable {C : Crypto} {m : BeginManifestV1} {limits : ValidationLimits} {header : LayerHeaderV1} {payload : Bytes}
  {manifest : SealManifestV1} {planes : List VerifiedPlaneV1} {n : UInt64}

theorem payloadTotal_append {ps ps' : List VerifiedPlaneV1} :
    payloadTotal (ps ++ ps') = payloadTotal ps + payloadTotal ps' := by
  rw [payloadTotal, List.map_append, List.sum_append]
  rfl

theorem sealOf_validateFor {ids : List UInt32} {completed : UInt64} {canary : Option CanaryRecord}
    (hlength : m.expectedLayerFrames.toNat = planes.length) (htokens : m.tokenIdsSha256 = tokenIdsSha256 C ids)
    (hids : ids.length = m.cachedTokenCount.toNat + 1) (hcreated : m.createdUnixMs ≤ completed)
    (hdeadline : completed ≤ m.deadlineUnixMs) (hcanary : (sealOf C m planes ids completed canary).canaryOk m = true)
    (hmac : m.hmacKeyId = none) :
    (sealOf C m planes ids completed canary).validateFor C m (planes.map (·.header)) m.expectedPayloadBytes
      (sha256Hex C (planes.flatMap (·.bytes))) = .ok () := by
  have hshape : (sealOf C m planes ids completed canary).hmacShapeOk m = true := by
    simp [SealManifestV1.hmacShapeOk, hmac, sealOf]
  rw [SealManifestV1.validateFor, rejectIf_eq_ok]
  simp only [hcanary, hshape, not_or, not_not, ne_eq, UInt64.not_lt, List.length_map]
  simp only [sealOf]
  simp [hlength, htokens, hids, hcreated, hdeadline]

/-- The planes of a stream keep the rules, each at its place. -/
def PlanesRules (C : Crypto) (m : BeginManifestV1) (planes : List VerifiedPlaneV1) : Prop :=
  ∀ i p, planes[i]? = some p → PlaneRules C m i p

theorem PlanesRules.append_singleton {p : VerifiedPlaneV1} :
    PlanesRules C m (planes ++ [p]) ↔ PlanesRules C m planes ∧ PlaneRules C m planes.length p := by
  constructor
  · intro h
    refine ⟨fun i q hq => h i q ?_, h _ p List.getElem?_concat_length⟩
    rw [List.getElem?_append_left (List.getElem?_eq_some_iff.mp hq).1, hq]
  · rintro ⟨h, hp⟩ i q hq
    rcases Nat.lt_trichotomy i planes.length with hlt | rfl | hgt
    · rw [List.getElem?_append_left hlt] at hq
      exact h i q hq
    · rw [List.getElem?_concat_length] at hq
      cases hq
      exact hp
    · have hlength := (List.getElem?_eq_some_iff.mp hq).1
      rw [List.length_append, List.length_singleton] at hlength
      omega

theorem PlanesRules.of_append {planes' : List VerifiedPlaneV1} (h : PlanesRules C m (planes ++ planes')) :
    PlanesRules C m planes := by
  intro i q hq
  refine h i q ?_
  rw [List.getElem?_append_left (List.getElem?_eq_some_iff.mp hq).1, hq]

/-- The length of a plane that keeps the rules is the declared one. -/
theorem PlaneRules.length_eq (ha : m.Accepted limits) {i : Nat} {p : VerifiedPlaneV1} (h : PlaneRules C m i p)
    (hi : i < m.planes.length) :
    ∃ spec, m.planes[i]? = some spec ∧ p.bytes.length = spec.bytes ∧ p.header.byteLength ≤ limits.maxFrameBytes := by
  obtain ⟨spec, hspec, hheader, -⟩ := BeginManifestV1.header_eq ha hi h.header
  obtain ⟨hlt, hle⟩ := BeginManifestV1.bytes_le ha (List.mem_of_getElem? hspec)
  have hbytes : p.header.byteLength.toNat = spec.bytes := by
    rw [hheader, PlaneSpec.header, UInt64.toNat_ofNat_of_lt' hlt]
  exact ⟨spec, hspec, h.length.trans hbytes, UInt64.le_iff_toNat_le.mpr (hbytes ▸ hle)⟩

theorem planeLengths_eq (ha : m.Accepted limits) (h : PlanesRules C m planes)
    (hlength : planes.length ≤ m.planes.length) :
    planes.map (·.bytes.length) = (m.planes.take planes.length).map (·.bytes) := by
  refine List.ext_getElem? fun i => ?_
  rw [List.getElem?_map, List.getElem?_map]
  by_cases hi : i < planes.length
  · obtain ⟨spec, hspec, hbytes, -⟩ := (h i _ (List.getElem?_eq_getElem hi)).length_eq ha (by omega)
    rw [List.getElem?_eq_getElem hi, List.getElem?_take_of_lt hi, hspec]
    exact congrArg some hbytes
  · rw [List.getElem?_eq_none (by omega), List.getElem?_eq_none (by rw [List.length_take]; omega)]
    rfl

theorem payloadTotal_le (ha : m.Accepted limits) (h : PlanesRules C m planes)
    (hlength : planes.length ≤ m.planes.length) : payloadTotal planes ≤ m.expectedPayloadBytes.toNat := by
  rw [payloadTotal, planeLengths_eq ha h hlength, ← BeginManifestV1.bytes_planes ha]
  exact ((List.take_sublist _ _).map _).sum_le_sum fun _ _ => Nat.zero_le _

namespace IncrementalVerifierV1

variable {v v' : IncrementalVerifierV1 m}

def advance (v : IncrementalVerifierV1 m) (header : LayerHeaderV1) (payload : Bytes) (n : UInt64) :
    IncrementalVerifierV1 m :=
  { v with
    headers := v.headers ++ [header]
    payloadBytes := n
    payloadHash := v.payloadHash.update payload
    descriptorHash := (v.descriptorHash.update header.toJson.canonical).update (utf8 "\n")
    artifactPrefixHash := (v.artifactPrefixHash.update header.toJson.canonical).update (utf8 "\n") }

theorem verifyPlane_apply : verifyPlane C header payload v =
    match v.checkPlane C header payload with
    | .ok n => .ok ⟨header, payload⟩ (v.advance header payload n)
    | .error e => .error e v := by
  rw [verifyPlane, get_bind_apply, bind_apply]
  cases v.checkPlane C header payload <;> rfl

theorem verifySeal_apply : verifySeal C manifest v =
    match v.checkSeal C manifest with
    | .ok verified => .ok verified { v with isSealed := true }
    | .error e => .error e v := by
  rw [verifySeal, get_bind_apply, bind_apply]
  cases v.checkSeal C manifest <;> rfl

theorem verifyPlane_eq_ok {plane : VerifiedPlaneV1} (h : verifyPlane C header payload v = .ok plane v') :
    plane = ⟨header, payload⟩ ∧ ∃ n, v.checkPlane C header payload = .ok n ∧ v' = v.advance header payload n := by
  rw [verifyPlane_apply] at h
  split at h
  · rename_i n hcheck
    cases h
    exact ⟨rfl, n, hcheck, rfl⟩
  · cases h

theorem verifyPlane_eq_error {e : HandoffError} (h : verifyPlane C header payload v = .error e v') : v' = v := by
  rw [verifyPlane_apply] at h
  split at h
  · cases h
  · cases h
    rfl

/-! ## The state after some planes -/

/-- The verifier has accepted `planes` and nothing else. -/
structure After (limits : ValidationLimits) (planes : List VerifiedPlaneV1) (v : IncrementalVerifierV1 m) : Prop where
  limits : v.limits = limits
  layoutWalk : v.layoutWalk = if m.isV2 then some m.layoutWalkV2 else none
  headers : v.headers = planes.map (·.header)
  payloadBytes : v.payloadBytes.toNat = payloadTotal planes
  payloadHash : v.payloadHash.absorbed = planes.flatMap (·.bytes)
  descriptorHash : v.descriptorHash.absorbed =
    utf8 "kvpack-live-descriptor-chain-v1\x00" ++ headerBytes (planes.map (·.header))
  artifactPrefixHash : v.artifactPrefixHash.absorbed =
    utf8 "kvpack-live-artifact-v1\x00" ++ m.toJson.canonical ++ utf8 "\n" ++ headerBytes (planes.map (·.header))

theorem After.initial : After limits [] (initial m limits) where
  limits := rfl
  layoutWalk := rfl
  headers := rfl
  payloadBytes := rfl
  payloadHash := rfl
  descriptorHash := by simp [IncrementalVerifierV1.initial, Hasher.update, Hasher.new, headerBytes]
  artifactPrefixHash := by simp [IncrementalVerifierV1.initial, Hasher.update, Hasher.new, headerBytes]

theorem After.terminal (h : After limits planes v) : After limits planes { v with isSealed := true } :=
  ⟨h.limits, h.layoutWalk, h.headers, h.payloadBytes, h.payloadHash, h.descriptorHash, h.artifactPrefixHash⟩

/-- The walk kept by the verifier tells the same as one listed anew. -/
theorem After.validateNextHeader (h : After limits planes v) :
    v.validateNextHeader header = v.validateNextHeaderAnew header := by
  unfold IncrementalVerifierV1.validateNextHeader validateNextHeaderAnew LayerHeaderV1.validateFor
  rw [h.layoutWalk]
  cases hv : m.isV2 with
  | false => rfl
  | true =>
    simp only [↓reduceIte, LayerHeaderV1.validateForV2, BeginManifestV1.expectedPlaneAt, bind_assoc, pure_bind]

theorem After.checkPlane_eq_ok (h : After limits planes v) (hcheck : v.checkPlane C header payload = .ok n) :
    PlaneRules C m planes.length ⟨header, payload⟩ ∧ n.toNat = payloadTotal (planes ++ [⟨header, payload⟩]) ∧
      v.isSealed = false ∧ n ≤ m.expectedPayloadBytes := by
  simp only [checkPlane, h.validateNextHeader, validateNextHeaderAnew, bind_eq_ok, exists_unit, rejectIf_eq_ok,
    okOr_eq_ok, u32TryFrom, Option.ite_none_right_eq_some, Option.some.injEq, checkedAdd_eq_some, pure_eq_ok, not_or,
    not_not, ne_eq, Bool.not_eq_true, UInt64.not_lt] at hcheck
  obtain ⟨hsealed, sequence, ⟨hlt, rfl⟩, ⟨-, hvalid, -⟩, ⟨-, hlength, hdigest⟩, hfinite, next, hnext, ⟨-, hle⟩, rfl⟩ :=
    hcheck
  have hposition : v.nextSequence = UInt32.ofNat planes.length := by
    rw [nextSequence, u32TryFrom, if_pos hlt, Option.getD_some, h.headers, List.length_map]
  rw [hposition] at hvalid
  refine ⟨⟨hvalid, hdigest, hlength, fun hprerope hkey => ?_⟩, ?_, hsealed, hle⟩
  · rwa [checkFinite, if_pos ⟨hprerope, hkey⟩] at hfinite
  · rw [hnext, h.payloadBytes, ← hlength, payloadTotal_append]
    rfl

theorem After.advance (h : After limits planes v) (hn : n.toNat = payloadTotal (planes ++ [⟨header, payload⟩])) :
    After limits (planes ++ [⟨header, payload⟩]) (v.advance header payload n) where
  limits := h.limits
  layoutWalk := h.layoutWalk
  headers := by rw [IncrementalVerifierV1.advance, h.headers, List.map_append, List.map_singleton]
  payloadBytes := hn
  payloadHash := by simp [IncrementalVerifierV1.advance, h.payloadHash]
  descriptorHash := by
    simp [IncrementalVerifierV1.advance, h.descriptorHash, headerBytes]
  artifactPrefixHash := by
    simp [IncrementalVerifierV1.advance, h.artifactPrefixHash, headerBytes]

theorem After.checkSeal_eq_ok (h : After limits planes v) {verified : VerifiedSealV1} :
    v.checkSeal C manifest = .ok verified ↔
      v.isSealed = false ∧ SealRules C m planes manifest ∧
        verified = ⟨manifest, m.transferId, descriptorChainSha256 C (planes.map (·.header)),
          sha256Hex C (planes.flatMap (·.bytes))⟩ := by
  have hdescriptor : v.descriptorHash.finalizeHex C = descriptorChainSha256 C (planes.map (·.header)) := by
    rw [Hasher.finalizeHex, h.descriptorHash, descriptorChainSha256]
  have hpayload : v.payloadHash.finalizeHex C = sha256Hex C (planes.flatMap (·.bytes)) := by
    rw [Hasher.finalizeHex, h.payloadHash]
  have hartifact : (v.artifactPrefixHash.update manifest.core.toJson.canonical).finalizeHex C =
      artifactSha256 C m (planes.map (·.header)) manifest.core := by
    rw [Hasher.finalizeHex, Hasher.update, h.artifactPrefixHash, artifactSha256]
  have hseal (total : UInt64) : manifest.validateFor C m (planes.map (·.header)) total
      (sha256Hex C (planes.flatMap (·.bytes))) = .ok () →
      artifactSha256 C m (planes.map (·.header)) manifest.core = manifest.artifactSha256 := by
    intro hvalid
    simp only [SealManifestV1.validateFor, rejectIf_eq_ok, not_or, not_not, ne_eq] at hvalid
    exact hvalid.2.2.2.2.2.2.2.2.2.2.2.2.2.2.2.1.symm
  simp only [checkSeal, bind_eq_ok, exists_unit, rejectIf_eq_ok, pure_eq_ok, not_or, not_not, ne_eq, Bool.not_eq_true,
    hdescriptor, hpayload, hartifact, h.headers]
  constructor
  · rintro ⟨hsealed, -, hvalid, -, rfl⟩
    exact ⟨hsealed, ⟨v.payloadBytes, h.payloadBytes, hvalid⟩, rfl⟩
  · rintro ⟨hsealed, ⟨total, htotal, hvalid⟩, rfl⟩
    obtain rfl : total = v.payloadBytes := UInt64.toNat_inj.mp (htotal.trans h.payloadBytes.symm)
    exact ⟨hsealed, trivial, hvalid, ⟨hseal _ hvalid, trivial⟩, rfl⟩

/-! ## Acceptance -/

/-- A plane that keeps the rules is accepted while the stream has room. -/
theorem After.checkPlane_ok (ha : m.Accepted limits) (h : After limits planes v) (hsealed : v.isSealed = false)
    (hrules : PlanesRules C m (planes ++ [⟨header, payload⟩])) (hlt : planes.length < m.planes.length) :
    ∃ n, v.checkPlane C header payload = .ok n := by
  have hnext := (PlanesRules.append_singleton.mp hrules).2
  have hword : planes.length < 2 ^ 32 := by
    rw [BeginManifestV1.length_planes ha] at hlt
    exact lt_trans hlt (UInt32.toNat_lt _)
  have hsequence : u32TryFrom v.headers.length = some (UInt32.ofNat planes.length) := by
    rw [h.headers, List.length_map, u32TryFrom, if_pos hword]
  have htotal : payloadTotal (planes ++ [⟨header, payload⟩]) ≤ m.expectedPayloadBytes.toNat := by
    refine payloadTotal_le ha hrules ?_
    rw [List.length_append]
    exact hlt
  have hadd : v.payloadBytes.toNat + header.byteLength.toNat = payloadTotal (planes ++ [⟨header, payload⟩]) := by
    rw [h.payloadBytes, ← hnext.length, payloadTotal_append]
    rfl
  have hfits : v.payloadBytes.toNat + header.byteLength.toNat < 2 ^ 64 :=
    hadd ▸ lt_of_le_of_lt htotal (UInt64.toNat_lt _)
  have hexpected : v.payloadBytes + header.byteLength ≤ m.expectedPayloadBytes := by
    rw [UInt64.le_iff_toNat_le, toNat_add_of_lt hfits, hadd]
    exact htotal
  have hfinite : checkFinite m header payload = .ok () := by
    unfold checkFinite
    split
    · rename_i hkey
      exact hnext.finite hkey.1 hkey.2
    · rfl
  obtain ⟨-, -, -, hframe⟩ := hnext.length_eq ha hlt
  have hvalid : v.validateNextHeaderAnew header = .ok () := by
    simp only [validateNextHeaderAnew, bind_eq_ok, exists_unit, rejectIf_eq_ok, hsealed, Bool.false_eq_true,
      not_false_eq_true, true_and, nextSequence, hsequence, Option.getD_some, h.limits, UInt64.not_lt]
    exact ⟨hnext.header, hframe⟩
  refine ⟨v.payloadBytes + header.byteLength, ?_⟩
  simp only [checkPlane, h.validateNextHeader, hvalid, bind_eq_ok, exists_unit, rejectIf_eq_ok, okOr_eq_ok, hsequence,
    Option.some.injEq, exists_eq_left', hfinite, checkedAdd_isSome hfits, pure_eq_ok, not_or, not_not, ne_eq,
    UInt64.not_lt, h.limits, hsealed, Bool.false_eq_true, not_false_eq_true, true_and, and_true]
  exact ⟨⟨hframe, hnext.length, hnext.digest⟩, UInt64.le_trans hexpected ha.total_le, hexpected⟩

theorem After.verifyPlanes_eq_ok {done : List VerifiedPlaneV1} (h : After limits done v) (hrules : PlanesRules C m done)
    (hrun : verifyPlanes C planes v = .ok () v') :
    After limits (done ++ planes) v' ∧ PlanesRules C m (done ++ planes) ∧ v'.isSealed = v.isSealed := by
  induction planes generalizing v done with
  | nil =>
    cases hrun
    rw [List.append_nil]
    exact ⟨h, hrules, rfl⟩
  | cons p planes ih =>
    rw [verifyPlanes, bind_apply] at hrun
    split at hrun
    · rename_i plane v₁ hplane
      obtain ⟨-, n, hcheck, rfl⟩ := verifyPlane_eq_ok hplane
      obtain ⟨hrule, hn, -⟩ := h.checkPlane_eq_ok hcheck
      have hnext := ih (h.advance hn) (PlanesRules.append_singleton.mpr ⟨hrules, hrule⟩) hrun
      rwa [List.append_assoc] at hnext
    · cases hrun

theorem After.verifyPlanes_ok {done : List VerifiedPlaneV1} (ha : m.Accepted limits) (h : After limits done v)
    (hsealed : v.isSealed = false) (hrules : PlanesRules C m (done ++ planes))
    (hlength : (done ++ planes).length ≤ m.planes.length) :
    ∃ v', verifyPlanes C planes v = .ok () v' ∧ After limits (done ++ planes) v' ∧ v'.isSealed = false := by
  induction planes generalizing v done with
  | nil =>
    refine ⟨v, rfl, ?_, hsealed⟩
    rwa [List.append_nil]
  | cons p planes ih =>
    have hsplit : done ++ p :: planes = (done ++ [p]) ++ planes := by simp
    rw [hsplit] at hrules hlength ⊢
    have hlt : done.length < m.planes.length := by
      simp only [List.length_append, List.length_singleton] at hlength
      omega
    obtain ⟨n, hcheck⟩ := h.checkPlane_ok ha hsealed hrules.of_append hlt
    obtain ⟨-, hn, -⟩ := h.checkPlane_eq_ok hcheck
    obtain ⟨v', hrun, hafter⟩ := ih (h.advance hn) hsealed hrules hlength
    refine ⟨v', ?_, hafter⟩
    rw [verifyPlanes, bind_apply, verifyPlane_apply, hcheck]
    exact hrun

theorem length_of_sealRules (ha : m.Accepted limits) (h : SealRules C m planes manifest) :
    planes.length = m.planes.length := by
  obtain ⟨total, -, hvalid⟩ := h
  simp only [SealManifestV1.validateFor, rejectIf_eq_ok, not_or, not_not, ne_eq, List.length_map] at hvalid
  obtain ⟨-, -, -, -, hframes, hcount, -⟩ := hvalid
  rw [← hcount, hframes, BeginManifestV1.length_planes ha]

theorem verifyStream_succeeds_iff (ha : m.Accepted limits) :
    succeeded (verifyStream C planes manifest (initial m limits)) = true ↔ StreamRules C m planes manifest := by
  have hnone : PlanesRules C m [] := nofun
  constructor
  · intro h
    rw [verifyStream, bind_apply] at h
    split at h
    · rename_i v₁ hrun
      obtain ⟨hafter, hrules, -⟩ := After.initial.verifyPlanes_eq_ok hnone hrun
      rw [verifySeal_apply] at h
      split at h
      · rename_i hcheck
        exact ⟨hrules, (hafter.checkSeal_eq_ok.mp hcheck).2.1⟩
      · cases h
    · cases h
  · rintro ⟨hrules, hseal⟩
    obtain ⟨v₁, hrun, hafter, hsealed⟩ := After.initial.verifyPlanes_ok ha rfl hrules (length_of_sealRules ha hseal).le
    rw [verifyStream, bind_apply, hrun]
    have hcheck := hafter.checkSeal_eq_ok.mpr ⟨hsealed, hseal, rfl⟩
    simp only [verifySeal_apply]
    rw [List.nil_append] at hcheck
    rw [hcheck]
    rfl

/-- Whatever calls are made, the verifier has accepted some planes and nothing else. -/
theorem After.call (h : After limits planes v) (c : Call) : ∃ planes', After limits planes' (v.call C c) := by
  cases c with
  | plane header payload =>
    rw [IncrementalVerifierV1.call, verifyPlane_apply]
    split
    · rename_i n hcheck
      exact ⟨_, h.advance (h.checkPlane_eq_ok hcheck).2.1⟩
    · exact ⟨planes, h⟩
  | terminal manifest =>
    rw [IncrementalVerifierV1.call, verifySeal_apply]
    split
    · exact ⟨planes, h.terminal⟩
    · exact ⟨planes, h⟩

end IncrementalVerifierV1

end Kvpack.Handoff
