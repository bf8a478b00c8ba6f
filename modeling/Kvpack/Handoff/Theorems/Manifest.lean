import Kvpack.Handoff.Lemmas.Planes

/-!
# An accepted begin describes one stream
-/

namespace Kvpack.Handoff.BeginManifestV1

open Base

variable {m : BeginManifestV1} {limits : ValidationLimits}

theorem rolesV1 (hv : m.isV2 = false) (layer : UInt32) (hlayer : layer < m.geometry.numLayers) :
    (m.planes.filter (·.layer = layer)).map (·.role) = [.key, .value] := by
  have hlt : layer.toNat < m.geometry.numLayers.toNat := UInt32.lt_iff_toNat_lt.mp hlayer
  rw [planes, if_neg (by simp [hv]), planesV1, List.filter_flatMap,
    flatMap_eq_of_nodup List.nodup_range (List.mem_range.mpr hlt)]
  · simp [planeV1]
  · intro other hother hne
    have hbound := m.geometry.numLayers.toNat_lt
    rw [List.mem_range] at hother
    have hdiffer : UInt32.ofNat other ≠ layer := by
      rintro rfl
      rw [UInt32.toNat_ofNat_of_lt' (lt_trans hother hbound)] at hne
      exact hne rfl
    simp [planeV1, hdiffer]

theorem planes_schedule :
    List.Perm { m with schedule := some wireScheduleDecodePriority }.planes { m with schedule := none }.planes := by
  unfold planes
  split
  · rename_i hv
    rw [if_pos (show BeginManifestV1.isV2 { m with schedule := none } = true from hv)]
    exact (layoutWalkV2_perm (m := { m with schedule := some wireScheduleDecodePriority })).map _ |>.trans
      ((layoutWalkV2_perm (m := { m with schedule := none })).map _).symm
  · rename_i hv
    rw [if_neg (show ¬ BeginManifestV1.isV2 { m with schedule := none } = true from hv)]
    exact List.Perm.refl _

/-- Whatever passes validation describes exactly one stream, consistently. -/
theorem validate_consistent (h : m.validate limits = .ok ()) : m.Consistent := by
  have ha := accepted_of_validate h
  cases hv : m.isV2 with
  | false =>
    have hplanes : m.planes = m.planesV1 := if_neg (by simp [hv])
    refine ⟨length_planes ha, bytes_planes ha, ?_, fun _ => rolesV1 hv, fun htrue =>
      absurd (hv.symm.trans htrue) Bool.false_ne_true, fun i p hp digest hdigest tag htag position =>
      header_valid ha hp hdigest htag position, planes_schedule⟩
    · intro p hp
      rw [hplanes] at hp
      obtain ⟨i, hi⟩ := List.mem_iff_getElem?.mp hp
      have hlt : i < m.geometry.numLayers.toNat * 2 := length_planesV1 ▸ (List.getElem?_eq_some_iff.mp hi).1
      have hbound := m.geometry.numLayers.toNat_lt
      have hhalf : i / 2 < m.geometry.numLayers.toNat := by omega
      rw [getElem?_planesV1 hi, planeV1, UInt32.lt_iff_toNat_lt, UInt32.toNat_ofNat_of_lt' (lt_trans hhalf hbound)]
      exact hhalf
  | true =>
    have hplanes : m.planes = m.planesV2 := if_pos hv
    have htable := (ha.tableV2 hv).1
    obtain ⟨-, hunique, hcover⟩ := covered_layers htable
    refine ⟨length_planes ha, bytes_planes ha, ?_, fun hfalse => absurd (hfalse.symm.trans hv) Bool.false_ne_true,
      fun _ layer hlayer => ?_, fun i p hp digest hdigest tag htag position =>
      header_valid ha hp hdigest htag position, planes_schedule⟩
    · intro p hp
      rw [hplanes, planesV2, List.mem_map] at hp
      obtain ⟨entry, hentry, rfl⟩ := hp
      exact (hcover _).mpr ⟨entry.1, (mem_layoutWalkV2 hentry).1⟩
    · obtain ⟨i, hi⟩ := (hcover layer).mp hlayer
      refine ⟨i, fun j => ⟨fun hj => hunique j i layer hj hi, fun hj => hj ▸ hi⟩, ?_, ?_⟩
      · rcases (ha.classAccepted hv i).roles with hroles | hroles <;> rw [hroles] <;> decide
      · rw [hplanes, planesV2, List.filter_map]
        refine (congrArg (List.map _) (filter_layoutWalkV2 htable hi)).trans ?_
        rw [List.map_map]
        rfl

/-- Three layers: two with all tokens and one with a window, which is sent first. -/
def windowed : BeginManifestV1 where
  cachedTokenCount := 2
  createdUnixMs := 100
  deadlineUnixMs := 200
  endpoints := ⟨"ferrite-v1", "mac", "vllm-v1", "spark", "lab"⟩
  expectedLayerFrames := 6
  expectedPayloadBytes := 20
  geometry := ⟨0, 8, 0, 3⟩
  identity := ⟨String.ofList (List.replicate 64 '0'), String.ofList (List.replicate 64 '1'),
    String.ofList (List.replicate 64 '2'), "repo@rev", String.ofList (List.replicate 64 '3'), "repo@rev",
    String.ofList (List.replicate 64 '4')⟩
  portableAbi := portableKvAbiV2
  precision := ⟨"float16", "float16", "q4_k_m"⟩
  protocol := liveHandoffProtocolV1
  schemaVersion := liveHandoffSchemaV1
  strategy := .consumerLastPromptToken
  tokenIdsSha256 := String.ofList (List.replicate 64 '5')
  transferId := String.ofList (List.replicate 64 '6')
  layoutTable := [⟨"full", "float16", [], 0, 1, 1, [.key, .value], 2, 3, 0⟩,
    ⟨"window", "float16", [], 1, 1, 1, [.key, .value], 1, 2, 1⟩]
  schedule := some wireScheduleDecodePriority
  hmacKeyId := none

theorem windowed_consistent :
    windowed.validate { ValidationLimits.default with nowUnixMs := 100 } = .ok () ∧ windowed.Consistent := by
  have h : windowed.validate { ValidationLimits.default with nowUnixMs := 100 } = .ok () := by decide
  exact ⟨h, validate_consistent h⟩

end Kvpack.Handoff.BeginManifestV1
