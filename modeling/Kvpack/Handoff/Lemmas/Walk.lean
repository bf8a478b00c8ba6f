import Kvpack.Handoff.Lemmas.Verify

/-!
# The planes that a verifier has accepted

A stream has one plane for each layer and role. The planes accepted so far are a beginning of it, each at its own place,
and they are all of it once a seal has been accepted.
-/

namespace Kvpack.Handoff

open Base Kvpack.Core

theorem nodup_map_pair {α β γ : Type} [DecidableEq β] {l : List α} {f : α → β} {g : α → γ}
    (h : ∀ b, ((l.filter (f · = b)).map g).Nodup) : (l.map fun a => (f a, g a)).Nodup := by
  induction l with
  | nil => exact List.nodup_nil
  | cons a l ih =>
    rw [List.map_cons, List.nodup_cons]
    constructor
    · intro hmem
      obtain ⟨a', ha', heq⟩ := List.mem_map.mp hmem
      obtain ⟨hf, hg⟩ := Prod.mk.inj heq
      have hself := h (f a)
      rw [List.filter_cons_of_pos (by simp), List.map_cons, List.nodup_cons] at hself
      exact hself.1 (List.mem_map.mpr ⟨a', List.mem_filter.mpr ⟨ha', decide_eq_true hf⟩, hg⟩)
    · exact ih fun b => (((List.sublist_cons_self a l).filter _).map g).nodup (h b)

namespace BeginManifestV1

variable {m : BeginManifestV1} {limits : ValidationLimits}

theorem nodup_planesV1 (h : m.Accepted limits) (hv : m.isV2 = false) :
    (m.planesV1.map fun p => (p.layer, p.role)).Nodup := by
  rw [List.nodup_iff_getElem?_ne_getElem?]
  intro i j hij hj heq
  rw [List.length_map, length_planesV1] at hj
  have hbound : m.geometry.numLayers.toNat * 2 < 2 ^ 32 := (h.countsV1 hv).1 ▸ UInt32.toNat_lt _
  have hget {n : Nat} (hn : n < m.geometry.numLayers.toNat * 2) : (m.planesV1.map fun p => (p.layer, p.role))[n]? =
      some (UInt32.ofNat (n / 2), if n % 2 = 0 then .key else .value) := by
    have hlt : n < m.planesV1.length := length_planesV1.symm ▸ hn
    rw [List.getElem?_map, List.getElem?_eq_getElem hlt, getElem?_planesV1 (List.getElem?_eq_getElem hlt)]
    rfl
  rw [hget (by omega), hget hj, Option.some.injEq, Prod.mk.injEq] at heq
  obtain ⟨hlayer, hrole⟩ := heq
  have hhalf {n : Nat} (hn : n ≤ j) : n / 2 < 2 ^ 32 :=
    lt_of_le_of_lt (Nat.div_le_self _ _) (lt_of_le_of_lt hn (lt_trans hj hbound))
  rw [← UInt32.toNat_inj, UInt32.toNat_ofNat_of_lt' (hhalf hij.le), UInt32.toNat_ofNat_of_lt' (hhalf le_rfl)] at hlayer
  split at hrole <;> split at hrole
  · omega
  · cases hrole
  · cases hrole
  · omega

theorem nodup_planesV2 (h : m.Accepted limits) (hv : m.isV2 = true) :
    (m.planesV2.map fun p => (p.layer, p.role)).Nodup := by
  rw [planesV2, List.map_map]
  refine nodup_map_pair (f := fun entry : m.WalkEntry => entry.2.1) (g := fun entry => entry.2.2) fun layer => ?_
  cases hfilter : m.layoutWalkV2.filter (fun entry => entry.2.1 = layer) with
  | nil => exact List.nodup_nil
  | cons entry rest =>
    have hentry : entry ∈ m.layoutWalkV2.filter fun entry => entry.2.1 = layer := hfilter ▸ List.mem_cons_self
    obtain ⟨hmem, hlayer⟩ := List.mem_filter.mp hentry
    have hclass := (mem_layoutWalkV2 hmem).1
    rw [of_decide_eq_true hlayer] at hclass
    rw [← hfilter, filter_layoutWalkV2 (h.tableV2 hv).1 hclass, List.map_map]
    rcases (h.classAccepted hv entry.1).roles with hroles | hroles
    · rw [hroles]
      simp
    · rw [hroles]
      simp

theorem nodup_planes (h : m.Accepted limits) : (m.planes.map fun p => (p.layer, p.role)).Nodup := by
  unfold planes
  cases hv : m.isV2 with
  | false =>
    rw [if_neg Bool.false_ne_true]
    exact nodup_planesV1 h hv
  | true =>
    rw [if_pos rfl]
    exact nodup_planesV2 h hv

theorem place_unique (h : m.Accepted limits) {i j : Nat} {p q : PlaneSpec} (hp : m.planes[i]? = some p)
    (hq : m.planes[j]? = some q) (hlayer : p.layer = q.layer) (hrole : p.role = q.role) : i = j := by
  have hpair {n : Nat} {r : PlaneSpec} (hr : m.planes[n]? = some r) :
      (m.planes.map fun p => (p.layer, p.role))[n]? = some (r.layer, r.role) := by
    rw [List.getElem?_map, hr, Option.map_some]
  refine (List.getElem?_inj ?_ (nodup_planes h)).mp ?_
  · rw [List.length_map]
    exact (List.getElem?_eq_some_iff.mp hp).1
  · rw [hpair hp, hpair hq, hlayer, hrole]

theorem planeBytesV1_pos (h : m.Accepted limits) (hv : m.isV2 = false) : 0 < m.planeBytesV1 := by
  have hcounts := h.counts
  simp only [expectedCounts, hv, Bool.false_eq_true, ↓reduceIte, bind_eq_ok, exists_unit, rejectIf_eq_ok, not_or]
    at hcounts
  obtain ⟨-, ⟨hheads, hdim⟩, -⟩ := hcounts
  have hpos {n : UInt32} (hn : n ≠ 0) : 0 < n.toNat :=
    Nat.pos_of_ne_zero fun hzero => hn (UInt32.toNat_inj.mp hzero)
  rw [planeBytesV1]
  exact Nat.mul_pos (Nat.mul_pos (Nat.mul_pos (hpos h.cached_pos) (hpos hheads)) (hpos hdim)) (by decide)

end BeginManifestV1

variable {C : Crypto} {m : BeginManifestV1} {limits : ValidationLimits} {header : LayerHeaderV1} {payload : Bytes}
  {manifest : SealManifestV1} {planes : List VerifiedPlaneV1} {n : UInt64}

theorem PlaneRules.place (ha : m.Accepted limits) {i : Nat} {p : VerifiedPlaneV1} (h : PlaneRules C m i p)
    (hi : i < m.planes.length) :
    ∃ spec, m.planes[i]? = some spec ∧ p.header.layer = spec.layer ∧ p.header.role = spec.role ∧
      p.header.sequence.toNat = i := by
  obtain ⟨spec, hspec, hheader, -⟩ := BeginManifestV1.header_eq ha hi h.header
  have hword : i < 2 ^ 32 := lt_trans (BeginManifestV1.length_planes ha ▸ hi) (UInt32.toNat_lt _)
  refine ⟨spec, hspec, ?_, ?_, ?_⟩
  · rw [hheader]
    rfl
  · rw [hheader]
    rfl
  · rw [hheader, PlaneSpec.header, UInt32.toNat_ofNat_of_lt' hword]

theorem payloadTotal_full (ha : m.Accepted limits) (h : PlanesRules C m planes)
    (hlength : planes.length = m.planes.length) : payloadTotal planes = m.expectedPayloadBytes.toNat := by
  rw [payloadTotal, planeLengths_eq ha h hlength.le, hlength, List.take_length, BeginManifestV1.bytes_planes ha]

namespace IncrementalVerifierV1

variable {v : IncrementalVerifierV1 m}

/-- A verifier that has accepted `planes`, seen as a beginning of the stream. -/
structure Verified (C : Crypto) (limits : ValidationLimits) (planes : List VerifiedPlaneV1)
    (v : IncrementalVerifierV1 m) : Prop where
  after : After limits planes v
  rules : PlanesRules C m planes
  length : planes.length ≤ m.planes.length
  terminal : v.isSealed = true → ∃ manifest, SealRules C m planes manifest

theorem Verified.initial : Verified C limits [] (IncrementalVerifierV1.initial m limits) :=
  ⟨After.initial, nofun, Nat.zero_le _, nofun⟩

/-- Without a table the stream does not run over: the next plane would exceed the declared bytes. -/
theorem Verified.length_lt (ha : m.Accepted limits) (h : Verified C limits planes v)
    (hcheck : v.checkPlane C header payload = .ok n) : planes.length < m.planes.length := by
  obtain ⟨hrule, hn, -, hle⟩ := h.after.checkPlane_eq_ok hcheck
  refine lt_of_le_of_ne h.length fun hfull => ?_
  have hword : planes.length < 2 ^ 32 := hfull ▸ BeginManifestV1.length_planes ha ▸ UInt32.toNat_lt _
  have hvalid := hrule.header
  unfold LayerHeaderV1.validateFor at hvalid
  cases hv : m.isV2 with
  | false =>
    rw [hv, if_neg Bool.false_ne_true] at hvalid
    simp only [LayerHeaderV1.validateForV1, bind_eq_ok, exists_unit, rejectIf_eq_ok, not_or, not_not, ne_eq,
      (ha.expectedPlaneBytes hv).1, Except.ok.injEq, exists_eq_left'] at hvalid
    obtain ⟨-, hbytes, -⟩ := hvalid
    have hlength : payload.length = m.planeBytesV1 := by
      rw [hrule.length, hbytes, UInt64.toNat_ofNat_of_lt' (ha.expectedPlaneBytes hv).2]
    have hsum : n.toNat = m.expectedPayloadBytes.toNat + payload.length := by
      rw [hn, payloadTotal_append, payloadTotal_full ha h.rules hfull]
      rfl
    have hpos := BeginManifestV1.planeBytesV1_pos ha hv
    have hbound := UInt64.le_iff_toNat_le.mp hle
    omega
  | true =>
    rw [hv, if_pos rfl, LayerHeaderV1.validateForV2] at hvalid
    simp only [BeginManifestV1.expectedPlaneAt, bind_eq_ok, okOr_eq_ok, UInt32.toNat_ofNat_of_lt' hword] at hvalid
    obtain ⟨_, ⟨entry, hentry, -⟩, -⟩ := hvalid
    have hlt := (List.getElem?_eq_some_iff.mp hentry).1
    rw [BeginManifestV1.planes, if_pos hv, BeginManifestV1.planesV2, List.length_map] at hfull
    omega

theorem Verified.plane (ha : m.Accepted limits) (h : Verified C limits planes v)
    (hcheck : v.checkPlane C header payload = .ok n) :
    Verified C limits (planes ++ [⟨header, payload⟩]) (v.advance header payload n) := by
  obtain ⟨hrule, hn, hsealed, -⟩ := h.after.checkPlane_eq_ok hcheck
  refine ⟨h.after.advance hn, PlanesRules.append_singleton.mpr ⟨h.rules, hrule⟩, ?_, fun htrue => ?_⟩
  · rw [List.length_append]
    exact h.length_lt ha hcheck
  · exact absurd (hsealed.symm.trans htrue) Bool.false_ne_true

theorem Verified.seal_ok (h : Verified C limits planes v) {verified : VerifiedSealV1}
    (hcheck : v.checkSeal C manifest = .ok verified) :
    Verified C limits planes { v with isSealed := true } ∧ SealRules C m planes manifest ∧ v.isSealed = false ∧
      verified.manifest = manifest := by
  obtain ⟨hsealed, hrules, rfl⟩ := h.after.checkSeal_eq_ok.mp hcheck
  exact ⟨⟨h.after.terminal, h.rules, h.length, fun _ => ⟨manifest, hrules⟩⟩, hrules, hsealed, rfl⟩

theorem Verified.place (ha : m.Accepted limits) (h : Verified C limits planes v) {i : Nat} {p : VerifiedPlaneV1}
    (hp : planes[i]? = some p) :
    ∃ spec, m.planes[i]? = some spec ∧ p.header.layer = spec.layer ∧ p.header.role = spec.role ∧
      p.header.sequence.toNat = i :=
  (h.rules i p hp).place ha (lt_of_lt_of_le (List.getElem?_eq_some_iff.mp hp).1 h.length)

/-- A plane that is accepted now has a layer and a role that no earlier one has. -/
theorem Verified.plane_new (ha : m.Accepted limits) (h : Verified C limits planes v)
    (hcheck : v.checkPlane C header payload = .ok n) :
    ∀ p ∈ planes, ¬ (p.header.layer = header.layer ∧ p.header.role = header.role) := by
  rintro p hp ⟨hlayer, hrole⟩
  obtain ⟨i, hi⟩ := List.mem_iff_getElem?.mp hp
  obtain ⟨spec, hspec, hpl, hpr, -⟩ := h.place ha hi
  have hlast : (planes ++ [⟨header, payload⟩])[planes.length]? = some ⟨header, payload⟩ := List.getElem?_concat_length
  obtain ⟨spec', hspec', hl, hr, -⟩ := (h.plane ha hcheck).place ha hlast
  have heq := BeginManifestV1.place_unique ha hspec hspec' (hpl.symm.trans (hlayer.trans hl))
    (hpr.symm.trans (hrole.trans hr))
  exact absurd (List.getElem?_eq_some_iff.mp hi).1 (by omega)

/-- The walk is the same for every state, so a begin has one answer. -/
theorem After.isSingleRoleFrame (h : After limits planes v) (sequence : UInt32) :
    v.isSingleRoleFrame sequence = (IncrementalVerifierV1.initial m limits).isSingleRoleFrame sequence := by
  rw [IncrementalVerifierV1.isSingleRoleFrame, h.layoutWalk]
  rfl

theorem role_of_single (ha : m.Accepted limits) {sequence : UInt32} {spec other : PlaneSpec}
    (hsingle : (IncrementalVerifierV1.initial m limits).isSingleRoleFrame sequence = true)
    (hspec : m.planes[sequence.toNat]? = some spec) (hother : other ∈ m.planes) (hlayer : other.layer = spec.layer) :
    other.role = .key := by
  cases hv : m.isV2 with
  | false =>
    rw [IncrementalVerifierV1.isSingleRoleFrame] at hsingle
    simp [IncrementalVerifierV1.initial, hv] at hsingle
  | true =>
    have hplanes : m.planes = m.planesV2 := if_pos hv
    rw [hplanes, BeginManifestV1.planesV2] at hspec hother
    rw [List.getElem?_map, Option.map_eq_some_iff] at hspec
    obtain ⟨entry, hentry, rfl⟩ := hspec
    obtain ⟨entry', hentry', rfl⟩ := List.mem_map.mp hother
    have hclass := BeginManifestV1.mem_layoutWalkV2 (List.mem_of_getElem? hentry)
    have hclass' := BeginManifestV1.mem_layoutWalkV2 hentry'
    have hsame : entry'.1 = entry.1 := by
      refine (BeginManifestV1.covered_layers (ha.tableV2 hv).1).2.1 _ _ entry.2.1 ?_ hclass.1
      rw [← show entry'.2.1 = entry.2.1 from hlayer]
      exact hclass'.1
    have hlength : (m.layoutTable.get entry.1).roles.length = 1 := by
      simpa [IncrementalVerifierV1.isSingleRoleFrame, IncrementalVerifierV1.initial, hv, hentry] using hsingle
    have hroles : (m.layoutTable.get entry.1).roles = [.key] := by
      rcases (ha.classAccepted hv entry.1).roles with hroles | hroles
      · rw [hroles] at hlength
        cases hlength
      · exact hroles
    have hrole := hclass'.2
    rw [hsame, hroles, List.mem_singleton] at hrole
    exact hrole

end IncrementalVerifierV1

end Kvpack.Handoff
