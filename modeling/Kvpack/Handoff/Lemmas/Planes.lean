import Kvpack.Handoff.Planes

/-!
# Accepted begins

What a successful validation says, and that the declared stream is what the checks on single headers expect.
-/

namespace Kvpack.Handoff

open Base Kvpack.Core

variable {α β : Type} {l : List α} {f : α → List β} {values : List UInt32}

/-! ## Lists -/

/-- When all elements but one contribute nothing, the one decides. -/
theorem flatMap_eq_of_nodup {a : α} (hnodup : l.Nodup) (ha : a ∈ l)
    (hnil : ∀ b ∈ l, b ≠ a → f b = []) : l.flatMap f = f a := by
  induction l with
  | nil => cases ha
  | cons b l ih =>
    obtain ⟨hb, hl⟩ := List.nodup_cons.mp hnodup
    rw [List.flatMap_cons]
    rcases List.mem_cons.mp ha with rfl | ha
    · have hrest : l.flatMap f = [] := List.flatMap_eq_nil_iff.mpr fun c hc =>
        hnil c (List.mem_cons_of_mem _ hc) fun heq => hb (heq ▸ hc)
      rw [hrest, List.append_nil]
    · rw [hnil b List.mem_cons_self fun heq => hb (heq ▸ ha), List.nil_append]
      exact ih hl ha fun c hc => hnil c (List.mem_cons_of_mem _ hc)

theorem sum_map_flatMap {g : β → Nat} :
    ((l.flatMap f).map g).sum = (l.map fun a => ((f a).map g).sum).sum := by
  induction l with
  | nil => rfl
  | cons a l ih => rw [List.flatMap_cons, List.map_append, List.sum_append, ih, List.map_cons, List.sum_cons]

theorem sortDedup_perm (h : (sortDedup values).length = values.length) :
    (sortDedup values).Perm values := by
  have hlength : (sortDedup values).length = (values.insertionSort (· ≤ ·)).length := by
    rw [h, List.length_insertionSort]
  have hsame : sortDedup values = values.insertionSort (· ≤ ·) := (List.dedup_sublist _).eq_of_length hlength
  rw [hsame]
  exact List.perm_insertionSort _ _

theorem eq_range_of_zipIdx (h : ∀ entry ∈ values.zipIdx, entry.1 = UInt32.ofNat entry.2) :
    values = (List.range values.length).map UInt32.ofNat := by
  refine List.ext_getElem (by simp) fun i hi _ => ?_
  have hentry : (values[i], i) ∈ values.zipIdx := List.mk_mem_zipIdx_iff_getElem?.mpr (List.getElem?_eq_getElem hi)
  rw [List.getElem_map, List.getElem_range]
  exact h _ hentry

theorem checkedProdFrom_congr {ε : Type} {e e' : ε} {product result : UInt64} {values : List UInt64}
    (h : checkedProdFrom e product values = .ok result) : checkedProdFrom e' product values = .ok result := by
  induction values generalizing product with
  | nil => exact h
  | cons v vs ih =>
    simp only [checkedProdFrom, bind_eq_ok, okOr_eq_ok] at h ⊢
    obtain ⟨next, hnext, h⟩ := h
    exact ⟨next, hnext, ih h⟩

namespace BeginManifestV1

variable {m : BeginManifestV1} {limits : ValidationLimits}
variable {i : Nat} {p : PlaneSpec} {tag : Option String}
variable {digest : String} {position : UInt32} {role : TensorRoleV1} {bytes frames frames' bytes' : UInt64}

/-! ## Validation -/

/-- What the rest of the code relies on. -/
structure Accepted (m : BeginManifestV1) (limits : ValidationLimits) : Prop where
  counts : m.expectedCounts limits = .ok (m.expectedLayerFrames, m.expectedPayloadBytes)
  total_le : m.expectedPayloadBytes ≤ limits.maxTotalBytes
  frame_le : m.expectedPayloadBytes / m.expectedLayerFrames.toUInt64 ≤ limits.maxFrameBytes
  layers_pos : m.geometry.numLayers ≠ 0
  cached_pos : m.cachedTokenCount ≠ 0

theorem accepted_of_validate (h : m.validate limits = .ok ()) : m.Accepted limits := by
  simp only [validate, bind_eq_ok, exists_unit, rejectIf_eq_ok, Prod.exists, not_or, not_not, ne_eq, UInt64.not_lt] at h
  obtain ⟨-, ⟨hcached, -, -, -, hlayers, -⟩, frames, bytes, hcounts, ⟨rfl, rfl, htotal, hframe⟩, -⟩ := h
  exact ⟨hcounts, htotal, hframe, hlayers, hcached⟩

/-! ## Without a table -/

theorem Accepted.countsV1 (h : m.Accepted limits) (hv : m.isV2 = false) :
    m.expectedLayerFrames.toNat = m.geometry.numLayers.toNat * 2 ∧
      m.checkedPayloadBytes = .ok m.expectedPayloadBytes := by
  have hcounts := h.counts
  simp only [expectedCounts, hv, Bool.false_eq_true, ↓reduceIte, bind_eq_ok, exists_unit, okOr_eq_ok, pure_eq_ok,
    Prod.mk.injEq, u32TryFrom, Option.ite_none_right_eq_some, Option.some.injEq] at hcounts
  obtain ⟨-, -, frames, ⟨hlt, rfl⟩, bytes, hbytes, hframes, rfl⟩ := hcounts
  refine ⟨?_, hbytes⟩
  rw [← hframes, UInt32.toNat_ofNat_of_lt' hlt]

def planeBytesV1 (m : BeginManifestV1) : Nat :=
  m.cachedTokenCount.toNat * m.geometry.numKvHeads.toNat * m.geometry.headDim.toNat * 2

theorem length_planesV1 : m.planesV1.length = m.geometry.numLayers.toNat * 2 := by
  simp [planesV1, List.length_flatMap]

theorem bytes_planesV1 : (m.planesV1.map (·.bytes)).sum = m.geometry.numLayers.toNat * (2 * m.planeBytesV1) := by
  rw [planesV1, sum_map_flatMap]
  simp [planeV1, planeBytesV1, Nat.two_mul]

theorem getElem?_planesV1 (h : m.planesV1[i]? = some p) :
    p = m.planeV1 (i / 2) (if i % 2 = 0 then .key else .value) := by
  have hpairs : ∀ n : Nat, ((List.range n).flatMap fun layer => [m.planeV1 layer .key, m.planeV1 layer .value]) =
      (List.range (n * 2)).map fun i => m.planeV1 (i / 2) (if i % 2 = 0 then .key else .value) := by
    intro n
    induction n with
    | zero => rfl
    | succ n ih =>
      rw [List.range_succ, List.flatMap_append, ih, Nat.succ_mul, List.range_succ, List.range_succ]
      simp [Nat.add_div, Nat.add_mod]
  rw [planesV1, hpairs, List.getElem?_map, Option.map_eq_some_iff] at h
  obtain ⟨j, hj, rfl⟩ := h
  obtain ⟨hlt, rfl⟩ := List.getElem?_eq_some_iff.mp hj
  rw [List.getElem_range]

theorem Accepted.bytesV1 (h : m.Accepted limits) (hv : m.isV2 = false) :
    m.expectedPayloadBytes.toNat = m.geometry.numLayers.toNat * (2 * m.planeBytesV1) := by
  rw [checkedProdFrom_eq_ok (h.countsV1 hv).2, planeBytesV1]
  simp only [toNats, List.map_cons, List.map_nil, List.prod_cons, List.prod_nil, UInt32.toNat_toUInt64]
  rw [show (2 : UInt64).toNat = 2 from rfl]
  ring

theorem Accepted.expectedPlaneBytes (h : m.Accepted limits) (hv : m.isV2 = false) :
    m.expectedPlaneBytes = .ok (UInt64.ofNat m.planeBytesV1) ∧ m.planeBytesV1 < 2 ^ 64 := by
  obtain ⟨hframes, hbytes⟩ := h.countsV1 hv
  have hpos : 0 < m.geometry.numLayers.toNat * 2 := by
    have := mt UInt32.toNat_inj.mp h.layers_pos
    rw [UInt32.toNat_zero] at this
    omega
  have hdiv : (m.expectedPayloadBytes / m.expectedLayerFrames.toUInt64).toNat = m.planeBytesV1 := by
    rw [UInt64.toNat_div, UInt32.toNat_toUInt64, h.bytesV1 hv, hframes, ← Nat.mul_assoc, Nat.mul_div_cancel_left _ hpos]
  have hlt : m.planeBytesV1 < 2 ^ 64 := hdiv ▸ UInt64.toNat_lt _
  refine ⟨?_, hlt⟩
  rw [BeginManifestV1.expectedPlaneBytes, hbytes, ok_bind, ← hdiv, UInt64.ofNat_toNat]
  rfl

theorem header_validV1
    (h : m.Accepted limits) (hv : m.isV2 = false) (hp : m.planes[i]? = some p) (hdigest : validSha256 digest = true)
    (htag : tag ∈ p.tags) : (p.header m i digest tag).validateFor m position = .ok () ↔ position.toNat = i := by
  rw [planes, if_neg (by simp [hv])] at hp
  have hlt : i < m.geometry.numLayers.toNat * 2 := length_planesV1 ▸ (List.getElem?_eq_some_iff.mp hp).1
  have hword : i < 2 ^ 32 := lt_of_lt_of_le hlt ((h.countsV1 hv).1 ▸ (UInt32.toNat_lt _).le)
  obtain rfl := getElem?_planesV1 hp
  obtain rfl := List.mem_singleton.mp htag
  rw [LayerHeaderV1.validateFor, if_neg (by simp [hv])]
  simp only [LayerHeaderV1.validateForV1, PlaneSpec.header, planeV1, bind_eq_ok, exists_unit, rejectIf_eq_ok, not_or,
    not_not, ne_eq, (h.expectedPlaneBytes hv).1, Except.ok.injEq, exists_eq_left', hdigest, Option.isSome_none]
  constructor
  · rintro ⟨⟨-, -, hsequence, -⟩, -⟩
    rw [← hsequence, UInt32.toNat_ofNat_of_lt' hword]
  · rintro rfl
    have hlayer : UInt32.ofNat (position.toNat / 2) = position / 2 := by
      rw [← UInt32.toNat_inj, UInt32.toNat_ofNat_of_lt' (lt_of_le_of_lt (Nat.div_le_self _ _) hword),
        UInt32.toNat_div]
      rfl
    have hrole : position.toNat % 2 = 0 ↔ position % 2 = 0 := by
      rw [← UInt32.toNat_inj, UInt32.toNat_mod]
      rfl
    simp [hlayer, hrole, planeBytesV1]

/-! ## With a table -/

/-- What the checks on a class leave to rely on. -/
structure ClassAccepted (m : BeginManifestV1) (limits : ValidationLimits) (l : LayoutClassV2) : Prop where
  roles : l.roles = [.key, .value] ∨ l.roles = [.key]
  kvHeads : l.kvHeads ≠ 0
  headDim : l.headDim ≠ 0
  dtype : l.dtype = "float16"
  layers : l.layers ≠ []
  frame : ∀ role ∈ l.roles, ∃ bytes, m.perPlane l (m.planeElementBytesV2 role) = .ok bytes ∧
    bytes ≤ limits.maxFrameBytes

variable {l : LayoutClassV2} {layers : List UInt32}

theorem planeElementBytesV2_pos (role : TensorRoleV1) : 0 < (m.planeElementBytesV2 role).toNat := by
  unfold planeElementBytesV2
  split <;> decide

theorem planeElementBytesV2_le (hroles : l.roles = [.key, .value] ∨ l.roles = [.key])
    (hrole : role ∈ l.roles) :
    (m.planeElementBytesV2 role).toNat ≤ (((l.roles.map m.planeElementBytesV2).max?).getD 2).toNat := by
  rcases hroles with hroles | hroles <;> rw [hroles] at hrole ⊢ <;> cases hprerope : m.isPreropeV2 <;>
    cases role <;> simp_all [planeElementBytesV2] <;> decide

theorem perPlane_mono {e e' : UInt64} (hheads : l.kvHeads ≠ 0) (hdim : l.headDim ≠ 0)
    (hpos : 0 < e.toNat) (hle : e.toNat ≤ e'.toNat) (h : m.perPlane l e' = .ok bytes) :
    ∃ bytes', m.perPlane l e = .ok bytes' ∧ bytes' ≤ bytes := by
  have hbytes := checkedProdFrom_eq_ok h
  have hmul : (m.window l).toUInt64.toNat * (toNats [l.kvHeads.toUInt64, l.headDim.toUInt64, e]).prod ≤
      bytes.toNat := by
    rw [hbytes]
    simp only [toNats, List.map_cons, List.map_nil, List.prod_cons, List.prod_nil, Nat.mul_one]
    gcongr
  have hnonzero : (0 : UInt64) ∉ [l.kvHeads.toUInt64, l.headDim.toUInt64, e] := by
    simp only [List.mem_cons, List.not_mem_nil, or_false, not_or, ← UInt64.toNat_inj, UInt32.toNat_toUInt64,
      UInt64.toNat_zero]
    exact ⟨fun h0 => hheads (UInt32.toNat_inj.mp h0.symm), fun h0 => hdim (UInt32.toNat_inj.mp h0.symm), by omega⟩
  obtain ⟨bytes', h'⟩ := checkedProdFrom_of_lt (e := payloadOverflow) hnonzero (lt_of_le_of_lt hmul bytes.toNat_lt)
  exact ⟨bytes', h', UInt64.le_iff_toNat_le.mpr (checkedProdFrom_eq_ok h' ▸ hmul)⟩

theorem rolesOk_cases (h : rolesOk l = true) : l.roles = [.key, .value] ∨ l.roles = [.key] :=
  (of_decide_eq_true h).imp_right And.right

theorem validateClass_eq_ok (h : m.validateClass limits l = .ok layers) :
    layers = l.layers ∧ m.ClassAccepted limits l := by
  simp only [validateClass, bind_eq_ok, exists_unit, rejectIf_eq_ok, pure_eq_ok, not_or, not_not, ne_eq, UInt64.not_lt]
    at h
  obtain ⟨-, bytes, hbytes, hle, -, hroles, ⟨-, hlayers, hheads, hdim, hdtype⟩, rfl⟩ := h
  have hroles := rolesOk_cases hroles
  refine ⟨rfl, hroles, hheads, hdim, hdtype, hlayers, fun role hrole => ?_⟩
  obtain ⟨bytes', hbytes', hle'⟩ := perPlane_mono hheads hdim (planeElementBytesV2_pos role)
    (planeElementBytesV2_le hroles hrole) hbytes
  exact ⟨bytes', hbytes', UInt64.le_trans hle' hle⟩

theorem validateLayoutTable_eq_ok (h : m.validateLayoutTable limits = .ok ()) :
    (∀ l ∈ m.layoutTable, m.ClassAccepted limits l) ∧
      (m.layoutTable.flatMap LayoutClassV2.layers).Perm
        ((List.range m.geometry.numLayers.toNat).map UInt32.ofNat) := by
  simp only [validateLayoutTable, bind_eq_ok, exists_unit, rejectIf_eq_ok, not_or, not_not, ne_eq, not_exists,
    not_and] at h
  obtain ⟨layers, hlayers, hnodup, ⟨hlength, hcover⟩, -⟩ := h
  rw [collect_eq_ok] at hlayers
  have hmap : m.layoutTable.map LayoutClassV2.layers = layers := by
    rw [← List.forall₂_eq_eq_eq, List.forall₂_map_left_iff]
    exact hlayers.imp fun _ _ hl => (validateClass_eq_ok hl).1.symm
  refine ⟨fun l hl => ?_, ?_⟩
  · obtain ⟨_, -, hclass⟩ := forall₂_exists_right hlayers hl
    exact (validateClass_eq_ok hclass).2
  · rw [List.flatMap_def, hmap, ← hlength, ← eq_range_of_zipIdx hcover]
    exact (sortDedup_perm hnodup).symm

theorem Accepted.tableV2 (h : m.Accepted limits) (hv : m.isV2 = true) :
    m.validateLayoutTable limits = .ok () ∧ m.v2FrameCounts = .ok (m.expectedLayerFrames, m.expectedPayloadBytes) := by
  have hcounts := h.counts
  simp only [expectedCounts, hv, ↓reduceIte, bind_eq_ok, exists_unit] at hcounts
  exact ⟨hcounts.1, hcounts.2.2⟩

/-! ### The walk -/

theorem scheduleClassOrder_perm : m.scheduleClassOrder.Perm (List.finRange m.layoutTable.length) := by
  unfold scheduleClassOrder
  split
  · simp only [decide_not]
    exact List.filter_append_perm _ _
  · exact List.Perm.refl _

theorem layoutWalkV2_perm :
    m.layoutWalkV2.Perm ((List.finRange m.layoutTable.length).flatMap m.classWalk) :=
  scheduleClassOrder_perm.flatMap_right _

theorem flatMap_layoutTable {β : Type} (f : LayoutClassV2 → List β) :
    (List.finRange m.layoutTable.length).flatMap (fun i => f (m.layoutTable.get i)) = m.layoutTable.flatMap f := by
  rw [← List.flatMap_map, List.map_get_finRange]

theorem sum_layoutTable (f : LayoutClassV2 → Nat) :
    ((List.finRange m.layoutTable.length).map fun i => f (m.layoutTable.get i)).sum = (m.layoutTable.map f).sum := by
  conv_rhs => rw [← List.map_get_finRange m.layoutTable, List.map_map]
  rfl

theorem covered_layers (h : m.validateLayoutTable limits = .ok ()) :
    (∀ i, (m.layoutTable.get i).layers.Nodup) ∧
      (∀ i j layer, layer ∈ (m.layoutTable.get i).layers → layer ∈ (m.layoutTable.get j).layers → i = j) ∧
      ∀ layer, layer < m.geometry.numLayers ↔ ∃ i, layer ∈ (m.layoutTable.get i).layers := by
  have hperm := (validateLayoutTable_eq_ok h).2
  rw [← flatMap_layoutTable] at hperm
  have hinj : ((List.range m.geometry.numLayers.toNat).map UInt32.ofNat).Nodup := by
    refine List.Nodup.map_on (fun a ha b hb hab => ?_) List.nodup_range
    have hbound := m.geometry.numLayers.toNat_lt
    rw [List.mem_range] at ha hb
    rw [← UInt32.toNat_inj, UInt32.toNat_ofNat_of_lt' (lt_trans ha hbound),
      UInt32.toNat_ofNat_of_lt' (lt_trans hb hbound)] at hab
    exact hab
  obtain ⟨hnodup, hdisjoint⟩ := List.nodup_flatMap.mp (hperm.nodup_iff.mpr hinj)
  refine ⟨fun i => hnodup i (List.mem_finRange i), fun i j layer hi hj => ?_, fun layer => ?_⟩
  · have hsymm : Std.Symm (Function.onFun List.Disjoint fun i => (m.layoutTable.get i).layers) :=
      ⟨fun _ _ hd => hd.symm⟩
    by_contra hne
    exact hdisjoint.forall (List.mem_finRange i) (List.mem_finRange j) hne hi hj
  · have hmem := hperm.mem_iff (a := layer)
    simp only [List.mem_flatMap, List.mem_finRange, true_and, List.mem_map, List.mem_range] at hmem
    rw [hmem]
    constructor
    · intro hlt
      exact ⟨layer.toNat, UInt32.lt_iff_toNat_lt.mp hlt, UInt32.ofNat_toNat⟩
    · rintro ⟨n, hn, rfl⟩
      have hbound := m.geometry.numLayers.toNat_lt
      rw [UInt32.lt_iff_toNat_lt, UInt32.toNat_ofNat_of_lt' (lt_trans hn hbound)]
      exact hn

/-- The planes of one layer in the walk: one for each role of the layer's class. -/
theorem filter_layoutWalkV2 (h : m.validateLayoutTable limits = .ok ()) {i : Fin m.layoutTable.length} {layer : UInt32}
    (hlayer : layer ∈ (m.layoutTable.get i).layers) :
    m.layoutWalkV2.filter (fun entry => entry.2.1 = layer) =
      (m.layoutTable.get i).roles.map fun role => (i, layer, role) := by
  obtain ⟨hnodup, hunique, -⟩ := covered_layers h
  have horder : m.scheduleClassOrder.Nodup := scheduleClassOrder_perm.nodup_iff.mpr (List.nodup_finRange _)
  rw [layoutWalkV2, List.filter_flatMap,
    flatMap_eq_of_nodup horder (scheduleClassOrder_perm.mem_iff.mpr (List.mem_finRange i))]
  · rw [classWalk, List.filter_flatMap, flatMap_eq_of_nodup (hnodup i) hlayer]
    · rw [List.filter_eq_self]
      simp
    · intro other _ hne
      simp [List.filter_eq_nil_iff, hne]
  · intro j _ hne
    simp only [classWalk, List.filter_flatMap, List.flatMap_eq_nil_iff, List.filter_eq_nil_iff, List.mem_map]
    rintro other hother _ ⟨role, -, rfl⟩
    simp only [decide_eq_true_eq]
    rintro rfl
    exact hne (hunique j i _ hother hlayer)

/-! ### Counts -/

theorem length_layers_lt : l.layers.length < 2 ^ 64 := by
  unfold LayoutClassV2.layers
  split
  · exact Nat.pow_pos (by decide)
  · refine lt_of_le_of_lt (List.length_filter_le _ _) ?_
    rw [List.length_map, List.length_range']
    refine lt_of_le_of_lt (Nat.div_le_self _ _) ?_
    have h₁ := l.until_.toNat_lt
    have h₂ := l.step.toNat_lt
    omega

/-- The bytes of the planes of a class, for one layer. -/
def layerBytes (m : BeginManifestV1) (l : LayoutClassV2) (roles : List TensorRoleV1) : Nat :=
  (roles.map fun role => (m.planeOf l 0 role).bytes).sum

theorem countRoles_eq_ok {roles : List TensorRoleV1}
    (h : m.countRoles l roles (frames, bytes) = .ok (frames', bytes')) :
    frames'.toNat = frames.toNat + l.layers.length * roles.length ∧
      bytes'.toNat = bytes.toNat + l.layers.length * m.layerBytes l roles := by
  induction roles generalizing frames bytes with
  | nil =>
    cases h
    exact ⟨rfl, rfl⟩
  | cons role roles ih =>
    simp only [countRoles, bind_eq_ok, okOr_eq_ok, checkedAdd_eq_some, checkedMul_eq_some] at h
    obtain ⟨perPlane, hplane, frames₁, hframes, classBytes, hclass, bytes₁, hbytes, hrest⟩ := h
    obtain ⟨hframes', hbytes'⟩ := ih hrest
    have hplane : perPlane.toNat = (m.planeOf l 0 role).bytes := by
      rw [checkedProdFrom_eq_ok hplane]
      simp [toNats, planeOf, Nat.mul_assoc]
    rw [UInt64.toNat_ofNat_of_lt' length_layers_lt] at hframes hclass
    refine ⟨?_, ?_⟩
    · rw [hframes', hframes, List.length_cons, Nat.mul_succ, Nat.add_right_comm, Nat.add_assoc]
    · rw [hbytes', hbytes, hclass, hplane, Nat.add_assoc, ← Nat.mul_add]
      rfl

theorem countClasses_eq_ok {classes : List LayoutClassV2}
    (h : m.countClasses classes (frames, bytes) = .ok (frames', bytes')) :
    frames'.toNat = frames.toNat + (classes.map fun l => l.layers.length * l.roles.length).sum ∧
      bytes'.toNat = bytes.toNat + (classes.map fun l => l.layers.length * m.layerBytes l l.roles).sum := by
  induction classes generalizing frames bytes with
  | nil =>
    cases h
    exact ⟨rfl, rfl⟩
  | cons l classes ih =>
    simp only [countClasses, bind_eq_ok, Prod.exists] at h
    obtain ⟨frames₁, bytes₁, hroles, hrest⟩ := h
    obtain ⟨hframes, hbytes⟩ := countRoles_eq_ok hroles
    obtain ⟨hframes', hbytes'⟩ := ih hrest
    rw [hframes', hbytes', hframes, hbytes, List.map_cons, List.sum_cons, List.map_cons, List.sum_cons, Nat.add_assoc,
      Nat.add_assoc]
    exact ⟨rfl, rfl⟩

theorem length_layoutWalkV2 :
    m.layoutWalkV2.length = (m.layoutTable.map fun l => l.layers.length * l.roles.length).sum := by
  have hclass (i : Fin m.layoutTable.length) :
      (m.classWalk i).length = (m.layoutTable.get i).layers.length * (m.layoutTable.get i).roles.length := by
    simp [classWalk, List.length_flatMap]
  rw [layoutWalkV2_perm.length_eq, List.length_flatMap]
  simp only [hclass]
  exact sum_layoutTable fun l => l.layers.length * l.roles.length

theorem bytes_planesV2 :
    (m.planesV2.map (·.bytes)).sum = (m.layoutTable.map fun l => l.layers.length * m.layerBytes l l.roles).sum := by
  have hclass (i : Fin m.layoutTable.length) :
      ((m.classWalk i).map fun entry => (m.planeOf (m.layoutTable.get entry.1) entry.2.1 entry.2.2).bytes).sum =
        (m.layoutTable.get i).layers.length * m.layerBytes (m.layoutTable.get i) (m.layoutTable.get i).roles := by
    rw [classWalk, sum_map_flatMap]
    simp only [List.map_map, Function.comp_def, layerBytes, planeOf, List.map_const', List.sum_const_nat]
  rw [planesV2, List.map_map]
  rw [(layoutWalkV2_perm.map _).sum_eq, Function.comp_def, sum_map_flatMap]
  simp only [hclass]
  exact sum_layoutTable fun l => l.layers.length * m.layerBytes l l.roles

/-! ### Headers -/

theorem window_le : m.window l ≤ m.cachedTokenCount := by
  unfold window
  split
  · exact UInt32.le_refl _
  · rw [UInt32.le_iff_toNat_le, UInt32.toNat_min]
    exact Nat.min_le_right _ _

theorem start_le : m.cachedTokenCount - m.window l ≤ m.cachedTokenCount := by
  rw [UInt32.le_iff_toNat_le, UInt32.toNat_sub_of_le _ _ window_le]
  exact Nat.sub_le _ _

theorem range_window : m.cachedTokenCount - (m.cachedTokenCount - m.window l) = m.window l := by
  have hwindow : (m.window l).toNat ≤ m.cachedTokenCount.toNat := UInt32.le_iff_toNat_le.mp window_le
  rw [← UInt32.toNat_inj, UInt32.toNat_sub_of_le _ _ start_le, UInt32.toNat_sub_of_le _ _ window_le]
  omega

theorem planeOf_bytes (h : m.ClassAccepted limits l) (layer : UInt32) (hrole : role ∈ l.roles) :
    m.perPlane l (m.planeElementBytesV2 role) = .ok (UInt64.ofNat (m.planeOf l layer role).bytes) ∧
      (m.planeOf l layer role).bytes < 2 ^ 64 ∧ (m.planeOf l layer role).bytes ≤ limits.maxFrameBytes.toNat := by
  obtain ⟨bytes, hbytes, hle⟩ := h.frame role hrole
  have hvalue : bytes.toNat = (m.planeOf l layer role).bytes := by
    rw [checkedProdFrom_eq_ok hbytes]
    simp [toNats, planeOf, Nat.mul_assoc]
  rw [← hvalue, UInt64.ofNat_toNat]
  exact ⟨hbytes, bytes.toNat_lt, UInt64.le_iff_toNat_le.mp hle⟩

theorem mem_layoutWalkV2 {entry : m.WalkEntry} (h : entry ∈ m.layoutWalkV2) :
    entry.2.1 ∈ (m.layoutTable.get entry.1).layers ∧ entry.2.2 ∈ (m.layoutTable.get entry.1).roles := by
  simp only [layoutWalkV2, classWalk, List.mem_flatMap, List.mem_map] at h
  obtain ⟨i, -, layer, hlayer, role, hrole, rfl⟩ := h
  exact ⟨hlayer, hrole⟩

/-- The expectation at an entry of the walk, in the terms of the declared plane. -/
theorem expectedFromWalkEntry_eq (entry : m.WalkEntry) :
    m.expectedFromWalkEntry entry =
      ⟨m.layoutTable.get entry.1, entry.2.1, entry.2.2, m.cachedTokenCount - m.window (m.layoutTable.get entry.1),
        m.cachedTokenCount⟩ := by
  rw [expectedFromWalkEntry, if_neg (UInt32.not_lt.mpr window_le)]

theorem validateForV2Expected_planeOf (h : m.ClassAccepted limits l) {layer : UInt32} {role : TensorRoleV1} {n : Nat}
    {digest : String} {tag : Option String} {position : UInt32} (hn : n < 2 ^ 32) (hrole : role ∈ l.roles)
    (hdigest : validSha256 digest = true) (htag : tag ∈ (m.planeOf l layer role).tags) :
    ((m.planeOf l layer role).header m n digest tag).validateForV2Expected m position
        ⟨l, layer, role, m.cachedTokenCount - m.window l, m.cachedTokenCount⟩ = .ok () ↔ position.toNat = n := by
  have hdtype : tag.getD "float16" = m.expectedPlaneDtypeV2 l role := by
    simp only [planeOf] at htag
    split at htag
    · rename_i hfloat
      simp only [List.mem_cons, List.not_mem_nil, or_false] at htag
      rcases htag with rfl | rfl <;> exact hfloat.symm
    · obtain rfl := List.mem_singleton.mp htag
      rfl
  have hbytes (e : HandoffError) : checkedProdFrom e (m.window l).toUInt64
      [l.kvHeads.toUInt64, l.headDim.toUInt64, m.planeElementBytesV2 role] =
        .ok (UInt64.ofNat (m.planeOf l layer role).bytes) := checkedProdFrom_congr (planeOf_bytes h layer hrole).1
  simp only [LayerHeaderV1.validateForV2Expected, bind_eq_ok, exists_unit, rejectIf_eq_ok, UInt32.not_lt]
  simp only [PlaneSpec.header]
  rw [show (m.planeOf l layer role).rangeEnd = m.cachedTokenCount from rfl,
    show (m.planeOf l layer role).rangeStart = m.cachedTokenCount - m.window l from rfl, range_window, hbytes]
  simp only [start_le, true_and, Except.ok.injEq, exists_eq_left', not_or, not_not, ne_eq, hdtype, hdigest]
  constructor
  · rintro ⟨hsequence, -⟩
    rw [← hsequence, UInt32.toNat_ofNat_of_lt' hn]
  · rintro rfl
    simp [planeOf]

theorem Accepted.classAccepted (h : m.Accepted limits) (hv : m.isV2 = true) (i : Fin m.layoutTable.length) :
    m.ClassAccepted limits (m.layoutTable.get i) :=
  (validateLayoutTable_eq_ok (h.tableV2 hv).1).1 _ (List.get_mem _ _)

theorem Accepted.countsV2 (h : m.Accepted limits) (hv : m.isV2 = true) :
    m.layoutWalkV2.length = m.expectedLayerFrames.toNat ∧
      (m.planesV2.map (·.bytes)).sum = m.expectedPayloadBytes.toNat := by
  have hcounts := (h.tableV2 hv).2
  simp only [v2FrameCounts, bind_eq_ok, Prod.exists, okOr_eq_ok, pure_eq_ok, Prod.mk.injEq, u32TryFrom,
    Option.ite_none_right_eq_some, Option.some.injEq] at hcounts
  obtain ⟨frames, bytes, hclasses, _, ⟨hlt, rfl⟩, hframes, rfl⟩ := hcounts
  obtain ⟨htotal, hbytes⟩ := countClasses_eq_ok hclasses
  rw [UInt64.toNat_zero, Nat.zero_add] at htotal hbytes
  rw [← hframes, UInt32.toNat_ofNat_of_lt' hlt, htotal, hbytes]
  exact ⟨length_layoutWalkV2, bytes_planesV2⟩

theorem header_validV2
    (h : m.Accepted limits) (hv : m.isV2 = true) (hp : m.planes[i]? = some p) (hdigest : validSha256 digest = true)
    (htag : tag ∈ p.tags) : (p.header m i digest tag).validateFor m position = .ok () ↔ position.toNat = i := by
  rw [planes, if_pos hv, planesV2, List.getElem?_map, Option.map_eq_some_iff] at hp
  obtain ⟨entry, hentry, rfl⟩ := hp
  have hlt : i < 2 ^ 32 := by
    refine lt_trans (List.getElem?_eq_some_iff.mp hentry).1 ?_
    rw [(h.countsV2 hv).1]
    exact UInt32.toNat_lt _
  have hrole := (mem_layoutWalkV2 (List.mem_of_getElem? hentry)).2
  have hvalid (position : UInt32) := @validateForV2Expected_planeOf m limits _ (h.classAccepted hv entry.1) entry.2.1
    entry.2.2 i digest tag position hlt hrole hdigest htag
  rw [LayerHeaderV1.validateFor, if_pos hv, LayerHeaderV1.validateForV2]
  simp only [expectedPlaneAt, bind_eq_ok, okOr_eq_ok, pure_eq_ok, exists_exists_and_eq_and]
  constructor
  · rintro ⟨other, -, hother⟩
    -- whatever the position expects, the header states its own
    simp only [LayerHeaderV1.validateForV2Expected, bind_eq_ok, exists_unit, rejectIf_eq_ok, not_or, not_not,
      ne_eq] at hother
    obtain ⟨-, _, -, -, -, hsequence, -⟩ := hother
    rw [← hsequence, PlaneSpec.header, UInt32.toNat_ofNat_of_lt' hlt]
  · rintro rfl
    refine ⟨entry, hentry, ?_⟩
    rw [expectedFromWalkEntry_eq]
    exact (hvalid position).mpr rfl

/-! ## What a valid header says -/

theorem length_planes (h : m.Accepted limits) : m.planes.length = m.expectedLayerFrames.toNat := by
  unfold planes
  cases hv : m.isV2 with
  | false => rw [if_neg Bool.false_ne_true, length_planesV1, (h.countsV1 hv).1]
  | true => rw [if_pos rfl, planesV2, List.length_map, (h.countsV2 hv).1]

theorem bytes_planes (h : m.Accepted limits) : (m.planes.map (·.bytes)).sum = m.expectedPayloadBytes.toNat := by
  unfold planes
  cases hv : m.isV2 with
  | false => rw [if_neg Bool.false_ne_true, bytes_planesV1, h.bytesV1 hv]
  | true => rw [if_pos rfl, (h.countsV2 hv).2]

/-- The header of a plane passes at the place of the plane and at no other. -/
theorem header_valid (h : m.Accepted limits)
    (hp : m.planes[i]? = some p) (hdigest : validSha256 digest = true) (htag : tag ∈ p.tags) (position : UInt32) :
    (p.header m i digest tag).validateFor m position = .ok () ↔ position.toNat = i := by
  cases hv : m.isV2 with
  | false => exact header_validV1 h hv hp hdigest htag
  | true => exact header_validV2 h hv hp hdigest htag

theorem bytes_le (h : m.Accepted limits) (hp : p ∈ m.planes) :
    p.bytes < 2 ^ 64 ∧ p.bytes ≤ limits.maxFrameBytes.toNat := by
  unfold planes at hp
  cases hv : m.isV2 with
  | false =>
    rw [hv, if_neg Bool.false_ne_true] at hp
    obtain ⟨i, hi⟩ := List.mem_iff_getElem?.mp hp
    obtain ⟨hplane, hlt⟩ := h.expectedPlaneBytes hv
    have hle := UInt64.le_iff_toNat_le.mp h.frame_le
    simp only [expectedPlaneBytes, (h.countsV1 hv).2, ok_bind, pure_eq_ok] at hplane
    rw [hplane, UInt64.toNat_ofNat_of_lt' hlt] at hle
    rw [getElem?_planesV1 hi]
    exact ⟨hlt, hle⟩
  | true =>
    rw [hv, if_pos rfl, planesV2, List.mem_map] at hp
    obtain ⟨entry, hentry, rfl⟩ := hp
    exact (planeOf_bytes (h.classAccepted hv entry.1) _ (mem_layoutWalkV2 hentry).2).2

/-- A header passes at a place only if it is the header of the plane there. -/
theorem header_eq {header : LayerHeaderV1} (h : m.Accepted limits) (hi : i < m.planes.length)
    (hvalid : header.validateFor m (UInt32.ofNat i) = .ok ()) :
    ∃ p, m.planes[i]? = some p ∧ header = p.header m i header.sha256 header.dtype ∧ header.dtype ∈ p.tags ∧
      validSha256 header.sha256 = true := by
  have hlt : i < 2 ^ 32 := by
    rw [length_planes h] at hi
    exact lt_trans hi (UInt32.toNat_lt _)
  refine ⟨m.planes[i], List.getElem?_eq_getElem hi, ?_⟩
  have hget := List.getElem?_eq_getElem hi
  generalize m.planes[i] = p at hget
  unfold LayerHeaderV1.validateFor at hvalid
  cases hv : m.isV2 with
  | false =>
    rw [planes, hv, if_neg Bool.false_ne_true] at hget
    obtain rfl := getElem?_planesV1 hget
    rw [hv, if_neg Bool.false_ne_true] at hvalid
    simp only [LayerHeaderV1.validateForV1, bind_eq_ok, exists_unit, rejectIf_eq_ok, not_or, not_not, ne_eq,
      (h.expectedPlaneBytes hv).1, Except.ok.injEq, exists_eq_left', Option.not_isSome_iff_eq_none] at hvalid
    obtain ⟨⟨hschema, htransfer, hsequence, hlayer, hrole, hstart, hend, hshape⟩, hbytes, hsha, hdtype, hclass⟩ :=
      hvalid
    refine ⟨?_, by rw [hdtype]; exact List.mem_singleton_self _, hsha⟩
    have hdiv : UInt32.ofNat i / 2 = UInt32.ofNat (i / 2) := by
      rw [← UInt32.toNat_inj, UInt32.toNat_div, UInt32.toNat_ofNat_of_lt' hlt,
        UInt32.toNat_ofNat_of_lt' (lt_of_le_of_lt (Nat.div_le_self _ _) hlt)]
      rfl
    have hmod : UInt32.ofNat i % 2 = 0 ↔ i % 2 = 0 := by
      rw [← UInt32.toNat_inj, UInt32.toNat_mod, UInt32.toNat_ofNat_of_lt' hlt]
      rfl
    have hrole' : header.role = if i % 2 = 0 then .key else .value := by
      simp only [hrole, hmod]
    exact LayerHeaderV1.ext hbytes (hlayer.trans hdiv) hend hstart hrole' hschema hsequence rfl hshape htransfer rfl
      hclass
  | true =>
    rw [planes, hv, if_pos rfl, planesV2, List.getElem?_map, Option.map_eq_some_iff] at hget
    obtain ⟨entry, hentry, rfl⟩ := hget
    rw [hv, if_pos rfl] at hvalid
    simp only [LayerHeaderV1.validateForV2, expectedPlaneAt, UInt32.toNat_ofNat_of_lt' hlt, hentry, okOr_some, ok_bind,
      pure_bind, expectedFromWalkEntry_eq] at hvalid
    simp only [LayerHeaderV1.validateForV2Expected, bind_eq_ok, exists_unit, rejectIf_eq_ok, not_or, not_not,
      ne_eq] at hvalid
    obtain ⟨-, bytes, hbytes, hschema, htransfer, hsequence, hlayer, hrole, hclass, hstart, hend, hshape, hlength,
      hdtype, hsha⟩ := hvalid
    rw [hstart, hend] at hshape hbytes
    rw [range_window] at hshape hbytes
    have hplane := (planeOf_bytes (h.classAccepted hv entry.1) entry.2.1
      (mem_layoutWalkV2 (List.mem_of_getElem? hentry)).2).1
    rw [checkedProdFrom_congr hplane, Except.ok.injEq] at hbytes
    refine ⟨LayerHeaderV1.ext (hlength.trans hbytes.symm) hlayer hend hstart hrole hschema hsequence rfl hshape
      htransfer rfl hclass, ?_, hsha⟩
    simp only [planeOf]
    split
    · rename_i hfloat
      rw [hfloat] at hdtype
      cases hsome : header.dtype with
      | none => simp
      | some dtype =>
        rw [hsome, Option.getD_some] at hdtype
        rw [hdtype]
        exact List.mem_cons_self
    · rename_i hfloat
      cases hsome : header.dtype with
      | none =>
        rw [hsome, Option.getD_none] at hdtype
        exact absurd hdtype.symm hfloat
      | some dtype =>
        rw [hsome, Option.getD_some] at hdtype
        rw [hdtype]
        exact List.mem_singleton_self _

end BeginManifestV1

end Kvpack.Handoff
