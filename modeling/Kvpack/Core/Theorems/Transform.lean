import Kvpack.Core.Transform

/-!
# One encoding for each transform

Every field of a descriptor is read by a parser that undoes its writer, so that decoding and encoding are each other's
inverse on what they accept.
-/

namespace Kvpack.Core

open Base

variable {inp rest bytes : Bytes}

/-! ## Operations -/

theorem CastDType.fromWire_eq_ok {w : UInt16} {v : CastDType} : CastDType.fromWire w = .ok v ↔ w = v.wire :=
  fromWireOf_eq_ok (fun a b h => by revert h; cases a <;> cases b <;> decide) (by cases v <;> decide)

theorem RopeDirection.fromWire_eq_ok {w : UInt16} {v : RopeDirection} : RopeDirection.fromWire w = .ok v ↔ w = v.wire :=
  fromWireOf_eq_ok (fun a b h => by revert h; cases a <;> cases b <;> decide) (by cases v <;> decide)

theorem run_permutation {order : List UInt32} : decodePermutation.run inp = .ok (order, rest) ↔
    order.length < 2 ^ 16 ∧ inp = le16 (UInt16.ofNat order.length) ++ order.flatMap le32 ++ rest := by
  have hu32 : ∀ inp v rest, Decoder.u32.run inp = .ok (v, rest) ↔ True ∧ inp = le32 v ++ rest := by
    intro inp v rest
    rw [inverse_u32 inp v rest, true_and]
  simp only [decodePermutation, run_bind_eq_ok, inverse_u16 _ _ _, run_times_eq_ok hu32]
  constructor
  · rintro ⟨width, _, rfl, hlen, -, rfl⟩
    rw [hlen, UInt16.ofNat_toNat, List.append_assoc]
    exact ⟨width.toNat_lt, rfl⟩
  · rintro ⟨hlt, rfl⟩
    refine ⟨_, _, List.append_assoc .., ?_, fun _ _ => trivial, rfl⟩
    rw [UInt16.toNat_ofNat_of_lt' hlt]

theorem decodeScaleId_eq_ok {present : UInt8} {id : Id32} {scaleId : Option Id32} :
    decodeScaleId present id = .ok scaleId ↔ present :: id.val = encodeScaleId scaleId := by
  have hnil : (0 :: id.val = 0 :: zeroId.val) ↔ id = zeroId := by simp [Subtype.ext_iff]
  unfold decodeScaleId
  split
  · rename_i h
    obtain ⟨rfl, rfl⟩ := h
    cases scaleId <;> simp [encodeScaleId]
  · rename_i h
    split
    · rename_i h1
      subst h1
      cases scaleId <;> simp [encodeScaleId, Subtype.ext_iff]
    · rename_i h1
      cases scaleId with
      | none => simpa [encodeScaleId, Subtype.ext_iff] using h
      | some value => simp [encodeScaleId, h1]

/-- The width of a permutation fits its field. -/
def RepackOp.Narrow : RepackOp → Prop
  | .permuteHeadPairs order | .reorderPlanes order | .regroupLayers order => order.length < 2 ^ 16
  | _ => True

theorem RepackOp.reads_decode {op : RepackOp} (h : op.Narrow) : Reads RepackOp.decode op.encode op := by
  have hpermutation {order : List UInt32} (h : order.length < 2 ^ 16) :
      Reads decodePermutation (le16 (UInt16.ofNat order.length) ++ order.flatMap le32) order :=
    fun _ => run_permutation.mpr ⟨h, rfl⟩
  cases op with
  | permuteHeadPairs order =>
    simp only [encode, encodePermutation, List.append_assoc]
    exact (reads_u16 1).bind (hpermutation h).bind_pure
  | reorderPlanes order =>
    simp only [encode, encodePermutation, List.append_assoc]
    exact (reads_u16 2).bind (hpermutation h).bind_pure
  | regroupLayers order =>
    simp only [encode, encodePermutation, List.append_assoc]
    exact (reads_u16 3).bind (hpermutation h).bind_pure
  | padOrTrim targetBytes => exact (reads_u16 4).bind (reads_u64 targetBytes).bind_pure
  | dtypeCast from_ to_ scaleId =>
    obtain ⟨present, id, hscale⟩ : ∃ present, ∃ id : Id32, [present] ++ id.val = encodeScaleId scaleId := by
      cases scaleId with
      | none => exact ⟨0, zeroId, rfl⟩
      | some id => exact ⟨1, id, rfl⟩
    simp only [encode, ← hscale, List.append_assoc]
    rw [← List.append_nil id.val]
    exact (reads_u16 5).bind <| (reads_u16 _).bind <| (Reads.check (CastDType.fromWire_eq_ok.mpr rfl)).bind_nil <|
      (reads_u16 _).bind <| (Reads.check (CastDType.fromWire_eq_ok.mpr rfl)).bind_nil <| (reads_u8 present).bind <|
      (reads_id id).bind (Reads.check (decodeScaleId_eq_ok.mpr hscale)).bind_pure
  | ropePermute direction headDim =>
    simp only [encode, List.append_assoc]
    exact (reads_u16 6).bind <| (reads_u16 _).bind <| (Reads.check (RopeDirection.fromWire_eq_ok.mpr rfl)).bind_nil
      (reads_u32 headDim).bind_pure

theorem RepackOp.run_decode {op : RepackOp} :
    RepackOp.decode.run inp = .ok (op, rest) ↔ op.Narrow ∧ inp = op.encode ++ rest := by
  constructor
  · intro h
    simp only [RepackOp.decode, run_bind_eq_ok, inverse_u16 _ _ _] at h
    obtain ⟨tag, mid, rfl, h⟩ := h
    split at h
    all_goals simp only [run_bind_eq_ok, run_pure_eq_ok, run_permutation, run_check_eq_ok, inverse_u8 _ _ _,
      inverse_u16 _ _ _, inverse_u32 _ _ _, inverse_u64 _ _ _, inverse_id _ _ _, CastDType.fromWire_eq_ok,
      RopeDirection.fromWire_eq_ok, decodeScaleId_eq_ok] at h
    · obtain ⟨order, _, ⟨hlt, rfl⟩, rfl, rfl⟩ := h
      exact ⟨hlt, by simp [encode, encodePermutation]⟩
    · obtain ⟨order, _, ⟨hlt, rfl⟩, rfl, rfl⟩ := h
      exact ⟨hlt, by simp [encode, encodePermutation]⟩
    · obtain ⟨order, _, ⟨hlt, rfl⟩, rfl, rfl⟩ := h
      exact ⟨hlt, by simp [encode, encodePermutation]⟩
    · obtain ⟨targetBytes, _, rfl, rfl, rfl⟩ := h
      simp [Narrow, encode]
    · obtain ⟨_, _, rfl, from_, _, ⟨rfl, rfl⟩, _, _, rfl, to_, _, ⟨rfl, rfl⟩, present, _, rfl, id, _, rfl, scaleId, _,
        ⟨hscale, rfl⟩, rfl, rfl⟩ := h
      simp [Narrow, encode, ← hscale]
    · obtain ⟨_, _, rfl, direction, _, ⟨rfl, rfl⟩, headDim, _, rfl, rfl, rfl⟩ := h
      simp [Narrow, encode]
    · cases h.1
  · rintro ⟨hnarrow, rfl⟩
    exact reads_decode hnarrow rest

theorem RepackOp.narrow_of_validate {op : RepackOp} (h : op.validate = .ok ()) : op.Narrow := by
  have hwidth {order : List UInt32} (h : validatePermutation order = .ok ()) : order.length < 2 ^ 16 := by
    simp only [validatePermutation, bind_eq_ok, exists_unit, rejectIf_eq_ok, not_or, not_lt] at h
    exact lt_of_le_of_lt h.1.2 (by decide)
  cases op with
  | permuteHeadPairs _ | reorderPlanes _ | regroupLayers _ => exact hwidth h
  | _ => trivial

/-! ## Descriptors -/

namespace TransformDescriptor

variable {d : TransformDescriptor}

theorem run_decodeBody : decodeBody.run inp = .ok (d, rest) ↔ d.schemaVersion = transformVersion.toUInt32 ∧ ∃ name,
    encodeString d.name = .ok name ∧ ∃ sourceLayout, encodeString d.sourceLayout = .ok sourceLayout ∧
    d.ops.length < 2 ^ 16 ∧ (∀ op ∈ d.ops, op.Narrow) ∧ rest = [] ∧
    inp = transformMagic ++ le16 transformVersion ++ name ++ sourceLayout ++ le16 (UInt16.ofNat d.ops.length) ++
      d.ops.flatMap RepackOp.encode := by
  simp only [decodeBody, run_bind_eq_ok, inverse_new (show transformMagic.length = 8 from rfl) _ _ _,
    inverse_expect16 _ _ _, run_string_eq_ok, inverse_u16 _ _ _, run_times_eq_ok fun _ _ _ => RepackOp.run_decode,
    finish_eq_ok, run_pure_eq_ok]
  constructor
  · rintro ⟨_, _, rfl, _, _, rfl, name, _, ⟨name', hname, rfl⟩, layout, _, ⟨layout', hlayout, rfl⟩, count, _, rfl, ops,
      _, ⟨hlen, hops, rfl⟩, _, _, ⟨rfl, hrest⟩, rfl, rfl⟩
    rw [hlen, UInt16.ofNat_toNat]
    cases hrest
    exact ⟨rfl, name', hname, layout', hlayout, count.toNat_lt, hops, rfl, by simp⟩
  · rintro ⟨hversion, name, hname, layout, hlayout, hlen, hops, rfl, rfl⟩
    obtain ⟨version, _, _, ops⟩ := d
    subst hversion
    refine ⟨(), _, by simp only [List.append_assoc], (), _, rfl, _, _, ⟨name, hname, rfl⟩, _, _, ⟨layout, hlayout, rfl⟩,
      UInt16.ofNat ops.length, _, rfl, ops, [], ⟨?_, hops, (List.append_nil _).symm⟩, (), [], ⟨rfl, rfl⟩, rfl, rfl⟩
    rw [UInt16.toNat_ofNat_of_lt' hlen]

/-- A descriptor is decoded from exactly the bytes it encodes to. -/
theorem decode_eq_ok_iff : decode bytes = .ok d ↔ d.encode = .ok bytes := by
  simp only [decode, encode, bind_eq_ok, exists_unit, Prod.exists, run_decodeBody, pure_eq_ok]
  constructor
  · rintro ⟨d, _, ⟨-, name, hname, layout, hlayout, -, -, -, rfl⟩, hvalid, rfl⟩
    exact ⟨hvalid, name, hname, layout, hlayout, rfl⟩
  · rintro ⟨hvalid, name, hname, layout, hlayout, rfl⟩
    have hchecks := hvalid
    simp only [validate, bind_eq_ok, exists_unit, rejectIf_eq_ok, not_not, not_lt, checkAll_eq_ok] at hchecks
    obtain ⟨hversion, -, -, hlen, hops⟩ := hchecks
    exact ⟨d, [], ⟨hversion, name, hname, layout, hlayout, lt_of_le_of_lt hlen (by decide),
      fun op hop => RepackOp.narrow_of_validate (hops op hop), rfl, rfl⟩, hvalid, rfl⟩

/-- The canonical bytes are unique, and a hash without collisions tells two descriptors apart. -/
theorem transform_descriptor_canonical (C : Crypto) :
    (∀ (d : TransformDescriptor) bytes, d.encode = .ok bytes → decode bytes = .ok d) ∧
    (∀ bytes d, decode bytes = .ok d → d.encode = .ok bytes) ∧
    ∀ (a b : TransformDescriptor) id, Set.InjOn C.sha256 {bytes | a.encode = .ok bytes ∨ b.encode = .ok bytes} →
      a.transformId C = .ok id → b.transformId C = .ok id → a = b := by
  refine ⟨fun _ _ => decode_eq_ok_iff.mpr, fun _ _ => decode_eq_ok_iff.mp, fun a b id hinj ha hb => ?_⟩
  simp only [transformId, bind_eq_ok, pure_eq_ok] at ha hb
  obtain ⟨bytes, hbytes, rfl⟩ := ha
  obtain ⟨bytes', hbytes', heq⟩ := hb
  cases hinj (Or.inl hbytes) (Or.inr hbytes') heq.symm
  have ha := decode_eq_ok_iff.mpr hbytes
  rw [decode_eq_ok_iff.mpr hbytes', Except.ok.injEq] at ha
  exact ha.symm

def swapPlanes : TransformDescriptor := ⟨1, "swap", "kv", [.reorderPlanes [1, 0]]⟩

theorem transform_descriptor_canonical_swap : ∃ bytes, swapPlanes.encode = .ok bytes ∧ decode bytes = .ok swapPlanes ∧
    ∀ d : TransformDescriptor, d.encode = .ok bytes → d = swapPlanes := by
  have hcanonical := transform_descriptor_canonical checksumCrypto
  obtain ⟨bytes, hbytes⟩ := exists_ok_of_isOk (show swapPlanes.encode.isOk by decide)
  refine ⟨bytes, hbytes, hcanonical.1 _ _ hbytes, fun d hd => ?_⟩
  refine hcanonical.2.2 d swapPlanes (checksumCrypto.sha256 bytes) ?_ ?_ ?_
  · -- both encode to the same bytes, so that nothing can collide
    have hone : ∀ x, d.encode = .ok x ∨ swapPlanes.encode = .ok x → x = bytes := by
      simp only [hd, hbytes, Except.ok.injEq, or_self]
      exact fun _ h => h.symm
    exact fun x hx y hy _ => (hone x hx).trans (hone y hy).symm
  · rw [transformId, hd]
    rfl
  · rw [transformId, hbytes]
    rfl

end TransformDescriptor

end Kvpack.Core
