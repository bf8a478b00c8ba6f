import Kvpack.Core.Manifest

/-!
# Reading back canonical encodings

The bounds the decoders enforce are collected in `Readable`, one predicate per record. A record that encodes and is
readable reads back as itself, and everything a decoder returns is readable.
-/

namespace Kvpack.Core

open Base

variable {e : PackError} {bs bytes : Bytes} {d : StaticDimension} {m : CutManifest}

/-! ## What the decoders accept -/

def StaticDimension.Readable (d : StaticDimension) : Prop := d ≠ .fixed 0

structure FamilyState.Readable (s : FamilyState) : Prop where
  rank_pos : s.dimensions.length ≠ 0
  rank_le : s.dimensions.length ≤ maxRank
  dimensions : ∀ d ∈ s.dimensions, d.Readable
  dependencies : s.dependencies.length ≤ maxDependenciesPerState

structure RepresentationFamilyId.Readable (f : RepresentationFamilyId) : Prop where
  count_pos : f.states.length ≠ 0
  count_le : f.states.length ≤ maxStates
  states : ∀ s ∈ f.states, s.Readable

structure RealizedStateSchema.Readable (s : RealizedStateSchema) : Prop where
  strides_le : s.strides.length ≤ maxRank
  spans_pos : s.chunkSpans.length ≠ 0
  spans_le : s.chunkSpans.length ≤ maxChunksPerState

structure AtomicGroup.Readable (g : AtomicGroup) : Prop where
  count_pos : g.states.length ≠ 0
  count_le : g.states.length ≤ maxStates

structure RealizedCutSchemaId.Readable (s : RealizedCutSchemaId) : Prop where
  count_pos : s.states.length ≠ 0
  count_le : s.states.length ≤ maxStates
  states : ∀ st ∈ s.states, st.Readable
  groups_pos : s.atomicGroups.length ≠ 0
  groups_le : s.atomicGroups.length ≤ maxAtomicGroups
  groups : ∀ g ∈ s.atomicGroups, g.Readable

structure StateManifest.Readable (s : StateManifest) : Prop where
  chunks_pos : s.chunks.length ≠ 0
  chunks_le : s.chunks.length ≤ maxChunksPerState

structure CutManifest.Readable (m : CutManifest) : Prop where
  family : m.family.Readable
  schema : m.realizedSchema.Readable
  count_pos : m.states.length ≠ 0
  count_le : m.states.length ≤ maxStates
  states : ∀ s ∈ m.states, s.Readable

/-! ## Fields shared by several records -/

theorem reads_wire {α : Type} {f : UInt16 → Except PackError α} {v : UInt16} {a : α} (h : f v = .ok a) :
    Reads (Decoder.u16 >>= fun w => Parser.check (f w)) (le16 v) a := by
  have hv : le16 v = le16 v ++ [] := (List.append_nil _).symm
  rw [hv]
  exact (reads_u16 v).bind (Reads.check h)

theorem reads_countCheck {n lo hi : Nat} (hn : n = lo) (hpos : lo ≠ 0) (hle : lo ≤ hi) :
    Reads (Parser.check (rejectIf (n = 0 ∨ hi < n) e)) [] () :=
  Reads.check (rejectIf_of_not (by omega))

theorem reads_leCheck {n lo hi : Nat} (hn : n = lo) (hle : lo ≤ hi) :
    Reads (Parser.check (rejectIf (hi < n) e)) [] () :=
  Reads.check (rejectIf_of_not (by omega))

theorem reads_stateKey {k : StateKey} (h : k.encode = .ok bs) : Reads StateKey.decode bs k := by
  simp only [StateKey.encode, bind_eq_ok, pure_eq_ok] at h
  obtain ⟨name, hname, rfl⟩ := h
  exact (reads_u32 k.layer).bind (reads_string hname).bind_pure

theorem reads_semanticModelId (v : SemanticModelId) : Reads SemanticModelId.decode v.encode v := by
  simp only [SemanticModelId.encode, List.append_assoc]
  exact (reads_id _).bind <| (reads_id _).bind <| (reads_id _).bind <| (reads_id _).bind (reads_id _).bind_pure

theorem reads_inputCutId (v : InputCutId) : Reads InputCutId.decode v.encode v := by
  simp only [InputCutId.encode, List.append_assoc]
  exact (reads_id _).bind <| (reads_id _).bind (reads_u64 _).bind_pure

/-! ## Family -/

theorem StaticDimension.ofWire_wire (h : d.Readable) : StaticDimension.ofWire d.wire = d := by
  cases d with
  | token => rfl
  | fixed value =>
    have hv : value ≠ 0 := fun h0 => h (by rw [h0])
    simp [StaticDimension.wire, StaticDimension.ofWire, hv]

theorem StaticDimension.readable_ofWire (value : UInt64) : (StaticDimension.ofWire value).Readable := by
  unfold StaticDimension.ofWire StaticDimension.Readable
  split
  · simp
  · simpa using by assumption

theorem reads_dimension (h : d.Readable) :
    Reads (StaticDimension.ofWire <$> Decoder.u64) (le64 d.wire) d := by
  have hr : Reads (StaticDimension.ofWire <$> Decoder.u64) (le64 d.wire) (StaticDimension.ofWire d.wire) := by
    rw [map_eq_pure_bind]
    exact (reads_u64 d.wire).bind_pure
  rwa [StaticDimension.ofWire_wire h] at hr

theorem yields_dimension : Yields (StaticDimension.ofWire <$> Decoder.u64) StaticDimension.Readable := by
  rw [map_eq_pure_bind]
  exact (Yields.true _).bind fun v _ => Yields.pure (StaticDimension.readable_ofWire v)

theorem reads_familyState {s : FamilyState} (h : s.encode = .ok bs) (hr : s.Readable) :
    Reads FamilyState.decode bs s := by
  simp only [FamilyState.encode, bind_eq_ok, okOr_eq_ok, u8TryFrom_eq_some, u16TryFrom_eq_some, pure_eq_ok] at h
  obtain ⟨key, hkey, rank, hrank, count, hcount, deps, hdeps, rfl⟩ := h
  simp only [List.append_assoc]
  refine (reads_stateKey hkey).bind ?_
  refine (reads_wire (CacheKind.fromWire_wire _)).bind ?_
  refine (reads_wire (DType.fromWire_wire _)).bind ?_
  refine (reads_wire (Codec.fromWire_wire _)).bind ?_
  refine (reads_u16 _).bind ?_
  refine (reads_wire (Layout.fromWire_wire _)).bind ?_
  refine (reads_wire (TokenAxisRule.fromWire_wire _)).bind ?_
  refine (reads_u8 _).bind ?_
  refine (reads_u8 _).bind ?_
  refine (Reads.check (rejectIf_of_not (by simp))).bind_nil ?_
  refine (reads_u64 _).bind ?_
  refine (reads_u8 _).bind ?_
  refine (reads_countCheck hrank hr.rank_pos hr.rank_le).bind_nil ?_
  rw [hrank]
  refine (Reads.times fun d hd => reads_dimension (hr.dimensions d hd)).bind ?_
  refine (reads_u16 _).bind ?_
  refine (reads_leCheck hcount hr.dependencies).bind_nil ?_
  rw [hcount]
  exact (Reads.times_writeAll hdeps fun _ _ _ hk => reads_stateKey hk).bind_pure

theorem yields_familyState : Yields FamilyState.decode FamilyState.Readable := by
  iterate 12 refine .after fun _ => ?_
  refine (Yields.check _).bind fun _ hrank => (yields_dimension.times _).bind fun dims hdims => .after fun count =>
    (Yields.check _).bind fun _ hcount => ((Yields.true _).times _).bind fun deps hdeps => .pure ?_
  rw [rejectIf_eq_ok] at hrank hcount
  exact ⟨by simp only [hdims.1]; omega, by simp only [hdims.1]; omega, hdims.2, by simp only [hdeps.1]; omega⟩

theorem reads_familyBody {f : RepresentationFamilyId} (h : f.encodeBody = .ok bs) (hr : f.Readable) :
    Reads RepresentationFamilyId.decodeBody bs f := by
  simp only [RepresentationFamilyId.encodeBody, bind_eq_ok, okOr_eq_ok, u32TryFrom_eq_some, pure_eq_ok] at h
  obtain ⟨count, hcount, states, hstates, rfl⟩ := h
  simp only [List.append_assoc]
  refine (reads_id _).bind ?_
  refine (reads_wire (RepresentationMode.fromWire_wire _)).bind ?_
  refine reads_expect16.bind ?_
  refine (reads_u32 _).bind ?_
  refine (reads_id _).bind ?_
  refine (reads_id _).bind ?_
  refine (reads_u32 _).bind ?_
  refine (reads_countCheck hcount hr.count_pos hr.count_le).bind_nil ?_
  rw [hcount]
  exact (Reads.times_writeAll hstates fun s hs _ henc => reads_familyState henc (hr.states s hs)).bind_pure

theorem yields_familyBody : Yields RepresentationFamilyId.decodeBody RepresentationFamilyId.Readable := by
  iterate 7 refine .after fun _ => ?_
  refine (Yields.check _).bind fun _ hcount => (yields_familyState.times _).bind fun states hstates => .pure ?_
  rw [rejectIf_eq_ok] at hcount
  exact ⟨by simp only [hstates.1]; omega, by simp only [hstates.1]; omega, hstates.2⟩

/-! ## Realized schema -/

theorem reads_shape (s : Shape) : Reads Shape.decode s.encode s := by
  have hlen : (UInt8.ofNat s.rank).toNat = s.dims.length :=
    UInt8.toNat_ofNat_of_lt' (lt_of_le_of_lt s.rank_le (by decide))
  have hpos : s.dims.length ≠ 0 := fun h => s.rank_pos (List.eq_nil_of_length_eq_zero h)
  have hencode : s.encode = [UInt8.ofNat s.rank] ++ (s.dims.flatMap le64 ++ []) := by
    rw [List.append_nil]
    rfl
  rw [hencode]
  refine (reads_u8 _).bind ?_
  refine (reads_countCheck hlen hpos s.rank_le).bind_nil ?_
  rw [hlen]
  exact (Reads.times fun d _ => reads_u64 d).bind (Reads.check s.new_dims)

theorem reads_chunkSpan (s : ChunkSpan) : Reads ChunkSpan.decode s.encode s := by
  simp only [ChunkSpan.encode, List.append_assoc]
  exact (reads_u64 _).bind <| (reads_u64 _).bind <| (reads_u64 _).bind (reads_u32 _).bind_pure

theorem reads_realizedStateSchema {s : RealizedStateSchema} (h : s.encode = .ok bs)
    (hr : s.Readable) : Reads RealizedStateSchema.decode bs s := by
  simp only [RealizedStateSchema.encode, bind_eq_ok, okOr_eq_ok, u8TryFrom_eq_some, u32TryFrom_eq_some,
    pure_eq_ok] at h
  obtain ⟨key, hkey, strides, hstrides, count, hcount, rfl⟩ := h
  simp only [List.append_assoc]
  refine (reads_stateKey hkey).bind ?_
  refine (reads_shape _).bind ?_
  refine (reads_shape _).bind ?_
  refine (reads_u8 _).bind ?_
  refine (reads_leCheck hstrides hr.strides_le).bind_nil ?_
  rw [hstrides]
  refine (Reads.times fun d _ => reads_u64 d).bind ?_
  iterate 7 refine (reads_u64 _).bind ?_
  refine (reads_u32 _).bind ?_
  refine (reads_countCheck hcount hr.spans_pos hr.spans_le).bind_nil ?_
  rw [hcount]
  exact (Reads.times fun s _ => reads_chunkSpan s).bind_pure

theorem yields_realizedStateSchema : Yields RealizedStateSchema.decode RealizedStateSchema.Readable := by
  iterate 4 refine .after fun _ => ?_
  refine (Yields.check _).bind fun _ hstrides => ((Yields.true _).times _).bind fun strides hlen => ?_
  iterate 8 refine .after fun _ => ?_
  refine (Yields.check _).bind fun _ hcount => ((Yields.true _).times _).bind fun spans hspans => .pure ?_
  rw [rejectIf_eq_ok] at hstrides hcount
  exact ⟨by simp only [hlen.1]; omega, by simp only [hspans.1]; omega, by simp only [hspans.1]; omega⟩

theorem reads_atomicGroup {g : AtomicGroup} (h : g.encode = .ok bs) (hr : g.Readable) :
    Reads AtomicGroup.decode bs g := by
  simp only [AtomicGroup.encode, bind_eq_ok, okOr_eq_ok, u32TryFrom_eq_some, pure_eq_ok] at h
  obtain ⟨count, hcount, states, hstates, rfl⟩ := h
  simp only [List.append_assoc]
  refine (reads_u32 _).bind ?_
  refine (reads_u32 _).bind ?_
  refine (reads_countCheck hcount hr.count_pos hr.count_le).bind_nil ?_
  rw [hcount]
  exact (Reads.times_writeAll hstates fun _ _ _ hk => reads_stateKey hk).bind_pure

theorem yields_atomicGroup : Yields AtomicGroup.decode AtomicGroup.Readable := by
  refine .after fun _ => .after fun _ => (Yields.check _).bind fun _ hcount =>
    ((Yields.true _).times _).bind fun states hstates => .pure ?_
  rw [rejectIf_eq_ok] at hcount
  exact ⟨by simp only [hstates.1]; omega, by simp only [hstates.1]; omega⟩

theorem reads_manifestKind (k : ManifestKind) : Reads ManifestKind.decode k.encode k := by
  cases k with
  | full =>
    have hencode : ManifestKind.full.encode = [0] ++ ([0] ++ (le16 0 ++ [])) := rfl
    rw [hencode]
    refine (reads_u8 0).bind ((reads_u8 0).bind (reads_expect16.bind ?_))
    exact (Reads.check (rejectIf_of_not (by decide))).bind_nil (Reads.pure _)
  | delta parent parentCut depth =>
    simp only [ManifestKind.encode, List.append_assoc]
    refine (reads_u8 1).bind ((reads_u8 depth).bind (reads_expect16.bind ?_))
    exact (reads_id parent).bind (reads_inputCutId parentCut).bind_pure

theorem reads_schemaBody {s : RealizedCutSchemaId} (h : s.encodeBody = .ok bs) (hr : s.Readable) :
    Reads RealizedCutSchemaId.decodeBody bs s := by
  simp only [RealizedCutSchemaId.encodeBody, bind_eq_ok, okOr_eq_ok, u32TryFrom_eq_some, pure_eq_ok] at h
  obtain ⟨stateCount, hstateCount, states, hstates, groupCount, hgroupCount, groups, hgroups, rfl⟩ := h
  simp only [List.append_assoc]
  refine (reads_manifestKind _).bind ?_
  refine (reads_u32 _).bind ?_
  refine (reads_countCheck hstateCount hr.count_pos hr.count_le).bind_nil ?_
  rw [hstateCount]
  refine (Reads.times_writeAll hstates fun st hst _ henc => reads_realizedStateSchema henc (hr.states st hst)).bind ?_
  refine (reads_u32 _).bind ?_
  refine (reads_countCheck hgroupCount hr.groups_pos hr.groups_le).bind_nil ?_
  rw [hgroupCount]
  refine (Reads.times_writeAll hgroups fun g hg _ henc => reads_atomicGroup henc (hr.groups g hg)).bind ?_
  exact (reads_u64 _).bind (reads_u64 _).bind_pure

theorem yields_schemaBody : Yields RealizedCutSchemaId.decodeBody RealizedCutSchemaId.Readable := by
  refine .after fun _ => .after fun _ => (Yields.check _).bind fun _ hcount =>
    (yields_realizedStateSchema.times _).bind fun states hstates => .after fun _ =>
    (Yields.check _).bind fun _ hgroups => (yields_atomicGroup.times _).bind fun groups hg =>
    .after fun _ => .after fun _ => .pure ?_
  rw [rejectIf_eq_ok] at hcount hgroups
  exact ⟨by simp only [hstates.1]; omega, by simp only [hstates.1]; omega, hstates.2,
    by simp only [hg.1]; omega, by simp only [hg.1]; omega, hg.2⟩

/-! ## Manifest -/

theorem reads_chunkRef (c : ChunkRef) : Reads ChunkRef.decode c.encode c := by
  simp only [ChunkRef.encode, List.append_assoc]
  exact (reads_id _).bind <| (reads_id _).bind <| (reads_id _).bind <| (reads_u64 _).bind <| (reads_u32 _).bind
    (reads_u32 _).bind_pure

theorem reads_stateManifest {s : StateManifest} (h : s.encode = .ok bs) (hr : s.Readable) :
    Reads StateManifest.decode bs s := by
  simp only [StateManifest.encode, bind_eq_ok, okOr_eq_ok, u32TryFrom_eq_some, pure_eq_ok] at h
  obtain ⟨key, hkey, count, hcount, rfl⟩ := h
  simp only [List.append_assoc]
  refine (reads_stateKey hkey).bind ?_
  refine (reads_u32 _).bind ?_
  refine (reads_countCheck hcount hr.chunks_pos hr.chunks_le).bind_nil ?_
  rw [hcount]
  exact (Reads.times fun c _ => reads_chunkRef c).bind_pure

theorem yields_stateManifest : Yields StateManifest.decode StateManifest.Readable := by
  refine .after fun _ => .after fun _ => (Yields.check _).bind fun _ hcount =>
    ((Yields.true _).times _).bind fun chunks hchunks => .pure ?_
  rw [rejectIf_eq_ok] at hcount
  exact ⟨by simp only [hchunks.1]; omega, by simp only [hchunks.1]; omega⟩

theorem reads_manifest (h : m.encodeCanonical = .ok bs) (hr : m.Readable) :
    Reads CutManifest.decodeFields bs m := by
  simp only [CutManifest.encodeCanonical, bind_eq_ok, okOr_eq_ok, u32TryFrom_eq_some, pure_eq_ok] at h
  obtain ⟨family, hfamily, schema, hschema, count, hcount, states, hstates, rfl⟩ := h
  simp only [List.append_assoc]
  have hmagic : manifestMagic.length = 8 := by decide
  refine (reads_new hmagic).bind ?_
  refine reads_expect16.bind ?_
  refine reads_expect16.bind ?_
  refine (reads_id _).bind ?_
  refine (reads_u64 _).bind ?_
  refine (reads_semanticModelId _).bind ?_
  refine (reads_inputCutId _).bind ?_
  refine (reads_familyBody hfamily hr.family).bind ?_
  refine (reads_schemaBody hschema hr.schema).bind ?_
  refine (reads_u32 _).bind ?_
  refine (reads_countCheck hcount hr.count_pos hr.count_le).bind_nil ?_
  rw [hcount]
  exact (Reads.times_writeAll hstates fun s hs _ henc => reads_stateManifest henc (hr.states s hs)).bind_pure

theorem yields_manifest : Yields CutManifest.decodeFields CutManifest.Readable := by
  iterate 7 refine .after fun _ => ?_
  refine yields_familyBody.bind fun family hfamily => yields_schemaBody.bind fun schema hschema => .after fun _ =>
    (Yields.check _).bind fun _ hcount => (yields_stateManifest.times _).bind fun states hstates => .pure ?_
  rw [rejectIf_eq_ok] at hcount
  exact ⟨hfamily, hschema, by simp only [hstates.1]; omega, by simp only [hstates.1]; omega, hstates.2⟩

/-! ## Whole manifests -/

/-- A byte string decodes to `m` exactly when it reads as `m` to its end and `m` encodes to it. -/
theorem decodeCanonical_eq_ok :
    CutManifest.decodeCanonical bytes = .ok m ↔
      bytes.length ≤ maxManifestBytes ∧ CutManifest.decodeFields.run bytes = .ok (m, []) ∧
        m.encodeCanonical = .ok bytes := by
  simp only [CutManifest.decodeCanonical, bind_eq_ok, exists_unit, rejectIf_eq_ok, not_lt, not_not, pure_eq_ok,
    finish_eq_ok, Prod.exists]
  constructor
  · rintro ⟨hlen, value, rest, hfields, -, ⟨rfl, -⟩, again, hagain, rfl, rfl⟩
    exact ⟨hlen, hfields, hagain⟩
  · rintro ⟨hlen, hfields, hagain⟩
    exact ⟨hlen, m, [], hfields, [], ⟨rfl, rfl⟩, bytes, hagain, rfl, rfl⟩

theorem decodeCanonical_encodeCanonical (h : m.encodeCanonical = .ok bytes)
    (hlen : bytes.length ≤ maxManifestBytes) : CutManifest.decodeCanonical bytes = .ok m ↔ m.Readable := by
  rw [decodeCanonical_eq_ok]
  constructor
  · rintro ⟨-, hfields, -⟩
    exact yields_manifest _ _ _ hfields
  · intro hr
    have hread := reads_manifest h hr []
    rw [List.append_nil] at hread
    exact ⟨hlen, hread, h⟩

end Kvpack.Core
