import Kvpack.Core.Theorems
import Kvpack.Store.Intent

/-!
# What an intent digest binds

The fields of an intent can be read back from its preimage, so while no hashes collide equal digests come from equal
declarations, policies and prompts, except for the auxiliary inputs.
-/

namespace Kvpack.Store

open Base Kvpack.Core

variable {C : Crypto} {hashed : Set Bytes}

theorem length_inj {α β : Type} {xs : List α} {ys : List β} (hx : xs.length < 2 ^ 64) (hy : ys.length < 2 ^ 64)
    (h : UInt64.ofNat xs.length = UInt64.ofNat ys.length) : xs.length = ys.length := by
  rw [← UInt64.toNat_inj, UInt64.toNat_ofNat_of_lt' hx, UInt64.toNat_ofNat_of_lt' hy] at h
  exact h

theorem intent_append_inj ⦃s t : ExportStateDeclaration⦄ ⦃r r' : Bytes⦄ (h : s.intent ++ r = t.intent ++ r') :
    s = t ∧ r = r' := by
  obtain ⟨⟨layer, name⟩, strides, group, hname, hstrides⟩ := s
  obtain ⟨⟨layer', name'⟩, strides', group', hname', hstrides'⟩ := t
  simp only [ExportStateDeclaration.intent, intentBytes, List.append_assoc, le32_append_inj, le64_append_inj] at h
  obtain ⟨rfl, hlength, h⟩ := h
  obtain ⟨hutf8, h⟩ := List.append_inj h (length_inj hname hname' hlength)
  rw [le64_append_inj] at h
  obtain ⟨hcount, h⟩ := h
  obtain ⟨rfl, hrest⟩ := flatMap_append_inj (P := fun _ => True) (fun _ _ _ _ _ _ h => le64_append_inj.mp h)
    (length_inj hstrides hstrides' hcount) (fun _ _ => trivial) (fun _ _ => trivial) h
  obtain ⟨rfl, rfl⟩ := le32_append_inj.mp hrest
  obtain rfl := utf8_inj hutf8
  exact ⟨rfl, rfl⟩

/-- In an accepted family no dimension is written like the token dimension. -/
theorem dimensionsNonzero_of_validate {f : RepresentationFamilyId} (h : validateFamily f = .ok ()) :
    f.DimensionsNonzero := by
  rintro s hs d hd rfl
  have hv := (validateFamily_eq_ok h).states s hs
  have hzero : 0 ∈ toNats (fixedDimensions s.dimensions) :=
    List.mem_map.mpr ⟨0, List.mem_filterMap.mpr ⟨StaticDimension.fixed 0, hd, rfl⟩, rfl⟩
  have hpos := hv.elements_pos
  rw [hv.elements, List.prod_eq_zero hzero] at hpos
  exact absurd hpos (lt_irrefl 0)

/-- The hashes that the digest of an intent is computed with are among `hashed`. -/
structure IntentHashed (C : Crypto) (hashed : Set Bytes) (tenantNamespace : Id32) (keyEpoch : UInt64)
    (declaration : ProvisionalExportDeclaration) (policy : WritePolicy) : Prop where
  model : semanticModelPreimage declaration.semanticModel ∈ hashed
  family : Queried hashed (representationFamilyPreimage declaration.family)
  intent : Queried hashed (provisionalIntentPreimage C tenantNamespace keyEpoch declaration policy)

section Binding

variable {t t' : Id32} {e e' : UInt64} {d d' : ProvisionalExportDeclaration} {p p' : WritePolicy} {digest : Id32}

theorem toUInt8_inj {a b : Bool} (h : a.toUInt8 = b.toUInt8) : a = b := by
  cases a <;> cases b <;> first | rfl | cases h

/-- Everything but the auxiliary inputs is bound. -/
theorem provisionalIntentDigest_inj (hc : Set.InjOn C.sha256 hashed) (hf : validateFamily d.family = .ok ())
    (hf' : validateFamily d'.family = .ok ()) (hq : IntentHashed C hashed t e d p)
    (hq' : IntentHashed C hashed t' e' d' p') (h : provisionalIntentDigest C t e d p = .ok digest)
    (h' : provisionalIntentDigest C t' e' d' p' = .ok digest) :
    t = t' ∧ e = e' ∧ p = p' ∧ d' = { d with auxiliaryInputs := d'.auxiliaryInputs } := by
  simp only [provisionalIntentDigest, bind_eq_ok, liftPack_eq_ok, pure_eq_ok] at h h'
  obtain ⟨preimage, hpreimage, rfl⟩ := h
  obtain ⟨preimage', hpreimage', heq⟩ := h'
  obtain rfl := hc (hq'.intent hpreimage') (hq.intent hpreimage) heq
  simp only [provisionalIntentPreimage, bind_eq_ok, pure_eq_ok] at hpreimage hpreimage'
  obtain ⟨family, hfamily, rfl⟩ := hpreimage
  obtain ⟨family', hfamily', heq⟩ := hpreimage'
  simp only [List.append_assoc, List.append_right_inj, byteArr_append_inj, le64_append_inj] at heq
  obtain ⟨rfl, rfl, hsource, hprompt, hcached, hmodel, rfl, hcount, heq⟩ := heq
  obtain ⟨hstates, heq⟩ := flatMap_append_inj (P := fun _ => True) (fun _ _ _ _ _ _ h => intent_append_inj h)
    (length_inj d'.states_lt d.states_lt hcount) (fun _ _ => trivial) (fun _ _ => trivial) heq
  have hfree : CollisionFree C zeroId ∅ hashed := ⟨Set.injOn_empty _, hc⟩
  have hfamilies := hfree.family (dimensionsNonzero_of_validate hf') (dimensionsNonzero_of_validate hf) hq'.family
    hq.family hfamily' hfamily
  have hmodels := hfree.semanticModel hq'.model hq.model hmodel
  simp only [List.cons_append, List.nil_append, List.cons.injEq, le64_append_inj, le64_inj] at heq
  obtain ⟨hchunks, hmanifest, hmaximum, hgeneration⟩ := heq
  have hcounts : d'.cachedTokenCount = d.cachedTokenCount := UInt32.toUInt64_inj.mp ((UInt64.add_left_inj 1).mp hcached)
  obtain ⟨model, cached, prompt, source, auxiliary, family, states, hlt⟩ := d
  obtain ⟨model', cached', prompt', source', auxiliary', family', states', hlt'⟩ := d'
  obtain ⟨chunks, manifest, maximum, generation⟩ := p
  obtain ⟨chunks', manifest', maximum', generation'⟩ := p'
  dsimp only at *
  subst hsource hprompt hstates hfamilies hmodels hmaximum hgeneration hcounts
  obtain rfl := toUInt8_inj hchunks
  obtain rfl := toUInt8_inj hmanifest
  exact ⟨rfl, rfl, rfl, rfl⟩

theorem checkSeal_inj (hc : Set.InjOn C.sha256 hashed) {tokens tokens' : List UInt32} {a a' : Id32}
    (hdeclared : d.sealedPromptTokenIdsSha256 = d'.sealedPromptTokenIdsSha256)
    (hq : portablePrefillPreimage tokens ∈ hashed) (hq' : portablePrefillPreimage tokens' ∈ hashed)
    (hcount : d.cachedTokenCount = d'.cachedTokenCount)
    (h : checkSeal C d tokens a = .ok ()) (h' : checkSeal C d' tokens' a' = .ok ()) : tokens = tokens' := by
  simp only [checkSeal, rejectIf_eq_ok, not_or, not_not, ne_eq] at h h'
  have heq := hc hq hq' (h.2.2.trans (hdeclared.trans h'.2.2.symm))
  have hlen : tokens.length = tokens'.length := by rw [h.2.1, h'.2.1, hcount]
  have happend : tokens.flatMap le32 ++ [] = tokens'.flatMap le32 ++ [] :=
    congrArg (· ++ []) (List.append_cancel_left heq)
  exact (flatMap_append_inj (P := fun _ => True) (fun _ _ _ _ _ _ h => le32_append_inj.mp h) hlen (fun _ _ => trivial)
    (fun _ _ => trivial) happend).1

end Binding

/-- Everything that a seal publishes from is the same. -/
structure SameIntent (t t' : Id32) (e e' : UInt64) (d d' : ProvisionalExportDeclaration) (p p' : WritePolicy)
    (tokens tokens' : List UInt32) : Prop where
  tenant : t = t'
  epoch : e = e'
  declaration : d = d'
  policy : p = p'
  tokens : tokens = tokens'

/-- Equal digests mean the same intent exactly if the auxiliary inputs, which are not hashed, agree; then a key is not
accepted for another intent. -/
theorem intentDigest_binds (hc : Set.InjOn C.sha256 hashed) (t t' : Id32) (e e' : UInt64)
    (d d' : ProvisionalExportDeclaration) (p p' : WritePolicy) (tokens tokens' : List UInt32) (a a' : Id32)
    (hf : validateFamily d.family = .ok ()) (hf' : validateFamily d'.family = .ok ())
    (hq : IntentHashed C hashed t e d p) (hq' : IntentHashed C hashed t' e' d' p')
    (hprompt : portablePrefillPreimage tokens ∈ hashed) (hprompt' : portablePrefillPreimage tokens' ∈ hashed)
    (hseal : checkSeal C d tokens a = .ok ()) (hseal' : checkSeal C d' tokens' a' = .ok ()) :
    (∀ digest, provisionalIntentDigest C t e d p = .ok digest → provisionalIntentDigest C t' e' d' p' = .ok digest →
      (SameIntent t t' e e' d d' p p' tokens tokens' ↔ d.auxiliaryInputs = d'.auxiliaryInputs)) ∧
    ∀ (upload : Upload) (reservation : UploadReservation),
      provisionalIntentDigest C t e d p = .ok upload.intentDigest →
      provisionalIntentDigest C t' e' d' p' = .ok reservation.intentDigest → d.auxiliaryInputs = d'.auxiliaryInputs →
      ¬ SameIntent t t' e e' d d' p p' tokens tokens' → upload.sameDeclaration reservation ≠ .ok () := by
  have hiff : ∀ digest, provisionalIntentDigest C t e d p = .ok digest →
      provisionalIntentDigest C t' e' d' p' = .ok digest →
      (SameIntent t t' e e' d d' p p' tokens tokens' ↔ d.auxiliaryInputs = d'.auxiliaryInputs) := by
    intro digest h h'
    obtain ⟨htenant, hepoch, hpolicy, hd⟩ := provisionalIntentDigest_inj hc hf hf' hq hq' h h'
    constructor
    · intro hsame
      rw [hsame.declaration]
    · intro hauxiliary
      have hdeclaration : d' = d := by rw [hd, ← hauxiliary]
      refine ⟨htenant, hepoch, hdeclaration.symm, hpolicy, ?_⟩
      exact checkSeal_inj hc (by rw [hdeclaration]) hprompt hprompt' (by rw [hdeclaration]) hseal hseal'
  refine ⟨hiff, fun upload reservation h h' hauxiliary hdiffer hsame => hdiffer ?_⟩
  simp only [Upload.sameDeclaration, bind_eq_ok, exists_unit, rejectIf_eq_ok, not_not, ne_eq] at hsame
  rw [← hsame.2.2] at h'
  exact (hiff _ h h').mpr hauxiliary

/-! An export of one token of one byte. -/

def byteExport (auxiliaryInputs : List AuxiliaryInputId) : ProvisionalExportDeclaration where
  semanticModel := ⟨repeatedId 1, repeatedId 1, repeatedId 1, repeatedId 1, repeatedId 1⟩
  cachedTokenCount := 1
  sealedPromptTokenIdsSha256 := portablePrefillTokenIdsSha256 checksumCrypto [1, 2]
  sourceDeclarationDigest := repeatedId 9
  auxiliaryInputs
  family := byteFamily [byteState ⟨0, "k"⟩ []]
  states := [⟨⟨0, "k"⟩, [1], 1, by decide, by decide⟩]
  states_lt := by decide

def bytePolicy : WritePolicy := ⟨true, true, 100, 1⟩

def byteDigest (auxiliaryInputs : List AuxiliaryInputId) : Except StoreError Id32 :=
  provisionalIntentDigest checksumCrypto (repeatedId 9) 1 (byteExport auxiliaryInputs) bytePolicy

/-- What is hashed for the digest and the prompt. -/
def byteHashes : List Bytes :=
  [semanticModelPreimage (byteExport []).semanticModel, portablePrefillPreimage [1, 2]] ++
    (representationFamilyPreimage (byteExport []).family).toOption.toList ++
    (provisionalIntentPreimage checksumCrypto (repeatedId 9) 1 (byteExport []) bytePolicy).toOption.toList

theorem byteExport_hashed (auxiliaryInputs : List AuxiliaryInputId) :
    IntentHashed checksumCrypto {b | b ∈ byteHashes} (repeatedId 9) 1 (byteExport auxiliaryInputs) bytePolicy where
  model := by simp [byteHashes, byteExport]
  family _ h := by
    simp [byteHashes, show representationFamilyPreimage (byteExport []).family = _ from h, Except.toOption]
  intent _ h := by
    simp [byteHashes, Except.toOption,
      show provisionalIntentPreimage checksumCrypto (repeatedId 9) 1 (byteExport []) bytePolicy = _ from h]

theorem intentDigest_binds_byte :
    ¬ SameIntent (repeatedId 9) (repeatedId 9) 1 1 (byteExport []) (byteExport [⟨repeatedId 1, repeatedId 2⟩])
      bytePolicy bytePolicy [1, 2] [1, 2] := by
  have hc : Set.InjOn checksumCrypto.sha256 {b | b ∈ byteHashes} := fun _ ha _ hb =>
    List.inj_on_of_nodup_map (by decide +kernel : (byteHashes.map checksumCrypto.sha256).Nodup) ha hb
  have hprompt : portablePrefillPreimage [1, 2] ∈ byteHashes := by simp [byteHashes]
  obtain ⟨digest, hdigest, -⟩ : ∃ digest, byteDigest [] = .ok digest ∧ True := exists_of_okAnd (by decide)
  have hbinds := intentDigest_binds hc _ _ _ _ _ _ _ _ _ _ (repeatedId 3) (repeatedId 3) (by decide) (by decide)
    (byteExport_hashed []) (byteExport_hashed [⟨repeatedId 1, repeatedId 2⟩]) hprompt hprompt (by decide) (by decide)
  rw [hbinds.1 digest hdigest hdigest]
  exact fun h => by cases h

/-- Exports with other auxiliary inputs have the same digest, so the key is accepted for both. -/
theorem intentDigest_shared :
    (∃ digest, byteDigest [] = .ok digest ∧ byteDigest [⟨repeatedId 1, repeatedId 2⟩] = .ok digest) ∧
      ∃ cut cut', sealedCut checksumCrypto flatKeys (repeatedId 9) (byteExport []) [1, 2] = .ok cut ∧
        sealedCut checksumCrypto flatKeys (repeatedId 9) (byteExport [⟨repeatedId 1, repeatedId 2⟩]) [1, 2] = .ok cut' ∧
        cut ≠ cut' := by
  obtain ⟨digest, hdigest, -⟩ : ∃ digest, byteDigest [] = .ok digest ∧ True := exists_of_okAnd (by decide)
  obtain ⟨cut, hcut, hroot⟩ := exists_of_okAnd (P := fun cut => cut.auxiliaryInputRoot = repeatedId 25)
    (x := sealedCut checksumCrypto flatKeys (repeatedId 9) (byteExport []) [1, 2]) (by decide)
  obtain ⟨cut', hcut', hroot'⟩ := exists_of_okAnd (P := fun cut => cut.auxiliaryInputRoot ≠ repeatedId 25)
    (x := sealedCut checksumCrypto flatKeys (repeatedId 9) (byteExport [⟨repeatedId 1, repeatedId 2⟩]) [1, 2])
    (by decide +kernel)
  refine ⟨⟨digest, hdigest, hdigest⟩, cut, cut', hcut, hcut', fun heq => hroot' ?_⟩
  rw [← heq, hroot]

end Kvpack.Store
