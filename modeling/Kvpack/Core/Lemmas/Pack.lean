import Kvpack.Core.Pack
import Kvpack.Core.Lemmas.Reading

/-!
# Reading back packs

Every field of a written header and footer is found at its offset, so a written pack passes all checks of the reader
up to the canonical manifest it holds.
-/

namespace Kvpack.Core

open Base

/-- What a reader finds in a written header. -/
def PackHeader.written (encrypt : Bool) (storedLen plainLen : Nat) (keyEpoch : UInt64) (tenant id : Id32) :
    PackHeader :=
  { tenantNamespace := tenant, manifestId := id, keyEpoch, manifestBytes := UInt64.ofNat storedLen,
    plaintextManifestBytes := UInt64.ofNat plainLen, encrypted := encrypt }

/-! ## Header fields -/

section Header

variable {encrypt : Bool} {storedLen plainLen : Nat} {keyEpoch : UInt64} {tenant id : Id32} {salt : ByteArr 16}
  {nonce : ByteArr 12} {digest : Id32}
variable {header : Bytes}

theorem length_packMagic : packMagic.length = 8 := by decide

theorem length_footerMagic : footerMagic.length = 8 := by decide

theorem length_packHeader :
    (packHeaderBytesOf encrypt storedLen plainLen keyEpoch tenant id salt nonce digest.val).length =
      packHeaderBytes := by
  simp [packHeaderBytesOf, length_packMagic, tenant.property, id.property, salt.property, nonce.property,
    digest.property, packHeaderBytes, alignment]

section Fields

variable (h : header = packHeaderBytesOf encrypt storedLen plainLen keyEpoch tenant id salt nonce digest.val)

include h

/-- The size fields of a header and its flags read back as they were written. -/
theorem packHeader_fields :
    header.take 8 = packMagic ∧ field16 header 8 = wireVersion ∧
    field16 header 10 = UInt16.ofNat packHeaderBytes ∧ field32 header 12 = UInt32.ofNat alignment ∧
    field32 header 16 = (if encrypt then flagEncrypted else 0) ∧ field32 header 20 = 0 ∧
    field64 header 24 = UInt64.ofNat storedLen ∧ field64 header 32 = UInt64.ofNat plainLen ∧
    field64 header 40 = keyEpoch ∧ field64 header 48 = 0 := by
  subst h
  refine ⟨?_, ?_, ?_, ?_, ?_, ?_, ?_, ?_, ?_, ?_⟩
  · rw [packHeaderBytesOf, List.take_append_of_le_length length_packMagic.ge,
      List.take_of_length_le length_packMagic.le]
  all_goals simp [packHeaderBytesOf, field16_append_right, field32_append_right, field32_zeros, field64_append_right,
    field64_zeros, length_packMagic]

theorem packHeader_arrays :
    arrayAt 32 header 56 = tenant ∧ arrayAt 32 header 88 = id ∧ arrayAt 16 header 120 = salt ∧
    arrayAt 12 header 136 = nonce ∧ arrayAt 32 header packDigestOffset = digest := by
  subst h
  refine ⟨?_, ?_, ?_, ?_, ?_⟩ <;>
    simp [packHeaderBytesOf, packDigestOffset, arrayAt_append_right, length_packMagic, arrayAt_here, tenant.property,
      id.property, salt.property, nonce.property]

theorem packHeader_reserved :
    header.drop 180 = zeros (packHeaderBytes - 180) := by
  subst h
  simp [packHeaderBytesOf, drop_past, length_packMagic, tenant.property, id.property, salt.property,
    nonce.property, digest.property]

/-- Clearing the digest gives back the header it was computed from. -/
theorem packHeader_cleared :
    header.take packDigestOffset ++ zeros 32 ++ header.drop (packDigestOffset + 32) =
      packHeaderBytesOf encrypt storedLen plainLen keyEpoch tenant id salt nonce (zeros 32) := by
  subst h
  simp [packHeaderBytesOf, packDigestOffset, take_past, drop_past, length_packMagic, tenant.property, id.property,
    salt.property, nonce.property, digest.property]

theorem packHeader_entropy :
    field header 120 28 = salt.val ++ nonce.val := by
  subst h
  have hlen : (salt.val ++ nonce.val).length = 28 := by simp [salt.property, nonce.property]
  have hskip : field (packHeaderBytesOf encrypt storedLen plainLen keyEpoch tenant id salt nonce digest.val) 120 28 =
      field (salt.val ++ (nonce.val ++ (digest.val ++ zeros (packHeaderBytes - 180)))) 0 28 := by
    simp [packHeaderBytesOf, field_append_right, length_packMagic, tenant.property, id.property]
  rw [hskip, ← List.append_assoc]
  exact field_here hlen

end Fields

/-- A written header is parsed to what was written, whatever follows it. -/
theorem parsePackHeaderFraming_eq_ok {rest : Bytes}
    (hplain : encrypt = false → salt = ByteArr.zero 16 ∧ nonce = ByteArr.zero 12) :
    parsePackHeaderFraming
        (packHeaderBytesOf encrypt storedLen plainLen keyEpoch tenant id salt nonce digest.val ++ rest) =
      .ok (PackHeader.written encrypt storedLen plainLen keyEpoch tenant id) := by
  generalize hheader : packHeaderBytesOf encrypt storedLen plainLen keyEpoch tenant id salt nonce digest.val = header
  have hlen : header.length = packHeaderBytes := hheader ▸ length_packHeader
  have htake : (header ++ rest).take packHeaderBytes = header := by
    rw [List.take_append_of_le_length hlen.ge, List.take_of_length_le hlen.le]
  obtain ⟨h0, h8, h10, h12, h16, h20, h24, h32, h40, h48⟩ := packHeader_fields hheader.symm
  obtain ⟨h56, h88, -, -, -⟩ := packHeader_arrays hheader.symm
  have hflags : (if encrypt then flagEncrypted else 0) &&& ~~~flagEncrypted = (0 : UInt32) := by
    cases encrypt <;> decide
  have hencrypted : decide ((if encrypt then flagEncrypted else 0) &&& flagEncrypted ≠ (0 : UInt32)) = encrypt := by
    cases encrypt <;> decide
  simp only [parsePackHeaderFraming, htake, h0, h8, h10, h12, h16, h20, h24, h32, h40, h48, h56, h88, hflags,
    hencrypted, packHeader_reserved hheader.symm, packHeader_entropy hheader.symm]
  simp only [bind_eq_ok, exists_unit, rejectIf_eq_ok, pure_eq_ok]
  refine ⟨?_, by simp, by decide, by simp, ?_, ?_, rfl⟩
  · rw [List.length_append]
    omega
  · rintro (h | h | ⟨b, hb, hne⟩)
    · exact h rfl
    · exact h rfl
    · exact hne (eq_zero_of_mem_zeros hb)
  · rintro ⟨hfalse, b, hb, hne⟩
    obtain ⟨rfl, rfl⟩ := hplain hfalse
    rcases List.mem_append.mp hb with hb | hb
    · exact hne (eq_zero_of_mem_zeros hb)
    · exact hne (eq_zero_of_mem_zeros hb)

end Header

/-! ## Footer fields -/

section Footer

variable {bodyLen fileLen : Nat} {keyEpoch : UInt64} {id tag : Id32} {footer : Bytes}

theorem length_packFooter : (packFooterBytesOf bodyLen keyEpoch fileLen id tag).length = packFooterBytes := by
  simp [packFooterBytesOf, length_footerMagic, id.property, tag.property, packFooterBytes, alignment]

theorem packFooter_fields (h : footer = packFooterBytesOf bodyLen keyEpoch fileLen id tag) :
    footer.take 8 = footerMagic ∧ field16 footer 8 = wireVersion ∧
    field16 footer 10 = UInt16.ofNat packFooterBytes ∧ field32 footer 12 = 0 ∧
    field64 footer 16 = UInt64.ofNat bodyLen ∧ field64 footer 24 = keyEpoch ∧ field64 footer 32 = 0 ∧
    field64 footer 40 = UInt64.ofNat fileLen ∧ arrayAt 32 footer 48 = id ∧
    arrayAt 32 footer footerHmacOffset = tag ∧ footer.drop 112 = zeros (packFooterBytes - 112) := by
  subst h
  refine ⟨?_, ?_, ?_, ?_, ?_, ?_, ?_, ?_, ?_, ?_, ?_⟩
  · rw [packFooterBytesOf, List.take_append_of_le_length length_footerMagic.ge,
      List.take_of_length_le length_footerMagic.le]
  all_goals simp [packFooterBytesOf, footerHmacOffset, field16_append_right, field32_append_right, field32_zeros,
    field64_append_right, field64_zeros, arrayAt_append_right, arrayAt_here, drop_past, length_footerMagic, id.property,
    tag.property]

end Footer

/-! ## Whole packs -/

section Pack

variable {C : Crypto} {keys : KeySchedule} {encrypt : Bool} {plainLen : Nat} {keyEpoch : UInt64} {tenant id : Id32}
  {salt : ByteArr 16} {nonce : ByteArr 12} {header body : Bytes}
variable {canonical : Bytes} {context : ValidationContext}
variable {entropy : Entropy} {m : CutManifest} {pack : EncodedPack}

/-- The pack that `encodeAuthenticatedPack` assembles around a body. -/
def assemblePack (C : Crypto) (keys : KeySchedule) (keyEpoch : UInt64) (id : Id32) (header body : Bytes) : Bytes :=
  let fileLen := packHeaderBytes + body.length + packFooterBytes
  let tag := authenticate C keys header body (UInt64.ofNat body.length) keyEpoch (UInt64.ofNat fileLen)
  header ++ (body ++ packFooterBytesOf body.length keyEpoch fileLen id tag)

theorem length_assemblePack (hlen : header.length = packHeaderBytes) :
    (assemblePack C keys keyEpoch id header body).length = packHeaderBytes + body.length + packFooterBytes := by
  rw [assemblePack, List.length_append, List.length_append, length_packFooter, hlen]
  omega

theorem assemblePack_parts (hlen : header.length = packHeaderBytes) :
    (assemblePack C keys keyEpoch id header body).take packHeaderBytes = header ∧
    field (assemblePack C keys keyEpoch id header body) packHeaderBytes body.length = body ∧
    (assemblePack C keys keyEpoch id header body).drop (packHeaderBytes + body.length) =
      packFooterBytesOf body.length keyEpoch (packHeaderBytes + body.length + packFooterBytes) id
        (authenticate C keys header body (UInt64.ofNat body.length) keyEpoch
          (UInt64.ofNat (packHeaderBytes + body.length + packFooterBytes))) := by
  rw [assemblePack]
  refine ⟨?_, ?_, ?_⟩
  · rw [List.take_append_of_le_length hlen.ge, List.take_of_length_le hlen.le]
  · rw [field_append_right hlen.le, hlen, Nat.sub_self]
    exact field_here rfl
  · rw [drop_past (by omega), hlen, Nat.add_sub_cancel_left]
    exact List.drop_left

theorem verifyAuthenticatedPack_assemblePack
    (hheader : header = packHeaderBytesOf encrypt body.length plainLen keyEpoch tenant id salt nonce
      (C.sha256 (packHeaderBytesOf encrypt body.length plainLen keyEpoch tenant id salt nonce (zeros 32))).val)
    (hbody : body.length ≤ maxManifestBytes + 16) (hplainLen : plainLen ≤ maxManifestBytes)
    (hplain : encrypt = false → salt = ByteArr.zero 16 ∧ nonce = ByteArr.zero 12) :
    verifyAuthenticatedPack C (assemblePack C keys keyEpoch id header body) keys =
      .ok (PackHeader.written encrypt body.length plainLen keyEpoch tenant id) := by
  have hlen : header.length = packHeaderBytes := hheader ▸ length_packHeader
  have htotal : (assemblePack C keys keyEpoch id header body).length = _ := length_assemblePack hlen
  obtain ⟨htake, hfield, hdrop⟩ := @assemblePack_parts C keys keyEpoch id header body hlen
  have hparse : parsePackHeaderFraming (assemblePack C keys keyEpoch id header body) =
      .ok (PackHeader.written encrypt body.length plainLen keyEpoch tenant id) := by
    rw [assemblePack, hheader]
    exact parsePackHeaderFraming_eq_ok hplain
  obtain ⟨f0, f8, f10, f12, f16, f24, f32, f40, f48, ftag, f112⟩ := packFooter_fields hdrop
  have hstored : (UInt64.ofNat body.length).toNat = body.length :=
    UInt64.toNat_ofNat_of_lt' (lt_of_le_of_lt hbody (by decide))
  have hplainNat : (UInt64.ofNat plainLen).toNat = plainLen :=
    UInt64.toNat_ofNat_of_lt' (lt_of_le_of_lt hplainLen (by decide))
  simp only [verifyAuthenticatedPack, bind_eq_ok, exists_unit, rejectIf_eq_ok, hparse, Except.ok.injEq,
    exists_eq_left', Nat.add_sub_cancel, Nat.add_sub_cancel_left, htake, hfield, f0, f8, f10, f12, f16, f24, f32, f40,
    f48, ftag, f112, htotal, pure_eq_ok, verifyPackHeaderDigest, packHeader_cleared hheader,
    (packHeader_arrays hheader).2.2.2.2, PackHeader.written, hstored, hplainNat]
  refine ⟨by omega, by omega, by simp, ?_, by simp, by simp, by simp, trivial⟩
  rintro (h | h | h | h | ⟨b, hb, hne⟩)
  · exact h rfl
  · exact h (by decide)
  · exact h rfl
  · exact h rfl
  · exact hne (eq_zero_of_mem_zeros hb)

/-- Decryption of the body with what the header carries gives the manifest back. -/
theorem decryptManifest_assemblePack {digest : Id32} {storedLen : Nat}
    (hheader : header = packHeaderBytesOf encrypt storedLen plainLen keyEpoch tenant id salt nonce digest.val)
    (hbody : encryptManifest C encrypt keys id salt nonce header canonical = .ok body) :
    decryptManifest C keys (PackHeader.written encrypt storedLen plainLen keyEpoch tenant id)
      (assemblePack C keys keyEpoch id header body) body = .ok canonical := by
  have hlen : header.length = packHeaderBytes := hheader ▸ length_packHeader
  cases encrypt with
  | false =>
    cases hbody
    rfl
  | true =>
    have hencrypt : C.aeadEncrypt (manifestEncryptionKey C keys id salt) nonce header canonical = some body := by
      simpa [encryptManifest] using hbody
    obtain ⟨htake, -, -⟩ := @assemblePack_parts C keys keyEpoch id header body hlen
    obtain ⟨-, -, hsalt, hnonce, -⟩ := packHeader_arrays hheader
    have hat : ∀ {n offset : Nat}, offset + n ≤ header.length →
        arrayAt n (assemblePack C keys keyEpoch id header body) offset = arrayAt n header offset := by
      intro n offset h
      simp only [arrayAt, assemblePack, field_append_left h]
    have hsize := C.length_encrypt hencrypt
    have hsalt' : arrayAt 16 (assemblePack C keys keyEpoch id header body) 120 = salt := by
      rw [hat (by rw [hlen]; decide), hsalt]
    have hnonce' : arrayAt 12 (assemblePack C keys keyEpoch id header body) 136 = nonce := by
      rw [hat (by rw [hlen]; decide), hnonce]
    have hshort : ¬ body.length < 16 := by omega
    simp [decryptManifest, PackHeader.written, rejectIf_of_not hshort, htake, hsalt', hnonce',
      C.decrypt_encrypt hencrypt]

/-- What a successful encoding consists of. -/
structure EncodedFrom (C : Crypto) (m : CutManifest) (keys : KeySchedule) (encrypt : Bool) (pack : EncodedPack)
    (canonical : Bytes) (salt : ByteArr 16) (nonce : ByteArr 12) (header body : Bytes) : Prop where
  canonical_eq : m.encodeCanonical = .ok canonical
  bounded : canonical.length ≤ maxManifestBytes
  plain : encrypt = false → salt = ByteArr.zero 16 ∧ nonce = ByteArr.zero 12
  header_eq : header = packHeaderBytesOf encrypt body.length canonical.length m.keyEpoch m.tenantNamespace
    (manifestId C canonical) salt nonce (C.sha256 (packHeaderBytesOf encrypt body.length canonical.length m.keyEpoch
      m.tenantNamespace (manifestId C canonical) salt nonce (zeros 32))).val
  body_eq : encryptManifest C encrypt keys (manifestId C canonical) salt nonce header canonical = .ok body
  body_length : body.length = canonical.length + if encrypt then 16 else 0
  bytes : pack.bytes = assemblePack C keys m.keyEpoch (manifestId C canonical) header body
  id : pack.manifestId = manifestId C canonical

theorem length_encryptManifest
    (h : encryptManifest C encrypt keys id salt nonce header canonical = .ok body) :
    body.length = canonical.length + if encrypt then 16 else 0 := by
  cases encrypt with
  | false =>
    cases h
    rfl
  | true =>
    have hencrypt : C.aeadEncrypt (manifestEncryptionKey C keys id salt) nonce header canonical = some body := by
      simpa [encryptManifest] using h
    simpa using C.length_encrypt hencrypt

theorem drawEntropy_plain {e e' : PackError} {salt : ByteArr 16} {nonce : ByteArr 12}
    (h : drawEntropy encrypt entropy e e' = .ok (salt, nonce)) :
    encrypt = false → salt = ByteArr.zero 16 ∧ nonce = ByteArr.zero 12 := by
  rintro rfl
  have h' := Except.ok.inj h
  exact ⟨(congrArg Prod.fst h').symm, (congrArg Prod.snd h').symm⟩

theorem EncodedFrom.of_encode
    (h : encodeAuthenticatedPack C m keys encrypt context entropy = .ok pack) :
    validateManifest m context = .ok () ∧
      ∃ canonical salt nonce header body, EncodedFrom C m keys encrypt pack canonical salt nonce header body := by
  simp only [encodeAuthenticatedPack, bind_eq_ok, exists_unit, rejectIf_eq_ok, not_lt, pure_eq_ok] at h
  obtain ⟨hvalid, canonical, hcanonical, hbounded, ⟨salt, nonce⟩, hentropy, body, hbody, rfl⟩ := h
  have hlen := length_encryptManifest hbody
  refine ⟨hvalid, canonical, salt, nonce, _, body, hcanonical, hbounded, drawEntropy_plain hentropy, ?_, hbody, hlen,
    ?_, rfl⟩
  · rw [hlen]
  · rw [assemblePack, hlen]

/-- Without encryption nothing fails once the manifest is valid and within bounds. -/
theorem exists_encode_plain
    (hvalid : validateManifest m context = .ok ()) (hcanonical : m.encodeCanonical = .ok canonical)
    (hbounded : canonical.length ≤ maxManifestBytes) (entropy : Entropy) :
    ∃ pack, encodeAuthenticatedPack C m keys false context entropy = .ok pack := by
  simp only [encodeAuthenticatedPack, hvalid, hcanonical, ok_bind, rejectIf_of_not (not_lt.mpr hbounded), drawEntropy,
    encryptManifest, Bool.false_eq_true, ↓reduceIte]
  exact ⟨_, rfl⟩

theorem EncodedFrom.verify
    (h : EncodedFrom C m keys encrypt pack canonical salt nonce header body) :
    verifyAuthenticatedPack C pack.bytes keys =
      .ok (PackHeader.written encrypt body.length canonical.length m.keyEpoch m.tenantNamespace
        (manifestId C canonical)) := by
  have hbody : body.length ≤ maxManifestBytes + 16 := by
    have := h.body_length
    have := h.bounded
    split at * <;> omega
  rw [h.bytes]
  exact verifyAuthenticatedPack_assemblePack h.header_eq hbody h.bounded h.plain

/-- Reading a written pack comes down to decoding and checking its manifest. -/
theorem EncodedFrom.decode_eq
    (h : EncodedFrom C m keys encrypt pack canonical salt nonce header body) :
    decodeAuthenticatedPack C pack.bytes keys context = (do
      let m' ← CutManifest.decodeCanonical canonical
      rejectIf (m'.tenantNamespace ≠ m.tenantNamespace ∨ m'.keyEpoch ≠ m.keyEpoch)
        (.authentication "manifest header identity mismatch")
      validateManifest m' context
      return m') := by
  have hlen : header.length = packHeaderBytes := h.header_eq ▸ length_packHeader
  have htotal := @length_assemblePack C keys m.keyEpoch (manifestId C canonical) header body hlen
  obtain ⟨-, hfield, -⟩ := @assemblePack_parts C keys m.keyEpoch (manifestId C canonical) header body hlen
  have hoffset : packHeaderBytes + body.length + packFooterBytes - packFooterBytes - packHeaderBytes = body.length := by
    omega
  let written := PackHeader.written encrypt body.length canonical.length m.keyEpoch m.tenantNamespace
    (manifestId C canonical)
  have hidentity : ¬ (UInt64.ofNat canonical.length ≠ written.plaintextManifestBytes ∨
      manifestId C canonical ≠ written.manifestId) := by simp [written, PackHeader.written]
  rw [decodeAuthenticatedPack, h.verify, h.bytes]
  simp only [ok_bind, htotal, hoffset, hfield, decryptManifest_assemblePack h.header_eq h.body_eq]
  rw [rejectIf_of_not hidentity]
  rfl

theorem EncodedFrom.decode
    (h : EncodedFrom C m keys encrypt pack canonical salt nonce header body)
    (hvalid : validateManifest m context = .ok ()) :
    decodeAuthenticatedPack C pack.bytes keys context = .ok m ↔
      CutManifest.decodeCanonical canonical = .ok m := by
  rw [h.decode_eq]
  simp only [bind_eq_ok, exists_unit, pure_eq_ok]
  constructor
  · rintro ⟨m', hdecode, -, -, rfl⟩
    exact hdecode
  · intro hdecode
    exact ⟨m, hdecode, by simp, hvalid, rfl⟩

end Pack

end Kvpack.Core
