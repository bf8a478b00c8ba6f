import Kvpack.Core.Lemmas.Codec
import Kvpack.Core.Lemmas.Pack
import Kvpack.Core.Lemmas.Stats

/-!
# Reading back chunk objects

Every field of a written header is found at its offset, whatever follows the header, so a written object passes all
checks of the reader up to those on the content of its sidecar.
-/

namespace Kvpack.Core

open Base

/-! ## Header fields -/

theorem length_chunkMagic : chunkMagic.length = 8 := by decide

def ChunkHeader.SidecarFits (h : ChunkHeader) : Prop := ∀ encoded, h.sidecar = some encoded →
  encoded ≠ [] ∧ encoded.length ≤ maxStatsSidecarBytes

theorem length_sidecarTail {sidecar : Option Bytes}
    (h : ∀ encoded, sidecar = some encoded → encoded.length ≤ maxStatsSidecarBytes) :
    (sidecarTail sidecar).length = chunkHeaderBytes - chunkHeaderSidecarOffset := by
  cases sidecar with
  | none => simp [sidecarTail]
  | some encoded =>
    have hle := h encoded rfl
    simp only [maxStatsSidecarBytes, chunkHeaderBytes, alignment, chunkHeaderSidecarOffset] at *
    simp [sidecarTail, chunkHeaderBytes, alignment, chunkHeaderSidecarOffset]
    omega

section Header

variable {h : ChunkHeader} {digest : Id32} {rest bytes : Bytes}

theorem length_chunkHeader (hfits : h.SidecarFits) : (h.bytesOf digest.val).length = chunkHeaderBytes := by
  have htail := length_sidecarTail fun encoded he => (hfits encoded he).2
  simp [ChunkHeader.bytesOf, length_chunkMagic, htail, h.tenant.property, h.family.property, h.content.property,
    h.objectKey.property, h.salt.property, h.nonce.property, digest.property, chunkHeaderBytes, alignment,
    chunkHeaderSidecarOffset]

/-- The fixed-width numbers of a header read back as they were written. -/
theorem chunkHeader_fields (hbytes : bytes = h.bytesOf digest.val ++ rest) :
    bytes.take 8 = chunkMagic ∧ field16 bytes 8 = wireVersion ∧
    field16 bytes 10 = UInt16.ofNat chunkHeaderBytes ∧ field32 bytes 12 = UInt32.ofNat alignment ∧
    field32 bytes 16 = (if h.encrypted then flagEncrypted else 0) ∧ field16 bytes 20 = h.codec.wire ∧
    field16 bytes 22 = h.codecVersion ∧ field32 bytes 24 = UInt32.ofNat h.plaintextBytes ∧
    field32 bytes 28 = UInt32.ofNat h.encodedBytes ∧ field32 bytes 32 = UInt32.ofNat h.payloadBytes ∧
    field32 bytes 36 = UInt32.ofNat h.objectBytes ∧ field64 bytes 40 = h.keyEpoch := by
  subst hbytes
  refine ⟨?_, ?_, ?_, ?_, ?_, ?_, ?_, ?_, ?_, ?_, ?_, ?_⟩
  · rw [ChunkHeader.bytesOf, List.append_assoc, List.take_append_of_le_length length_chunkMagic.ge,
      List.take_of_length_le length_chunkMagic.le]
  all_goals simp [ChunkHeader.bytesOf, field16_append_right, field32_append_right, field64_append_right,
    length_chunkMagic]

theorem chunkHeader_arrays (hbytes : bytes = h.bytesOf digest.val ++ rest) :
    arrayAt 32 bytes 48 = h.tenant ∧ arrayAt 32 bytes 80 = h.family ∧ arrayAt 32 bytes 112 = h.content ∧
    arrayAt 32 bytes 144 = h.objectKey ∧ arrayAt 16 bytes 176 = h.salt ∧ arrayAt 12 bytes 192 = h.nonce ∧
    arrayAt 32 bytes headerDigestOffset = digest := by
  subst hbytes
  refine ⟨?_, ?_, ?_, ?_, ?_, ?_, ?_⟩ <;>
    simp [ChunkHeader.bytesOf, headerDigestOffset, arrayAt_append_right, length_chunkMagic, arrayAt_here,
      h.tenant.property, h.family.property, h.content.property, h.objectKey.property, h.salt.property, h.nonce.property]

theorem chunkHeader_entropy (hbytes : bytes = h.bytesOf digest.val ++ rest) :
    field bytes 176 28 = h.salt.val ++ h.nonce.val := by
  subst hbytes
  have hlen : (h.salt.val ++ h.nonce.val).length = 28 := by simp [h.salt.property, h.nonce.property]
  have hskip : field (h.bytesOf digest.val ++ rest) 176 28 =
      field ((h.salt.val ++ h.nonce.val) ++ (digest.val ++ (sidecarTail h.sidecar ++ rest))) 0 28 := by
    simp [ChunkHeader.bytesOf, field_append_right, length_chunkMagic, h.tenant.property, h.family.property,
      h.content.property, h.objectKey.property]
  rw [hskip]
  exact field_here hlen

/-- Clearing the digest gives back the header it was computed from. -/
theorem chunkHeader_cleared :
    (h.bytesOf digest.val).take headerDigestOffset ++ zeros 32 ++
      (h.bytesOf digest.val).drop (headerDigestOffset + 32) = h.bytesOf (zeros 32) := by
  simp [ChunkHeader.bytesOf, headerDigestOffset, take_past, drop_past, length_chunkMagic, h.tenant.property,
    h.family.property, h.content.property, h.objectKey.property, h.salt.property, h.nonce.property, digest.property]

theorem chunkHeader_tail {len k : Nat} :
    field (h.bytesOf digest.val ++ rest) (chunkHeaderSidecarOffset + k) len =
      field (sidecarTail h.sidecar ++ rest) k len ∧
    field16 (h.bytesOf digest.val ++ rest) chunkHeaderSidecarOffset = field16 (sidecarTail h.sidecar ++ rest) 0 := by
  have hsplit : ∃ front : Bytes, front.length = chunkHeaderSidecarOffset ∧
      h.bytesOf digest.val = front ++ sidecarTail h.sidecar := by
    refine ⟨(h.bytesOf digest.val).take chunkHeaderSidecarOffset, ?_, ?_⟩ <;>
      simp [ChunkHeader.bytesOf, take_past, chunkHeaderSidecarOffset, length_chunkMagic, h.tenant.property,
        h.family.property, h.content.property, h.objectKey.property, h.salt.property, h.nonce.property, digest.property]
  obtain ⟨front, hlen, heq⟩ := hsplit
  rw [heq, List.append_assoc]
  constructor
  · rw [field_append_right (by omega), hlen, Nat.add_sub_cancel_left]
  · rw [field16_append_right hlen.le, hlen, Nat.sub_self]

end Header

/-! ## Sections of the reader -/

theorem align_spec (value : Nat) :
    value ≤ align value ∧ align value % alignment = 0 ∧ align value < value + alignment := by
  unfold align alignment
  omega

section Object

variable {C : Crypto} {h : ChunkHeader} {digest : Id32} {payload bytes : Bytes}

/-- What the encoder guarantees about the sizes in a header. -/
structure ChunkHeader.Sized (h : ChunkHeader) : Prop where
  version : h.codecVersion = 1
  plaintext_pos : 0 < h.plaintextBytes
  plaintext_le : h.plaintextBytes ≤ maxChunkPlaintext
  encoded_ge : codecFrameHeaderBytes ≤ h.encodedBytes
  encoded_le : h.encodedBytes ≤ maxChunkPlaintext + maxCodecOverhead
  payload : h.payloadBytes = h.encodedBytes + if h.encrypted then 16 else 0
  object : h.objectBytes = align (chunkHeaderBytes + h.payloadBytes)
  object_le : h.objectBytes ≤ maxChunkObjectBytes
  sidecar : h.SidecarFits

/-- The object that the encoder assembles around a payload. -/
def ChunkHeader.objectOf (h : ChunkHeader) (digest : Id32) (payload : Bytes) : Bytes :=
  h.bytesOf digest.val ++ (payload ++ zeros (h.objectBytes - (h.bytesOf digest.val ++ payload).length))

theorem length_objectOf (hs : h.Sized) (hpayload : payload.length = h.payloadBytes) :
    (h.objectOf digest payload).length = h.objectBytes := by
  have hlen : (h.bytesOf digest.val).length = chunkHeaderBytes := length_chunkHeader hs.sidecar
  have halign := align_spec (chunkHeaderBytes + h.payloadBytes)
  rw [ChunkHeader.objectOf, List.length_append, List.length_append, List.length_append, length_zeros, hlen, hpayload,
    hs.object]
  omega

theorem objectOf_parts (hs : h.Sized) (hpayload : payload.length = h.payloadBytes) :
    (h.objectOf digest payload).take chunkHeaderBytes = h.bytesOf digest.val ∧
    field (h.objectOf digest payload) chunkHeaderBytes h.payloadBytes = payload ∧
    ∃ n, (h.objectOf digest payload).drop (chunkHeaderBytes + h.payloadBytes) = zeros n := by
  have hlen : (h.bytesOf digest.val).length = chunkHeaderBytes := length_chunkHeader hs.sidecar
  rw [ChunkHeader.objectOf]
  refine ⟨?_, ?_, h.objectBytes - (h.bytesOf digest.val ++ payload).length, ?_⟩
  · rw [List.take_append_of_le_length hlen.ge, List.take_of_length_le hlen.le]
  · rw [field_append_right hlen.le, hlen, Nat.sub_self]
    exact field_here hpayload
  · rw [drop_past (by omega), hlen, Nat.add_sub_cancel_left, ← hpayload, List.drop_left]

theorem parseChunkFraming_objectOf (hs : h.Sized) (hpayload : payload.length = h.payloadBytes) :
    parseChunkFraming (h.objectOf digest payload) = .ok {
      encrypted := h.encrypted, codec := h.codec, codecVersion := h.codecVersion, plaintextBytes := h.plaintextBytes,
      encodedBytes := h.encodedBytes, payloadBytes := h.payloadBytes } := by
  have hlength : (h.objectOf digest payload).length = h.objectBytes := length_objectOf hs hpayload
  obtain ⟨-, -, n, hpad⟩ := @objectOf_parts h digest payload hs hpayload
  obtain ⟨h0, h8, h10, h12, h16, h20, h22, h24, h28, h32, h36, -⟩ :=
    chunkHeader_fields (show h.objectOf digest payload = h.bytesOf digest.val ++ _ from rfl)
  have halign := align_spec (chunkHeaderBytes + h.payloadBytes)
  have hobj := hs.object
  have hmod : h.objectBytes % alignment = 0 := hobj ▸ halign.2.1
  have hword : ∀ {k : Nat}, k ≤ maxChunkObjectBytes → (UInt32.ofNat k).toNat = k := fun hk =>
    UInt32.toNat_ofNat_of_lt' (lt_of_le_of_lt hk (by decide))
  have hmax : maxChunkPlaintext + maxCodecOverhead + 16 ≤ maxChunkObjectBytes := by decide
  have hpl := hs.plaintext_le
  have hel := hs.encoded_le
  have hpayloadLe : h.payloadBytes ≤ maxChunkObjectBytes := by
    rw [hs.payload]
    split <;> omega
  have hflags : (if h.encrypted then flagEncrypted else 0) &&& ~~~flagEncrypted = (0 : UInt32) := by
    cases h.encrypted <;> decide
  have hencrypted : decide ((if h.encrypted then flagEncrypted else 0) &&& flagEncrypted ≠ (0 : UInt32)) =
      h.encrypted := by
    cases h.encrypted <;> decide
  simp only [parseChunkFraming, hlength, h0, h8, h10, h12, h16, h20, h22, h24, h28, h32, h36, hflags, hencrypted, hpad,
    Codec.fromWire_wire, hword hs.object_le, hword hpayloadLe, hword (show h.plaintextBytes ≤ _ by omega),
    hword (show h.encodedBytes ≤ _ by omega), bind_eq_ok, exists_unit, rejectIf_eq_ok, Except.ok.injEq, exists_eq_left',
    pure_eq_ok]
  have hple := hs.object_le
  have hpos := hs.plaintext_pos
  have hge := hs.encoded_ge
  refine ⟨by omega, by simp, by decide, by simp, by simp [hs.version], by omega, by simp [hs.payload], by omega, ?_,
    trivial⟩
  rintro ⟨b, hb, hne⟩
  exact hne (eq_zero_of_mem_zeros hb)

theorem field_zeros_sub {n offset len : Nat} {rest : Bytes} {b : UInt8} (h : offset + len ≤ n)
    (hb : b ∈ field (zeros n ++ rest) offset len) : b = 0 := by
  rw [field_append_left (by rw [length_zeros]; exact h), field] at hb
  exact eq_zero_of_mem_zeros (List.mem_of_mem_drop (List.mem_of_mem_take hb))

theorem readSidecar_none (hnone : h.sidecar = none) (rest : Bytes) :
    readSidecar C (h.bytesOf digest.val ++ rest) = .ok none := by
  have htail : sidecarTail h.sidecar = zeros (2 + 3858) := by
    rw [hnone]
    rfl
  have hlen : field16 (h.bytesOf digest.val ++ rest) chunkHeaderSidecarOffset = 0 := by
    rw [(@chunkHeader_tail h digest rest 0 0).2, htail, field16_zeros]
  have hfield := (@chunkHeader_tail h digest rest (chunkHeaderBytes - chunkHeaderSidecarOffset) 0).1
  rw [Nat.add_zero, htail] at hfield
  simp only [readSidecar, hlen, hfield]
  rw [if_neg (by simp), rejectIf_of_not, ok_bind]
  · rfl
  · rintro ⟨b, hb, hne⟩
    exact hne (field_zeros_sub (by decide) hb)

theorem readSidecar_some {encoded : Bytes} (hsome : h.sidecar = some encoded) (hne : encoded ≠ [])
    (hle : encoded.length ≤ maxStatsSidecarBytes) (rest : Bytes) :
    readSidecar C (h.bytesOf digest.val ++ rest) =
      (StatsSidecar.decodeCanonical encoded).map fun sidecar => some (sidecar, C.sha256 encoded) := by
  have hpos : encoded.length ≠ 0 := fun h0 => hne (List.eq_nil_of_length_eq_zero h0)
  have htail : sidecarTail h.sidecar ++ rest = le16 (UInt16.ofNat encoded.length) ++
      (encoded ++ (zeros (chunkHeaderBytes - chunkHeaderSidecarOffset - 2 - encoded.length) ++ rest)) := by
    rw [hsome, sidecarTail, List.append_assoc, List.append_assoc]
  have hlen : (field16 (h.bytesOf digest.val ++ rest) chunkHeaderSidecarOffset).toNat = encoded.length := by
    rw [(@chunkHeader_tail h digest rest 0 0).2, htail, field16_le16]
    exact UInt16.toNat_ofNat_of_lt' (lt_of_le_of_lt hle (by decide))
  have hencoded : field (h.bytesOf digest.val ++ rest) (chunkHeaderSidecarOffset + 2) encoded.length = encoded := by
    rw [(@chunkHeader_tail h digest rest encoded.length 2).1, htail, field_append_right (by simp), length_le16,
      Nat.sub_self]
    exact field_here rfl
  have hpad : ∀ b ∈ field (h.bytesOf digest.val ++ rest) (chunkHeaderSidecarOffset + 2 + encoded.length)
      (chunkHeaderBytes - (chunkHeaderSidecarOffset + 2 + encoded.length)), b = 0 := by
    intro b hb
    rw [Nat.add_assoc, (@chunkHeader_tail h digest rest _ (2 + encoded.length)).1, htail,
      field_append_right (by rw [length_le16]; omega), length_le16, Nat.add_sub_cancel_left,
      field_append_right le_rfl, Nat.sub_self] at hb
    refine field_zeros_sub ?_ hb
    omega
  simp only [readSidecar, hlen, hencoded]
  rw [if_pos hpos, rejectIf_of_not (not_lt.mpr hle), ok_bind]
  cases StatsSidecar.decodeCanonical encoded with
  | error e => rfl
  | ok sidecar =>
    rw [ok_bind, rejectIf_of_not, ok_bind]
    · rfl
    · rintro ⟨b, hb, hcon⟩
      exact hcon (hpad b hb)

end Object

/-! ## Whole objects -/

section Whole

variable {C : Crypto} {plaintext : Bytes} {encoding : ChunkEncoding} {keys : KeySchedule} {entropy : Entropy}
  {object : ChunkObject}

/-- What a successful encoding consists of. -/
structure ChunkWritten (C : Crypto) (plaintext : Bytes) (encoding : ChunkEncoding) (keys : KeySchedule)
    (object : ChunkObject) (h : ChunkHeader) (encoded payload : Bytes) : Prop where
  sized : h.Sized
  span_tokens : encoding.span.tokenCount ≠ 0
  span_bytes : encoding.span.plaintextBytes.toNat = plaintext.length
  state : ∃ state, familyState encoding.family encoding.stateKey = .ok state ∧ h.codec = state.codec ∧
    h.codecVersion = state.codecVersion
  frame : encodeCodecFrame h.codec plaintext = .ok encoded
  plaintext_length : h.plaintextBytes = plaintext.length
  encoded_length : h.encodedBytes = encoded.length
  family : representationFamilyId C encoding.family = .ok h.family
  content : chunkId C keys.chunkIdentity encoding.tenantNamespace encoding.family encoding.stateKey encoding.span
    plaintext = .ok h.content
  tenant : h.tenant = encoding.tenantNamespace
  keyEpoch : h.keyEpoch = encoding.keyEpoch
  encrypted : h.encrypted = encoding.encrypt
  plain : h.encrypted = false → h.salt = ByteArr.zero 16 ∧ h.nonce = ByteArr.zero 12
  sidecar : encodeSidecar encoding.statsSidecar = .ok h.sidecar
  objectKey : h.objectKey = deriveObjectKey C keys {
    tenant := h.tenant, family := h.family, content := h.content, keyEpoch := h.keyEpoch, codec := h.codec,
    codecVersion := h.codecVersion, encrypted := h.encrypted, salt := h.salt, nonce := h.nonce,
    statsDigest := h.sidecar.map C.sha256 }
  encrypts : encryptChunk C keys h (h.bytesOf (C.sha256 (h.bytesOf (zeros 32))).val) encoded = .ok payload
  object_eq : object = {
    chunkId := h.content, objectKey := h.objectKey,
    objectDigest := C.sha256 (h.objectOf (C.sha256 (h.bytesOf (zeros 32))) payload),
    plaintextBytes := UInt32.ofNat plaintext.length, bytes := h.objectOf (C.sha256 (h.bytesOf (zeros 32))) payload }

theorem encodeSidecar_fits {sidecar : Option StatsSidecar} {encoded : Bytes}
    (h : encodeSidecar sidecar = .ok (some encoded)) :
    ∃ s, sidecar = some s ∧ s.encodeCanonical = .ok encoded ∧ encoded ≠ [] ∧
      encoded.length ≤ maxStatsSidecarBytes := by
  cases sidecar with
  | none => cases h
  | some s =>
    simp only [encodeSidecar, bind_eq_ok, exists_unit, rejectIf_eq_ok, not_or, not_lt, pure_eq_ok,
      Option.some_inj] at h
    obtain ⟨encoded, henc, ⟨hne, hle⟩, rfl⟩ := h
    exact ⟨s, rfl, henc, hne, hle⟩

theorem ChunkWritten.of_encode (h : encodeChunk C plaintext encoding keys entropy = .ok object) :
    ∃ header encoded payload, ChunkWritten C plaintext encoding keys object header encoded payload := by
  simp only [encodeChunk, encodeChunkWithContentId, bind_eq_ok, exists_unit, rejectIf_eq_ok, not_or, not_not, not_lt,
    pure_eq_ok] at h
  obtain ⟨-, ⟨hbytes, htokens⟩, state, hstate, hversion, encoded, hframe, family, hfamily, content, hcontent,
    ⟨salt, nonce⟩, hentropy, sidecar, hsidecar, hobject, payload, hpayload, rfl⟩ := h
  obtain ⟨hne, hle, -, hbound⟩ := encodeCodecFrame_eq_ok.mp hframe
  refine ⟨_, encoded, payload, {
    sized := {
      version := hversion
      plaintext_pos := List.length_pos_of_ne_nil hne
      plaintext_le := hle
      encoded_ge := length_frame_ge hframe
      encoded_le := hbound
      payload := rfl
      object := rfl
      object_le := hobject
      sidecar := ?_ }
    span_tokens := htokens
    span_bytes := hbytes
    state := ⟨state, hstate, rfl, rfl⟩
    frame := hframe
    plaintext_length := rfl
    encoded_length := rfl
    family := hfamily
    content := hcontent
    tenant := rfl
    keyEpoch := rfl
    encrypted := rfl
    plain := drawEntropy_plain hentropy
    sidecar := hsidecar
    objectKey := rfl
    encrypts := hpayload
    object_eq := rfl }⟩
  intro enc henc
  have hsome : encodeSidecar encoding.statsSidecar = .ok (some enc) := by rw [hsidecar, ← henc]
  obtain ⟨s, -, -, hne, hle⟩ := encodeSidecar_fits hsome
  exact ⟨hne, hle⟩

theorem length_encryptChunk {h : ChunkHeader} {header encoded payload : Bytes}
    (hpayload : encryptChunk C keys h header encoded = .ok payload) :
    payload.length = encoded.length + if h.encrypted then 16 else 0 := by
  unfold encryptChunk at hpayload
  split at hpayload
  · rename_i hc
    rw [okOr_eq_ok] at hpayload
    rw [C.length_encrypt hpayload, if_pos hc]
  · rename_i hc
    cases hpayload
    rw [if_neg hc, Nat.add_zero]

theorem decryptChunk_encryptChunk {h : ChunkHeader} {header encoded payload : Bytes}
    (hpayload : encryptChunk C keys h header encoded = .ok payload) :
    decryptChunk C keys h.encrypted h.content h.objectKey h.salt h.nonce header payload = .ok encoded := by
  unfold encryptChunk at hpayload
  unfold decryptChunk
  split at hpayload
  · rename_i hc
    rw [okOr_eq_ok] at hpayload
    rw [if_pos hc, C.decrypt_encrypt hpayload, okOr_some]
  · rename_i hc
    cases hpayload
    rw [if_neg hc]

theorem ChunkWritten.length_payload {h : ChunkHeader} {encoded payload : Bytes}
    (hw : ChunkWritten C plaintext encoding keys object h encoded payload) : payload.length = h.payloadBytes := by
  rw [length_encryptChunk hw.encrypts, hw.sized.payload, hw.encoded_length]

/-- The digests of a written object are those in its reference and in its header. -/
theorem verifyChunkDigests_written {h : ChunkHeader} {payload : Bytes} {expected : ChunkRef} (hs : h.Sized)
    (hpayload : payload.length = h.payloadBytes)
    (hdigest : expected.objectDigest = C.sha256 (h.objectOf (C.sha256 (h.bytesOf (zeros 32))) payload)) :
    verifyChunkDigests C (h.objectOf (C.sha256 (h.bytesOf (zeros 32))) payload) expected = .ok () := by
  obtain ⟨htake, -, -⟩ := @objectOf_parts h (C.sha256 (h.bytesOf (zeros 32))) payload hs hpayload
  have hfound := (@chunkHeader_arrays h (C.sha256 (h.bytesOf (zeros 32))) [] _ rfl).2.2.2.2.2.2
  rw [List.append_nil] at hfound
  simp only [verifyChunkDigests, bind_eq_ok, exists_unit, rejectIf_eq_ok, not_not, htake, chunkHeader_cleared, hfound,
    hdigest, and_self]

theorem ChunkWritten.decode {h : ChunkHeader} {encoded payload : Bytes} {found : Option (StatsSidecar × Id32)}
    (hw : ChunkWritten C plaintext encoding keys object h encoded payload)
    (hread : readSidecar C object.bytes = .ok found) (hfound : found.map Prod.snd = h.sidecar.map C.sha256) :
    decodeChunkWithStats C object.bytes (object.ref encoding.keyEpoch) encoding.span encoding.tenantNamespace
      encoding.family encoding.stateKey keys = .ok (plaintext, found.map Prod.fst) := by
  have hs := hw.sized
  have hpayload := hw.length_payload
  have hverify := @verifyChunkDigests_written C h payload (object.ref encoding.keyEpoch) hs hpayload
    (by rw [hw.object_eq]; rfl)
  have hdecrypt := decryptChunk_encryptChunk hw.encrypts
  have hbytes : object.bytes = h.objectOf (C.sha256 (h.bytesOf (zeros 32))) payload := by rw [hw.object_eq]
  obtain ⟨state, hstate, hcodec, hversion⟩ := hw.state
  have hkey := hw.objectKey
  have hrefs : (object.ref encoding.keyEpoch).objectBytes = UInt32.ofNat object.bytes.length ∧
      (object.ref encoding.keyEpoch).plaintextBytes = UInt32.ofNat plaintext.length ∧
      (object.ref encoding.keyEpoch).keyEpoch = h.keyEpoch ∧ (object.ref encoding.keyEpoch).chunkId = h.content ∧
      (object.ref encoding.keyEpoch).objectKey = h.objectKey := by
    rw [hw.object_eq, hw.keyEpoch]
    exact ⟨rfl, rfl, rfl, rfl, rfl⟩
  obtain ⟨hrefObject, hrefPlain, hrefEpoch, hrefChunk, hrefKey⟩ := hrefs
  rw [hbytes] at hread hrefObject ⊢
  generalize C.sha256 (h.bytesOf (zeros 32)) = digest at *
  have hlength : (h.objectOf digest payload).length = h.objectBytes := length_objectOf hs hpayload
  obtain ⟨htake, hfield, -⟩ := @objectOf_parts h digest payload hs hpayload
  have hfront : h.objectOf digest payload = h.bytesOf digest.val ++ _ := rfl
  have hepoch := (chunkHeader_fields hfront).2.2.2.2.2.2.2.2.2.2.2
  obtain ⟨htenant, hfamily, hcontent, hobjectKey, hsalt, hnonce, -⟩ := chunkHeader_arrays hfront
  have hentropy := chunkHeader_entropy hfront
  have hwordObject : (UInt32.ofNat h.objectBytes).toNat = h.objectBytes :=
    UInt32.toNat_ofNat_of_lt' (lt_of_le_of_lt hs.object_le (by decide))
  have hwordPlain : (UInt32.ofNat plaintext.length).toNat = plaintext.length := by
    rw [← hw.plaintext_length]
    exact UInt32.toNat_ofNat_of_lt' (lt_of_le_of_lt hs.plaintext_le (by decide))
  have hzero : ¬ (h.encrypted = false ∧ ∃ b ∈ h.salt.val ++ h.nonce.val, b ≠ 0) := by
    rintro ⟨hplain, b, hb, hne⟩
    obtain ⟨hsalt0, hnonce0⟩ := hw.plain hplain
    rw [hsalt0, hnonce0] at hb
    rcases List.mem_append.mp hb with hb | hb
    · exact hne (eq_zero_of_mem_zeros hb)
    · exact hne (eq_zero_of_mem_zeros hb)
  have hframe := decodeCodecFrame_encodeCodecFrame hw.frame
  have hchunk := hw.content
  simp only [decodeChunkWithStats, parseChunkFraming_objectOf hs hpayload, hread, ok_bind, hentropy,
    rejectIf_of_not hzero, hlength, hrefObject, hrefPlain, hwordObject, hwordPlain, hw.plaintext_length, hw.span_bytes,
    ne_eq, not_true_eq_false, or_self, rejectIf_of_not (not_false), hverify, hstate, hcodec, hversion, htenant, hfamily,
    hcontent, hobjectKey, hsalt, hnonce, hepoch, hw.family, hrefEpoch, hrefChunk, hrefKey, hfound, hw.tenant]
  rw [hw.tenant, hcodec, hversion] at hkey
  rw [hcodec] at hframe
  rw [rejectIf_of_not (by rw [← hkey]; simp), ok_bind, htake, hfield, hdecrypt, ok_bind,
    rejectIf_of_not (by rw [hw.encoded_length]; simp), ok_bind, hframe, ok_bind, hchunk, ok_bind,
    rejectIf_of_not (by simp), ok_bind]
  rfl

/-- An encoded object reads back exactly when its sidecar, if any, is readable. -/
theorem decodeChunk_encodeChunk_iff (h : encodeChunk C plaintext encoding keys entropy = .ok object) :
    decodeChunkWithStats C object.bytes (object.ref encoding.keyEpoch) encoding.span encoding.tenantNamespace
        encoding.family encoding.stateKey keys = .ok (plaintext, encoding.statsSidecar) ↔
      ∀ s ∈ encoding.statsSidecar, s.Readable := by
  obtain ⟨header, encoded, payload, hw⟩ := ChunkWritten.of_encode h
  have hbytes : object.bytes = header.objectOf (C.sha256 (header.bytesOf (zeros 32))) payload := by rw [hw.object_eq]
  have hsidecar := hw.sidecar
  cases hstored : header.sidecar with
  | none =>
    have hread : readSidecar C object.bytes = .ok none := by
      rw [hbytes]
      exact readSidecar_none hstored _
    have hnone : encoding.statsSidecar = none := by
      rw [hstored] at hsidecar
      cases hstats : encoding.statsSidecar with
      | none => rfl
      | some s =>
        rw [hstats] at hsidecar
        simp [encodeSidecar, bind_eq_ok] at hsidecar
    rw [hw.decode hread (by rw [hstored]; rfl), hnone]
    simp
  | some stored =>
    rw [hstored] at hsidecar
    obtain ⟨s, hstats, hcanonical, hne, hle⟩ := encodeSidecar_fits hsidecar
    have hread : readSidecar C object.bytes =
        (StatsSidecar.decodeCanonical stored).map fun sidecar => some (sidecar, C.sha256 stored) := by
      rw [hbytes]
      exact readSidecar_some hstored hne hle _
    rw [hstats]
    simp only [Option.mem_def, Option.some_inj, forall_eq']
    rw [← decodeSidecar_encodeCanonical hcanonical hle]
    cases hdecode : StatsSidecar.decodeCanonical stored with
    | error e =>
      rw [hdecode] at hread
      have hparse := @parseChunkFraming_objectOf header (C.sha256 (header.bytesOf (zeros 32))) payload hw.sized
        hw.length_payload
      rw [← hbytes] at hparse
      have herror : readSidecar C object.bytes = .error e := hread
      simp only [decodeChunkWithStats, hparse, herror, ok_bind, error_bind, reduceCtorEq]
    | ok found =>
      rw [hdecode] at hread
      rw [hw.decode hread (by rw [hstored]; rfl)]
      simp

end Whole

end Kvpack.Core
