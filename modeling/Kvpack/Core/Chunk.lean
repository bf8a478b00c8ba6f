import Kvpack.Base.Search
import Kvpack.Core.Pack
import Kvpack.Core.Stats

/-!
# Chunk objects

One span of one state at rest: a header of one alignment unit, with an optional statistics sidecar in its tail, and the
codec frame of the plaintext, sealed or plain, padded to the alignment.
-/

namespace Kvpack.Core

open Base

variable (C : Crypto)

structure ChunkEncoding where
  tenantNamespace : Id32
  family : RepresentationFamilyId
  stateKey : StateKey
  span : ChunkSpan
  keyEpoch : UInt64
  encrypt : Bool
  statsSidecar : Option StatsSidecar

structure ChunkObject where
  chunkId : Id32
  objectKey : Id32
  objectDigest : Id32
  plaintextBytes : UInt32
  bytes : Bytes
  deriving DecidableEq

def headerDigestOffset : Nat := 204

/-- Lengths are those of buffers in memory, so rounding up cannot overflow. -/
def align (value : Nat) : Nat := (value + (alignment - 1)) / alignment * alignment

def familyState (family : RepresentationFamilyId) (key : StateKey) : Except PackError FamilyState :=
  okOr ((binarySearchBy (fun state => state.key.cmp key) family.states).bind fun index => family.states[index]?)
    (.semantics "chunk state is absent from representation family")

/-! ## Object identity -/

structure ObjectIdentity where
  tenant : Id32
  family : Id32
  content : Id32
  keyEpoch : UInt64
  codec : Codec
  codecVersion : UInt16
  encrypted : Bool
  salt : ByteArr 16
  nonce : ByteArr 12
  statsDigest : Option Id32
  deriving DecidableEq

def statsDigestSuffix : Option Id32 → Bytes
  | none => []
  | some digest => domain "kvpack/v1/chunk-object-stats" ++ digest.val

def objectPreimage (identity : ObjectIdentity) : Bytes :=
  domain "kvpack/v1/chunk-object" ++ identity.tenant.val ++ identity.family.val ++ identity.content.val ++
    le64 identity.keyEpoch ++ le16 identity.codec.wire ++ le16 identity.codecVersion ++
    [if identity.encrypted then 1 else 0] ++ identity.salt.val ++ identity.nonce.val ++
    statsDigestSuffix identity.statsDigest

def deriveObjectKey (keys : KeySchedule) (identity : ObjectIdentity) : Id32 :=
  C.hmac keys.objectIdentity (objectPreimage identity)

def deriveEncryptionKey (keys : KeySchedule) (content object : Id32) (salt : ByteArr 16) : Id32 :=
  C.hkdf salt.val keys.chunkEncryption (domain "kvpack/v1/chunk-aead" ++ content.val ++ object.val)

/-! ## Codec frames -/

def frameHeader (magic : Bytes) (plaintextBytes : Nat) : Except PackError Bytes := do
  let length ← okOr (u32TryFrom plaintextBytes) (.bounds "codec plaintext length exceeds u32")
  return magic ++ (le16 wireVersion ++ (le16 0 ++ le32 length))

/-- How far a run of `x` that has `length` bytes so far extends into the input. -/
def runFrom (x : UInt8) : Bytes → Nat → Nat
  | [], length => length
  | y :: rest, length => if length < 128 ∧ y = x then runFrom x rest (length + 1) else length

/-- The run at the start of the input, of at most 128 bytes. -/
def repeatedRun : Bytes → Nat
  | [] => 1
  | x :: rest => runFrom x rest 1

theorem le_runFrom (x : UInt8) (input : Bytes) (length : Nat) : length ≤ runFrom x input length := by
  induction input generalizing length with
  | nil => exact le_rfl
  | cons y rest ih =>
    rw [runFrom]
    split
    · exact le_trans (Nat.le_succ length) (ih (length + 1))
    · exact le_rfl

theorem repeatedRun_pos (input : Bytes) : 1 ≤ repeatedRun input := by
  cases input with
  | nil => exact le_rfl
  | cons x rest => exact le_runFrom x rest 1

/-- Extend a literal of `taken` bytes up to the next run of three, or to 128 bytes. -/
def literalLength (input : Bytes) (taken : Nat) : Nat :=
  if taken < input.length ∧ taken < 128 then
    let nextRun := repeatedRun (input.drop taken)
    if 3 ≤ nextRun then taken
    else if 128 < taken + nextRun then 128
    else literalLength input (taken + nextRun)
  else taken
termination_by 128 - taken
decreasing_by
  have := repeatedRun_pos (input.drop taken)
  omega

theorem le_literalLength (input : Bytes) (taken : Nat) : taken ≤ literalLength input taken := by
  fun_induction literalLength input taken <;> omega

/-- Run-length packets: a repeat for a run of three or more, else a literal. -/
def encodePackets (input : Bytes) : Bytes :=
  match input with
  | [] => []
  | x :: rest =>
    let run := repeatedRun (x :: rest)
    if 3 ≤ run then UInt8.ofNat (128 + (run - 1)) :: x :: encodePackets ((x :: rest).drop run)
    else
      let length := literalLength (x :: rest) run
      UInt8.ofNat (length - 1) :: ((x :: rest).take length ++ encodePackets ((x :: rest).drop length))
termination_by input.length
decreasing_by
  all_goals
    have := repeatedRun_pos (x :: rest)
    have := le_literalLength (x :: rest) (repeatedRun (x :: rest))
    simp only [List.length_drop, List.length_cons]
    omega

def encodeCodecFrame (codec : Codec) (plaintext : Bytes) : Except PackError Bytes := do
  rejectIf (plaintext = [] ∨ maxChunkPlaintext < plaintext.length) (.bounds "chunk plaintext must be in 1..=4 MiB")
  match codec with
  | .raw => do
      let header ← frameHeader rawFrameMagic plaintext.length
      return header ++ plaintext
  | .lossless => do
      let header ← frameHeader losslessFrameMagic plaintext.length
      let result := header ++ encodePackets plaintext
      rejectIf (maxChunkPlaintext + maxCodecOverhead < result.length)
        (.bounds "lossless frame exceeds encoded bound")
      return result

/-- Expand the packets of a payload after what `result` already holds. -/
def decodePackets (expected : Nat) (payload result : Bytes) : Except PackError Bytes :=
  match payload with
  | [] => .ok result
  | control :: rest =>
    let length := control.toNat % 128 + 1
    if 128 ≤ control.toNat then
      match rest with
      | [] => .error (.truncated "truncated lossless repeat packet")
      | value :: rest => do
          rejectIf (expected < result.length + length) (.bounds "lossless frame expands past bound")
          decodePackets expected rest (result ++ List.replicate length value)
    else do
      rejectIf (rest.length < length) (.truncated "truncated lossless literal packet")
      rejectIf (expected < result.length + length) (.bounds "lossless frame expands past bound")
      decodePackets expected (rest.drop length) (result ++ rest.take length)
termination_by payload.length
decreasing_by
  all_goals
    simp only [List.length_drop, List.length_cons]
    omega

def Codec.frameMagic : Codec → Bytes
  | .raw => rawFrameMagic
  | .lossless => losslessFrameMagic

def decodeCodecFrame (codec : Codec) (encoded : Bytes) (expectedPlaintextBytes : Nat) : Except PackError Bytes := do
  rejectIf (encoded.length < codecFrameHeaderBytes) (.truncated "truncated codec frame")
  rejectIf (encoded.take 8 ≠ codec.frameMagic) (.badMagic "codec frame magic does not match codec")
  rejectIf (field16 encoded 8 ≠ wireVersion) (.badMagic "unsupported codec frame version")
  rejectIf (field16 encoded 10 ≠ 0) (.reserved "codec frame reserved field is nonzero")
  rejectIf ((field32 encoded 12).toNat ≠ expectedPlaintextBytes ∨ expectedPlaintextBytes = 0 ∨
      maxChunkPlaintext < expectedPlaintextBytes)
    (.bounds "codec frame decoded length mismatch")
  let payload := encoded.drop codecFrameHeaderBytes
  match codec with
  | .raw => do
      rejectIf (payload.length ≠ expectedPlaintextBytes) (.bounds "raw frame length mismatch")
      return payload
  | .lossless => do
      let decoded ← decodePackets expectedPlaintextBytes payload []
      rejectIf (decoded.length ≠ expectedPlaintextBytes) (.bounds "lossless decoded length mismatch")
      let again ← encodeCodecFrame .lossless decoded
      rejectIf (again ≠ encoded) (.reserved "codec frame is not canonical")
      return decoded

/-! ## Writing -/

/-- The fields of a chunk header other than its own digest. -/
structure ChunkHeader where
  encrypted : Bool
  codec : Codec
  codecVersion : UInt16
  plaintextBytes : Nat
  encodedBytes : Nat
  payloadBytes : Nat
  objectBytes : Nat
  keyEpoch : UInt64
  tenant : Id32
  family : Id32
  content : Id32
  objectKey : Id32
  salt : ByteArr 16
  nonce : ByteArr 12
  sidecar : Option Bytes

/-- The rest of the header: a length-prefixed sidecar, if any, and zeros. -/
def sidecarTail : Option Bytes → Bytes
  | none => zeros (chunkHeaderBytes - chunkHeaderSidecarOffset)
  | some encoded =>
    le16 (UInt16.ofNat encoded.length) ++
      (encoded ++ zeros (chunkHeaderBytes - chunkHeaderSidecarOffset - 2 - encoded.length))

/-- The header, with `digest` in the place of its own digest. -/
def ChunkHeader.bytesOf (h : ChunkHeader) (digest : Bytes) : Bytes :=
  chunkMagic ++ (le16 wireVersion ++ (le16 (UInt16.ofNat chunkHeaderBytes) ++ (le32 (UInt32.ofNat alignment) ++
    (le32 (if h.encrypted then flagEncrypted else 0) ++ (le16 h.codec.wire ++ (le16 h.codecVersion ++
    (le32 (UInt32.ofNat h.plaintextBytes) ++ (le32 (UInt32.ofNat h.encodedBytes) ++
    (le32 (UInt32.ofNat h.payloadBytes) ++ (le32 (UInt32.ofNat h.objectBytes) ++ (le64 h.keyEpoch ++ (h.tenant.val ++
    (h.family.val ++ (h.content.val ++ (h.objectKey.val ++ (h.salt.val ++ (h.nonce.val ++ (digest ++
    sidecarTail h.sidecar))))))))))))))))))

def encodeSidecar : Option StatsSidecar → Except PackError (Option Bytes)
  | none => .ok none
  | some sidecar => do
      let encoded ← sidecar.encodeCanonical
      rejectIf (encoded = [] ∨ maxStatsSidecarBytes < encoded.length)
        (.bounds "stats sidecar exceeds the chunk header capacity")
      return some encoded

def encryptChunk (keys : KeySchedule) (h : ChunkHeader) (header encoded : Bytes) : Except PackError Bytes :=
  if h.encrypted then
    okOr (C.aeadEncrypt (deriveEncryptionKey C keys h.content h.objectKey h.salt) h.nonce header encoded)
      (.authentication "chunk encryption failed")
  else .ok encoded

def encodeChunkWithContentId (plaintext : Bytes) (encoding : ChunkEncoding) (keys : KeySchedule)
    (contentId : Option Id32) (entropy : Entropy) : Except PackError ChunkObject := do
  rejectIf (encoding.keyEpoch = 0) (.semantics "chunk key epoch must be nonzero")
  rejectIf (encoding.span.plaintextBytes.toNat ≠ plaintext.length ∨ encoding.span.tokenCount = 0)
    (.semantics "chunk plaintext does not match its declared span")
  let state ← familyState encoding.family encoding.stateKey
  rejectIf (state.codecVersion ≠ 1) (.codec "unsupported chunk codec version")
  let encoded ← encodeCodecFrame state.codec plaintext
  let family ← representationFamilyId C encoding.family
  let content ← match contentId with
    | some content => .ok content
    | none => (chunkId C keys.chunkIdentity encoding.tenantNamespace encoding.family encoding.stateKey encoding.span
        plaintext)
  let (salt, nonce) ← drawEntropy encoding.encrypt entropy (.authentication "chunk salt generation failed")
    (.authentication "chunk nonce generation failed")
  let sidecar ← encodeSidecar encoding.statsSidecar
  let objectKey := deriveObjectKey C keys {
    tenant := encoding.tenantNamespace, family, content, keyEpoch := encoding.keyEpoch, codec := state.codec,
    codecVersion := state.codecVersion, encrypted := encoding.encrypt, salt, nonce,
    statsDigest := sidecar.map C.sha256 }
  let payloadBytes := encoded.length + if encoding.encrypt then 16 else 0
  let objectBytes := align (chunkHeaderBytes + payloadBytes)
  rejectIf (maxChunkObjectBytes < objectBytes) (.bounds "encoded chunk object exceeds bound")
  let h : ChunkHeader := {
    encrypted := encoding.encrypt, codec := state.codec, codecVersion := state.codecVersion,
    plaintextBytes := plaintext.length, encodedBytes := encoded.length, payloadBytes, objectBytes,
    keyEpoch := encoding.keyEpoch, tenant := encoding.tenantNamespace, family, content, objectKey, salt, nonce,
    sidecar }
  let header := h.bytesOf (C.sha256 (h.bytesOf (zeros 32))).val
  let payload ← encryptChunk C keys h header encoded
  let bytes := header ++ (payload ++ zeros (objectBytes - (header ++ payload).length))
  return { chunkId := content, objectKey, objectDigest := C.sha256 bytes,
           plaintextBytes := UInt32.ofNat plaintext.length, bytes }

def encodeChunk (plaintext : Bytes) (encoding : ChunkEncoding) (keys : KeySchedule) (entropy : Entropy) :
    Except PackError ChunkObject :=
  encodeChunkWithContentId C plaintext encoding keys none entropy

/-! ## Reading -/

structure ChunkFraming where
  encrypted : Bool
  codec : Codec
  codecVersion : UInt16
  plaintextBytes : Nat
  encodedBytes : Nat
  payloadBytes : Nat
  deriving DecidableEq

/-- The checks on magic, version, flags, codec and sizes, up to the payload's padding. -/
def parseChunkFraming (bytes : Bytes) : Except PackError ChunkFraming := do
  rejectIf (bytes.length < chunkHeaderBytes ∨ maxChunkObjectBytes < bytes.length ∨ bytes.length % alignment ≠ 0)
    (.bounds "invalid chunk object length")
  rejectIf (bytes.take 8 ≠ chunkMagic) (.badMagic "invalid production chunk magic")
  rejectIf (field16 bytes 8 ≠ wireVersion ∨ (field16 bytes 10).toNat ≠ chunkHeaderBytes ∨
      (field32 bytes 12).toNat ≠ alignment)
    (.badMagic "invalid chunk header contract")
  let flags := field32 bytes 16
  rejectIf (flags &&& ~~~flagEncrypted ≠ 0) (.reserved "unknown chunk flags")
  let codec ← Codec.fromWire (field16 bytes 20)
  let codecVersion := field16 bytes 22
  rejectIf (codecVersion ≠ 1) (.codec "unsupported chunk codec version")
  let plaintextBytes := (field32 bytes 24).toNat
  let encodedBytes := (field32 bytes 28).toNat
  let payloadBytes := (field32 bytes 32).toNat
  rejectIf (plaintextBytes = 0 ∨ maxChunkPlaintext < plaintextBytes ∨ encodedBytes < codecFrameHeaderBytes ∨
      maxChunkPlaintext + maxCodecOverhead < encodedBytes ∨ (field32 bytes 36).toNat ≠ bytes.length)
    (.bounds "invalid chunk size fields")
  let encrypted := decide (flags &&& flagEncrypted ≠ 0)
  rejectIf (payloadBytes ≠ encodedBytes + if encrypted then 16 else 0)
    (.bounds "chunk payload length does not match encryption mode")
  let payloadEnd := chunkHeaderBytes + payloadBytes
  rejectIf (bytes.length < payloadEnd) (.truncated "truncated chunk payload")
  rejectIf (∃ b ∈ bytes.drop payloadEnd, b ≠ 0) (.reserved "chunk padding is nonzero")
  return { encrypted, codec, codecVersion, plaintextBytes, encodedBytes, payloadBytes }

/-- The sidecar of a header with its digest, present when its length is nonzero. -/
def readSidecar (bytes : Bytes) : Except PackError (Option (StatsSidecar × Id32)) :=
  let sidecarLen := (field16 bytes chunkHeaderSidecarOffset).toNat
  if sidecarLen ≠ 0 then do
    rejectIf (maxStatsSidecarBytes < sidecarLen) (.bounds "chunk stats sidecar length is outside bounds")
    let sidecarStart := chunkHeaderSidecarOffset + 2
    let sidecarEnd := sidecarStart + sidecarLen
    let sidecar ← StatsSidecar.decodeCanonical (field bytes sidecarStart sidecarLen)
    rejectIf (∃ b ∈ field bytes sidecarEnd (chunkHeaderBytes - sidecarEnd), b ≠ 0)
      (.reserved "chunk header sidecar padding is nonzero")
    return some (sidecar, C.sha256 (field bytes sidecarStart sidecarLen))
  else do
    rejectIf (∃ b ∈ field bytes chunkHeaderSidecarOffset (chunkHeaderBytes - chunkHeaderSidecarOffset), b ≠ 0)
      (.reserved "chunk header reserved bytes are nonzero")
    return none

/-- The digests of the whole object and of its header. -/
def verifyChunkDigests (bytes : Bytes) (expected : ChunkRef) : Except PackError Unit := do
  rejectIf (C.sha256 bytes ≠ expected.objectDigest) (.authentication "chunk object digest mismatch")
  let header := bytes.take chunkHeaderBytes
  let cleared := header.take headerDigestOffset ++ zeros 32 ++ header.drop (headerDigestOffset + 32)
  rejectIf (C.sha256 cleared ≠ arrayAt 32 header headerDigestOffset) (.authentication "chunk header digest mismatch")

def decryptChunk (keys : KeySchedule) (encrypted : Bool) (content objectKey : Id32) (salt : ByteArr 16)
    (nonce : ByteArr 12) (header payload : Bytes) : Except PackError Bytes :=
  if encrypted then
    okOr (C.aeadDecrypt (deriveEncryptionKey C keys content objectKey salt) nonce header payload)
      (.authentication "chunk AEAD authentication failed")
  else .ok payload

def decodeChunkWithStats (bytes : Bytes) (expected : ChunkRef) (expectedSpan : ChunkSpan) (expectedTenant : Id32)
    (expectedFamily : RepresentationFamilyId) (expectedStateKey : StateKey) (keys : KeySchedule) :
    Except PackError (Bytes × Option StatsSidecar) := do
  let framing ← parseChunkFraming bytes
  let statsSidecar ← readSidecar C bytes
  rejectIf (framing.encrypted = false ∧ ∃ b ∈ field bytes 176 28, b ≠ 0)
    (.reserved "unencrypted chunk salt or nonce is nonzero")
  rejectIf (bytes.length ≠ expected.objectBytes.toNat ∨ framing.plaintextBytes ≠ expected.plaintextBytes.toNat ∨
      framing.plaintextBytes ≠ expectedSpan.plaintextBytes.toNat)
    (.bounds "chunk reference size mismatch")
  verifyChunkDigests C bytes expected
  let state ← familyState expectedFamily expectedStateKey
  rejectIf (framing.codec ≠ state.codec ∨ framing.codecVersion ≠ state.codecVersion)
    (.semantics "chunk codec does not match representation family")
  let tenant := arrayAt 32 bytes 48
  let family := arrayAt 32 bytes 80
  let expectedFamilyId ← representationFamilyId C expectedFamily
  rejectIf (tenant ≠ expectedTenant ∨ family ≠ expectedFamilyId ∨ field64 bytes 40 ≠ expected.keyEpoch)
    (.authentication "chunk namespace, family, or epoch mismatch")
  let content := arrayAt 32 bytes 112
  let objectKey := arrayAt 32 bytes 144
  let salt := arrayAt 16 bytes 176
  let nonce := arrayAt 12 bytes 192
  let derivedObjectKey := deriveObjectKey C keys {
    tenant, family, content, keyEpoch := expected.keyEpoch, codec := framing.codec,
    codecVersion := framing.codecVersion, encrypted := framing.encrypted, salt, nonce,
    statsDigest := statsSidecar.map Prod.snd }
  rejectIf (content ≠ expected.chunkId ∨ objectKey ≠ expected.objectKey ∨ objectKey ≠ derivedObjectKey)
    (.authentication "chunk identity or object key mismatch")
  let encoded ← decryptChunk C keys framing.encrypted content objectKey salt nonce (bytes.take chunkHeaderBytes)
    (field bytes chunkHeaderBytes framing.payloadBytes)
  rejectIf (encoded.length ≠ framing.encodedBytes) (.bounds "chunk encoded length mismatch")
  let plaintext ← decodeCodecFrame framing.codec encoded framing.plaintextBytes
  let derivedContent ← chunkId C keys.chunkIdentity tenant expectedFamily expectedStateKey expectedSpan plaintext
  rejectIf (derivedContent ≠ content) (.authentication "chunk plaintext identity mismatch")
  return (plaintext, statsSidecar.map Prod.fst)

/-- The reference under which an encoded object is recorded. -/
def ChunkObject.ref (object : ChunkObject) (keyEpoch : UInt64) : ChunkRef :=
  { chunkId := object.chunkId, objectKey := object.objectKey, objectDigest := object.objectDigest, keyEpoch,
    plaintextBytes := object.plaintextBytes, objectBytes := UInt32.ofNat object.bytes.length }

end Kvpack.Core
