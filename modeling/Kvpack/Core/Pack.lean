import Kvpack.Core.Ids
import Kvpack.Core.Validator

/-!
# Authenticated packs

A manifest at rest: a header of one alignment unit, the canonical manifest (sealed or plain), and a footer of one unit
that carries the tag over all of it.
-/

namespace Kvpack.Core

open Base

variable (C : Crypto)

structure PackHeader where
  tenantNamespace : Id32
  manifestId : Id32
  keyEpoch : UInt64
  manifestBytes : UInt64
  plaintextManifestBytes : UInt64
  encrypted : Bool
  deriving DecidableEq

structure EncodedPack where
  bytes : Bytes
  manifestId : Id32
  deriving DecidableEq

def packDigestOffset : Nat := 148
def footerHmacOffset : Nat := 80

def manifestEncryptionKey (keys : KeySchedule) (id : Id32) (salt : ByteArr 16) : Id32 :=
  C.hkdf salt.val keys.manifestEncryption (domain "kvpack/v1/manifest-aead" ++ id.val)

def authenticationPreimage (header manifest : Bytes) (manifestLen keyEpoch fileLen : UInt64) : Bytes :=
  domain "kvpack/v1/manifest-auth" ++ header ++ manifest ++ le64 manifestLen ++ le64 keyEpoch ++ le64 fileLen

def authenticate (keys : KeySchedule) (header manifest : Bytes) (manifestLen keyEpoch fileLen : UInt64) : Id32 :=
  C.hmac keys.manifestAuth (authenticationPreimage header manifest manifestLen keyEpoch fileLen)

/-! ## Writing -/

/-- The header, with `digest` in the place of its own digest. -/
def packHeaderBytesOf (encrypt : Bool) (storedLen plainLen : Nat) (keyEpoch : UInt64) (tenant id : Id32)
    (salt : ByteArr 16) (nonce : ByteArr 12) (digest : Bytes) : Bytes :=
  packMagic ++ (le16 wireVersion ++ (le16 (UInt16.ofNat packHeaderBytes) ++ (le32 (UInt32.ofNat alignment) ++
    (le32 (if encrypt then flagEncrypted else 0) ++ (zeros 4 ++ (le64 (UInt64.ofNat storedLen) ++
    (le64 (UInt64.ofNat plainLen) ++ (le64 keyEpoch ++ (zeros 8 ++ (tenant.val ++ (id.val ++ (salt.val ++
    (nonce.val ++ (digest ++ zeros (packHeaderBytes - 180)))))))))))))))

def packFooterBytesOf (bodyLen : Nat) (keyEpoch : UInt64) (fileLen : Nat) (id tag : Id32) : Bytes :=
  footerMagic ++ (le16 wireVersion ++ (le16 (UInt16.ofNat packFooterBytes) ++ (zeros 4 ++
    (le64 (UInt64.ofNat bodyLen) ++ (le64 keyEpoch ++ (zeros 8 ++ (le64 (UInt64.ofNat fileLen) ++ (id.val ++
    (tag.val ++ zeros (packFooterBytes - 112))))))))))

/-- Salt and nonce of an object: random when it is encrypted, zero otherwise. -/
def drawEntropy (encrypt : Bool) (entropy : Entropy) (saltError nonceError : PackError) :
    Except PackError (ByteArr 16 × ByteArr 12) :=
  if encrypt then do
    let salt ← okOr entropy.salt saltError
    let nonce ← okOr entropy.nonce nonceError
    return (salt, nonce)
  else .ok (ByteArr.zero 16, ByteArr.zero 12)

def encryptManifest (encrypt : Bool) (keys : KeySchedule) (id : Id32) (salt : ByteArr 16) (nonce : ByteArr 12)
    (header canonical : Bytes) : Except PackError Bytes :=
  if encrypt then
    okOr (C.aeadEncrypt (manifestEncryptionKey C keys id salt) nonce header canonical)
      (.authentication "manifest encryption failed")
  else .ok canonical

/-- Lengths are those of buffers in memory, so adding to them cannot overflow. -/
def encodeAuthenticatedPack (m : CutManifest) (keys : KeySchedule) (encrypt : Bool) (context : ValidationContext)
    (entropy : Entropy) : Except PackError EncodedPack := do
  validateManifest m context
  let canonical ← m.encodeCanonical
  rejectIf (maxManifestBytes < canonical.length) (.bounds "manifest exceeds production bound")
  let id := manifestId C canonical
  let storedLen := canonical.length + if encrypt then 16 else 0
  let fileLen := packHeaderBytes + storedLen + packFooterBytes
  let (salt, nonce) ← drawEntropy encrypt entropy (.authentication "manifest salt generation failed")
    (.authentication "manifest nonce generation failed")
  let headerOf := packHeaderBytesOf encrypt storedLen canonical.length m.keyEpoch m.tenantNamespace id salt nonce
  let header := headerOf (C.sha256 (headerOf (zeros 32))).val
  let body ← encryptManifest C encrypt keys id salt nonce header canonical
  let tag := authenticate C keys header body (UInt64.ofNat body.length) m.keyEpoch (UInt64.ofNat fileLen)
  let footer := packFooterBytesOf body.length m.keyEpoch fileLen id tag
  return { bytes := header ++ (body ++ footer), manifestId := id }

/-! ## Reading -/

def parsePackHeaderFraming (bytes : Bytes) : Except PackError PackHeader := do
  rejectIf (bytes.length < packHeaderBytes) (.truncated "truncated production pack header")
  let header := bytes.take packHeaderBytes
  rejectIf (header.take 8 ≠ packMagic) (.badMagic "invalid production pack magic")
  rejectIf (field16 header 8 ≠ wireVersion ∨ (field16 header 10).toNat ≠ packHeaderBytes ∨
      (field32 header 12).toNat ≠ alignment)
    (.badMagic "invalid production pack header contract")
  let flags := field32 header 16
  rejectIf (flags &&& ~~~flagEncrypted ≠ 0) (.reserved "unknown pack flags")
  rejectIf (field32 header 20 ≠ 0 ∨ field64 header 48 ≠ 0 ∨ ∃ b ∈ header.drop 180, b ≠ 0)
    (.reserved "pack header reserved bytes are nonzero")
  let encrypted := decide (flags &&& flagEncrypted ≠ 0)
  rejectIf (encrypted = false ∧ ∃ b ∈ field header 120 28, b ≠ 0)
    (.reserved "unencrypted manifest salt or nonce is nonzero")
  return { tenantNamespace := arrayAt 32 header 56, manifestId := arrayAt 32 header 88, keyEpoch := field64 header 40,
           manifestBytes := field64 header 24, plaintextManifestBytes := field64 header 32, encrypted }

def verifyPackHeaderDigest (header : Bytes) : Except PackError Unit :=
  let copy := header.take packDigestOffset ++ zeros 32 ++ header.drop (packDigestOffset + 32)
  rejectIf (C.sha256 copy ≠ arrayAt 32 header packDigestOffset) (.checksum "pack header digest mismatch")

/-- The header of a pack whose body has not been authenticated yet. -/
def inspectPackHeader (bytes : Bytes) : Except PackError PackHeader := do
  let parsed ← parsePackHeaderFraming bytes
  verifyPackHeaderDigest C (bytes.take packHeaderBytes)
  return parsed

def verifyAuthenticatedPack (bytes : Bytes) (keys : KeySchedule) : Except PackError PackHeader := do
  rejectIf (bytes.length < packHeaderBytes + packFooterBytes) (.truncated "truncated production pack")
  let parsed ← parsePackHeaderFraming bytes
  rejectIf (maxManifestBytes + 16 < parsed.manifestBytes.toNat ∨ maxManifestBytes < parsed.plaintextManifestBytes.toNat)
    (.bounds "manifest exceeds production bound")
  let footerOffset := bytes.length - packFooterBytes
  let footer := bytes.drop footerOffset
  rejectIf (footer.take 8 ≠ footerMagic) (.badMagic "invalid production commit footer magic")
  rejectIf (field16 footer 8 ≠ wireVersion ∨ (field16 footer 10).toNat ≠ packFooterBytes ∨ field32 footer 12 ≠ 0 ∨
      field64 footer 32 ≠ 0 ∨ ∃ b ∈ footer.drop 112, b ≠ 0)
    (.reserved "invalid production commit footer")
  let body := field bytes packHeaderBytes (footerOffset - packHeaderBytes)
  rejectIf (UInt64.ofNat body.length ≠ parsed.manifestBytes ∨ field64 footer 16 ≠ parsed.manifestBytes ∨
      field64 footer 24 ≠ parsed.keyEpoch ∨ field64 footer 40 ≠ UInt64.ofNat bytes.length ∨
      arrayAt 32 footer 48 ≠ parsed.manifestId)
    (.bounds "pack footer binding mismatch")
  verifyPackHeaderDigest C (bytes.take packHeaderBytes)
  let tag := authenticate C keys (bytes.take packHeaderBytes) body (UInt64.ofNat body.length) parsed.keyEpoch
    (UInt64.ofNat bytes.length)
  rejectIf (tag ≠ arrayAt 32 footer footerHmacOffset) (.authentication "manifest HMAC authentication failed")
  return parsed

def decryptManifest (keys : KeySchedule) (parsed : PackHeader) (bytes body : Bytes) : Except PackError Bytes :=
  if parsed.encrypted then do
    rejectIf (body.length < 16) (.truncated "truncated encrypted manifest")
    okOr (C.aeadDecrypt (manifestEncryptionKey C keys parsed.manifestId (arrayAt 16 bytes 120)) (arrayAt 12 bytes 136)
        (bytes.take packHeaderBytes) body)
      (.authentication "manifest AEAD authentication failed")
  else .ok body

def decodeAuthenticatedPack (bytes : Bytes) (keys : KeySchedule) (context : ValidationContext) :
    Except PackError CutManifest := do
  let parsed ← verifyAuthenticatedPack C bytes keys
  let body := field bytes packHeaderBytes (bytes.length - packFooterBytes - packHeaderBytes)
  let canonical ← decryptManifest C keys parsed bytes body
  rejectIf (UInt64.ofNat canonical.length ≠ parsed.plaintextManifestBytes ∨
      manifestId C canonical ≠ parsed.manifestId)
    (.authentication "manifest content identity mismatch")
  let m ← CutManifest.decodeCanonical canonical
  rejectIf (m.tenantNamespace ≠ parsed.tenantNamespace ∨ m.keyEpoch ≠ parsed.keyEpoch)
    (.authentication "manifest header identity mismatch")
  validateManifest m context
  return m

end Kvpack.Core
