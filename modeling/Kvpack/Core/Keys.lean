import Kvpack.Core.Basic

/-!
# Cryptographic primitives and key schedule

The hash, the keyed hash, the key derivation and the authenticated cipher are external code: they are the fields of
`Crypto`, with the two laws of the cipher that the readers rely on.
-/

namespace Kvpack.Core

open Base

structure Crypto where
  sha256 : Bytes → Id32
  hmac : Id32 → Bytes → Id32
  /-- Extract with a salt, then expand to 32 bytes, which never fails. -/
  hkdf : (salt : Bytes) → (secret : Id32) → (info : Bytes) → Id32
  aeadEncrypt : (key : Id32) → (nonce : ByteArr 12) → (aad msg : Bytes) → Option Bytes
  aeadDecrypt : (key : Id32) → (nonce : ByteArr 12) → (aad body : Bytes) → Option Bytes
  decrypt_encrypt : ∀ {key nonce aad msg body}, aeadEncrypt key nonce aad msg = some body →
    aeadDecrypt key nonce aad body = some msg
  length_encrypt : ∀ {key nonce aad msg body}, aeadEncrypt key nonce aad msg = some body →
    body.length = msg.length + 16

/-- What the system random source returned for one object. -/
structure Entropy where
  salt : Option (ByteArr 16)
  nonce : Option (ByteArr 12)
  deriving DecidableEq

structure KeySchedule where
  namespaceKey : Id32
  prefixKey : Id32
  manifestAuth : Id32
  manifestEncryption : Id32
  chunkIdentity : Id32
  objectIdentity : Id32
  chunkEncryption : Id32
  deriving DecidableEq

def domain (s : String) : Bytes := utf8 s ++ [0]

/-! Primitives with the right shapes, to run the format on concrete manifests. -/

def checksum (bs : Bytes) : Id32 := repeatedId (UInt8.ofNat ((bs.map UInt8.toNat).sum % 255 + 1))

def checksumCrypto : Crypto where
  sha256 := checksum
  hmac key bs := checksum (key.val ++ bs)
  hkdf salt secret info := checksum (salt ++ secret.val ++ info)
  aeadEncrypt _ _ _ msg := some (msg ++ zeros 16)
  aeadDecrypt _ _ _ body := some (body.take (body.length - 16))
  decrypt_encrypt := by
    intro key nonce aad msg body h
    cases h
    simp
  length_encrypt := by
    intro key nonce aad msg body h
    cases h
    simp

def flatKeys : KeySchedule :=
  ⟨repeatedId 1, repeatedId 2, repeatedId 3, repeatedId 4, repeatedId 5, repeatedId 6, repeatedId 7⟩

end Kvpack.Core
