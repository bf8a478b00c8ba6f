import Kvpack.Base.Hex
import Kvpack.Base.Json
import Kvpack.Core.Keys

/-!
# Errors, digests and tags of the live handoff

Digests and tags travel as lowercase hexadecimal text. A tag is checked by decoding the text and comparing it with the
tag of the receiver's own key.
-/

namespace Kvpack.Handoff

open Base Kvpack.Core

inductive HandoffError where
  | canonical (msg : String)
  | cancelled
  | deadlineExceeded
  | io (msg : String)
  | validation (msg : String)
  deriving Repr, DecidableEq

abbrev MacKey := Id32

/-- The model and everything else that the cached state depends on. -/
structure ExactIdentityV1 where
  adapterSha256 : String
  chatTemplateSha256 : String
  contextPolicySha256 : String
  modelRevision : String
  modelSha256 : String
  tokenizerRevision : String
  tokenizerSha256 : String
  deriving DecidableEq

def ExactIdentityV1.toJson (i : ExactIdentityV1) : Json :=
  .object [("adapter_sha256", .string i.adapterSha256), ("chat_template_sha256", .string i.chatTemplateSha256),
    ("context_policy_sha256", .string i.contextPolicySha256), ("model_revision", .string i.modelRevision),
    ("model_sha256", .string i.modelSha256), ("tokenizer_revision", .string i.tokenizerRevision),
    ("tokenizer_sha256", .string i.tokenizerSha256)]

def validateHex (label value : String) : Except HandoffError Unit :=
  rejectIf ((utf8 value).length ≠ 64 ∨ ∃ b ∈ utf8 value, isLowerHex b = false)
    (.validation (label ++ " digest must be lowercase SHA-256"))

variable (C : Crypto)

def sha256Hex (bytes : Bytes) : String := hexEncode (C.sha256 bytes).val

def tagHex (key : MacKey) (stream : Bytes) : String := hexEncode (C.hmac key stream).val

def verifyHex (key : MacKey) (stream : Bytes) (expectedHex : String) : Except HandoffError Unit := do
  let expected ← okOr (hexDecode expectedHex) (.validation "artifact HMAC tag is not valid hex")
  rejectIf ((C.hmac key stream).val ≠ expected) (.validation "artifact HMAC tag rejected")

/-! ## Digests as text -/

theorem validateHex_eq_ok {label value : String} :
    validateHex label value = .ok () ↔ (utf8 value).length = 64 ∧ ∀ b ∈ utf8 value, isLowerHex b = true := by
  simp [validateHex]

theorem validateHex_hexEncode (label : String) (id : Id32) : validateHex label (hexEncode id.val) = .ok () := by
  rw [validateHex_eq_ok]
  refine ⟨?_, fun b hb => isLowerHex_of_mem_hexEncode hb⟩
  rw [length_utf8_hexEncode, id.property]

variable {C}

theorem verifyHex_tagHex (key : MacKey) (stream : Bytes) : verifyHex C key stream (tagHex C key stream) = .ok () := by
  simp [verifyHex, tagHex, hexDecode_hexEncode]

end Kvpack.Handoff
