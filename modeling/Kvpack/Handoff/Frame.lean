import Kvpack.Handoff.Manifest

/-!
# Frames of the live stream

A frame is a fixed envelope, the canonical JSON of its manifest and, for a layer, its payload. The reader takes envelope
and manifest first, so that the caller can wait for memory before it takes the payload.
-/

namespace Kvpack.Handoff

open Base Kvpack.Core

def frameMagic : Bytes := [75, 86, 72, 70]

inductive FrameKind where
  | begin_ | layer | seal_ | abort | ack
  deriving DecidableEq

def FrameKind.wire : FrameKind → UInt8
  | .begin_ => 1
  | .layer => 2
  | .seal_ => 3
  | .abort => 4
  | .ack => 5

def FrameKind.tryFrom (value : UInt8) : Except HandoffError FrameKind :=
  okOr ([FrameKind.begin_, .layer, .seal_, .abort, .ack].find? fun kind => kind.wire == value)
    (.validation s!"unknown live handoff frame kind {value}")

inductive Frame where
  | begin_ (manifest : BeginManifestV1)
  | layer (header : LayerHeaderV1) (payload : Bytes)
  | seal_ (manifest : SealManifestV1)
  | abort (manifest : AbortManifestV1)
  | ack (manifest : AckManifestV1)
  deriving DecidableEq

/-- A frame whose payload has not been read. -/
inductive FrameHeader where
  | begin_ (manifest : BeginManifestV1)
  | layer (header : LayerHeaderV1)
  | seal_ (manifest : SealManifestV1)
  | abort (manifest : AbortManifestV1)
  | ack (manifest : AckManifestV1)

structure FrameLimits where
  maxJsonBytes : Nat
  maxPayloadBytes : UInt64

/-! ## Writing -/

def encodeParts : Frame → FrameKind × Bytes × Bytes
  | .begin_ manifest => (.begin_, manifest.toJson.canonical, [])
  | .layer header payload => (.layer, header.toJson.canonical, payload)
  | .seal_ manifest => (.seal_, manifest.toJson.canonical, [])
  | .abort manifest => (.abort, manifest.toJson.canonical, [])
  | .ack manifest => (.ack, manifest.toJson.canonical, [])

def writeFrame (limits : FrameLimits) (frame : Frame) : Except HandoffError Bytes := do
  let (kind, json, payload) := encodeParts frame
  rejectIf (json = [] ∨ limits.maxJsonBytes < json.length)
    (.validation s!"frame JSON length {json.length} is outside configured bounds")
  let payloadLen ← okOr (u64TryFrom payload.length) (.validation "payload length exceeds u64")
  rejectIf (limits.maxPayloadBytes < payloadLen)
    (.validation s!"frame payload length {payloadLen} exceeds {limits.maxPayloadBytes}")
  let jsonLen ← okOr (u32TryFrom json.length) (.validation "frame JSON length exceeds u32")
  return frameMagic ++ [1] ++ [kind.wire] ++ [0, 0] ++ (le32 jsonLen).reverse ++ (le64 payloadLen).reverse ++ json ++
    payload

/-! ## Reading -/

/-- Deserialisation of the manifests. -/
structure Serde where
  begin_ : Bytes → Except HandoffError BeginManifestV1
  layer : Bytes → Except HandoffError LayerHeaderV1
  seal_ : Bytes → Except HandoffError SealManifestV1
  abort : Bytes → Except HandoffError AbortManifestV1
  ack : Bytes → Except HandoffError AckManifestV1

def decodeCanonicalJson {α : Type} (fromSlice : Bytes → Except HandoffError α) (toJson : α → Json) (maxBytes : Nat)
    (bytes : Bytes) : Except HandoffError α := do
  rejectIf (bytes = [] ∨ maxBytes < bytes.length)
    (.validation s!"JSON length {bytes.length} is outside 1..={maxBytes}")
  let decoded ← fromSlice bytes
  rejectIf ((toJson decoded).canonical ≠ bytes)
    (.validation "JSON is not in the canonical compact sorted-key encoding")
  return decoded

def unexpectedEof : HandoffError := .io "failed to fill whole buffer"

section

variable (serde : Serde) (limits : FrameLimits)

def decodeManifest (kind : FrameKind) (json : Bytes) (payloadLen : UInt64) : Except HandoffError FrameHeader :=
  let maxBytes := limits.maxJsonBytes
  match kind with
  | .begin_ => .begin_ <$> decodeCanonicalJson serde.begin_ BeginManifestV1.toJson maxBytes json
  | .layer => do
      let header ← decodeCanonicalJson serde.layer LayerHeaderV1.toJson maxBytes json
      rejectIf (header.byteLength ≠ payloadLen)
        (.validation "layer header length does not equal frame payload length")
      return .layer header
  | .seal_ => .seal_ <$> decodeCanonicalJson serde.seal_ SealManifestV1.toJson maxBytes json
  | .abort => .abort <$> decodeCanonicalJson serde.abort AbortManifestV1.toJson maxBytes json
  | .ack => .ack <$> decodeCanonicalJson serde.ack AckManifestV1.toJson maxBytes json

def decodeHeader : Parser HandoffError (FrameHeader × UInt64) := do
  let magic ← Parser.take unexpectedEof 4
  let version ← Parser.word8 unexpectedEof
  let kind ← Parser.word8 unexpectedEof
  let flags ← Parser.take unexpectedEof 2
  let jsonLen ← Parser.wordBE32 unexpectedEof
  let payloadLen ← Parser.wordBE64 unexpectedEof
  Parser.check (rejectIf (magic ≠ frameMagic ∨ version ≠ 1 ∨ flags ≠ [0, 0])
    (.validation "invalid frame magic, version, or reserved flags"))
  let kind ← Parser.check (FrameKind.tryFrom kind)
  Parser.check (rejectIf (jsonLen.toNat = 0 ∨ limits.maxJsonBytes < jsonLen.toNat ∨
    limits.maxPayloadBytes < payloadLen ∨ (kind ≠ .layer ∧ payloadLen ≠ 0))
    (.validation "frame lengths violate the configured bounds or frame kind"))
  let json ← Parser.take unexpectedEof jsonLen.toNat
  let header ← Parser.check (decodeManifest serde limits kind json payloadLen)
  return (header, payloadLen)

def takePayload (payloadLen : UInt64) : FrameHeader → Parser HandoffError Frame
  | .begin_ manifest => return .begin_ manifest
  | .layer header => return .layer header (← Parser.take (.io "unexpected end of file") payloadLen.toNat)
  | .seal_ manifest => return .seal_ manifest
  | .abort manifest => return .abort manifest
  | .ack manifest => return .ack manifest

/-- The bytes still to be read, and an envelope whose payload is still to be read. -/
structure FrameReader where
  reader : Bytes
  pending : Option (FrameHeader × UInt64)

def FrameReader.readHeader (r : FrameReader) : Except HandoffError FrameReader := do
  rejectIf r.pending.isSome
    (.validation "cannot read another frame header before consuming the pending payload")
  let (pending, reader) ← (decodeHeader serde limits).run r.reader
  return ⟨reader, some pending⟩

def FrameReader.readPayload (r : FrameReader) : Except HandoffError (Frame × FrameReader) := do
  let (header, payloadLen) ← okOr r.pending (.validation "no pending frame header to consume")
  let (frame, reader) ← (takePayload payloadLen header).run r.reader
  return (frame, ⟨reader, none⟩)

def readFrames : Nat → FrameReader → Except HandoffError (List Frame × FrameReader)
  | 0, r => .ok ([], r)
  | n + 1, r => do
      let r ← r.readHeader serde limits
      let (frame, r) ← r.readPayload
      let (frames, r) ← readFrames n r
      return (frame :: frames, r)

end

end Kvpack.Handoff
