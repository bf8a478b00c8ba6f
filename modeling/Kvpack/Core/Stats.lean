import Mathlib.Data.List.Sort
import Kvpack.Core.Canonical
import Kvpack.Core.Half

/-!
# Attention-statistics sidecar

Per-channel ranges, per-token norms and the highest-ranked tokens of one plane of half-precision keys: how they are
derived from the plane, their canonical encoding, and the checks of the decoder.
-/

namespace Kvpack.Core

open Base

def maxSidecarChannels : Nat := 512
def maxSidecarTokens : Nat := 768
def maxSinkScores : Nat := 8

structure ChannelRange where
  minBits : UInt16
  maxBits : UInt16
  deriving Repr, DecidableEq

structure SinkScore where
  tokenIndex : UInt32
  scoreBits : UInt16
  deriving Repr, DecidableEq

structure StatsSidecar where
  channelRanges : List ChannelRange
  keyL2Norms : List UInt16
  sinkScores : List SinkScore
  deriving Repr, DecidableEq

namespace ChannelRange

def min (r : ChannelRange) : F32 := f16ToF32 r.minBits
def max (r : ChannelRange) : F32 := f16ToF32 r.maxBits

end ChannelRange

/-! ## Ranking -/

/-- Token `left` is not ranked after `right`: its norm is larger, or equal with an index not larger. -/
def sinkBefore (norms : List UInt16) (left right : Nat) : Prop :=
  (f16ToF32 (norms.getD right 0)).totalKey < (f16ToF32 (norms.getD left 0)).totalKey ∨
    ((f16ToF32 (norms.getD right 0)).totalKey = (f16ToF32 (norms.getD left 0)).totalKey ∧ left ≤ right)

instance (norms : List UInt16) : DecidableRel (sinkBefore norms) := fun left right =>
  inferInstanceAs (Decidable (_ ∨ (_ ∧ left ≤ right)))

def topSinks (norms : List UInt16) (count : Nat) : List SinkScore :=
  (((List.range norms.length).insertionSort (sinkBefore norms)).take count).map fun index =>
    { tokenIndex := UInt32.ofNat index, scoreBits := norms.getD index 0 }

/-! ## Canonical encoding -/

namespace StatsSidecar

def encodeCanonical (s : StatsSidecar) : Except PackError Bytes := do
  let channels ← okOr (u32TryFrom s.channelRanges.length) (.bounds "stats sidecar channel count exceeds u32")
  let tokens ← okOr (u32TryFrom s.keyL2Norms.length) (.bounds "stats sidecar token count exceeds u32")
  let sinks ← okOr (u16TryFrom s.sinkScores.length) (.bounds "stats sidecar sink count exceeds u16")
  return statsSidecarMagic ++ le16 wireVersion ++ le16 0 ++ le32 channels ++
    (s.channelRanges.flatMap fun r => le16 r.minBits ++ le16 r.maxBits) ++ le32 tokens ++
    s.keyL2Norms.flatMap le16 ++ le16 sinks ++
    s.sinkScores.flatMap fun k => le32 k.tokenIndex ++ (le16 k.scoreBits ++ le16 0)

def decodeRange : Decoder ChannelRange := do
  let minBits ← Decoder.u16
  let maxBits ← Decoder.u16
  let range : ChannelRange := { minBits, maxBits }
  Parser.check (rejectIf (¬ range.min.isFinite ∨ ¬ range.max.isFinite ∨ range.max.key < range.min.key)
    (.semantics "stats sidecar channel range is not finite and ordered"))
  return range

def decodeNorm : Decoder UInt16 := do
  let bits ← Decoder.u16
  let norm := f16ToF32 bits
  Parser.check (rejectIf (¬ norm.isFinite ∨ norm.key < 0)
    (.semantics "stats sidecar key norm is not a finite non-negative value"))
  return bits

def decodeSink : Decoder SinkScore := do
  let tokenIndex ← Decoder.u32
  let scoreBits ← Decoder.u16
  Decoder.expect16 0 (.reserved "stats sidecar sink reserved field is nonzero")
  return { tokenIndex, scoreBits }

def decodeFields : Decoder StatsSidecar := do
  Decoder.new statsSidecarMagic
  Decoder.expect16 wireVersion (.badMagic "unsupported stats sidecar version")
  Decoder.expect16 0 (.reserved "stats sidecar reserved field is nonzero")
  let channelCount ← Decoder.u32
  Parser.check (rejectIf (channelCount.toNat = 0 ∨ maxSidecarChannels < channelCount.toNat)
    (.bounds "stats sidecar channel count is outside bounds"))
  let channelRanges ← Parser.times channelCount.toNat decodeRange
  let tokenCount ← Decoder.u32
  Parser.check (rejectIf (tokenCount.toNat = 0 ∨ maxSidecarTokens < tokenCount.toNat)
    (.bounds "stats sidecar token count is outside bounds"))
  let keyL2Norms ← Parser.times tokenCount.toNat decodeNorm
  let sinkCount ← Decoder.u16
  Parser.check (rejectIf (sinkCount.toNat = 0 ∨ maxSinkScores < sinkCount.toNat)
    (.bounds "stats sidecar sink count is outside bounds"))
  let sinkScores ← Parser.times sinkCount.toNat decodeSink
  return { channelRanges, keyL2Norms, sinkScores }

def decodeCanonical (bytes : Bytes) : Except PackError StatsSidecar := do
  rejectIf (maxStatsSidecarBytes < bytes.length) (.bounds "stats sidecar exceeds the chunk header capacity")
  let (sidecar, rest) ← decodeFields.run bytes
  let _ ← Decoder.finish.run rest
  let sinkCount := sidecar.sinkScores.length
  let tokenCount := sidecar.keyL2Norms.length
  rejectIf (tokenCount < sinkCount ∨ sidecar.sinkScores ≠ topSinks sidecar.keyL2Norms (Min.min sinkCount tokenCount))
    (.semantics "stats sidecar sink scores are not the exact top-m norms")
  let again ← sidecar.encodeCanonical
  rejectIf (again ≠ bytes) (.reserved "stats sidecar is not canonical")
  return sidecar

/-! ## Derivation from a plane -/

def element (bytes : Bytes) (channels token channel : Nat) : Except PackError F32 := do
  let value := f16ToF32 (field16 bytes ((token * channels + channel) * 2))
  rejectIf (¬ value.isFinite) (.semantics "stats sidecar source contains a non-finite element")
  return value

/-- Minimum and maximum over the tokens of one channel. -/
def channelRangeFrom (ops : MinMax) (column : Nat → Except PackError F32) :
    List Nat → F32 → F32 → Except PackError ChannelRange
  | [], lo, hi => .ok { minBits := f32ToF16 lo, maxBits := f32ToF16 hi }
  | token :: tokens, lo, hi => do
      let value ← column token
      channelRangeFrom ops column tokens (ops.min lo value) (ops.max hi value)

/-- The norm of one token, from the sum of the squares of its channels so far. -/
def tokenNormFrom (row : Nat → Except PackError F32) : List Nat → Nat → Except PackError UInt16
  | [], sum => .ok (f32ToF16 (F64.toF32 (F64.sqrt sum)))
  | channel :: channels, sum => do
      let value ← row channel
      tokenNormFrom row channels (F64.add sum (F64.mul (F64.ofF32 value) (F64.ofF32 value)))

/-- Counts are bounded before they are multiplied. -/
def deriveF16 (ops : MinMax) (tokens channels sinkCount : Nat) (bytes : Bytes) : Except PackError StatsSidecar := do
  rejectIf (tokens = 0 ∨ maxSidecarTokens < tokens ∨ channels = 0 ∨ maxSidecarChannels < channels ∨ sinkCount = 0 ∨
      maxSinkScores < sinkCount)
    (.bounds "stats sidecar shape is outside bounded limits")
  rejectIf (bytes.length ≠ tokens * channels * 2)
    (.bounds "stats sidecar source bytes do not match the declared shape")
  let channelRanges ← collect (List.range channels) fun channel =>
    channelRangeFrom ops (fun token => element bytes channels token channel) (List.range tokens) F32.infinity
      F32.negInfinity
  let keyL2Norms ← collect (List.range tokens) fun token =>
    tokenNormFrom (element bytes channels token) (List.range channels) 0
  let sidecar : StatsSidecar :=
    { channelRanges, keyL2Norms, sinkScores := topSinks keyL2Norms (Min.min sinkCount tokens) }
  let encoded ← sidecar.encodeCanonical
  rejectIf (maxStatsSidecarBytes < encoded.length) (.bounds "stats sidecar exceeds the chunk header capacity")
  return sidecar

end StatsSidecar

end Kvpack.Core
