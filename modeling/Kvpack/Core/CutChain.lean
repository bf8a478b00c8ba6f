import Kvpack.Core.Keys

/-!
# Rolling cut chains

The streaming keyed chain over cut boundaries: tokens are buffered until the stride of the next cut is complete, then
folded into the tip of the chain.
-/

namespace Kvpack.Core

open Base

variable (C : Crypto)

def maxCutChainCuts : Nat := 512

inductive CutStridePolicy where
  | flat (stride : UInt32)
  | twoTier (headTokens headStride tailStride : UInt32)
  deriving Repr, DecidableEq

namespace CutStridePolicy

def validate : CutStridePolicy → Except PackError Unit
  | .flat stride => rejectIf (stride = 0) (.semantics "cut stride is zero")
  | .twoTier headTokens headStride tailStride => do
      rejectIf (headStride = 0) (.semantics "cut head stride is zero")
      rejectIf (tailStride = 0) (.semantics "cut tail stride is zero")
      rejectIf (headTokens % headStride ≠ 0) (.semantics "cut head region is not a multiple of the head stride")
      rejectIf (headTokens % tailStride ≠ 0) (.semantics "cut head region is not a multiple of the tail stride")

/-- Stride of the cut that starts at `tokenOffset`. -/
def strideAt (policy : CutStridePolicy) (tokenOffset : UInt64) : UInt32 :=
  match policy with
  | .flat stride => stride
  | .twoTier headTokens headStride tailStride =>
    if tokenOffset < headTokens.toUInt64 then headStride else tailStride

end CutStridePolicy

/-- Between calls the buffer holds only unconsumed bytes, so its front offset is left out. -/
structure CutChainDeriver where
  key : Id32
  tip : Id32
  pending : Bytes
  consumedTokens : UInt64
  cuts : Nat
  policy : CutStridePolicy
  poisoned : Bool
  cuts_le : cuts ≤ maxCutChainCuts

def cutChainRootPreimage (nsId : Id32) : Bytes := domain "kvpack/v1/cut-chain" ++ nsId.val

def cutChainStepPreimage (tip : Id32) (tokenBytes : Bytes) : Bytes :=
  domain "kvpack/v1/cut-chain" ++ tip.val ++ tokenBytes

namespace CutChainDeriver

def new (storeKey nsId : Id32) (policy : CutStridePolicy) : Except PackError CutChainDeriver := do
  policy.validate
  return { key := storeKey, tip := C.hmac storeKey (cutChainRootPreimage nsId), pending := [], consumedTokens := 0,
           cuts := 0, policy, poisoned := false, cuts_le := Nat.zero_le _ }

/-- Emit every cut that the buffer completes. -/
def emitCuts (d : CutChainDeriver) (emitted : List Id32) : CutChainDeriver × Except PackError (List Id32) :=
  let stride := d.policy.strideAt d.consumedTokens
  let strideBytes := stride.toNat * 4
  if d.pending.length < strideBytes then (d, .ok emitted)
  else if h : d.cuts = maxCutChainCuts then
    ({ d with poisoned := true }, .error (.bounds "cut chain exceeds 512 cuts"))
  else
    let tip := C.hmac d.key (cutChainStepPreimage d.tip (d.pending.take strideBytes))
    emitCuts { d with tip, pending := d.pending.drop strideBytes,
                      consumedTokens := d.consumedTokens + stride.toUInt64, cuts := d.cuts + 1,
                      cuts_le := Nat.succ_le_of_lt (Nat.lt_of_le_of_ne d.cuts_le h) } (emitted ++ [tip])
termination_by maxCutChainCuts - d.cuts
decreasing_by
  have := d.cuts_le
  show maxCutChainCuts - (d.cuts + 1) < maxCutChainCuts - d.cuts
  omega

def pushTokens (d : CutChainDeriver) (tokens : List UInt32) : CutChainDeriver × Except PackError (List Id32) :=
  if d.poisoned then (d, .error (.poisoned "cut chain deriver is poisoned"))
  else emitCuts C { d with pending := d.pending ++ tokens.flatMap le32 } []

def pushAll (d : CutChainDeriver) : List (List UInt32) → List (Except PackError (List Id32))
  | [] => []
  | tokens :: rest =>
    let pushed := d.pushTokens C tokens
    pushed.2 :: pushAll pushed.1 rest

end CutChainDeriver

end Kvpack.Core
