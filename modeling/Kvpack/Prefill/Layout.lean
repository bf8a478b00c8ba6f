import Kvpack.Store.Basic

/-!
# Prefill layouts

A layout is a table of layer classes: the layers `from_..until_` in steps, minus exceptions, with the geometry and the
rotary configuration of their cached vectors.
-/

namespace Kvpack.Prefill

/-- How the pairs of a rotation lie in a vector; `none` has no positions. -/
inductive RopeConvention where
  | neox
  | interleaved
  | none
  deriving DecidableEq

/-- A layer class, registered or owned. -/
structure LayoutClassView where
  class_ : String
  from_ : UInt32
  until_ : UInt32
  step : UInt32
  except : List UInt32
  kvHeads : UInt32
  headDim : UInt32
  windowTokens : UInt32
  /-- The frequency base as the bits of a double. -/
  ropeFreqBaseBits : UInt64
  ropeDimensionCount : UInt32
  ropeScaling : String
  ropeConvention : RopeConvention
  deriving DecidableEq

def LayoutClassView.layers (c : LayoutClassView) : List UInt32 :=
  let step := max c.step.toNat 1
  ((List.range' c.from_.toNat ((c.until_.toNat - c.from_.toNat + step - 1) / step) step).map UInt32.ofNat).filter
    (· ∉ c.except)

def mlaLatentLayoutClass : String := "mla-latent"

def mlaLatentStateName : String := "attn.kv_latent"

/-- The planes of one layer of a class. -/
def classStateNames (class_ : String) : List String :=
  if class_ = mlaLatentLayoutClass then [mlaLatentStateName] else ["attn.k", "attn.v"]

structure PortablePrefillLayoutV2 where
  numLayers : UInt32
  classes : List LayoutClassView
  deriving DecidableEq

end Kvpack.Prefill
