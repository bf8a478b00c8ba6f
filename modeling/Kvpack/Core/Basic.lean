import Kvpack.Base.Parse

/-!
# Errors, bounds and wire enumerations

The error type of the pack format, the constants of the wire contract, and the enumerations stored as 16-bit tags.
-/

namespace Kvpack.Core

open Base

/-! ## Errors -/

inductive PackError where
  | unknownEnum (what : String) (value : UInt64)
  | u64Range (what : String)
  | badMagic (msg : String)
  | checksum (msg : String)
  | reserved (msg : String)
  | truncated (msg : String)
  | bounds (msg : String)
  | semantics (msg : String)
  | graph (msg : String)
  | authentication (msg : String)
  | codec (msg : String)
  | poisoned (msg : String)
  deriving Repr, DecidableEq

abbrev Id32 := ByteArr 32

instance instLawfulBEqId32 : LawfulBEq Id32 := inferInstance

def zeroId : Id32 := ByteArr.zero 32

def repeatedId (b : UInt8) : Id32 := ⟨List.replicate 32 b, List.length_replicate⟩

def isZeroId (id : Id32) : Bool := id.val.all (· == 0)

/-! ## Bounds of the wire contract -/

def alignment : Nat := 4096
def chunkHeaderBytes : Nat := alignment
def packHeaderBytes : Nat := alignment
def packFooterBytes : Nat := alignment
def maxChunkPlaintext : Nat := 4 * 1024 * 1024
def codecFrameHeaderBytes : Nat := 16
/-- Run-length coding can add one control byte per 128 literal bytes. -/
def maxCodecOverhead : Nat := codecFrameHeaderBytes + maxChunkPlaintext / 128
def maxChunkObjectBytes : Nat := chunkHeaderBytes + maxChunkPlaintext + maxCodecOverhead + 16 + alignment
def maxRank : Nat := 8
def maxDeltaDepth : UInt8 := 7
def prefixBlockTokens : Nat := 256
def maxStateNameBytes : Nat := 255
def maxStates : Nat := 65536
def maxAtomicGroups : Nat := maxStates
def maxChunksPerState : Nat := 65536
def maxDependenciesPerState : Nat := 64
def maxManifestBytes : Nat := 256 * 1024 * 1024
def wireVersion : UInt16 := 1
def flagEncrypted : UInt32 := 1
def chunkHeaderSidecarOffset : Nat := 236
def maxStatsSidecarBytes : Nat := chunkHeaderBytes - chunkHeaderSidecarOffset - 2

def packMagic : Bytes := utf8 "KVPKP1" ++ [0, 0]
def chunkMagic : Bytes := utf8 "KVCHK1" ++ [0, 0]
def footerMagic : Bytes := utf8 "KVCMT1" ++ [0, 0]
def manifestMagic : Bytes := utf8 "KVMNF1" ++ [0, 0]
def familyMagic : Bytes := utf8 "KVFAM1" ++ [0, 0]
def statsSidecarMagic : Bytes := utf8 "KVSSC1" ++ [0, 0]
def rawFrameMagic : Bytes := utf8 "KVRAW1" ++ [0, 0]
def losslessFrameMagic : Bytes := utf8 "KVRLE1" ++ [0, 0]

/-! ## Wire enumerations -/

/-- Fail-closed decoding: the variant whose tag is `value`. -/
def fromWireOf {α : Type} (what : String) (variants : List α) (wire : α → UInt16) (value : UInt16) :
    Except PackError α :=
  okOr (variants.find? fun v => wire v == value) (.unknownEnum what value.toUInt64)

theorem fromWireOf_wire {α : Type} {what : String} {variants : List α} {wire : α → UInt16}
    (hinj : Function.Injective wire) {v : α} (hv : v ∈ variants) :
    fromWireOf what variants wire (wire v) = .ok v := by
  rw [fromWireOf, okOr_eq_ok]
  have hsome : (variants.find? fun u => wire u == wire v).isSome := by
    rw [List.find?_isSome]
    exact ⟨v, hv, by simp⟩
  obtain ⟨u, hu⟩ := Option.isSome_iff_exists.mp hsome
  have hw : wire u = wire v := by simpa using List.find?_some hu
  rw [hu, hinj hw]

theorem fromWireOf_eq_ok {α : Type} {what : String} {variants : List α} {wire : α → UInt16}
    (hinj : Function.Injective wire) {v : α} {w : UInt16} (hv : v ∈ variants) :
    fromWireOf what variants wire w = .ok v ↔ w = wire v := by
  constructor
  · intro h
    rw [fromWireOf, okOr_eq_ok] at h
    have hw : wire v = w := by simpa using List.find?_some h
    exact hw.symm
  · rintro rfl
    exact fromWireOf_wire hinj hv

inductive CacheKind where
  | ordinaryKv
  deriving Repr, DecidableEq

def CacheKind.wire : CacheKind → UInt16
  | .ordinaryKv => 1

def CacheKind.fromWire : UInt16 → Except PackError CacheKind :=
  fromWireOf "cache kind" [.ordinaryKv] CacheKind.wire

inductive DType where
  | u8 | u32 | i8 | i16 | i32 | f16 | bf16 | f32 | f64
  deriving Repr, DecidableEq

def DType.wire : DType → UInt16
  | .u8 => 1
  | .u32 => 2
  | .i8 => 3
  | .i16 => 4
  | .i32 => 5
  | .f16 => 6
  | .bf16 => 7
  | .f32 => 8
  | .f64 => 9

def DType.fromWire : UInt16 → Except PackError DType :=
  fromWireOf "dtype" [.u8, .u32, .i8, .i16, .i32, .f16, .bf16, .f32, .f64] DType.wire

def DType.widthBytes : DType → Option UInt64
  | .u8 | .i8 => some 1
  | .i16 | .f16 | .bf16 => some 2
  | .u32 | .i32 | .f32 => some 4
  | .f64 => some 8

inductive Codec where
  | raw | lossless
  deriving Repr, DecidableEq

def Codec.wire : Codec → UInt16
  | .raw => 1
  | .lossless => 2

def Codec.fromWire : UInt16 → Except PackError Codec :=
  fromWireOf "codec" [.raw, .lossless] Codec.wire

inductive Layout where
  | contiguous | strided
  deriving Repr, DecidableEq

def Layout.wire : Layout → UInt16
  | .contiguous => 1
  | .strided => 2

def Layout.fromWire : UInt16 → Except PackError Layout :=
  fromWireOf "layout" [.contiguous, .strided] Layout.wire

inductive RepresentationMode where
  | native | portable
  deriving Repr, DecidableEq

def RepresentationMode.wire : RepresentationMode → UInt16
  | .native => 1
  | .portable => 2

def RepresentationMode.fromWire : UInt16 → Except PackError RepresentationMode :=
  fromWireOf "representation mode" [.native, .portable] RepresentationMode.wire

inductive TokenAxisRule where
  | direct | gather | tailWindow
  deriving Repr, DecidableEq

def TokenAxisRule.wire : TokenAxisRule → UInt16
  | .direct => 1
  | .gather => 2
  | .tailWindow => 3

def TokenAxisRule.fromWire : UInt16 → Except PackError TokenAxisRule :=
  fromWireOf "token axis rule" [.direct, .gather, .tailWindow] TokenAxisRule.wire

theorem CacheKind.fromWire_wire (v : CacheKind) : CacheKind.fromWire v.wire = .ok v :=
  fromWireOf_wire (fun a b _ => by cases a; cases b; rfl) (by cases v; decide)

theorem DType.fromWire_wire (v : DType) : DType.fromWire v.wire = .ok v :=
  fromWireOf_wire (fun a b h => by revert h; cases a <;> cases b <;> decide) (by cases v <;> decide)

theorem Codec.fromWire_wire (v : Codec) : Codec.fromWire v.wire = .ok v :=
  fromWireOf_wire (fun a b h => by revert h; cases a <;> cases b <;> decide) (by cases v <;> decide)

theorem Layout.fromWire_wire (v : Layout) : Layout.fromWire v.wire = .ok v :=
  fromWireOf_wire (fun a b h => by revert h; cases a <;> cases b <;> decide) (by cases v <;> decide)

theorem RepresentationMode.fromWire_wire (v : RepresentationMode) :
    RepresentationMode.fromWire v.wire = .ok v :=
  fromWireOf_wire (fun a b h => by revert h; cases a <;> cases b <;> decide) (by cases v <;> decide)

theorem TokenAxisRule.fromWire_wire (v : TokenAxisRule) : TokenAxisRule.fromWire v.wire = .ok v :=
  fromWireOf_wire (fun a b h => by revert h; cases a <;> cases b <;> decide) (by cases v <;> decide)

end Kvpack.Core
