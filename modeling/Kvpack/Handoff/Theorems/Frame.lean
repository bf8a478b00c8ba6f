import Kvpack.Core.Theorems
import Kvpack.Handoff.Frame

/-!
# Frame streams

The reader undoes the writer, except that the writer does not compare the length a layer declares with its payload and
the reader does.
-/

namespace Kvpack.Handoff

open Base Kvpack.Core

variable {serde : Serde} {limits : FrameLimits} {frame : Frame} {bytes : Bytes}

def Frame.Declared : Frame → Prop
  | .layer header payload => header.byteLength.toNat = payload.length
  | _ => True

/-- What is serialised for the frame deserialises to its manifest. -/
def Serde.ReadsBack (serde : Serde) : Frame → Prop
  | .begin_ manifest => serde.begin_ manifest.toJson.canonical = .ok manifest
  | .layer header _ => serde.layer header.toJson.canonical = .ok header
  | .seal_ manifest => serde.seal_ manifest.toJson.canonical = .ok manifest
  | .abort manifest => serde.abort manifest.toJson.canonical = .ok manifest
  | .ack manifest => serde.ack manifest.toJson.canonical = .ok manifest

def readFrame (serde : Serde) (limits : FrameLimits) : Parser HandoffError Frame := do
  let (header, payloadLen) ← decodeHeader serde limits
  takePayload payloadLen header

theorem run_readFrame {rest : Bytes} : (readFrame serde limits).run bytes = .ok (frame, rest) ↔
    ∃ header len mid, (decodeHeader serde limits).run bytes = .ok ((header, len), mid) ∧
      (takePayload len header).run mid = .ok (frame, rest) := by
  simp only [readFrame, run_bind_eq_ok, Prod.exists]

theorem readFrames_eq_ok {n : Nat} {frames : List Frame} {r : FrameReader} :
    readFrames serde limits n ⟨bytes, none⟩ = .ok (frames, r) ↔
      ∃ rest, r = ⟨rest, none⟩ ∧ (Parser.times n (readFrame serde limits)).run bytes = .ok (frames, rest) := by
  induction n generalizing bytes frames with
  | zero =>
    simp only [readFrames, Parser.times, run_pure_eq_ok, Except.ok.injEq, Prod.mk.injEq]
    constructor
    · rintro ⟨rfl, rfl⟩
      exact ⟨bytes, rfl, rfl, rfl⟩
    · rintro ⟨_, rfl, rfl, rfl⟩
      exact ⟨rfl, rfl⟩
  | succ n ih =>
    simp only [readFrames, FrameReader.readHeader, FrameReader.readPayload, Parser.times, run_bind_eq_ok,
      run_readFrame, run_pure_eq_ok, bind_eq_ok, exists_unit, rejectIf_eq_ok, okOr_eq_ok, pure_eq_ok, Prod.exists,
      Prod.mk.injEq]
    constructor
    · rintro ⟨_, ⟨-, header, len, reader, hheader, rfl⟩, _, _, ⟨_, _, hpending, frame, rest, hpayload, rfl, rfl⟩,
        frames, _, hframes, rfl, rfl⟩
      cases hpending
      obtain ⟨rest', rfl, hrest⟩ := ih.mp hframes
      exact ⟨rest', rfl, frame, rest, ⟨header, len, reader, hheader, hpayload⟩, frames, rest', hrest, rfl, rfl⟩
    · rintro ⟨_, rfl, frame, rest, ⟨header, len, reader, hheader, hpayload⟩, frames, rest', hrest, rfl, rfl⟩
      exact ⟨_, ⟨by simp, header, len, reader, hheader, rfl⟩, frame, _,
        ⟨header, len, rfl, frame, rest, hpayload, rfl, rfl⟩, frames, _, ih.mpr ⟨rest', rfl, hrest⟩, rfl, rfl⟩

theorem decodeCanonicalJson_canonical {α : Type} {fromSlice : Bytes → Except HandoffError α} {toJson : α → Json} {v : α}
    {maxBytes : Nat} (hback : fromSlice (toJson v).canonical = .ok v) (hnil : (toJson v).canonical ≠ [])
    (hle : (toJson v).canonical.length ≤ maxBytes) :
    decodeCanonicalJson fromSlice toJson maxBytes (toJson v).canonical = .ok v := by
  rw [decodeCanonicalJson, rejectIf_of_not (by simp [hnil, hle]), ok_bind, hback, ok_bind, rejectIf_of_not (by simp),
    ok_bind]
  rfl

theorem reads_decodeHeader {kind : FrameKind} {json : Bytes} {jsonLen : UInt32} {payloadLen : UInt64}
    {header : FrameHeader}
    (hjson : jsonLen.toNat = json.length) (hnil : json ≠ []) (hle : json.length ≤ limits.maxJsonBytes)
    (hpayload : payloadLen ≤ limits.maxPayloadBytes) (hkind : kind ≠ .layer → payloadLen = 0)
    (hmanifest : decodeManifest serde limits kind json payloadLen = .ok header) :
    Reads (decodeHeader serde limits) (frameMagic ++ ([1] ++ ([kind.wire] ++ ([0, 0] ++ ((le32 jsonLen).reverse ++
      ((le64 payloadLen).reverse ++ json)))))) (header, payloadLen) := by
  have hlength : 0 < json.length := List.length_pos_iff.mpr hnil
  have htry : FrameKind.tryFrom kind.wire = .ok kind := by cases kind <;> rfl
  have hmagic : Reads (Parser.take unexpectedEof 4) frameMagic frameMagic := Reads.take rfl
  have hflags : Reads (Parser.take unexpectedEof 2) [0, 0] [0, 0] := Reads.take rfl
  refine hmagic.bind <| ((Inverse.word8 _).reads 1).bind <| ((Inverse.word8 _).reads kind.wire).bind <| hflags.bind <|
    ((Inverse.wordBE32 _).reads jsonLen).bind <| ((Inverse.wordBE64 _).reads payloadLen).bind ?_
  refine (Reads.check (rejectIf_of_not ?_)).bind_nil <| (Reads.check htry).bind_nil <|
    (Reads.check (rejectIf_of_not ?_)).bind_nil ?_
  · simp
  · rw [hjson, not_or, not_or, not_or, not_and, not_lt, UInt64.not_lt]
    exact ⟨by omega, hle, hpayload, fun h => not_not.mpr (hkind h)⟩
  · rw [← List.append_nil json]
    exact (Reads.take hjson.symm).bind (Reads.check hmanifest).bind_pure

theorem reads_frame (hback : serde.ReadsBack frame) (hdeclared : frame.Declared)
    (hwrite : writeFrame limits frame = .ok bytes) : Reads (readFrame serde limits) bytes frame := by
  simp only [writeFrame, bind_eq_ok, exists_unit, rejectIf_eq_ok, okOr_eq_ok, u64TryFrom_eq_some, u32TryFrom_eq_some,
    pure_eq_ok, not_or, not_lt] at hwrite
  obtain ⟨⟨hnil, hle⟩, payloadLen, hpayload, hmax, jsonLen, hjson, rfl⟩ := hwrite
  have hempty (h : (encodeParts frame).2.2 = []) : payloadLen = 0 := UInt64.toNat_inj.mp (by rw [hpayload, h]; rfl)
  obtain ⟨header, hkind, hmanifest, htake⟩ : ∃ header, ((encodeParts frame).1 ≠ .layer → payloadLen = 0) ∧
      decodeManifest serde limits (encodeParts frame).1 (encodeParts frame).2.1 payloadLen = .ok header ∧
      Reads (takePayload payloadLen header) (encodeParts frame).2.2 frame := by
    cases frame with
    | begin_ manifest =>
      exact ⟨.begin_ manifest, fun _ => hempty rfl,
        congrArg (Except.map _) (decodeCanonicalJson_canonical hback hnil hle), Reads.pure _⟩
    | layer header payload =>
      refine ⟨.layer header, fun h => absurd rfl h, ?_, (Reads.take hpayload.symm).bind_pure⟩
      have hlength : header.byteLength = payloadLen := UInt64.toNat_inj.mp (hdeclared.trans hpayload.symm)
      simp only [encodeParts, decodeManifest, decodeCanonicalJson_canonical hback hnil hle, ok_bind,
        rejectIf_of_not (not_not.mpr hlength)]
      rfl
    | seal_ manifest =>
      exact ⟨.seal_ manifest, fun _ => hempty rfl,
        congrArg (Except.map _) (decodeCanonicalJson_canonical hback hnil hle), Reads.pure _⟩
    | abort manifest =>
      exact ⟨.abort manifest, fun _ => hempty rfl,
        congrArg (Except.map _) (decodeCanonicalJson_canonical hback hnil hle), Reads.pure _⟩
    | ack manifest =>
      exact ⟨.ack manifest, fun _ => hempty rfl, congrArg (Except.map _) (decodeCanonicalJson_canonical hback hnil hle),
        Reads.pure _⟩
  have hboth : Reads (readFrame serde limits) _ frame :=
    (reads_decodeHeader hjson hnil hle (UInt64.not_lt.mp hmax) hkind hmanifest).bind htake
  simpa only [List.append_assoc] using hboth

theorem yields_decodeHeader : Yields (decodeHeader serde limits) fun read =>
    ∃ kind json, decodeManifest serde limits kind json read.2 = .ok read.1 :=
  .after fun _ => .after fun _ => .after fun _ => .after fun _ => .after fun _ => .after fun _ => .after fun _ =>
    .after fun kind => .after fun _ => .after fun json => (Yields.check _).bind fun _ h => .pure ⟨kind, json, h⟩

/-- A layer that comes back was declared with the length of its payload. -/
theorem yields_readFrame : Yields (readFrame serde limits) Frame.Declared := by
  intro inp frame rest hrun
  obtain ⟨header, len, mid, hheader, hpayload⟩ := run_readFrame.mp hrun
  cases header with
  | layer header =>
    simp only [takePayload, run_bind_eq_ok, run_take_eq_ok, run_pure_eq_ok] at hpayload
    obtain ⟨payload, _, ⟨hlength, -⟩, rfl, -⟩ := hpayload
    obtain ⟨kind, json, hmanifest⟩ := yields_decodeHeader _ _ _ hheader
    cases kind with
    | layer =>
      simp only [decodeManifest, bind_eq_ok, exists_unit, rejectIf_eq_ok, not_not, pure_eq_ok,
        FrameHeader.layer.injEq] at hmanifest
      obtain ⟨_, -, rfl, rfl⟩ := hmanifest
      exact hlength.symm
    | _ => simp [decodeManifest, map_eq_ok] at hmanifest
  | _ =>
    cases hpayload
    trivial

/-- The frames of a stream come back exactly when every layer declares its payload's length. -/
theorem frames_read_back (serde : Serde) (limits : FrameLimits) (frames : List Frame) (bytes : Bytes)
    (hback : ∀ frame ∈ frames, serde.ReadsBack frame) (hwrite : writeAll (writeFrame limits) frames = .ok bytes) :
    readFrames serde limits frames.length ⟨bytes, none⟩ = .ok (frames, ⟨[], none⟩) ↔
      ∀ frame ∈ frames, frame.Declared := by
  rw [readFrames_eq_ok]
  constructor
  · rintro ⟨rest, -, hrun⟩
    exact (yields_readFrame.times _ _ _ _ hrun).2
  · intro hdeclared
    have hreads : Reads (Parser.times frames.length (readFrame serde limits)) bytes frames :=
      Reads.times_writeAll hwrite fun frame hframe _ hone =>
        reads_frame (hback frame hframe) (hdeclared frame hframe) hone
    exact ⟨[], rfl, by simpa using hreads []⟩

def FrameLimits.default : FrameLimits := ⟨1024 * 1024, 64 * 1024 * 1024⟩

def byteLayer (byteLength : UInt64) : LayerHeaderV1 :=
  ⟨byteLength, 0, 1, 0, .key, 1, 0, "", (1, 1, 1), "t", none, none⟩

/-- A deserialiser that knows one layer header. -/
def layerSerde (header : LayerHeaderV1) : Serde where
  begin_ _ := .error (.canonical "")
  layer _ := .ok header
  seal_ _ := .error (.canonical "")
  abort _ := .error (.canonical "")
  ack _ := .error (.canonical "")

theorem frames_read_back_byte : ∃ bytes, writeAll (writeFrame .default) [.layer (byteLayer 1) [0]] = .ok bytes ∧
    readFrames (layerSerde (byteLayer 1)) .default 1 ⟨bytes, none⟩ = .ok ([.layer (byteLayer 1) [0]], ⟨[], none⟩) := by
  obtain ⟨bytes, hbytes⟩ := exists_ok_of_isOk
    (show (writeAll (writeFrame .default) [.layer (byteLayer 1) [0]]).isOk by decide +kernel)
  have hread := frames_read_back (layerSerde (byteLayer 1)) .default [.layer (byteLayer 1) [0]] bytes
    (by simp [Serde.ReadsBack, layerSerde]) hbytes
  exact ⟨bytes, hbytes, hread.mpr (by simp [Frame.Declared, byteLayer])⟩

/-- The writer accepts a layer that declares two bytes and has one; the reader does not. -/
theorem misdeclared_layer_refused : (layerSerde (byteLayer 2)).ReadsBack (.layer (byteLayer 2) [0]) ∧
    ∃ bytes, writeAll (writeFrame .default) [.layer (byteLayer 2) [0]] = .ok bytes ∧
      ¬ (readFrames (layerSerde (byteLayer 2)) .default 1 ⟨bytes, none⟩).isOk :=
  ⟨rfl, exists_of_okAnd (by decide +kernel)⟩

end Kvpack.Handoff
