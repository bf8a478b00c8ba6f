import Kvpack.Core.Chunk

/-!
# Codec frames

Expanding the packets of an input gives the input back, so every frame decodes to its plaintext.
-/

namespace Kvpack.Core

open Base

variable {input : Bytes} {codec : Codec} {plaintext encoded : Bytes}
variable {taken expected : Nat}

/-! ## Runs and literals -/

theorem runFrom_take (x : UInt8) (input : Bytes) (length : Nat) :
    ∃ n, runFrom x input length = length + n ∧ n ≤ input.length ∧ input.take n = List.replicate n x := by
  induction input generalizing length with
  | nil => exact ⟨0, rfl, le_rfl, rfl⟩
  | cons y rest ih =>
    rw [runFrom]
    split
    · rename_i hc
      obtain ⟨n, hn, hle, htake⟩ := ih (length + 1)
      refine ⟨n + 1, by rw [hn]; omega, by rw [List.length_cons]; omega, ?_⟩
      rw [List.take_succ_cons, htake, hc.2, List.replicate_succ]
    · exact ⟨0, rfl, Nat.zero_le _, rfl⟩

theorem runFrom_le {x : UInt8} {length : Nat} (h : length ≤ 128) : runFrom x input length ≤ 128 := by
  induction input generalizing length with
  | nil => exact h
  | cons y rest ih =>
    rw [runFrom]
    split
    · exact ih (by omega)
    · exact h

theorem repeatedRun_take (x : UInt8) (rest : Bytes) :
    repeatedRun (x :: rest) ≤ 128 ∧ repeatedRun (x :: rest) ≤ (x :: rest).length ∧
      (x :: rest).take (repeatedRun (x :: rest)) = List.replicate (repeatedRun (x :: rest)) x := by
  obtain ⟨n, hn, hle, htake⟩ := runFrom_take x rest 1
  have hrun : repeatedRun (x :: rest) = n + 1 := by
    rw [repeatedRun, hn]
    omega
  have hbound : runFrom x rest 1 ≤ 128 := runFrom_le (by decide)
  refine ⟨hbound, by rw [hrun, List.length_cons]; omega, ?_⟩
  rw [hrun, List.take_succ_cons, htake, List.replicate_succ]

theorem repeatedRun_le_length (h : input ≠ []) : repeatedRun input ≤ input.length := by
  cases input with
  | nil => exact absurd rfl h
  | cons x rest => exact (repeatedRun_take x rest).2.1

theorem literalLength_le (hlen : taken ≤ input.length) (h : taken ≤ 128) :
    literalLength input taken ≤ input.length ∧ literalLength input taken ≤ 128 := by
  have hrun : ∀ {n}, n < input.length → n + repeatedRun (input.drop n) ≤ input.length := by
    intro n hn
    have hne : input.drop n ≠ [] := by
      rw [Ne, List.drop_eq_nil_iff]
      omega
    have hle := repeatedRun_le_length hne
    rw [List.length_drop] at hle
    omega
  fun_induction literalLength input taken with
  | case1 taken hc nextRun hthree => exact ⟨hlen, h⟩
  | case2 taken hc nextRun hthree hover =>
    have := hrun hc.1
    exact ⟨by omega, le_rfl⟩
  | case3 taken hc nextRun hthree hover ih => exact ih (hrun hc.1) (by omega)
  | case4 taken hc => exact ⟨hlen, h⟩

/-- A literal ends at 128 bytes, at the end, or before a run of three. -/
theorem literalLength_ends (hlen : taken ≤ input.length) (h : taken ≤ 128) :
    literalLength input taken = 128 ∨ literalLength input taken = input.length ∨
      3 ≤ repeatedRun (input.drop (literalLength input taken)) := by
  fun_induction literalLength input taken with
  | case1 taken hc nextRun hthree => exact Or.inr (Or.inr hthree)
  | case2 taken hc nextRun hthree hover => exact Or.inl rfl
  | case3 taken hc nextRun hthree hover ih =>
    have hne : input.drop taken ≠ [] := by
      rw [Ne, List.drop_eq_nil_iff]
      omega
    have hle := repeatedRun_le_length hne
    rw [List.length_drop] at hle
    exact ih (by omega) (by omega)
  | case4 taken hc => omega

/-! ## Packets -/

theorem decodePackets_repeat {run : Nat} {x : UInt8} {tail result : Bytes} (hpos : 1 ≤ run) (hle : run ≤ 128)
    (h : result.length + run ≤ expected) :
    decodePackets expected (UInt8.ofNat (128 + (run - 1)) :: x :: tail) result =
      decodePackets expected tail (result ++ List.replicate run x) := by
  have hcontrol : (UInt8.ofNat (128 + (run - 1))).toNat = 128 + (run - 1) :=
    UInt8.toNat_ofNat_of_lt' (by show _ < 2 ^ 8; omega)
  have hlength : (128 + (run - 1)) % 128 + 1 = run := by omega
  rw [decodePackets]
  simp only [hcontrol, hlength]
  rw [if_pos (by omega), rejectIf_of_not (by omega), ok_bind]

theorem decodePackets_literal {literal tail result : Bytes} (hpos : 1 ≤ literal.length)
    (hle : literal.length ≤ 128) (h : result.length + literal.length ≤ expected) :
    decodePackets expected (UInt8.ofNat (literal.length - 1) :: (literal ++ tail)) result =
      decodePackets expected tail (result ++ literal) := by
  have hcontrol : (UInt8.ofNat (literal.length - 1)).toNat = literal.length - 1 :=
    UInt8.toNat_ofNat_of_lt' (by show _ < 2 ^ 8; omega)
  have hlength : (literal.length - 1) % 128 + 1 = literal.length := by omega
  rw [decodePackets.eq_def]
  simp only [hcontrol, hlength]
  rw [if_neg (by omega), rejectIf_of_not (by rw [List.length_append]; omega), ok_bind, rejectIf_of_not (by omega),
    ok_bind, List.take_left, List.drop_left]

/-- Decoding continues after the packets of `input`, which it has appended. -/
theorem decodePackets_encodePackets {input result : Bytes}
    (h : result.length + input.length ≤ expected) :
    decodePackets expected (encodePackets input) result = .ok (result ++ input) := by
  induction hn : input.length using Nat.strong_induction_on generalizing input result with
  | _ n ih =>
    cases input with
    | nil => rw [encodePackets, decodePackets, List.append_nil]
    | cons x rest =>
      obtain ⟨hle, hlen, htake⟩ := repeatedRun_take x rest
      have hpos := repeatedRun_pos (x :: rest)
      have hge := le_literalLength (x :: rest) (repeatedRun (x :: rest))
      obtain ⟨hlit, hlit'⟩ := literalLength_le hlen hle
      rw [encodePackets]
      dsimp only
      generalize hrun : repeatedRun (x :: rest) = run at *
      generalize hinput : x :: rest = input at *
      generalize literalLength input run = length at *
      have hdrop : ∀ {k}, 1 ≤ k → k ≤ input.length → ∀ acc : Bytes, acc.length = result.length + k →
          decodePackets expected (encodePackets (input.drop k)) acc = .ok (acc ++ input.drop k) := by
        intro k hk hk' acc hacc
        refine ih (input.length - k) (by omega) ?_ (by rw [List.length_drop])
        rw [List.length_drop]
        omega
      split
      · rw [decodePackets_repeat hpos hle (by omega), ← htake,
          hdrop hpos hlen _ (by rw [List.length_append, List.length_take_of_le hlen]), List.append_assoc,
          List.take_append_drop]
      · have htaken : (input.take length).length = length := List.length_take_of_le hlit
        have hpacket : decodePackets expected (UInt8.ofNat ((input.take length).length - 1) ::
            (input.take length ++ encodePackets (input.drop length))) result =
            decodePackets expected (encodePackets (input.drop length)) (result ++ input.take length) :=
          decodePackets_literal (by omega) (by omega) (by omega)
        rw [htaken] at hpacket
        rw [hpacket, hdrop (by omega) hlit _ (by rw [List.length_append, htaken]), List.append_assoc,
          List.take_append_drop]

/-- The packets take one byte in 128 more than the input; the byte to spare before a run pays for the literal it ends.
-/
theorem length_encodePackets_le (input : Bytes) :
    (encodePackets input).length + (if 3 ≤ repeatedRun input then 1 else 0) ≤
      input.length + (input.length + 127) / 128 := by
  induction hn : input.length using Nat.strong_induction_on generalizing input with
  | _ n ih =>
    cases input with
    | nil =>
      subst hn
      simp [encodePackets, repeatedRun]
    | cons x rest =>
      obtain ⟨hle, hlen, -⟩ := repeatedRun_take x rest
      have hpos := repeatedRun_pos (x :: rest)
      have hge := le_literalLength (x :: rest) (repeatedRun (x :: rest))
      obtain ⟨hlit, hlit'⟩ := literalLength_le hlen hle
      have hends := literalLength_ends hlen hle
      rw [encodePackets]
      dsimp only
      generalize hrun : repeatedRun (x :: rest) = run at *
      generalize hinput : x :: rest = input at *
      generalize literalLength input run = length at *
      have hdrop : ∀ {k}, 1 ≤ k → k ≤ n →
          (encodePackets (input.drop k)).length + (if 3 ≤ repeatedRun (input.drop k) then 1 else 0) ≤
            (n - k) + ((n - k) + 127) / 128 := by
        intro k hk hk'
        exact ih (n - k) (by omega) _ (by rw [List.length_drop, hn])
      split
      · have hrest := hdrop hpos (by omega)
        simp only [List.length_cons]
        omega
      · have hrest := hdrop (k := length) (by omega) (by omega)
        rw [List.length_cons, List.length_append, List.length_take_of_le hlit]
        rcases hends with hfull | hend | hthree
        · omega
        · omega
        · rw [if_pos hthree] at hrest
          omega

/-! ## Frames -/

theorem frameHeader_eq_ok {magic header : Bytes} {n : Nat} (hn : n ≤ maxChunkPlaintext) :
    frameHeader magic n = .ok header ↔ magic ++ (le16 wireVersion ++ (le16 0 ++ le32 (UInt32.ofNat n))) = header := by
  have hlt : n < 2 ^ 32 := lt_of_le_of_lt hn (by decide)
  rw [frameHeader, u32TryFrom, if_pos hlt, okOr_some, ok_bind, pure_eq_ok]

theorem Codec.length_frameMagic (codec : Codec) : codec.frameMagic.length = 8 := by
  cases codec <;> decide

/-- A frame is its header followed by the payload of its codec. -/
def framePayload : Codec → Bytes → Bytes
  | .raw, plaintext => plaintext
  | .lossless, plaintext => encodePackets plaintext

theorem encodeCodecFrame_eq_ok :
    encodeCodecFrame codec plaintext = .ok encoded ↔
      plaintext ≠ [] ∧ plaintext.length ≤ maxChunkPlaintext ∧
      encoded = codec.frameMagic ++ (le16 wireVersion ++ (le16 0 ++ (le32 (UInt32.ofNat plaintext.length) ++
        framePayload codec plaintext))) ∧ encoded.length ≤ maxChunkPlaintext + maxCodecOverhead := by
  have hoverhead : (16 : Nat) ≤ maxCodecOverhead := by decide
  simp only [encodeCodecFrame, bind_eq_ok, exists_unit, rejectIf_eq_ok, not_or, not_lt]
  constructor
  · rintro ⟨⟨hne, hle⟩, h⟩
    cases codec with
    | raw =>
      simp only [bind_eq_ok, frameHeader_eq_ok hle, exists_eq_left', pure_eq_ok] at h
      subst h
      refine ⟨hne, hle, by simp [Codec.frameMagic, framePayload], ?_⟩
      have hmagic := Codec.length_frameMagic .raw
      simp only [Codec.frameMagic] at hmagic
      simp [hmagic]
      omega
    | lossless =>
      simp only [bind_eq_ok, frameHeader_eq_ok hle, exists_eq_left', exists_unit, rejectIf_eq_ok, not_lt,
        pure_eq_ok] at h
      obtain ⟨hbound, rfl⟩ := h
      exact ⟨hne, hle, by simp [Codec.frameMagic, framePayload], hbound⟩
  · rintro ⟨hne, hle, rfl, hbound⟩
    refine ⟨⟨hne, hle⟩, ?_⟩
    cases codec with
    | raw =>
      simp only [bind_eq_ok, frameHeader_eq_ok hle, exists_eq_left', pure_eq_ok]
      simp [Codec.frameMagic, framePayload]
    | lossless =>
      simp only [bind_eq_ok, frameHeader_eq_ok hle, exists_eq_left', exists_unit, rejectIf_eq_ok, not_lt, pure_eq_ok]
      simp only [Codec.frameMagic, framePayload, List.append_assoc] at hbound ⊢
      exact ⟨hbound, trivial⟩

theorem exists_encodeCodecFrame {plaintext : Bytes} (hne : plaintext ≠ [])
    (hle : plaintext.length ≤ maxChunkPlaintext) : ∃ encoded, encodeCodecFrame codec plaintext = .ok encoded := by
  refine ⟨_, encodeCodecFrame_eq_ok.mpr ⟨hne, hle, rfl, ?_⟩⟩
  have hpayload : (framePayload codec plaintext).length ≤ plaintext.length + (plaintext.length + 127) / 128 := by
    cases codec with
    | raw => exact Nat.le_add_right _ _
    | lossless => exact le_trans (Nat.le_add_right _ _) (length_encodePackets_le plaintext)
  have hmagic := codec.length_frameMagic
  have hmax : maxChunkPlaintext = 32768 * 128 := rfl
  have hoverhead : maxCodecOverhead = 16 + 32768 := by decide
  simp only [List.length_append, length_le16, length_le32]
  omega

theorem length_frame_ge
    (h : encodeCodecFrame codec plaintext = .ok encoded) : codecFrameHeaderBytes ≤ encoded.length := by
  obtain ⟨-, -, rfl, -⟩ := encodeCodecFrame_eq_ok.mp h
  simp [codec.length_frameMagic, codecFrameHeaderBytes]
  omega

theorem decodeCodecFrame_encodeCodecFrame
    (h : encodeCodecFrame codec plaintext = .ok encoded) :
    decodeCodecFrame codec encoded plaintext.length = .ok plaintext := by
  have hge := length_frame_ge h
  obtain ⟨hne, hle, heq, -⟩ := encodeCodecFrame_eq_ok.mp h
  have hmagic := codec.length_frameMagic
  have hpos : plaintext.length ≠ 0 := fun h0 => hne (List.eq_nil_of_length_eq_zero h0)
  have htake : encoded.take 8 = codec.frameMagic := by
    rw [heq, List.take_append_of_le_length hmagic.ge, List.take_of_length_le hmagic.le]
  have hversion : field16 encoded 8 = wireVersion := by simp [heq, field16_append_right, hmagic]
  have hreserved : field16 encoded 10 = 0 := by simp [heq, field16_append_right, hmagic]
  have hlength : (field32 encoded 12).toNat = plaintext.length := by
    have hword : field32 encoded 12 = UInt32.ofNat plaintext.length := by simp [heq, field32_append_right, hmagic]
    rw [hword]
    exact UInt32.toNat_ofNat_of_lt' (lt_of_le_of_lt hle (by decide))
  have hpayload : encoded.drop codecFrameHeaderBytes = framePayload codec plaintext := by
    simp [heq, drop_past, hmagic, codecFrameHeaderBytes]
  simp only [decodeCodecFrame, rejectIf_of_not (not_lt.mpr hge), htake, hversion, hreserved, hlength, hpayload, ne_eq,
    not_true_eq_false, false_or, ok_bind, rejectIf_of_not (not_false),
    rejectIf_of_not (not_or.mpr ⟨hpos, not_lt.mpr hle⟩)]
  cases codec with
  | raw => simp [framePayload, rejectIf_of_not]
  | lossless =>
    have hpackets : decodePackets plaintext.length (encodePackets plaintext) [] = .ok plaintext :=
      decodePackets_encodePackets (by simp)
    simp [framePayload, hpackets, h, rejectIf_of_not]

/-- The bytes of an accepted frame are determined by its codec and its plaintext. -/
theorem decodeCodecFrame_eq_ok {encoded plaintext : Bytes} :
    decodeCodecFrame codec encoded expected = .ok plaintext ↔
      plaintext.length = expected ∧ encodeCodecFrame codec plaintext = .ok encoded := by
  constructor
  · intro h
    simp only [decodeCodecFrame, bind_eq_ok, exists_unit, rejectIf_eq_ok, not_or, not_not, not_lt, ne_eq] at h
    obtain ⟨hlen, hmagic, hversion, hreserved, ⟨hword, hpos, hmax⟩, h⟩ := h
    cases codec with
    | raw =>
      simp only [bind_eq_ok, exists_unit, rejectIf_eq_ok, not_not, pure_eq_ok] at h
      obtain ⟨hpayload, rfl⟩ := h
      refine ⟨hpayload, encodeCodecFrame_eq_ok.mpr ⟨?_, by omega, ?_, ?_⟩⟩
      · intro hnil
        rw [hnil] at hpayload
        exact hpos hpayload.symm
      · -- the checked fields, put together, are the header
        have hle : 16 ≤ encoded.length := hlen
        have hcount : UInt32.ofNat (encoded.drop codecFrameHeaderBytes).length = field32 encoded 12 := by
          rw [hpayload, ← hword, UInt32.ofNat_toNat]
        rw [hcount, ← hmagic, ← hversion, ← hreserved, framePayload, codecFrameHeaderBytes,
          ← drop_eq_le32 (by omega), ← drop_eq_le16 (by omega), ← drop_eq_le16 (by omega), List.take_append_drop]
      · have hoverhead : (16 : Nat) ≤ maxCodecOverhead := by decide
        rw [List.length_drop, codecFrameHeaderBytes] at hpayload
        omega
    | lossless =>
      simp only [bind_eq_ok, exists_unit, rejectIf_eq_ok, not_not, pure_eq_ok] at h
      obtain ⟨decoded, -, hdecoded, again, hagain, rfl, rfl⟩ := h
      exact ⟨hdecoded, hagain⟩
  · rintro ⟨rfl, h⟩
    exact decodeCodecFrame_encodeCodecFrame h

end Kvpack.Core
