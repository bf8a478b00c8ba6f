import Kvpack.Base.Framing
import Kvpack.Core.Chunk
import Kvpack.Core.CutChain
import Kvpack.Core.Lemmas.Reading

/-!
# Identity preimages

Every preimage is uniquely framed, so equal preimages come from equal fields, and each kind of keyed preimage starts
with a label of its own that no other label continues.
-/

namespace Kvpack.Core

open Base

/-! ## Families -/

theorem wire_inj {α : Type} {wire : α → UInt16} {fromWire : UInt16 → Except PackError α}
    (hread : ∀ v, fromWire (wire v) = .ok v) {a b : α} (h : wire a = wire b) : a = b := by
  have heq : (.ok a : Except PackError α) = .ok b := by rw [← hread a, h, hread b]
  exact Except.ok.inj heq

/-- No dimension is written as the zero that stands for the token dimension. -/
def FamilyState.DimensionsNonzero (s : FamilyState) : Prop := ∀ d ∈ s.dimensions, d ≠ .fixed 0

def RepresentationFamilyId.DimensionsNonzero (f : RepresentationFamilyId) : Prop :=
  ∀ s ∈ f.states, s.DimensionsNonzero

theorem framed_stateKey : Framed (fun _ => True) StateKey.encode :=
  Framed.of_reads fun _ _ _ h => reads_stateKey h

theorem dimension_append_inj ⦃d e : StaticDimension⦄ ⦃r s : Bytes⦄ (hd : d ≠ .fixed 0) (he : e ≠ .fixed 0)
    (h : le64 d.wire ++ r = le64 e.wire ++ s) : d = e ∧ r = s := by
  rw [le64_append_inj] at h
  exact ⟨by rw [← StaticDimension.ofWire_wire hd, h.1, StaticDimension.ofWire_wire he], h.2⟩

theorem framed_familyState : Framed FamilyState.DimensionsNonzero FamilyState.encode := by
  intro x y a b r s hx hy ha hb heq
  simp only [FamilyState.encode, bind_eq_ok, okOr_eq_ok, u8TryFrom_eq_some, u16TryFrom_eq_some, pure_eq_ok] at ha hb
  obtain ⟨key, hkey, rank, hrank, count, hcount, deps, hdeps, rfl⟩ := ha
  obtain ⟨key', hkey', rank', hrank', count', hcount', deps', hdeps', rfl⟩ := hb
  simp only [List.append_assoc] at heq
  obtain ⟨hk, hfields⟩ := framed_stateKey trivial trivial hkey hkey' heq
  clear heq
  rw [le16_append_inj] at hfields
  obtain ⟨hkind, hfields⟩ := hfields
  simp only [le16_append_inj, le64_append_inj, List.cons_append, List.nil_append, List.cons.injEq, true_and] at hfields
  obtain ⟨hdtype, hcodec, hversion, hlayout, hrule, haxis, helements, rfl, hlists⟩ := hfields
  obtain ⟨hdims, hdepsEq⟩ := flatMap_append_inj dimension_append_inj (hrank.symm.trans hrank') hx hy hlists
  rw [le16_append_inj] at hdepsEq
  obtain ⟨rfl, hdepsEq⟩ := hdepsEq
  obtain ⟨hdep, rfl⟩ := framed_stateKey.writeAll (hcount.symm.trans hcount') (fun _ _ => trivial) (fun _ _ => trivial)
    hdeps hdeps' hdepsEq
  have h1 := wire_inj CacheKind.fromWire_wire hkind
  have h2 := wire_inj DType.fromWire_wire hdtype
  have h3 := wire_inj Codec.fromWire_wire hcodec
  have h4 := wire_inj Layout.fromWire_wire hlayout
  have h5 := wire_inj TokenAxisRule.fromWire_wire hrule
  refine ⟨?_, rfl⟩
  cases x
  cases y
  simp_all

theorem encodeCanonical_family_inj {f g : RepresentationFamilyId} {bytes : Bytes} (hf : f.DimensionsNonzero)
    (hg : g.DimensionsNonzero) (h : f.encodeCanonical = .ok bytes) (h' : g.encodeCanonical = .ok bytes) : f = g := by
  simp only [RepresentationFamilyId.encodeCanonical, RepresentationFamilyId.encodeBody, bind_eq_ok, okOr_eq_ok,
    u32TryFrom_eq_some, pure_eq_ok] at h h'
  obtain ⟨body, ⟨count, hcount, states, hstates, rfl⟩, rfl⟩ := h
  obtain ⟨body', ⟨count', hcount', states', hstates', rfl⟩, heq⟩ := h'
  simp only [List.append_assoc, List.append_right_inj, byteArr_append_inj, le16_append_inj, le32_append_inj] at heq
  obtain ⟨habi, hmode, hpage, htopology, hshard, rfl, heq⟩ := heq
  have hnil : states' ++ [] = states ++ [] := by rw [heq]
  obtain ⟨hstatesEq, -⟩ := framed_familyState.writeAll (hcount'.symm.trans hcount) hg hf hstates' hstates hnil
  have hmodeEq := wire_inj RepresentationMode.fromWire_wire hmode
  cases f
  cases g
  simp_all

theorem encode_semanticModel_inj {v w : SemanticModelId} (h : v.encode = w.encode) : v = w := by
  have heq : v.encode ++ [] = w.encode ++ [] := by rw [h]
  exact ((reads_semanticModelId v).unique (reads_semanticModelId w) heq).1

/-! ## Collision-free hashing -/

/-- No two of the strings hashed under `key`, or hashed without a key, collide. -/
structure CollisionFree (C : Crypto) (key : Id32) (asked hashed : Set Bytes) : Prop where
  hmac : Set.InjOn (C.hmac key) asked
  sha256 : Set.InjOn C.sha256 hashed

/-- The preimage, if there is one, is among the strings hashed. -/
def Queried (queries : Set Bytes) (preimage : Except PackError Bytes) : Prop :=
  ∀ ⦃b⦄, preimage = .ok b → b ∈ queries

section

variable {C : Crypto} {key : Id32} {asked hashed : Set Bytes}
variable {t t' : Id32} {f f' : RepresentationFamilyId} {xs ys : List AuxiliaryInputId} {m m' : SemanticModelId}
variable {id r r' c c' : Id32} {p p' b a : Bytes} {tokens tokens' : List UInt32} {nodes nodes' : List PrefixNode}

theorem CollisionFree.family (hc : CollisionFree C key asked hashed) {f g : RepresentationFamilyId}
    (hf : f.DimensionsNonzero) (hg : g.DimensionsNonzero) (hqf : Queried hashed (representationFamilyPreimage f))
    (hqg : Queried hashed (representationFamilyPreimage g)) (h : representationFamilyId C f = .ok id)
    (h' : representationFamilyId C g = .ok id) : f = g := by
  simp only [representationFamilyId, bind_eq_ok, pure_eq_ok] at h h'
  obtain ⟨b, hb, rfl⟩ := h
  obtain ⟨b', hb', heq⟩ := h'
  have hbb := hc.sha256 (hqg hb') (hqf hb) heq
  subst hbb
  simp only [representationFamilyPreimage, bind_eq_ok, pure_eq_ok] at hb hb'
  obtain ⟨canonical, hcanonical, rfl⟩ := hb
  obtain ⟨canonical', hcanonical', heq'⟩ := hb'
  rw [List.append_right_inj] at heq'
  subst heq'
  exact encodeCanonical_family_inj hf hg hcanonical hcanonical'

theorem CollisionFree.semanticModel (hc : CollisionFree C key asked hashed) {m n : SemanticModelId}
    (hm : semanticModelPreimage m ∈ hashed) (hn : semanticModelPreimage n ∈ hashed)
    (h : semanticModelId C m = semanticModelId C n) : m = n :=
  encode_semanticModel_inj (List.append_cancel_left (hc.sha256 hm hn h))

/-! ## Chunks -/

theorem chunkPreimage_inj {k k' : StateKey} {sp sp' : ChunkSpan} (h : chunkPreimage C t f k sp p = .ok b)
    (h' : chunkPreimage C t' f' k' sp' p' = .ok b) :
    t = t' ∧ (∃ id, representationFamilyId C f = .ok id ∧ representationFamilyId C f' = .ok id) ∧ k = k' ∧ sp = sp' ∧
      p = p' := by
  simp only [chunkPreimage, bind_eq_ok, exists_unit, rejectIf_eq_ok, not_or, not_not, okOr_eq_ok, u16TryFrom_eq_some,
    u32TryFrom_eq_some, pure_eq_ok] at h h'
  obtain ⟨⟨-, hbytes⟩, id, hid, nameLen, hname, len, hlen, rfl⟩ := h
  obtain ⟨⟨-, hbytes'⟩, id', hid', nameLen', hname', len', hlen', heq⟩ := h'
  simp only [List.append_assoc, List.append_right_inj, byteArr_append_inj, le16_append_inj, le32_append_inj] at heq
  obtain ⟨rfl, rfl, hlayer, rfl, heq⟩ := heq
  rw [append_inj_of_length (hname'.symm.trans hname)] at heq
  simp only [le64_append_inj, le32_append_inj] at heq
  obtain ⟨hnameEq, hstart, hcount, hoffset, rfl, rfl⟩ := heq
  refine ⟨rfl, ⟨_, hid, hid'⟩, ?_, ?_, rfl⟩
  · have hstate : k.stateName = k'.stateName := (utf8_inj hnameEq).symm
    cases k
    cases k'
    simp_all
  · have hbytesEq : sp.plaintextBytes = sp'.plaintextBytes := UInt32.toNat_inj.mp (hbytes.trans hbytes'.symm)
    cases sp
    cases sp'
    simp_all

theorem objectPreimage_inj {i j : ObjectIdentity} (h : objectPreimage i = objectPreimage j) : i = j := by
  simp only [objectPreimage, List.append_assoc, List.append_right_inj, byteArr_append_inj, le64_append_inj,
    le16_append_inj, List.cons_append, List.nil_append, List.cons.injEq] at h
  obtain ⟨htenant, hfamily, hcontent, hepoch, hcodec, hversion, hencrypted, hsalt, hnonce, hdigest⟩ := h
  have hcodecEq := wire_inj Codec.fromWire_wire hcodec
  have hencryptedEq : i.encrypted = j.encrypted := by
    cases hi : i.encrypted <;> cases hj : j.encrypted <;> simp [hi, hj] at hencrypted ⊢
  have hdigestEq : i.statsDigest = j.statsDigest := by
    cases hi : i.statsDigest with
    | none =>
      cases hj : j.statsDigest with
      | none => rfl
      | some d => simp [hi, hj, statsDigestSuffix, domain] at hdigest
    | some d =>
      cases hj : j.statsDigest with
      | none => simp [hi, hj, statsDigestSuffix, domain] at hdigest
      | some e =>
        simp only [hi, hj, statsDigestSuffix, List.append_right_inj] at hdigest
        rw [Subtype.ext hdigest]
  cases i
  cases j
  simp_all

/-! ## Auxiliary inputs -/

theorem frameAuxiliaryInputs_inj {n : Nat} {r s : Bytes}
    (hlen : xs.length = ys.length) (ha : frameAuxiliaryInputs n xs = .ok a) (hb : frameAuxiliaryInputs n ys = .ok b)
    (heq : a ++ r = b ++ s) : xs = ys ∧ r = s := by
  induction xs generalizing n ys a b with
  | nil =>
    cases ys with
    | nil =>
      cases ha
      cases hb
      exact ⟨rfl, heq⟩
    | cons y ys => simp at hlen
  | cons x xs ih =>
    cases ys with
    | nil => simp at hlen
    | cons y ys =>
      simp only [frameAuxiliaryInputs, frameAuxiliaryInput, bind_eq_ok, exists_unit, rejectIf_eq_ok,
        pure_eq_ok] at ha hb
      obtain ⟨_, ⟨-, rfl⟩, as, has, rfl⟩ := ha
      obtain ⟨_, ⟨-, rfl⟩, bs, hbs, rfl⟩ := hb
      simp only [List.append_assoc, List.append_right_inj, byteArr_append_inj] at heq
      obtain ⟨htype, heq⟩ := heq
      obtain ⟨hvalue, htail⟩ := heq
      obtain ⟨rfl, rfl⟩ := ih (Nat.succ.inj hlen) has hbs htail
      exact ⟨by cases x; cases y; simp_all, rfl⟩

theorem auxiliaryInputPreimage_inj
    (h : auxiliaryInputPreimage t xs = .ok b) (h' : auxiliaryInputPreimage t' ys = .ok b) : t = t' ∧ xs = ys := by
  simp only [auxiliaryInputPreimage, bind_eq_ok, okOr_eq_ok, u32TryFrom_eq_some, pure_eq_ok] at h h'
  obtain ⟨count, hcount, frames, hframes, rfl⟩ := h
  obtain ⟨count', hcount', frames', hframes', heq⟩ := h'
  simp only [List.append_assoc, List.append_right_inj, byteArr_append_inj, le32_append_inj] at heq
  obtain ⟨rfl, rfl, heq⟩ := heq
  have hnil : frames ++ [] = frames' ++ [] := by rw [heq]
  exact ⟨rfl, (frameAuxiliaryInputs_inj (hcount.symm.trans hcount') hframes hframes' hnil).1⟩

/-! ## Prefix chains -/

theorem contextPreimage_inj (h : contextPreimage C t m f r = .ok b) (h' : contextPreimage C t' m' f' r' = .ok b) :
    t = t' ∧ semanticModelId C m = semanticModelId C m' ∧
      (∃ id, representationFamilyId C f = .ok id ∧ representationFamilyId C f' = .ok id) ∧ r = r' := by
  simp only [contextPreimage, bind_eq_ok, pure_eq_ok] at h h'
  obtain ⟨id, hid, rfl⟩ := h
  obtain ⟨id', hid', heq⟩ := h'
  simp only [List.append_assoc, List.append_right_inj, byteArr_append_inj] at heq
  obtain ⟨rfl, hmodel, rfl, hroot⟩ := heq
  exact ⟨rfl, hmodel.symm, ⟨_, hid, hid'⟩, (Subtype.ext hroot).symm⟩

theorem nodePreimage_inj {p p' : Id32} {i j : Nat} {block block' : List UInt32}
    (hlen : block.length ≤ prefixBlockTokens) (hlen' : block'.length ≤ prefixBlockTokens)
    (h : nodePreimage c p i block = nodePreimage c' p' j block') : c = c' ∧ p = p' ∧ block = block' := by
  simp only [nodePreimage, List.append_assoc, List.append_right_inj, byteArr_append_inj, le64_append_inj,
    le32_append_inj] at h
  obtain ⟨rfl, rfl, -, -, hcount, -, htokens⟩ := h
  have hlength : block.length = block'.length := by
    have hnat := congrArg UInt32.toNat hcount
    rw [UInt32.toNat_ofNat_of_lt' (lt_of_le_of_lt hlen (by decide)),
      UInt32.toNat_ofNat_of_lt' (lt_of_le_of_lt hlen' (by decide))] at hnat
    exact hnat
  have hnil : block.flatMap le32 ++ [] = block'.flatMap le32 ++ [] := by rw [htokens]
  have hframed : ∀ ⦃x y : UInt32⦄ ⦃r s : Bytes⦄, True → True → le32 x ++ r = le32 y ++ s → x = y ∧ r = s :=
    fun _ _ _ _ _ _ heq => le32_append_inj.mp heq
  exact ⟨rfl, rfl, (flatMap_append_inj hframed hlength (fun _ _ => trivial) (fun _ _ => trivial) hnil).1⟩

/-- The node after the blocks of a list that holds the last block first. -/
def chainId (C : Crypto) (key context : Id32) : List (List UInt32) → Id32
  | [] => C.hmac key (rootPreimage context)
  | block :: previous => C.hmac key (nodePreimage context (chainId C key context previous) previous.length block)

/-- The keyed hashes that lead to that node. -/
def chainQueries (C : Crypto) (key context : Id32) : List (List UInt32) → List Bytes
  | [] => [rootPreimage context]
  | block :: previous =>
    nodePreimage context (chainId C key context previous) previous.length block :: chainQueries C key context previous

theorem domain_append_ne {s t : String} (hs : 0 ∉ utf8 s) (ht : 0 ∉ utf8 t) (hne : utf8 s ≠ utf8 t) :
    domain s ++ a ≠ domain t ++ b := by
  intro h
  simp only [domain, List.append_assoc, List.cons_append, List.nil_append] at h
  exact hne ((append_terminated_inj hs ht).mp h).1

theorem rootPreimage_ne_nodePreimage (c c' p : Id32) (i : Nat) (block : List UInt32) :
    rootPreimage c ≠ nodePreimage c' p i block := by
  simp only [rootPreimage, nodePreimage, List.append_assoc]
  exact domain_append_ne (by decide) (by decide) (by decide)

/-- Equal nodes come from equal chains of blocks in the same context. -/
theorem CollisionFree.chainId (hc : CollisionFree C key asked hashed) {bs bs' : List (List UInt32)}
    (hlen : ∀ b ∈ bs, b.length ≤ prefixBlockTokens) (hlen' : ∀ b ∈ bs', b.length ≤ prefixBlockTokens)
    (hq : ∀ q ∈ chainQueries C key c bs, q ∈ asked) (hq' : ∀ q ∈ chainQueries C key c' bs', q ∈ asked)
    (h : chainId C key c bs = chainId C key c' bs') : c = c' ∧ bs = bs' := by
  induction bs generalizing bs' with
  | nil =>
    cases bs' with
    | nil =>
      have hroot := hc.hmac (hq _ List.mem_cons_self) (hq' _ List.mem_cons_self) h
      exact ⟨Subtype.ext (List.append_cancel_left hroot), rfl⟩
    | cons b' bs' =>
      exact absurd (hc.hmac (hq _ List.mem_cons_self) (hq' _ List.mem_cons_self) h)
        (rootPreimage_ne_nodePreimage _ _ _ _ _)
  | cons b bs ih =>
    cases bs' with
    | nil =>
      exact absurd (hc.hmac (hq _ List.mem_cons_self) (hq' _ List.mem_cons_self) h).symm
        (rootPreimage_ne_nodePreimage _ _ _ _ _)
    | cons b' bs' =>
      have hnode := hc.hmac (hq _ List.mem_cons_self) (hq' _ List.mem_cons_self) h
      obtain ⟨rfl, hparent, rfl⟩ :=
        nodePreimage_inj (hlen b List.mem_cons_self) (hlen' b' List.mem_cons_self) hnode
      obtain ⟨-, rfl⟩ := ih (fun x hx => hlen x (List.mem_cons_of_mem _ hx))
        (fun x hx => hlen' x (List.mem_cons_of_mem _ hx)) (fun q hmem => hq q (List.mem_cons_of_mem _ hmem))
        (fun q hmem => hq' q (List.mem_cons_of_mem _ hmem)) hparent
      exact ⟨rfl, rfl⟩

/-- Every node of a chain is the node after some of its blocks, and counts their tokens. -/
theorem mem_chainNodes {c : Id32} {previous bs : List (List UInt32)} {n : PrefixNode}
    (h : n ∈ chainNodes C key c (Core.chainId C key c previous) previous.length bs) :
    ∃ (before : List (List UInt32)) (block : List UInt32) (after : List (List UInt32)),
      bs = before ++ block :: after ∧ n.id = Core.chainId C key c ((before ++ [block]).reverse ++ previous) ∧
      n.tokenCount = UInt64.ofNat ((previous.length + before.length) * prefixBlockTokens + block.length) := by
  induction bs generalizing previous with
  | nil => simp [chainNodes] at h
  | cons b bs ih =>
    rw [chainNodes, List.mem_cons] at h
    obtain rfl | h := h
    · exact ⟨[], b, bs, rfl, rfl, rfl⟩
    · obtain ⟨before, block, after, rfl, hid, hcount⟩ := @ih (b :: previous) h
      refine ⟨b :: before, block, after, rfl, by simpa using hid, ?_⟩
      rw [hcount, List.length_cons, List.length_cons, Nat.add_right_comm, Nat.add_assoc]

theorem chainQueries_append_subset {xs ys : List (List UInt32)} {q : Bytes}
    (h : q ∈ chainQueries C key c ys) : q ∈ chainQueries C key c (xs ++ ys) := by
  induction xs with
  | nil => exact h
  | cons x xs ih => exact List.mem_cons_of_mem _ ih

/-- The hashes that deriving the prefix nodes computes are among those considered. -/
structure ChainQueried (C : Crypto) (key : Id32) (asked hashed : Set Bytes) (tenant : Id32)
    (semanticModel : SemanticModelId) (family : RepresentationFamilyId) (auxiliaryRoot : Id32)
    (tokens : List UInt32) : Prop where
  hashesModel : semanticModelPreimage semanticModel ∈ hashed
  hashesFamily : Queried hashed (representationFamilyPreimage family)
  asksContext : Queried asked (contextPreimage C tenant semanticModel family auxiliaryRoot)
  asksNodes : ∀ c, prefixContextRoot C key tenant semanticModel family auxiliaryRoot = .ok c →
    ∀ q ∈ chainQueries C key c (blocks prefixBlockTokens tokens).reverse, q ∈ asked

theorem mem_chainPrefixNodes {t : Id32} {m : SemanticModelId} {f : RepresentationFamilyId}
    (hlen : tokens.length < 2 ^ 64)
    (h : chainPrefixNodes C key t m f r tokens = .ok nodes) {n : PrefixNode} (hn : n ∈ nodes) :
    ∃ c after bs, prefixContextRoot C key t m f r = .ok c ∧ (blocks prefixBlockTokens tokens).reverse = after ++ bs ∧
      n.id = Core.chainId C key c bs ∧ tokens.take n.tokenCount.toNat = bs.reverse.flatten ∧
      n.tokenCount.toNat ≤ tokens.length := by
  simp only [chainPrefixNodes, bind_eq_ok, pure_eq_ok] at h
  obtain ⟨c, hc, rfl⟩ := h
  obtain ⟨before, block, after, hblocks, hid, hcount⟩ := @mem_chainNodes C key c [] _ _ hn
  obtain ⟨hflat, hle⟩ := flatten_of_blocks_eq (by decide) hblocks
  have htokens : n.tokenCount.toNat = before.length * prefixBlockTokens + block.length := by
    rw [hcount, List.length_nil, Nat.zero_add, UInt64.toNat_ofNat_of_lt' (lt_of_le_of_lt hle hlen)]
  refine ⟨c, after.reverse, (before ++ [block]).reverse, hc, ?_, ?_, ?_, htokens ▸ hle⟩
  · rw [hblocks, ← List.reverse_append, List.append_assoc, List.singleton_append]
  · rw [hid, List.append_nil]
  · rw [List.reverse_reverse, hflat, htokens]

/-- Nodes with one identity come from one context and follow the same tokens. -/
theorem CollisionFree.nodeTokens (hc : CollisionFree C key asked hashed)
    {n n' : PrefixNode} (hlen : tokens.length < 2 ^ 64) (hlen' : tokens'.length < 2 ^ 64)
    (hasked : ∀ c, prefixContextRoot C key t m f r = .ok c →
      ∀ q ∈ chainQueries C key c (blocks prefixBlockTokens tokens).reverse, q ∈ asked)
    (hasked' : ∀ c, prefixContextRoot C key t' m' f' r' = .ok c →
      ∀ q ∈ chainQueries C key c (blocks prefixBlockTokens tokens').reverse, q ∈ asked)
    (h : chainPrefixNodes C key t m f r tokens = .ok nodes)
    (h' : chainPrefixNodes C key t' m' f' r' tokens' = .ok nodes') (hn : n ∈ nodes) (hn' : n' ∈ nodes')
    (hid : n.id = n'.id) :
    (∃ c, prefixContextRoot C key t m f r = .ok c ∧ prefixContextRoot C key t' m' f' r' = .ok c) ∧
      tokens.take n.tokenCount.toNat = tokens'.take n'.tokenCount.toNat := by
  obtain ⟨c, after, bs, hctx, hblocks, hnode, htake, -⟩ := mem_chainPrefixNodes hlen h hn
  obtain ⟨c', after', bs', hctx', hblocks', hnode', htake', -⟩ := mem_chainPrefixNodes hlen' h' hn'
  have hsize : ∀ {ts : List UInt32} {xs ys : List (List UInt32)}, (blocks prefixBlockTokens ts).reverse = xs ++ ys →
      ∀ b ∈ ys, b.length ≤ prefixBlockTokens := by
    intro ts xs ys heq b hb
    exact length_mem_blocks (List.mem_reverse.mp (heq ▸ List.mem_append_right xs hb))
  obtain ⟨rfl, rfl⟩ := hc.chainId (hsize hblocks) (hsize hblocks')
    (fun q hmem => hasked c hctx q (hblocks ▸ chainQueries_append_subset hmem))
    (fun q hmem => hasked' c' hctx' q (hblocks' ▸ chainQueries_append_subset hmem))
    (hnode.symm.trans (hid.trans hnode'))
  exact ⟨⟨c, hctx, hctx'⟩, htake.trans htake'.symm⟩

theorem CollisionFree.prefixNode (hc : CollisionFree C key asked hashed)
    {n n' : PrefixNode} (hf : f.DimensionsNonzero) (hf' : f'.DimensionsNonzero)
    (hq : ChainQueried C key asked hashed t m f r tokens) (hq' : ChainQueried C key asked hashed t' m' f' r' tokens')
    (hlen : tokens.length < 2 ^ 64) (hlen' : tokens'.length < 2 ^ 64)
    (h : chainPrefixNodes C key t m f r tokens = .ok nodes)
    (h' : chainPrefixNodes C key t' m' f' r' tokens' = .ok nodes') (hn : n ∈ nodes) (hn' : n' ∈ nodes')
    (hid : n.id = n'.id) :
    (t = t' ∧ m = m' ∧ f = f' ∧ r = r') ∧ tokens.take n.tokenCount.toNat = tokens'.take n'.tokenCount.toNat := by
  obtain ⟨⟨c, hctx, hctx'⟩, htokens⟩ :=
    hc.nodeTokens hlen hlen' hq.asksNodes hq'.asksNodes h h' hn hn' hid
  refine ⟨?_, htokens⟩
  simp only [prefixContextRoot, bind_eq_ok, pure_eq_ok] at hctx hctx'
  obtain ⟨b, hb, hbc⟩ := hctx
  obtain ⟨b', hb', hbc'⟩ := hctx'
  have hbb := hc.hmac (hq.asksContext hb) (hq'.asksContext hb') (hbc.trans hbc'.symm)
  obtain ⟨rfl, hmodel, ⟨id, hid, hid'⟩, rfl⟩ := contextPreimage_inj hb (hbb ▸ hb')
  exact ⟨rfl, hc.semanticModel hq.hashesModel hq'.hashesModel hmodel,
    hc.family hf hf' hq.hashesFamily hq'.hashesFamily hid hid', rfl⟩

theorem CollisionFree.chunk (hc : CollisionFree C key asked hashed)
    {k k' : StateKey} {sp sp' : ChunkSpan} (hf : f.DimensionsNonzero)
    (hf' : f'.DimensionsNonzero) (hqf : Queried hashed (representationFamilyPreimage f))
    (hqf' : Queried hashed (representationFamilyPreimage f')) (hq : Queried asked (chunkPreimage C t f k sp p))
    (hq' : Queried asked (chunkPreimage C t' f' k' sp' p')) (h : chunkId C key t f k sp p = .ok id)
    (h' : chunkId C key t' f' k' sp' p' = .ok id) : t = t' ∧ f = f' ∧ k = k' ∧ sp = sp' ∧ p = p' := by
  simp only [chunkId, bind_eq_ok, pure_eq_ok] at h h'
  obtain ⟨b, hb, rfl⟩ := h
  obtain ⟨b', hb', heq⟩ := h'
  have hbb := hc.hmac (hq hb) (hq' hb') heq.symm
  subst hbb
  obtain ⟨ht, ⟨fid, hfid, hfid'⟩, hrest⟩ := chunkPreimage_inj hb hb'
  exact ⟨ht, hc.family hf hf' hqf hqf' hfid hfid', hrest⟩

theorem CollisionFree.auxiliaryInputRoot (hc : CollisionFree C key asked hashed)
    (hq : Queried asked (auxiliaryInputPreimage t xs))
    (hq' : Queried asked (auxiliaryInputPreimage t' ys)) (h : auxiliaryInputRoot C key t xs = .ok id)
    (h' : auxiliaryInputRoot C key t' ys = .ok id) : t = t' ∧ xs = ys := by
  simp only [Core.auxiliaryInputRoot, bind_eq_ok, pure_eq_ok] at h h'
  obtain ⟨b, hb, rfl⟩ := h
  obtain ⟨b', hb', heq⟩ := h'
  have hbb := hc.hmac (hq hb) (hq' hb') heq.symm
  exact auxiliaryInputPreimage_inj hb (hbb ▸ hb')

end

/-! ## Separate domains -/

inductive PreimageKind where
  | tenantNamespace
  | auxiliaryInputRoot
  | chunkContent
  | prefixContext
  | prefixRoot
  | prefixNode
  | cutChainRoot
  | cutChainStep
  | chunkObject
  | manifestAuth
  deriving DecidableEq

namespace PreimageKind

def label : PreimageKind → String
  | tenantNamespace => "kvpack/v1/namespace"
  | auxiliaryInputRoot => "kvpack/v1/auxiliary-input-root"
  | chunkContent => "kvpack/v1/chunk-content"
  | prefixContext => "kvpack/v1/prefix-context"
  | prefixRoot => "kvpack/v1/prefix-root"
  | prefixNode => "kvpack/v1/prefix-node"
  | cutChainRoot => "kvpack/v1/cut-chain"
  | cutChainStep => "kvpack/v1/cut-chain"
  | chunkObject => "kvpack/v1/chunk-object"
  | manifestAuth => "kvpack/v1/manifest-auth"

theorem zero_not_mem_label (k : PreimageKind) : 0 ∉ utf8 k.label := by
  cases k <;> decide

theorem eq_of_label_eq {k k' : PreimageKind} (h : utf8 k.label = utf8 k'.label) :
    k = k' ∨ (k = .cutChainRoot ∧ k' = .cutChainStep) ∨ (k = .cutChainStep ∧ k' = .cutChainRoot) := by
  revert h
  cases k <;> cases k' <;> decide

end PreimageKind

/-- The strings hashed under a key, by what the hash is for. A cut is never empty. -/
inductive KeyedPreimage (C : Crypto) : PreimageKind → Bytes → Prop
  | tenantNamespace {tenantId b} : namespacePreimage tenantId = .ok b → KeyedPreimage C .tenantNamespace b
  | auxiliaryInputRoot {tenant inputs b} : auxiliaryInputPreimage tenant inputs = .ok b →
      KeyedPreimage C .auxiliaryInputRoot b
  | chunkContent {tenant family stateKey span plaintext b} :
      chunkPreimage C tenant family stateKey span plaintext = .ok b → KeyedPreimage C .chunkContent b
  | prefixContext {tenant semanticModel family root b} :
      contextPreimage C tenant semanticModel family root = .ok b → KeyedPreimage C .prefixContext b
  | prefixRoot {context} : KeyedPreimage C .prefixRoot (rootPreimage context)
  | prefixNode {context parent index block} : KeyedPreimage C .prefixNode (nodePreimage context parent index block)
  | cutChainRoot {nsId} : KeyedPreimage C .cutChainRoot (cutChainRootPreimage nsId)
  | cutChainStep {tip tokenBytes} : tokenBytes ≠ [] →
      KeyedPreimage C .cutChainStep (cutChainStepPreimage tip tokenBytes)
  | chunkObject {identity} : KeyedPreimage C .chunkObject (objectPreimage identity)
  | manifestAuth {header manifest manifestLen keyEpoch fileLen} :
      KeyedPreimage C .manifestAuth (authenticationPreimage header manifest manifestLen keyEpoch fileLen)

namespace KeyedPreimage

variable {C : Crypto} {k k' : PreimageKind} {b : Bytes}

theorem starts_with_label (h : KeyedPreimage C k b) : ∃ rest, b = domain k.label ++ rest := by
  cases h with
  | tenantNamespace h =>
    simp only [namespacePreimage, bind_eq_ok, pure_eq_ok] at h
    obtain ⟨_, -, rfl⟩ := h
    exact ⟨_, List.append_assoc _ _ _⟩
  | auxiliaryInputRoot h =>
    simp only [auxiliaryInputPreimage, bind_eq_ok, pure_eq_ok] at h
    obtain ⟨_, -, _, -, rfl⟩ := h
    exact ⟨_, List.append_assoc _ _ _⟩
  | chunkContent h =>
    simp only [chunkPreimage, bind_eq_ok, pure_eq_ok, List.append_assoc] at h
    obtain ⟨_, -, _, -, _, -, _, -, rfl⟩ := h
    exact ⟨_, rfl⟩
  | prefixContext h =>
    simp only [contextPreimage, bind_eq_ok, pure_eq_ok, List.append_assoc] at h
    obtain ⟨_, -, rfl⟩ := h
    exact ⟨_, rfl⟩
  | prefixRoot => exact ⟨_, rfl⟩
  | prefixNode => exact ⟨_, by simp only [nodePreimage, List.append_assoc]; rfl⟩
  | cutChainRoot => exact ⟨_, rfl⟩
  | cutChainStep => exact ⟨_, List.append_assoc _ _ _⟩
  | chunkObject => exact ⟨_, by simp only [objectPreimage, List.append_assoc]; rfl⟩
  | manifestAuth => exact ⟨_, by simp only [authenticationPreimage, List.append_assoc]; rfl⟩

theorem cutChainRoot_ne_cutChainStep (h : KeyedPreimage C .cutChainRoot b) (h' : KeyedPreimage C .cutChainStep b) :
    False := by
  generalize hb' : b = b' at h'
  cases h with
  | @cutChainRoot nsId =>
    cases h' with
    | @cutChainStep tip tokenBytes hne =>
      have hlen := congrArg List.length hb'
      have hpos := List.length_pos_of_ne_nil hne
      simp only [cutChainRootPreimage, cutChainStepPreimage, List.length_append, nsId.property, tip.property] at hlen
      omega

theorem kind_unique (h : KeyedPreimage C k b) (h' : KeyedPreimage C k' b) : k = k' := by
  obtain ⟨rest, hrest⟩ := h.starts_with_label
  obtain ⟨rest', hrest'⟩ := h'.starts_with_label
  have heq := hrest.symm.trans hrest'
  simp only [domain, List.append_assoc, List.cons_append, List.nil_append] at heq
  rw [append_terminated_inj k.zero_not_mem_label k'.zero_not_mem_label] at heq
  obtain rfl | ⟨rfl, rfl⟩ | ⟨rfl, rfl⟩ := PreimageKind.eq_of_label_eq heq.1
  · rfl
  · exact (cutChainRoot_ne_cutChainStep h h').elim
  · exact (cutChainRoot_ne_cutChainStep h' h).elim

end KeyedPreimage

end Kvpack.Core
