import Kvpack.Core.Lemmas.Ids

/-!
# Prefix chains of two token lists

A node depends on the blocks up to its own only, so two chains in one context agree as long as their blocks do; the
last node of a chain counts all its tokens.
-/

namespace Kvpack.Core

open Base

variable {C : Crypto} {key context : Id32}
variable {parent : Id32} {index k : Nat} {bs : List (List UInt32)}

theorem length_chainNodes :
    (chainNodes C key context parent index bs).length = bs.length := by
  induction bs generalizing parent index with
  | nil => rfl
  | cons b bs ih => rw [chainNodes, List.length_cons, List.length_cons, ih]

/-- The node at an index counts the tokens up to its block's end, and is reusable when the block is full. -/
theorem getElem?_chainNodes {block : List UInt32}
    (h : bs[k]? = some block) :
    ∃ id, (chainNodes C key context parent index bs)[k]? = some
      { tokenCount := UInt64.ofNat ((index + k) * prefixBlockTokens + block.length), id,
        reusable := block.length == prefixBlockTokens } := by
  induction bs generalizing parent index k with
  | nil => simp at h
  | cons b bs ih =>
    rw [chainNodes]
    cases k with
    | zero =>
      cases h
      exact ⟨_, rfl⟩
    | succ k =>
      rw [← Nat.add_assoc, Nat.add_right_comm]
      exact ih h

theorem take_chainNodes {parent : Id32} {index k : Nat} {bs bs' : List (List UInt32)} (h : bs.take k = bs'.take k) :
    (chainNodes C key context parent index bs).take k = (chainNodes C key context parent index bs').take k := by
  induction k generalizing parent index bs bs' with
  | zero => rfl
  | succ k ih =>
    cases bs with
    | nil =>
      cases bs' with
      | nil => rfl
      | cons b' bs' => simp at h
    | cons b bs =>
      cases bs' with
      | nil => simp at h
      | cons b' bs' =>
        rw [List.take_succ_cons, List.take_succ_cons, List.cons.injEq] at h
        obtain ⟨rfl, hrest⟩ := h
        rw [chainNodes, chainNodes, List.take_succ_cons, List.take_succ_cons, ih hrest]

theorem take_blocks_of_common {n : Nat} (hn : 0 < n) {l l' : List UInt32} (h : k * n ≤ commonLength l l') :
    (blocks n l).take k = (blocks n l').take k := by
  obtain ⟨htake, hlen, hlen'⟩ := le_commonLength_iff.mp h
  refine List.ext_getElem? fun i => ?_
  rcases Nat.lt_or_ge i k with hi | hi
  · have hle : (i + 1) * n ≤ k * n := Nat.mul_le_mul_right n hi
    have hblock : ∀ l : List UInt32, (l.drop (i * n)).take n = ((l.take (k * n)).drop (i * n)).take n := by
      intro l
      rw [List.drop_take, List.take_take, min_eq_left]
      rw [Nat.succ_mul] at hle
      omega
    rw [List.getElem?_take_of_lt hi, List.getElem?_take_of_lt hi, getElem?_blocks hn (hle.trans hlen),
      getElem?_blocks hn (hle.trans hlen'), hblock l, hblock l', htake]
  · rw [List.getElem?_take_eq_none hi, List.getElem?_take_eq_none hi]

section Cut

variable {tenant : Id32} {model : SemanticModelId} {family : RepresentationFamilyId} {inputs : List AuxiliaryInputId}
  {tokens : List UInt32} {cut : InputCutId} {nodes : List PrefixNode}

/-- The keyed hashes on the chain of a token list. -/
def prefixQueries (C : Crypto) (key tenant : Id32) (model : SemanticModelId) (family : RepresentationFamilyId)
    (inputs : List AuxiliaryInputId) (tokens : List UInt32) : Except PackError (List Bytes) := do
  let root ← auxiliaryInputRoot C key tenant inputs
  let context ← prefixContextRoot C key tenant model family root
  return chainQueries C key context (blocks prefixBlockTokens tokens).reverse

theorem deriveInputCut_eq_ok (h : deriveInputCut C key tenant model family tokens inputs = .ok (cut, nodes)) :
    ∃ root, auxiliaryInputRoot C key tenant inputs = .ok root ∧
      chainPrefixNodes C key tenant model family root tokens = .ok nodes ∧
      cut.tokenCount = UInt64.ofNat tokens.length ∧ ∀ n, nodes.getLast? = some n → cut.tokenRoot = n.id := by
  simp only [deriveInputCut, bind_eq_ok] at h
  obtain ⟨root, hroot, nodes', hnodes, h⟩ := h
  cases hlast : nodes'.getLast? with
  | some node =>
    simp only [hlast, bind_eq_ok, pure_eq_ok, Prod.mk.injEq] at h
    obtain ⟨tokenRoot, rfl, rfl, rfl⟩ := h
    refine ⟨root, hroot, hnodes, rfl, fun n hn => ?_⟩
    rw [hlast, Option.some_inj] at hn
    exact congrArg PrefixNode.id hn
  | none =>
    simp only [hlast, bind_eq_ok, pure_eq_ok, Prod.mk.injEq] at h
    obtain ⟨context, -, tokenRoot, -, rfl, rfl⟩ := h
    refine ⟨root, hroot, hnodes, rfl, fun n hn => ?_⟩
    rw [hlast] at hn
    cases hn

theorem tokenCount_getLast {root : Id32} (h : chainPrefixNodes C key tenant model family root tokens = .ok nodes)
    {n : PrefixNode} (hn : nodes.getLast? = some n) : n.tokenCount = UInt64.ofNat tokens.length := by
  simp only [chainPrefixNodes, bind_eq_ok, pure_eq_ok] at h
  obtain ⟨context, -, rfl⟩ := h
  have hpos : 0 < prefixBlockTokens := by decide
  rcases List.eq_nil_or_concat (blocks prefixBlockTokens tokens) with hnil | ⟨before, block, hblocks⟩
  · rw [hnil, chainNodes] at hn
    cases hn
  · rw [List.concat_eq_append] at hblocks
    have hflat := flatten_blocks hpos tokens
    obtain ⟨hwhole, hle⟩ := flatten_of_blocks_eq hpos hblocks
    have hall : before.length * prefixBlockTokens + block.length = tokens.length := by
      have hlength := congrArg List.length hwhole
      rw [← hblocks, hflat, List.length_take, min_eq_left hle] at hlength
      exact hlength.symm
    have hget : (blocks prefixBlockTokens tokens)[before.length]? = some block := by simp [hblocks]
    obtain ⟨id, hnode⟩ := @getElem?_chainNodes C key context (C.hmac key (rootPreimage context)) 0 _ _ _ hget
    rw [List.getLast?_eq_getElem?, length_chainNodes, hblocks, List.length_append, List.length_singleton,
      Nat.add_sub_cancel, ← hblocks, hnode, Option.some_inj] at hn
    rw [← hn, Nat.zero_add, hall]

/-- Where the common part of two token lists ends a block, both chains have the same reusable node. -/
theorem common_node {root : Id32} {a b : List UInt32} {nodes' : List PrefixNode} (ha : a.length < 2 ^ 64)
    (h : chainPrefixNodes C key tenant model family root a = .ok nodes)
    (h' : chainPrefixNodes C key tenant model family root b = .ok nodes') {k : Nat}
    (hk : (k + 1) * prefixBlockTokens ≤ commonLength a b) :
    ∃ node, nodes[k]? = some node ∧ nodes'[k]? = some node ∧ node.reusable = true ∧
      node.tokenCount.toNat = (k + 1) * prefixBlockTokens := by
  simp only [chainPrefixNodes, bind_eq_ok, pure_eq_ok] at h h'
  obtain ⟨context, hcontext, rfl⟩ := h
  obtain ⟨context', hcontext', rfl⟩ := h'
  obtain rfl := Except.ok.inj (hcontext.symm.trans hcontext')
  have hpos : 0 < prefixBlockTokens := by decide
  obtain ⟨-, hlen, -⟩ := le_commonLength_iff.mp hk
  have hblock := getElem?_blocks hpos hlen
  have hfull : ((a.drop (k * prefixBlockTokens)).take prefixBlockTokens).length = prefixBlockTokens := by
    rw [List.length_take, List.length_drop]
    rw [Nat.succ_mul] at hlen
    omega
  obtain ⟨id, hnode⟩ := @getElem?_chainNodes C key context (C.hmac key (rootPreimage context)) 0 _ _ _ hblock
  have hsame := @take_chainNodes C key context (C.hmac key (rootPreimage context)) 0 _ _ _
    (take_blocks_of_common hpos hk)
  have hget : ∀ bs : List (List UInt32), (chainNodes C key context (C.hmac key (rootPreimage context)) 0 bs)[k]? =
      ((chainNodes C key context (C.hmac key (rootPreimage context)) 0 bs).take (k + 1))[k]? :=
    fun bs => (List.getElem?_take_of_lt (Nat.lt_succ_self k)).symm
  refine ⟨_, hnode, ?_, ?_, ?_⟩
  · rw [hget, ← hsame, ← hget, hnode]
  · simp [hfull]
  · simp only [hfull, Nat.zero_add]
    rw [Nat.succ_mul] at hlen ⊢
    exact UInt64.toNat_ofNat_of_lt' (lt_of_le_of_lt hlen ha)

end Cut

end Kvpack.Core
