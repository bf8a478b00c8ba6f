import Kvpack.Core.Lemmas.CutChain
import Kvpack.Core.Lemmas.PrefixChain
import Kvpack.Core.Theorems

/-!
# Results on frames, dependencies and chains

What the codec, the dependency check and the two hash chains compute, each for every input.
-/

namespace Kvpack.Core

open Base

/-! ## Codec frames -/

/-- Every plaintext that fits has a frame that reads back, and only frames are accepted. -/
theorem codecFrames_canonical (codec : Codec) :
    (∀ plaintext, 1 ≤ plaintext.length → plaintext.length ≤ maxChunkPlaintext →
      ∃ encoded, encodeCodecFrame codec plaintext = .ok encoded ∧
        decodeCodecFrame codec encoded plaintext.length = .ok plaintext) ∧
    ∀ encoded expected, (∃ decoded, decodeCodecFrame codec encoded expected = .ok decoded) ↔
      ∃ plaintext, plaintext.length = expected ∧ encodeCodecFrame codec plaintext = .ok encoded := by
  constructor
  · intro plaintext hpos hle
    have hne : plaintext ≠ [] := List.length_pos_iff.mp hpos
    obtain ⟨encoded, hencoded⟩ : ∃ encoded, encodeCodecFrame codec plaintext = .ok encoded :=
      exists_encodeCodecFrame hne hle
    exact ⟨encoded, hencoded, decodeCodecFrame_encodeCodecFrame hencoded⟩
  · intro encoded expected
    exact exists_congr fun plaintext => decodeCodecFrame_eq_ok

theorem codecFrames_ofRun :
    ∃ encoded, encodeCodecFrame .lossless [7, 7, 7, 7, 1, 2] = .ok encoded ∧
      decodeCodecFrame .lossless encoded 6 = .ok [7, 7, 7, 7, 1, 2] :=
  (codecFrames_canonical .lossless).1 [7, 7, 7, 7, 1, 2] (by decide) (by decide)

/-! ## Dependencies -/

theorem validateDependencies_exact {states : List FamilyState} (hkeys : (states.map (·.key)).Nodup) :
    validateDependencies states = .ok () ↔
      (∀ s ∈ states, ∀ d ∈ s.dependencies, d ≠ s.key ∧ ∃ t ∈ states, t.key = d) ∧
      (∀ s ∈ states, s.dependencies.Pairwise (· < ·)) ∧
      ∀ k, ¬ Relation.TransGen (DependsOn states) k k := by
  rw [validateDependencies_eq_ok hkeys]
  simp only [List.mem_map]
  constructor
  · rintro ⟨hall, hacyclic⟩
    exact ⟨fun s hs => (hall s hs).1, fun s hs => (hall s hs).2, hacyclic⟩
  · rintro ⟨hnamed, hsorted, hacyclic⟩
    exact ⟨fun s hs => ⟨hnamed s hs, hsorted s hs⟩, hacyclic⟩

/-- The check passes states in layers, and refuses two states that need each other. -/
theorem validateDependencies_ofLayers :
    (∀ k, ¬ Relation.TransGen (DependsOn (stackedStates 3)) k k) ∧
      validateDependencies [byteState ⟨0, "k"⟩ [⟨1, "k"⟩], byteState ⟨1, "k"⟩ [⟨0, "k"⟩]] ≠ .ok () := by
  refine ⟨((validateDependencies_exact (by decide)).mp (by decide)).2.2, fun hok => ?_⟩
  obtain ⟨-, -, hacyclic⟩ := (validateDependencies_exact (by decide)).mp hok
  have hthere : DependsOn [byteState ⟨0, "k"⟩ [⟨1, "k"⟩], byteState ⟨1, "k"⟩ [⟨0, "k"⟩]] ⟨0, "k"⟩ ⟨1, "k"⟩ :=
    ⟨_, List.mem_cons_self, rfl, List.mem_cons_self⟩
  have hback : DependsOn [byteState ⟨0, "k"⟩ [⟨1, "k"⟩], byteState ⟨1, "k"⟩ [⟨0, "k"⟩]] ⟨1, "k"⟩ ⟨0, "k"⟩ :=
    ⟨_, List.mem_cons_of_mem _ List.mem_cons_self, rfl, List.mem_cons_self⟩
  exact hacyclic ⟨0, "k"⟩ ((Relation.TransGen.single hthere).tail hback)

/-! ## Cut chains -/

/-- However the tokens are split, a call succeeds exactly when the tokens so far need no more than 512 cuts, a failure
lasts, and successful calls emit what one call with all the tokens emits. -/
theorem cutChain_splitInvariant {C : Crypto} {storeKey nsId : Id32} {policy : CutStridePolicy} {d : CutChainDeriver}
    (h : CutChainDeriver.new C storeKey nsId policy = .ok d) (pieces : List (List UInt32)) :
    (∀ k, k < pieces.length →
      ((∃ ids, (d.pushAll C pieces)[k]? = some (.ok ids)) ↔
        policy.cutCount (pieces.take (k + 1)).flatten.length ≤ maxCutChainCuts)) ∧
    (∀ i j, i ≤ j → j < pieces.length → (∀ ids, (d.pushAll C pieces)[i]? ≠ some (.ok ids)) →
      ∀ ids, (d.pushAll C pieces)[j]? ≠ some (.ok ids)) ∧
    ((∃ ids, (d.pushTokens C pieces.flatten).2 = .ok ids) ↔
      policy.cutCount pieces.flatten.length ≤ maxCutChainCuts) ∧
    (policy.cutCount pieces.flatten.length ≤ maxCutChainCuts →
      ∃ parts : List (List Id32), d.pushAll C pieces = parts.map .ok ∧
        (d.pushTokens C pieces.flatten).2 = .ok parts.flatten ∧
        parts.flatten.length = policy.cutCount pieces.flatten.length) := by
  obtain ⟨hstanding, hempty, rfl, hcuts⟩ := CutChainDeriver.Standing.of_new h
  have hcall : ∀ (pieces : List (List UInt32)) (k : Nat), k < pieces.length →
      ((∃ ids, (d.pushAll C pieces)[k]? = some (.ok ids)) ↔
        d.policy.cutCount (pieces.take (k + 1)).flatten.length ≤ maxCutChainCuts) := by
    intro pieces k hk
    have hiff := hstanding.pushAll_ok_iff (C := C) hk
    rwa [Nat.zero_add] at hiff
  refine ⟨hcall pieces, ?_, ?_, fun hle => ?_⟩
  · intro i j hij hj hfail ids hids
    have hlast := (hcall pieces j hj).mp ⟨ids, hids⟩
    have hlen : (pieces.take (i + 1)).flatten.length ≤ (pieces.take (j + 1)).flatten.length :=
      ((List.take_sublist_take_left (by omega)).flatten).length_le
    obtain ⟨ids', hids'⟩ :=
      (hcall pieces i (by omega)).mpr ((CutStridePolicy.cutCount_mono hlen).trans hlast)
    exact hfail ids' hids'
  · have hone := hcall [pieces.flatten] 0 (by simp)
    simpa [CutChainDeriver.pushAll] using hone
  · obtain ⟨parts, hparts, hsingle, hlength⟩ :=
      hstanding.pushAll_eq (C := C) (hstanding.settled_of_empty hempty) (by rwa [Nat.zero_add])
    rw [hcuts, Nat.add_zero, Nat.zero_add] at hlength
    exact ⟨parts, hparts, hsingle, hlength⟩

theorem cutChain_ofPairs :
    ∃ d, CutChainDeriver.new checksumCrypto (repeatedId 1) (repeatedId 2) (.flat 2) = .ok d ∧
      ∃ parts : List (List Id32), d.pushAll checksumCrypto [[1], [2, 3], [4]] = parts.map .ok ∧
        (d.pushTokens checksumCrypto [1, 2, 3, 4]).2 = .ok parts.flatten ∧ parts.flatten.length = 2 :=
  ⟨_, rfl, (@cutChain_splitInvariant checksumCrypto (repeatedId 1) (repeatedId 2) (.flat 2) _ rfl
    [[1], [2, 3], [4]]).2.2.2 (by decide)⟩

/-! ## Prefix chains -/

/-- Two chains have the same nodes at the full blocks of their common part and, while no two hashes on them collide,
none past it; the last node is the root and the length of its cut. -/
theorem prefixChain_monotone {C : Crypto} {key tenant : Id32} {model : SemanticModelId}
    {family : RepresentationFamilyId} {inputs : List AuxiliaryInputId} {a b : List UInt32} {cut cut' : InputCutId}
    {nodes nodes' : List PrefixNode} (ha : a.length < 2 ^ 64) (hb : b.length < 2 ^ 64)
    (h : deriveInputCut C key tenant model family a inputs = .ok (cut, nodes))
    (h' : deriveInputCut C key tenant model family b inputs = .ok (cut', nodes')) :
    (∀ k, (k + 1) * prefixBlockTokens ≤ commonLength a b →
      ∃ node, nodes[k]? = some node ∧ nodes'[k]? = some node ∧ node.reusable = true ∧
        node.tokenCount.toNat = (k + 1) * prefixBlockTokens) ∧
    (∀ queries queries', prefixQueries C key tenant model family inputs a = .ok queries →
      prefixQueries C key tenant model family inputs b = .ok queries' →
      Set.InjOn (C.hmac key) {q | q ∈ queries ++ queries'} → ∀ n ∈ nodes, ∀ n' ∈ nodes',
      commonLength a b < n.tokenCount.toNat ∨ commonLength a b < n'.tokenCount.toNat → n.id ≠ n'.id) ∧
    (∀ n, nodes.getLast? = some n → n.id = cut.tokenRoot ∧ n.tokenCount = cut.tokenCount) := by
  obtain ⟨root, hroot, hnodes, hcount, hlast⟩ := deriveInputCut_eq_ok h
  obtain ⟨root', hroot', hnodes', -, -⟩ := deriveInputCut_eq_ok h'
  obtain rfl := Except.ok.inj (hroot.symm.trans hroot')
  refine ⟨fun k hk => ?_, fun queries queries' hq hq' hinj n hn n' hn' hbeyond hid => ?_, fun n hn => ?_⟩
  · exact common_node ha hnodes hnodes' hk
  · have hasked : ∀ {tokens : List UInt32} {qs : List Bytes},
        prefixQueries C key tenant model family inputs tokens = .ok qs → (∀ q ∈ qs, q ∈ queries ++ queries') →
        ∀ c, prefixContextRoot C key tenant model family root = .ok c →
          ∀ q ∈ chainQueries C key c (blocks prefixBlockTokens tokens).reverse, q ∈ {q | q ∈ queries ++ queries'} := by
      intro tokens qs hqs hsub c hc q hmem
      simp only [prefixQueries, hroot, hc, ok_bind, pure_eq_ok] at hqs
      exact hsub q (hqs ▸ hmem)
    have hfree : CollisionFree C key {q | q ∈ queries ++ queries'} ∅ := ⟨hinj, Set.injOn_empty _⟩
    obtain ⟨-, htokens⟩ := hfree.nodeTokens ha hb (hasked hq fun q hmem => List.mem_append_left _ hmem)
      (hasked hq' fun q hmem => List.mem_append_right _ hmem) hnodes hnodes' hn hn' hid
    obtain ⟨-, -, -, -, -, -, -, hle⟩ := mem_chainPrefixNodes ha hnodes hn
    obtain ⟨-, -, -, -, -, -, -, hle'⟩ := mem_chainPrefixNodes hb hnodes' hn'
    have heq : n.tokenCount.toNat = n'.tokenCount.toNat := by
      have hlength := congrArg List.length htokens
      rwa [List.length_take_of_le hle, List.length_take_of_le hle'] at hlength
    rw [← heq] at htokens hle' hbeyond
    have hcommon := le_commonLength_iff.mpr ⟨htokens, hle, hle'⟩
    omega
  · rw [hcount, tokenCount_getLast hnodes hn, hlast n hn]
    exact ⟨rfl, rfl⟩

/-! Two lists that share a full block, as an instance. -/

def oneMore (token : UInt32) : List UInt32 := List.replicate 256 0 ++ [token]

def byteModel : SemanticModelId := ⟨repeatedId 1, repeatedId 2, repeatedId 3, repeatedId 4, repeatedId 6⟩

def byteChain (tokens : List UInt32) : Except PackError (InputCutId × List PrefixNode) :=
  deriveInputCut checksumCrypto (repeatedId 5) (repeatedId 9) byteModel (byteFamily [byteState ⟨0, "k"⟩ []]) tokens []

def byteChainQueries (tokens : List UInt32) : Except PackError (List Bytes) :=
  prefixQueries checksumCrypto (repeatedId 5) (repeatedId 9) byteModel (byteFamily [byteState ⟨0, "k"⟩ []]) [] tokens

/-- The two chains, evaluated: they differ in the query for their last node. -/
theorem byteChain_oneMore :
    (byteChain (oneMore 1)).isOk ∧ (byteChain (oneMore 2)).isOk ∧ commonLength (oneMore 1) (oneMore 2) = 256 ∧
    ∃ x y shared, byteChainQueries (oneMore 1) = .ok (x :: shared) ∧ byteChainQueries (oneMore 2) = .ok (y :: shared) ∧
      ((x :: y :: shared).map (checksumCrypto.hmac (repeatedId 5))).Nodup := by
  have heval : (byteChain (oneMore 1)).isOk ∧ (byteChain (oneMore 2)).isOk ∧
      commonLength (oneMore 1) (oneMore 2) = 256 ∧
      byteChainQueries (oneMore 1) =
        .ok (chainQueries checksumCrypto (repeatedId 5) (repeatedId 41) [[1], List.replicate 256 0]) ∧
      byteChainQueries (oneMore 2) =
        .ok (chainQueries checksumCrypto (repeatedId 5) (repeatedId 41) [[2], List.replicate 256 0]) ∧
      (([1, 2].map (fun t => nodePreimage (repeatedId 41)
          (chainId checksumCrypto (repeatedId 5) (repeatedId 41) [List.replicate 256 0]) 1 [t]) ++
        chainQueries checksumCrypto (repeatedId 5) (repeatedId 41) [List.replicate 256 0]).map
          (checksumCrypto.hmac (repeatedId 5))).Nodup := by
    decide +kernel
  obtain ⟨hok, hok', hcommon, hqueries, hqueries', hnodup⟩ := heval
  exact ⟨hok, hok', hcommon, _, _, _, hqueries, hqueries', hnodup⟩

theorem prefixChain_ofBlock :
    ∃ cut nodes cut' nodes', byteChain (oneMore 1) = .ok (cut, nodes) ∧ byteChain (oneMore 2) = .ok (cut', nodes') ∧
      (∃ node, nodes[0]? = some node ∧ nodes'[0]? = some node ∧ node.reusable = true) ∧
      ∀ n ∈ nodes, 256 < n.tokenCount.toNat → ∀ n' ∈ nodes', n.id ≠ n'.id := by
  obtain ⟨hok, hok', hcommon, x, y, shared, hq, hq', hnodup⟩ := byteChain_oneMore
  obtain ⟨⟨cut, nodes⟩, h⟩ := exists_ok_of_isOk hok
  obtain ⟨⟨cut', nodes'⟩, h'⟩ := exists_ok_of_isOk hok'
  have hinj : Set.InjOn (checksumCrypto.hmac (repeatedId 5)) {q | q ∈ (x :: shared) ++ (y :: shared)} := by
    have hmem : ∀ q ∈ (x :: shared) ++ (y :: shared), q ∈ x :: y :: shared := by
      clear hok hok' hcommon h h' hq hq' hnodup
      intro q hmem
      rcases List.mem_append.mp hmem with hmem | hmem <;> rcases List.mem_cons.mp hmem with rfl | hmem <;> simp [*]
    exact fun p hp q hq => List.inj_on_of_nodup_map hnodup (hmem p hp) (hmem q hq)
  have hlength : ∀ t, (oneMore t).length < 2 ^ 64 := by
    intro t
    rw [oneMore, List.length_append, List.length_replicate, List.length_singleton]
    decide
  obtain ⟨hagree, hdiffer, -⟩ := prefixChain_monotone (hlength 1) (hlength 2) h h'
  replace hdiffer := hdiffer _ _ hq hq' hinj
  rw [hcommon] at hagree hdiffer
  obtain ⟨node, hnode, hnode', hreusable, -⟩ := hagree 0 (by decide)
  exact ⟨cut, nodes, cut', nodes', h, h', ⟨node, hnode, hnode', hreusable⟩,
    fun n hn hlt n' hn' => hdiffer n hn n' hn' (Or.inl hlt)⟩

end Kvpack.Core
