import Kvpack.Store.Fill

/-!
# One fetch per key

A held entry is the one the map names for its key, and has at most one leader; what a caller returns was fetched for
its key. Only when a leader reads its own cancellation can a caller that was not cancelled fail without a fetch.
-/

namespace Kvpack.Store

open Base Kvpack.Core

variable {n : Nat} {objectKey : Fin n → Id32} {s : SingleflightFill n}

/-! ## Entries and leaders -/

/-- What the callers that wait for the entry get. -/
def FillState.result : FillState → Option FillResult
  | .running => none
  | .ready bytes => some (.ok bytes)
  | .failed => some (.error (.state "singleflight upstream fill failed"))

/-- Bytes come from a fetch of the key; an error without cancellation from a failed one, if no leader has `stopped`.
-/
def Justified (stopped : Prop) (fetches : List (Id32 × FillResult)) (key : Id32) (cancelled : Bool) : FillResult → Prop
  | .ok bytes => (key, .ok bytes) ∈ fetches
  | .error _ => ¬ stopped → cancelled = false → ∃ error, (key, .error error) ∈ fetches

def FillPhase.Justified (stopped : Prop) (fetches : List (Id32 × FillResult)) (key : Id32) (cancelled : Bool) :
    FillPhase → Prop
  | .stopping _ => stopped
  | .fetched _ result => (key, result) ∈ fetches
  | .settled _ result | .returned result => Store.Justified stopped fetches key cancelled result
  | .idle | .leading _ | .fetching _ | .waiting _ => True

structure Flying (stopped : Prop) (objectKey : Fin n → Id32) (s : SingleflightFill n) : Prop where
  named : ∀ key entry, s.entries key = some entry → entry < s.next ∧ (s.heap entry).objectKey = key
  held : ∀ i entry, (s.phase i).holds = some entry → s.entries (objectKey i) = some entry
  led : ∀ i j entry, (s.phase i).leads = some entry → (s.phase j).leads = some entry → i = j
  entry : ∀ e < s.next, ∀ result, (s.heap e).state.result = some result →
    Justified stopped s.fetches (s.heap e).objectKey false result
  caller : ∀ i, (s.phase i).Justified stopped s.fetches (objectKey i) (s.cancelled i)

section Frames

variable {stopped : Prop} {fetches : List (Id32 × FillResult)} {key : Id32} {cancelled : Bool} {result : FillResult}
  {i : Fin n} {p : FillPhase} {entry : Nat}
variable {fetches' : List (Id32 × FillResult)} {cancelled' : Bool}

theorem Justified.mono (hfetches : fetches ⊆ fetches')
    (hcancelled : cancelled' = false → cancelled = false) (h : Justified stopped fetches key cancelled result) :
    Justified stopped fetches' key cancelled' result := by
  cases result with
  | ok bytes => exact hfetches h
  | error error => exact fun hs hc => (h hs (hcancelled hc)).imp fun _ he => hfetches he

theorem FillPhase.Justified.mono
    (hfetches : fetches ⊆ fetches') (hcancelled : cancelled' = false → cancelled = false)
    (h : p.Justified stopped fetches key cancelled) : p.Justified stopped fetches' key cancelled' := by
  cases p with
  | fetched entry result => exact hfetches h
  | settled _ _ | returned _ => exact Store.Justified.mono hfetches hcancelled h
  | _ => exact h

theorem holds_of_leads (h : p.leads = some entry) : p.holds = some entry := by
  cases p <;> first | exact h | cases h

theorem Flying.initial : Flying stopped objectKey SingleflightFill.initial where
  named _ _ h := nomatch h
  held _ _ h := nomatch h
  led _ _ _ h := nomatch h
  entry _ h := nomatch h
  caller _ := trivial

theorem Flying.move (h : Flying stopped objectKey s) (hheld : ∀ e, p.holds = some e → s.entries (objectKey i) = some e)
    (hled : ∀ e, p.leads = some e → (s.phase i).leads = some e)
    (hp : p.Justified stopped s.fetches (objectKey i) (s.cancelled i)) : Flying stopped objectKey (s.move i p) := by
  have hleads : ∀ j, ∀ e, ((s.move i p).phase j).leads = some e → (s.phase j).leads = some e :=
    (Function.forall_update_iff s.phase fun j q => ∀ e, q.leads = some e → (s.phase j).leads = some e).mpr
      ⟨hled, fun _ _ _ h => h⟩
  exact {
    named := h.named
    held := (Function.forall_update_iff s.phase fun j q => ∀ e, q.holds = some e → s.entries (objectKey j) = some e).mpr
      ⟨hheld, fun j _ => h.held j⟩
    led := fun j k e hj hk => h.led j k e (hleads j e hj) (hleads k e hk)
    entry := h.entry
    caller := (Function.forall_update_iff s.phase fun j q =>
      q.Justified stopped s.fetches (objectKey j) (s.cancelled j)).mpr ⟨hp, fun j _ => h.caller j⟩ }

theorem Flying.proceed {q : FillPhase} (h : Flying stopped objectKey s) (hi : s.phase i = q)
    (hheld : ∀ e, p.holds = some e → q.holds = some e) (hled : ∀ e, p.leads = some e → q.leads = some e)
    (hp : p.Justified stopped s.fetches (objectKey i) (s.cancelled i)) : Flying stopped objectKey (s.move i p) := by
  subst hi
  exact h.move (fun e he => h.held i e (hheld e he)) hled hp

theorem Flying.record (h : Flying stopped objectKey s) (key : Id32) (result : FillResult) :
    Flying stopped objectKey (s.record key result) where
  named := h.named
  held := h.held
  led := h.led
  entry e he r hr := (h.entry e he r hr).mono (List.subset_cons_self _ _) id
  caller j := (h.caller j).mono (List.subset_cons_self _ _) id

theorem Flying.setState {state : FillState} (h : Flying stopped objectKey s)
    (hstate : ∀ r, state.result = some r → Justified stopped s.fetches (s.heap entry).objectKey false r) :
    Flying stopped objectKey (s.setState entry state) := by
  have hheap : ∀ e, ((s.setState entry state).heap e).objectKey = (s.heap e).objectKey ∧
      (((s.setState entry state).heap e).state = (s.heap e).state ∨
        e = entry ∧ ((s.setState entry state).heap e).state = state) := by
    intro e
    unfold SingleflightFill.setState
    by_cases he : e = entry
    · subst he
      simp
    · simp [Function.update_of_ne he]
  refine ⟨?_, h.held, h.led, ?_, h.caller⟩
  · intro key e he
    rw [(hheap e).1]
    exact h.named key e he
  · intro e he r hr
    rw [(hheap e).1]
    rcases (hheap e).2 with hsame | ⟨rfl, hset⟩
    · rw [hsame] at hr
      exact h.entry e he r hr
    · rw [hset] at hr
      exact hstate r hr

/-- The entry that is replaced in the map is held by nobody. -/
theorem Flying.elect (h : Flying stopped objectKey s) (hupgrade : s.upgrade (objectKey i) = none) :
    Flying stopped objectKey (s.elect i (objectKey i)) := by
  have hfree : ∀ j e, (s.phase j).holds = some e → objectKey j ≠ objectKey i := by
    intro j e hj hkey
    have hnamed := h.held j e hj
    simp only [SingleflightFill.upgrade, ← hkey, hnamed, Option.filter_some, decide_eq_true_eq] at hupgrade
    split at hupgrade
    · cases hupgrade
    · rename_i hnone
      exact hnone ⟨j, hj⟩
  have hfresh : ∀ j e, (s.phase j).leads = some e → e ≠ s.next := fun j e hj =>
    (h.named _ e (h.held j e (holds_of_leads hj))).1.ne
  have hentries : ∀ j e, (s.phase j).holds = some e → (s.elect i (objectKey i)).entries (objectKey j) = some e := by
    intro j e hj
    rw [← h.held j e hj]
    exact Function.update_of_ne (hfree j e hj) _ _
  have hphase : ∀ j, (s.elect i (objectKey i)).phase j = s.phase j ∨
      j = i ∧ (s.elect i (objectKey i)).phase j = .leading s.next :=
    (Function.forall_update_iff s.phase fun j q => q = s.phase j ∨ j = i ∧ q = .leading s.next).mpr
      ⟨Or.inr ⟨rfl, rfl⟩, fun _ _ => Or.inl rfl⟩
  refine ⟨?_, ?_, ?_, ?_, ?_⟩
  · intro key e he
    unfold SingleflightFill.elect at he ⊢
    by_cases hkey : key = objectKey i
    · subst hkey
      simp only [Function.update_self, Option.some.injEq] at he
      subst he
      simp
    · simp only [Function.update_of_ne hkey] at he
      obtain ⟨hlt, hk⟩ := h.named key e he
      simp only [Function.update_of_ne hlt.ne]
      exact ⟨Nat.lt_succ_of_lt hlt, hk⟩
  · intro j e he
    rcases hphase j with hj | ⟨rfl, hj⟩
    · rw [hj] at he
      exact hentries j e he
    · rw [hj] at he
      cases he
      exact Function.update_self ..
  · intro j k e hj hk
    rcases hphase j with hj' | ⟨rfl, hj'⟩ <;> rcases hphase k with hk' | ⟨rfl, hk'⟩ <;> rw [hj'] at hj <;>
      rw [hk'] at hk
    · exact h.led j k e hj hk
    · cases hk
      exact absurd rfl (hfresh j _ hj)
    · cases hj
      exact absurd rfl (hfresh k _ hk)
  · intro e he r hr
    unfold SingleflightFill.elect at he hr ⊢
    rcases Nat.lt_succ_iff_lt_or_eq.mp he with hlt | rfl
    · simp only [Function.update_of_ne hlt.ne] at hr ⊢
      exact h.entry e hlt r hr
    · simp only [Function.update_self] at hr
      cases hr
  · intro j
    rcases hphase j with hj | ⟨-, hj⟩
    · rw [hj]
      exact h.caller j
    · rw [hj]
      trivial

end Frames

/-! ## Runs -/

/-- No leader is at its check with its cancellation set. -/
def Unstopped (s : SingleflightFill n) : FillEvent n → Prop
  | .readCancellation i => ∀ entry, s.phase i = .leading entry → s.cancelled i = false
  | _ => True

theorem Flying.step {stopped : Prop} {e : FillEvent n} (h : Flying stopped objectKey s)
    (hok : ¬ stopped → Unstopped s e) : Flying stopped objectKey (fillStep objectKey s e) := by
  have hkey : ∀ {i p}, s.phase i = p → ∀ entry, p.holds = some entry → (s.heap entry).objectKey = objectKey i :=
    fun hi entry hentry => (h.named _ entry (h.held _ entry (by rw [hi]; exact hentry))).2
  have hcaller : ∀ {i p}, s.phase i = p → p.Justified stopped s.fetches (objectKey i) (s.cancelled i) :=
    fun hi => hi ▸ h.caller _
  have hjoined : ∀ {i p}, s.phase i = p → ∀ entry, p.holds = some entry →
      ∀ result, (s.heap entry).state.result = some result → Justified stopped s.fetches (objectKey i) false result := by
    intro i p hi entry hentry result hresult
    rw [← hkey hi entry hentry]
    exact h.entry entry (h.named _ entry (h.held i entry (by rw [hi]; exact hentry))).1 result hresult
  cases e with
  | cancel i =>
    refine ⟨h.named, h.held, h.led, h.entry, fun j => (h.caller j).mono (List.Subset.refl _) fun hc => ?_⟩
    simp only [fillStep, Function.update_apply] at hc
    split at hc
    · cases hc
    · exact hc
  | enter i =>
    simp only [fillStep]
    split
    · split
      · rename_i hupgrade
        simp only [SingleflightFill.upgrade, Option.filter_eq_some_iff] at hupgrade
        refine h.move (fun e he => ?_) nofun trivial
        cases he
        exact hupgrade.1
      · rename_i hupgrade
        exact h.elect hupgrade
    · exact h
  | readCancellation i =>
    simp only [fillStep]
    split
    · rename_i entry hi
      split
      · rename_i hcancelled
        refine h.proceed hi (fun _ h => h) (fun _ h => h) ?_
        by_contra hs
        cases (hok hs entry hi).symm.trans hcancelled
      · exact h.proceed hi (fun _ h => h) (fun _ h => h) trivial
    · exact h
  | endFetch i result =>
    simp only [fillStep]
    split
    · rename_i hi
      exact (h.record _ _).proceed hi (fun _ h => h) (fun _ h => h) List.mem_cons_self
    · exact h
  | publish i =>
    simp only [fillStep]
    split
    · rename_i entry bytes hi
      have hfetched := hcaller hi
      refine Flying.proceed (h.setState fun r hr => ?_) hi (fun _ h => h) nofun hfetched
      cases hr
      rw [hkey hi entry rfl]
      exact hfetched
    · rename_i entry error hi
      refine Flying.proceed (h.setState fun r hr => ?_) hi (fun _ h => h) nofun fun _ _ => ⟨error, hcaller hi⟩
      cases hr
      rw [hkey hi entry rfl]
      exact fun _ _ => ⟨error, hcaller hi⟩
    · rename_i hi
      refine Flying.proceed (h.setState fun r hr => ?_) hi (fun _ h => h) nofun fun hs => absurd (hcaller hi) hs
      cases hr
      exact fun hs => absurd (hcaller hi) hs
    · exact h
  | poll i =>
    simp only [fillStep]
    split
    · rename_i entry hi
      split
      · split
        · rename_i hcancelled
          refine h.proceed hi (fun _ h => h) nofun fun _ hc => ?_
          cases hcancelled.symm.trans hc
        · exact h
      · rename_i hstate
        have hentry := hjoined hi entry rfl _ (by rw [hstate]; rfl)
        exact h.proceed hi (fun _ h => h) nofun hentry
      · rename_i hstate
        have hentry := hjoined hi entry rfl _ (by rw [hstate]; rfl)
        exact h.proceed hi (fun _ h => h) nofun (hentry.mono (List.Subset.refl _) fun _ => rfl)
    · exact h
  | leave i =>
    simp only [fillStep]
    split
    · rename_i hi
      have hresult := hcaller hi
      exact h.proceed hi nofun nofun hresult
    · exact h

theorem Flying.run {stopped : Prop} {events : List (FillEvent n)}
    (hok : Along (fillStep objectKey) (fun s e => ¬ stopped → Unstopped s e) SingleflightFill.initial events) :
    Flying stopped objectKey (Base.run (fillStep objectKey) SingleflightFill.initial events) :=
  hok.invariant (fun _ _ he h => h.step he) .initial

def FillPhase.isFetching : FillPhase → Bool
  | .fetching _ => true
  | _ => false

/-- In every interleaving a key has at most one running fetch, and bytes are those of a fetch for the key. A caller
that was not cancelled fails only after a failed fetch, as long as no leader is cancelled before its fetch. -/
theorem fills_share_fetch (objectKey : Fin n → Id32) (events : List (FillEvent n)) :
    let s := run (fillStep objectKey) SingleflightFill.initial events
    (∀ i j, (s.phase i).isFetching → (s.phase j).isFetching → objectKey i = objectKey j → i = j) ∧
      (∀ i bytes, s.phase i = .returned (.ok bytes) → (objectKey i, .ok bytes) ∈ s.fetches) ∧
      (Along (fillStep objectKey) Unstopped SingleflightFill.initial events →
        ∀ i error, s.phase i = .returned (.error error) → s.cancelled i = false →
          ∃ error', (objectKey i, .error error') ∈ s.fetches) := by
  have hall : Flying True objectKey (run (fillStep objectKey) SingleflightFill.initial events) :=
    .run (along_of_forall fun _ _ _ h => absurd trivial h)
  refine ⟨?_, ?_, ?_⟩
  · intro i j hi hj hkey
    cases hpi : (run (fillStep objectKey) SingleflightFill.initial events).phase i with
    | fetching e =>
      cases hpj : (run (fillStep objectKey) SingleflightFill.initial events).phase j with
      | fetching e' =>
        have hei := hall.held i e (by rw [hpi]; rfl)
        have hej := hall.held j e' (by rw [hpj]; rfl)
        rw [← hkey, hei] at hej
        cases hej
        exact hall.led i j e (by rw [hpi]; rfl) (by rw [hpj]; rfl)
      | _ => simp [hpj, FillPhase.isFetching] at hj
    | _ => simp [hpi, FillPhase.isFetching] at hi
  · intro i bytes hi
    have hcaller := hall.caller i
    rw [hi] at hcaller
    exact hcaller
  · intro hok i error hi hcancelled
    have hcalm : Flying False objectKey (run (fillStep objectKey) SingleflightFill.initial events) :=
      .run (hok.mono fun _ _ h _ => h)
    have hcaller := hcalm.caller i
    rw [hi] at hcaller
    exact hcaller not_false hcancelled

/-- A caller joins the fetch of another and fails with it. -/
theorem fills_share_fetch_pair :
    ∃ error, (repeatedId 7, .error error) ∈ (run (fillStep fun _ : Fin 2 => repeatedId 7) SingleflightFill.initial
      [.enter 0, .enter 1, .readCancellation 0, .cancel 0, .endFetch 0 (.error .busy), .publish 0, .poll 1,
        .leave 1]).fetches :=
  (fills_share_fetch (fun _ : Fin 2 => repeatedId 7) _).2.2
    ⟨trivial, trivial, fun _ _ => rfl, trivial, trivial, trivial, trivial, trivial, trivial⟩ 1 _ rfl rfl

/-- The leader is cancelled before its fetch, and the caller that joined fails without one. -/
theorem fills_follower_fails :
    let s := run (fillStep fun _ : Fin 2 => repeatedId 7) SingleflightFill.initial
      [.enter 0, .enter 1, .cancel 0, .readCancellation 0, .publish 0, .poll 1, .leave 1]
    s.phase 1 = .returned (.error (.state "singleflight upstream fill failed")) ∧ s.cancelled 1 = false ∧
      s.fetches = [] :=
  ⟨rfl, rfl, rfl⟩

end Kvpack.Store
