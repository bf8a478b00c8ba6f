import Kvpack.Store.Fencing
import Kvpack.Store.Lemmas.Publish
import Kvpack.Store.Lemmas.Sessions

/-!
# What an action does to an upload that another session holds

A look at the upload tells a caller that nobody else holds it. The actions that look again in their own transaction
leave the upload of another session alone, the others only as long as what the caller has seen still holds. Only a
reservation and an adoption give the upload to a session.
-/

namespace Kvpack.Store.Fencing

open Base Kvpack.Core

variable {C : Crypto} {config : StoreConfig} {key : Id32} {c c' : Catalog} {s s' : Shared} {x x' : Session}
  {task : Task} {rest : List Task} {input : Input} {upload upload' : Upload} {token holder now : Nat}

/-! ## The holder -/

theorem current_eq_some : current key c = some token ↔
    ∃ upload, c.uploads.get? key = some upload ∧ upload.state.active ∧ upload.sessionToken ≠ 0 ∧
      upload.sessionToken = token := by
  unfold current
  cases c.uploads.get? key with
  | none => simp
  | some upload => simp [and_assoc]

theorem current_congr (h : c'.uploads.get? key = c.uploads.get? key) : current key c' = current key c := by
  simp only [current, h]

/-- No session but the one with token `holder` holds the upload. -/
def Owned (key : Id32) (holder : Nat) (s : Shared) : Prop :=
  ∀ token, current key s.catalog = some token → token = holder

theorem owned_of_inactive (h : ∀ upload, s.catalog.uploads.get? key = some upload → upload.state.active = false) :
    Owned key holder s := by
  intro token htoken
  obtain ⟨upload, hget, hactive, -⟩ := current_eq_some.mp htoken
  rw [h upload hget] at hactive
  cases hactive

theorem owned_of_token (hget : s.catalog.uploads.get? key = some upload)
    (htoken : upload.sessionToken ≠ 0 → upload.sessionToken = holder) : Owned key holder s := by
  intro token hcurrent
  obtain ⟨upload', hget', -, hne, rfl⟩ := current_eq_some.mp hcurrent
  rw [hget, Option.some.injEq] at hget'
  subst hget'
  exact htoken hne

theorem owned_of_checkToken {stale : StoreError} (h : checkToken key holder stale s.catalog = .ok ()) :
    Owned key holder s := by
  intro token hcurrent
  obtain ⟨upload, hget, hactive, -, rfl⟩ := current_eq_some.mp hcurrent
  simp only [checkToken, hget, rejectIf_eq_ok, not_and, not_not, ne_eq] at h
  exact h hactive

/-- A reservation that nobody has adopted has no token. -/
def Unadopted (key : Id32) (c : Catalog) : Prop :=
  ∀ upload, c.uploads.get? key = some upload → upload.state = .reserved → upload.sessionToken = 0

theorem Unadopted.congr (h : Unadopted key c) (hrow : c'.uploads.get? key = c.uploads.get? key) : Unadopted key c' := by
  intro upload hget
  rw [hrow] at hget
  exact h upload hget

theorem Unadopted.owned (h : Unadopted key s.catalog) (hget : s.catalog.uploads.get? key = some upload)
    (hstate : upload.state = .reserved) : Owned key holder s :=
  owned_of_token hget fun hne => absurd (h upload hget hstate) hne

/-! ## Effects -/

/-- The effect of a task on the upload: who holds it, and what another session loses. -/
structure Effect (key : Id32) (task : Task) (s s' : Shared) : Prop where
  yields : task.action.claims = false → ∀ token, current key s'.catalog = some token →
    current key s.catalog = some token
  fenced : task.action.unfenced = false → ∀ token, current key s.catalog = some token → token ≠ task.holder →
    SameUpload key s s'
  unadopted : Unadopted key s'.catalog

theorem SameUpload.refl : SameUpload key s s := ⟨rfl, rfl, rfl⟩

/-- The row and the ledger are left alone, and the files unless the task is unfenced. -/
theorem Effect.of_row (hs : Unadopted key s.catalog) (hrow : s'.catalog.uploads.get? key = s.catalog.uploads.get? key)
    (hledger : ledger key s'.catalog = ledger key s.catalog)
    (hfiles : task.action.unfenced = false → s'.files = s.files) : Effect key task s s' where
  yields := fun _ token h => by rwa [current_congr hrow] at h
  fenced := fun hunfenced _ _ _ => ⟨by rw [hrow], hledger, hfiles hunfenced⟩
  unadopted := hs.congr hrow

theorem Effect.refl (hs : Unadopted key s.catalog) : Effect key task s s := .of_row hs rfl rfl fun _ => rfl

theorem Effect.of_directory {directory : Option StagedFiles} (hs : Unadopted key s.catalog)
    (hunfenced : task.action.unfenced = true) : Effect key task s { s with directory } :=
  .of_row hs rfl rfl fun h => by rw [hunfenced] at h; cases h

/-- A change of the row by its holder, or by a task that relies on there being no other. -/
theorem Effect.of_put (hs : Unadopted key s.catalog) (hget : s.catalog.uploads.get? key = some upload)
    (hget' : c'.uploads.get? key = some upload') (htoken : upload'.sessionToken = upload.sessionToken)
    (hactive : upload'.state.active → upload.state.active)
    (hreserved : upload'.state = .reserved → upload.state = .reserved)
    (howned : task.action.unfenced = false → Owned key task.holder s) : Effect key task s { s with catalog := c' } where
  yields := by
    intro _ token hcurrent
    obtain ⟨row, hrow, hrowActive, hne, rfl⟩ := current_eq_some.mp hcurrent
    rw [hget', Option.some.injEq] at hrow
    subst hrow
    exact current_eq_some.mpr ⟨upload, hget, hactive hrowActive, htoken ▸ hne, htoken.symm⟩
  fenced := fun hunfenced token hcurrent hne => absurd (howned hunfenced token hcurrent) hne
  unadopted := by
    intro row hrow hstate
    rw [hget', Option.some.injEq] at hrow
    subst hrow
    rw [htoken]
    exact hs upload hget (hreserved hstate)

section Effects

variable (hs : Unadopted key s.catalog)
variable {required : Bool}
variable {publications : List PendingManifest}

include hs

theorem markReceiving_effect (h : markReceiving key now s.catalog = .ok c') :
    Effect key ⟨.markReceiving token, holder, required⟩ s { s with catalog := c' } := by
  obtain ⟨upload, outbox, hget, hstate, rfl⟩ := markReceiving_eq_ok h
  have hactive : upload.state.active := by
    obtain hstate | hstate := hstate <;> rw [hstate] <;> rfl
  refine ⟨fun _ token hcurrent => ?_, fun _ token hcurrent _ => ⟨?_, rfl, rfl⟩, ?_⟩
  · obtain ⟨row, hrow, -, hne, htoken⟩ := current_eq_some.mp hcurrent
    rw [Table.get?_put_self, Option.some.injEq] at hrow
    subst hrow
    exact current_eq_some.mpr ⟨upload, hget, hactive, hne, htoken⟩
  · -- a reservation that some session holds is already being received
    obtain ⟨row, hrow, -, hne, -⟩ := current_eq_some.mp hcurrent
    rw [hget, Option.some.injEq] at hrow
    subst hrow
    obtain hreserved | hreceiving := hstate
    · exact absurd (hs upload hget hreserved) hne
    · simp only [Table.get?_put_self, hget, Option.map_some, hreceiving]
  · intro row hrow hreserved
    rw [Table.get?_put_self, Option.some.injEq] at hrow
    subst hrow
    cases hreserved

omit hs in
theorem adoptProvisionalSession_effect (h : adoptProvisionalSession key token now s.catalog = .ok c') :
    Effect key ⟨.adoptSession token, holder, required⟩ s { s with catalog := c' } := by
  simp only [adoptProvisionalSession, bind_eq_ok, exists_unit, okOr_eq_ok, rejectIf_eq_ok, not_not, ne_eq,
    pure_eq_ok] at h
  obtain ⟨upload, hget, hstate, rfl⟩ := h
  refine ⟨fun h => (by cases h), fun _ _ _ _ => ⟨?_, rfl, rfl⟩, ?_⟩
  · simp only [Catalog.setUpload, Table.get?_put_self, hget, Option.map_some]
  · intro row hrow hreserved
    simp only [Catalog.setUpload, Table.get?_put_self, Option.some.injEq] at hrow
    subst hrow
    rw [hstate] at hreserved
    cases hreserved

/-- A reservation answered with another's state changes nothing; a granted one finds no session. -/
theorem reserveUpload_effect {reservation : UploadReservation} {state : UploadState}
    (h : reserveUpload config key reservation now s.catalog = .ok (c', state)) :
    Effect key ⟨.reserveUpload reservation token, holder, required⟩ s { s with catalog := c' } ∧
      (state = .reserved → Owned key 0 { s with catalog := c' }) := by
  obtain ⟨upload, hget, -, rfl, rfl⟩ | ⟨row, haborted, -, -, -, htoken, -, hadmit⟩ := reserveUpload_eq_ok h
  · exact ⟨.refl hs, fun hstate => hs.owned hget hstate⟩
  · obtain ⟨-, -, writeTickets, outbox, rfl⟩ := admitReservation_eq_ok hadmit
    have hinactive : Owned key holder s := owned_of_inactive fun upload hget => by rw [haborted upload hget]; rfl
    refine ⟨⟨nofun, fun _ token hcurrent hne => ?_, ?_⟩, fun _ => ?_⟩
    · exact absurd (hinactive token hcurrent) hne
    · intro upload hget _
      rw [Table.get?_put_self, Option.some.injEq] at hget
      rwa [← hget]
    · exact owned_of_token (Table.get?_put_self) fun hne => absurd htoken hne

theorem abortUpload_effect (h : abortUpload key now s.catalog = .ok c') :
    Effect key ⟨.abortUpload, holder, required⟩ s { s with catalog := c' } := by
  obtain ⟨outbox, rfl⟩ | ⟨upload, outbox, hget, hactive, rfl⟩ := abortUpload_eq_ok h
  · exact .of_row hs rfl rfl fun _ => rfl
  · exact .of_put hs hget Table.get?_put_self rfl (fun _ => hactive) nofun nofun

theorem clearProvisionalLedger_effect {published required : Bool}
    (h : clearProvisionalLedger key published s.catalog = .ok c') :
    Effect key ⟨.clearLedger published, holder, required⟩ s { s with catalog := c' } := by
  simp only [clearProvisionalLedger, bind_eq_ok, exists_unit, okOr_eq_ok, rejectIf_eq_ok, not_not, ne_eq,
    pure_eq_ok] at h
  obtain ⟨upload, hget, hstate, rfl⟩ := h
  refine .of_put hs hget Table.get?_put_self rfl id id fun _ => owned_of_inactive fun row hrow => ?_
  rw [hget, Option.some.injEq] at hrow
  subst hrow
  cases published <;> rw [hstate] <;> rfl

theorem commitProvisionalStageBatch_effect {first : Nat} {staged : List UploadChunk}
    (h : commitProvisionalStageBatch key holder first staged now s.catalog = .ok c') :
    Effect key ⟨.commitStageBatch first staged, holder, required⟩ s { s with catalog := c' } := by
  unfold commitProvisionalStageBatch at h
  split at h
  · cases h
    exact .refl hs
  · simp only [bind_eq_ok, exists_unit, okOr_eq_ok, rejectIf_eq_ok, not_not, ne_eq, pure_eq_ok] at h
    obtain ⟨upload, hget, htoken, -, -, uploadChunks, -, rfl⟩ := h
    exact .of_put hs hget Table.get?_put_self rfl id id fun _ => owned_of_token hget fun _ => htoken

theorem sealProvisionalUpload_effect {expectedChunks : Nat} {digest : Id32}
    (h : sealProvisionalUpload key holder expectedChunks digest now s.catalog = .ok c') :
    Effect key ⟨.sealUpload expectedChunks digest publications, holder, required⟩ s { s with catalog := c' } ∧
      Owned key holder { s with catalog := c' } := by
  obtain ⟨⟨upload, hget, h⟩, upload', hget', htoken⟩ := sealProvisionalUpload_eq_ok h
  cases hget.symm.trans hget'
  have howned : Owned key holder s := owned_of_token hget fun _ => htoken
  obtain ⟨-, rfl⟩ | ⟨hstate, rfl⟩ := h
  · exact ⟨.refl hs, howned⟩
  · refine ⟨.of_put hs hget Table.get?_put_self rfl (fun _ => ?_) (fun h => by cases h) fun _ => howned, ?_⟩
    · rcases hstate with hstate | hstate <;> rw [hstate] <;> rfl
    · exact owned_of_token Table.get?_put_self fun _ => htoken

theorem publishManifestBatch_effect {artifacts : List PublishedArtifact}
    (h : publishManifestBatch C config key publications now s.catalog = .ok (c', artifacts)) :
    Effect key ⟨.publish publications, holder, required⟩ s { s with catalog := c' } := by
  obtain ⟨semantic, family, upload, -, hget, -, ⟨-, -, outbox, rfl⟩ | ⟨tx, hcommitted⟩⟩ := publishManifestBatch_eq_ok h
  · exact .of_row hs rfl rfl fun _ => rfl
  · obtain ⟨outbox, rfl⟩ := hcommitted.result
    exact .of_put hs hget Table.get?_put_self rfl nofun nofun nofun

theorem promote_effect {object : ChunkObject} {keyEpoch : UInt64} {cataloged : List CatalogedChunk}
    (h : catalogChunks [object] keyEpoch none s.catalog = .ok (c', cataloged)) :
    Effect key ⟨.promote object, holder, required⟩ s { s with catalog := c' } := by
  simp only [catalogChunks, bind_eq_ok, Prod.exists, pure_eq_ok, Prod.mk.injEq] at h
  obtain ⟨c₁, each, heach, rfl, -⟩ := h
  obtain ⟨chunks, rfl⟩ := catalogEach_frame heach
  exact .of_row hs rfl rfl fun _ => rfl

theorem withdraw_effect {objectKey : Id32} :
    Effect key ⟨.withdraw objectKey, holder, required⟩ s
      { s with catalog := cleanupPromotion key objectKey s.catalog } := by
  obtain ⟨chunks, heq, -⟩ := cleanupPromotion_eq s.catalog key objectKey
  rw [heq]
  exact .of_row hs rfl rfl fun _ => rfl

theorem perform_effect (h : perform C config key input x task rest s task.action = .ok (s', x')) :
    Effect key task s s' := by
  obtain ⟨action, holder, required⟩ := task
  cases action <;>
    simp only [perform, bind_eq_ok, exists_unit, Prod.exists, rejectIf_eq_ok, pure_eq_ok, Prod.mk.injEq,
      Option.not_isSome_iff_eq_none] at h
  case readExpired | inspectDirectory | openDirectory => split at h <;> cases h <;> exact .refl hs
  case inspectReservation =>
    obtain ⟨-, _, -, _, -, rfl, -⟩ := h
    exact .refl hs
  case admission =>
    cases h
    exact .refl hs
  case reserveUpload =>
    obtain ⟨_, _, hreserve, _, -, rfl, -⟩ := h
    exact (reserveUpload_effect hs hreserve).1
  case markReceiving =>
    obtain ⟨_, hmark, rfl, -⟩ := h
    exact markReceiving_effect hs hmark
  case adoptSession =>
    obtain ⟨_, hadopt, rfl, -⟩ := h
    exact adoptProvisionalSession_effect hadopt
  case readSession =>
    obtain ⟨_, -, rfl, -⟩ := h
    exact .refl hs
  case createDirectory =>
    obtain ⟨hnone, rfl, -⟩ := h
    exact .of_row hs rfl rfl fun _ => by simp only [Shared.files, hnone]; rfl
  case checkAbort | checkCancel | verifyLedger =>
    obtain ⟨-, rfl, -⟩ := h
    exact .refl hs
  case removeEntries | writeFile =>
    obtain ⟨_, -, rfl, -⟩ := h
    exact .of_directory hs rfl
  case abortUpload =>
    obtain ⟨_, habort, rfl, -⟩ := h
    exact abortUpload_effect hs habort
  case clearLedger =>
    obtain ⟨_, hclear, rfl, -⟩ := h
    exact clearProvisionalLedger_effect hs hclear
  case beginStageBatch =>
    obtain ⟨mode, -, h⟩ := h
    cases mode <;> cases h <;> exact .refl hs
  case commitStageBatch =>
    obtain ⟨_, hcommit, rfl, -⟩ := h
    exact commitProvisionalStageBatch_effect hs hcommit
  case promote =>
    obtain ⟨_, _, hpromote, rfl, -⟩ := h
    exact promote_effect hs hpromote
  case withdraw =>
    cases h
    exact withdraw_effect hs
  case sealUpload =>
    obtain ⟨_, hseal, rfl, -⟩ := h
    exact (sealProvisionalUpload_effect hs hseal).1
  case publish =>
    obtain ⟨_, _, hpublish, rfl, -⟩ := h
    exact publishManifestBatch_effect hs hpublish

end Effects

variable {reservation : UploadReservation} {existing : Existing}

/-! ## What a caller relies on -/

/-- A task that does not look relies on there being no other session. -/
def Needs (key : Id32) (task : Task) (s : Shared) : Prop := task.action.unfenced → Owned key task.holder s

theorem needs_of_fenced (h : task.action.unfenced = false) : Needs key task s := by
  intro hunfenced
  rw [h] at hunfenced
  cases hunfenced

theorem Effect.needs {u : Task} (h : Effect key task s s') (hclaims : task.action.claims = false) (hu : Needs key u s) :
    Needs key u s' :=
  fun hunfenced token hcurrent => hu hunfenced token (h.yields hclaims token hcurrent)

theorem discardUpload_needs (h : Owned key holder s) : ∀ u ∈ discardUpload holder, Needs key u s := by
  intro u hu _
  simp only [discardUpload, List.mem_cons, List.not_mem_nil, or_false] at hu
  obtain rfl | rfl | rfl := hu <;> exact h

theorem failProvisionalBegin_needs : ∀ u ∈ failProvisionalBegin token, Needs key u s := by
  intro u hu
  simp only [failProvisionalBegin, List.mem_cons, List.not_mem_nil, or_false] at hu
  obtain rfl | rfl := hu <;> exact needs_of_fenced rfl

theorem StageBatch.tasks_needs {batch : StageBatch} (h : Owned key holder s) :
    ∀ u ∈ batch.tasks holder, Needs key u s := by
  intro u hu _
  simp only [StageBatch.tasks, List.mem_append, List.mem_map, List.mem_singleton] at hu
  obtain ⟨file, -, rfl⟩ | rfl := hu <;> exact h

theorem pending_needs {plan recovery : List Task} {t : Option Nat} (hplan : ∀ u ∈ plan, Needs key u s)
    (hrecovery : ∀ u ∈ recovery, Needs key u s) : ∀ u ∈ (⟨⟨plan, recovery⟩, t⟩ : Session).pending, Needs key u s := by
  intro u hu
  exact (Caller.mem_pending.mp hu).elim (hplan u) (hrecovery u)

theorem answered_needs {state : UploadState} (hanswer : state = .reserved → Owned key 0 s)
    (h : answered token x state = .ok x') : ∀ u ∈ x'.pending, Needs key u s := by
  cases state with
  | reserved =>
    cases h
    refine pending_needs ?_ ?_
    · exact List.forall_mem_singleton.mpr (needs_of_fenced rfl)
    · exact List.forall_mem_singleton.mpr fun _ => hanswer rfl
  | receiving | published =>
    cases h
    exact pending_needs (List.forall_mem_singleton.mpr (needs_of_fenced rfl)) (List.forall_mem_nil _)
  | _ => cases h

/-- What an answer of the first look says about the row. -/
def Found (key : Id32) (c : Catalog) : Existing → Prop
  | .absent => c.uploads.get? key = none
  | .aborted => ∃ upload, c.uploads.get? key = some upload ∧ upload.state = .aborted
  | .answered state => ∃ upload, c.uploads.get? key = some upload ∧ upload.state = state

theorem inspectReservation_eq_ok
    (h : inspectReservation config key reservation now c = .ok existing) : Found key c existing := by
  unfold inspectReservation at h
  split at h
  · rename_i upload hget
    simp only [bind_eq_ok, exists_unit, pure_eq_ok] at h
    obtain ⟨-, rfl⟩ := h
    split_ifs with haborted
    · exact ⟨upload, hget, haborted⟩
    · exact ⟨upload, hget, rfl⟩
  · rename_i hget
    simp only [bind_eq_ok, exists_unit, pure_eq_ok] at h
    obtain ⟨-, rfl⟩ := h
    exact hget

theorem inspected_needs (hs : Unadopted key s.catalog)
    (hrecovery : ∀ u ∈ x.recovery, Needs key u s)
    (hinspect : inspectReservation config key reservation now s.catalog = .ok existing)
    (h : inspected reservation token x existing = .ok x') : ∀ u ∈ x'.pending, Needs key u s := by
  have hexisting := inspectReservation_eq_ok hinspect
  cases existing with
  | absent =>
    cases h
    refine pending_needs (fun u hu => ?_) hrecovery
    simp only [List.mem_cons, List.not_mem_nil, or_false] at hu
    obtain rfl | rfl | rfl := hu <;> exact needs_of_fenced rfl
  | aborted =>
    cases h
    obtain ⟨upload, hget, haborted⟩ := hexisting
    have howned : Owned key 0 s := owned_of_inactive fun row hrow => by
      rw [hget, Option.some.injEq] at hrow
      rw [← hrow, haborted]
      rfl
    refine pending_needs (fun u hu _ => ?_) hrecovery
    simp only [List.mem_cons, List.not_mem_nil, or_false] at hu
    obtain rfl | rfl | rfl | rfl | rfl := hu <;> exact howned
  | answered state =>
    obtain ⟨upload, hget, rfl⟩ := hexisting
    exact answered_needs (fun hstate => hs.owned hget hstate) h

theorem expiredHolder_owned (h : expiredHolder key now s.catalog = some holder) : Owned key holder s := by
  unfold expiredHolder at h
  split at h
  · simp only [Option.map_eq_some_iff] at h
    obtain ⟨upload, hget, rfl⟩ := h
    exact owned_of_token hget fun _ => rfl
  · cases h

theorem beginProvisionalStageBatch_owned {cursor : Nat}
    (h : beginProvisionalStageBatch key holder now s.catalog = .ok (.receiving cursor)) : Owned key holder s := by
  simp only [beginProvisionalStageBatch, bind_eq_ok, okOr_eq_ok] at h
  obtain ⟨upload, hget, h⟩ := h
  split at h
  · cases h
  · simp only [bind_eq_ok, exists_unit, rejectIf_eq_ok, not_not, ne_eq] at h
    exact owned_of_token hget fun _ => h.1

/-- What the caller relies on after an action that gives the upload to nobody. -/
theorem perform_needs (hs : Unadopted key s.catalog)
    (h : perform C config key input x task rest s task.action = .ok (s', x')) (htask : Needs key task s)
    (hrest : ∀ u ∈ rest, Needs key u s) (hrecovery : ∀ u ∈ x.recovery, Needs key u s) :
    ∀ u ∈ x'.pending, Needs key u s' := by
  have heffect := perform_effect hs h
  have hkeep (hclaims : task.action.claims = false) (hpending : ∀ u ∈ x'.pending, Needs key u s) :
      ∀ u ∈ x'.pending, Needs key u s' := fun u hu => heffect.needs hclaims (hpending u hu)
  obtain ⟨action, holder, required⟩ := task
  cases action <;>
    simp only [perform, bind_eq_ok, exists_unit, Prod.exists, pure_eq_ok, Prod.mk.injEq] at h
  case readExpired =>
    refine hkeep rfl ?_
    split at h
    · rename_i expired hexpired
      cases h
      exact pending_needs (List.forall_mem_append.mpr ⟨discardUpload_needs (expiredHolder_owned hexpired), hrest⟩)
        hrecovery
    · cases h
      exact pending_needs hrest hrecovery
  case inspectReservation =>
    refine hkeep rfl ?_
    obtain ⟨-, _, hinspect, _, hinspected, -, rfl⟩ := h
    exact inspected_needs hs hrecovery hinspect hinspected
  case reserveUpload reservation token =>
    obtain ⟨catalog, _, hreserve, _, hanswered, rfl, rfl⟩ := h
    have heffect : Effect key ⟨.reserveUpload reservation 0, 0, true⟩ s { s with catalog := catalog } ∧ _ :=
      reserveUpload_effect hs hreserve
    exact answered_needs heffect.2 hanswered
  case markReceiving | adoptSession =>
    obtain ⟨_, -, rfl, rfl⟩ := h
    exact pending_needs (List.forall_mem_singleton.mpr (needs_of_fenced rfl)) failProvisionalBegin_needs
  case inspectDirectory =>
    split at h <;> cases h
    · exact pending_needs hrest (List.forall_mem_nil _)
    · exact pending_needs (List.forall_mem_cons.mpr ⟨needs_of_fenced rfl, hrest⟩) hrecovery
  case createDirectory =>
    refine hkeep rfl ?_
    obtain ⟨-, rfl, rfl⟩ := h
    exact pending_needs hrest (List.forall_mem_nil _)
  case checkAbort =>
    obtain ⟨hcheck, rfl, rfl⟩ := h
    exact pending_needs (List.forall_mem_cons.mpr ⟨fun _ => owned_of_checkToken hcheck, hrest⟩) hrecovery
  case checkCancel =>
    obtain ⟨hcheck, rfl, rfl⟩ := h
    exact pending_needs (List.forall_mem_append.mpr ⟨discardUpload_needs (owned_of_checkToken hcheck), hrest⟩) hrecovery
  case openDirectory =>
    split at h <;> cases h
    · exact pending_needs (List.forall_mem_cons.mpr ⟨htask, hrest⟩) hrecovery
    · exact pending_needs hrest hrecovery
  case removeEntries =>
    refine hkeep rfl ?_
    obtain ⟨_, -, rfl, rfl⟩ := h
    refine pending_needs ?_ hrecovery
    split_ifs
    · exact List.forall_mem_cons.mpr ⟨htask, hrest⟩
    · exact hrest
  case beginStageBatch =>
    obtain ⟨mode, hmode, h⟩ := h
    cases mode with
    | publishedReplay =>
      cases h
      exact pending_needs hrest hrecovery
    | receiving cursor =>
      cases h
      have howned := beginProvisionalStageBatch_owned hmode
      refine pending_needs (List.forall_mem_append.mpr ⟨fun u hu => ?_, hrest⟩) hrecovery
      obtain ⟨batch, -, hbatch⟩ := List.mem_flatMap.mp hu
      exact StageBatch.tasks_needs howned u hbatch
  case promote =>
    refine hkeep rfl ?_
    obtain ⟨_, _, -, rfl, rfl⟩ := h
    exact pending_needs hrest (List.forall_mem_cons.mpr ⟨needs_of_fenced rfl, hrecovery⟩)
  case sealUpload expectedChunks digest publications =>
    obtain ⟨catalog, hseal, rfl, rfl⟩ := h
    have hsealed : Effect key ⟨.sealUpload expectedChunks digest publications, _, true⟩ s
        { s with catalog := catalog } ∧ _ := sealProvisionalUpload_effect hs hseal
    have howned := hsealed.2
    refine pending_needs (fun u hu => ?_) fun u hu => heffect.needs rfl (hrecovery u hu)
    simp only [List.mem_cons] at hu
    obtain rfl | rfl | rfl | hu := hu
    · exact fun _ => howned
    · exact fun _ => howned
    · exact needs_of_fenced rfl
    · exact heffect.needs rfl (hrest u hu)
  case publish =>
    refine hkeep rfl ?_
    obtain ⟨_, _, -, -, rfl⟩ := h
    exact pending_needs hrest hrecovery
  case readSession | abortUpload | clearLedger | writeFile | commitStageBatch =>
    refine hkeep rfl ?_
    obtain ⟨_, -, -, rfl⟩ := h
    exact pending_needs hrest hrecovery
  case verifyLedger =>
    obtain ⟨-, rfl, rfl⟩ := h
    exact pending_needs hrest hrecovery
  case admission | withdraw =>
    refine hkeep rfl ?_
    cases h
    exact pending_needs hrest hrecovery

/-! ## One step -/

/-- Nobody relies on what is not so, and only adopted reservations have a token. -/
structure Consistent {n : Nat} (key : Id32) (s : State n) : Prop where
  unadopted : Unadopted key s.shared.catalog
  relied : Relied (fun x : Session => x.pending) (Needs key) s.sessions s.shared

variable {n : Nat} {w : State n} {e : Event n} {i : Fin n}

theorem Consistent.initial : Consistent key (State.initial : State n) where
  unadopted := by
    intro upload hget
    cases hget
  relied := by
    intro i u hu
    cases hu

/-- What a session does next: nothing, a failure, or its next task. -/
theorem act_cases (C : Crypto) (config : StoreConfig) (key : Id32) (input : Input) (x : Session) (s : Shared) :
    (∃ x', act C config key input x s = (s, x') ∧ ∀ u ∈ x'.pending, u ∈ x.pending) ∨
      ∃ task rest s' x', x.plan = task :: rest ∧
        perform C config key input x task rest s task.action = .ok (s', x') ∧
        act C config key input x s = (s', x') := by
  unfold act
  split
  · exact Or.inl ⟨x, rfl, fun u hu => hu⟩
  · rename_i task rest hplan
    have hfail : ∀ u ∈ ({ x.toCaller.fail task.required rest with token := x.token } : Session).pending,
        u ∈ x.pending := fun u hu => Caller.mem_pending_of_fail hplan hu
    split
    · exact Or.inl ⟨_, rfl, hfail⟩
    · split
      · rename_i next hperform
        exact Or.inr ⟨task, rest, next.1, next.2, hplan, hperform, rfl⟩
      · exact Or.inl ⟨_, rfl, hfail⟩

theorem Call.start_needs {call : Call} (h : ∀ u ∈ x.pending, Needs key u s) :
    ∀ u ∈ (call.start x).pending, Needs key u s := by
  cases call with
  | stat => exact pending_needs (List.forall_mem_singleton.mpr (needs_of_fenced rfl)) (List.forall_mem_nil _)
  | begin reservation token =>
    simp only [Call.start]
    split
    · refine pending_needs (fun u hu => ?_) (List.forall_mem_nil _)
      simp only [List.mem_cons, List.not_mem_nil, or_false] at hu
      obtain rfl | rfl | rfl := hu <;> exact needs_of_fenced rfl
    · exact h
  | stage _ | cancel =>
    simp only [Call.start]
    split
    · exact pending_needs (List.forall_mem_singleton.mpr (needs_of_fenced rfl)) (List.forall_mem_nil _)
    · exact h
  | sealAndPublish references objects expectedChunks digest publications =>
    simp only [Call.start]
    split
    · refine pending_needs (fun u hu => ?_) (List.forall_mem_singleton.mpr (needs_of_fenced rfl))
      simp only [List.cons_append, List.mem_cons, List.mem_append, List.mem_map, List.not_mem_nil, or_false] at hu
      obtain rfl | ⟨object, -, rfl⟩ | rfl := hu <;> exact needs_of_fenced rfl
    · exact h

theorem Consistent.step (halone : Alone w e) (h : Consistent key w) : Consistent key (step C config key w e) := by
  cases e with
  | call i call =>
    simp only [Fencing.step]
    split
    · exact ⟨h.unadopted, h.relied.update (fun _ _ _ _ hu => hu) (Call.start_needs (h.relied i))⟩
    · exact h
  | elsewhere catalog =>
    simp only [Fencing.step]
    split
    · rename_i hsame
      refine ⟨h.unadopted.congr hsame.1, fun j u hu hunfenced token hcurrent => ?_⟩
      rw [current_congr hsame.1] at hcurrent
      exact h.relied j u hu hunfenced token hcurrent
    · exact h
  | act i input =>
    simp only [Fencing.step]
    obtain ⟨x', hact, hpending⟩ | ⟨task, rest, s', x', hplan, hperform, hact⟩ :=
      act_cases C config key input (w.sessions i) w.shared
    · rw [hact]
      exact ⟨h.unadopted, h.relied.update (fun _ _ _ _ hu => hu) fun u hu => h.relied i u (hpending u hu)⟩
    · rw [hact]
      have heffect := perform_effect h.unadopted hperform
      have hown (u : Task) (hu : u ∈ task :: rest ∨ u ∈ (w.sessions i).recovery) : Needs key u w.shared :=
        h.relied i u (Caller.mem_pending.mpr (by rwa [hplan]))
      refine ⟨heffect.unadopted, h.relied.update (fun j hj u hu hneeds => ?_) ?_⟩
      · cases hclaims : task.action.claims with
        | false => exact heffect.needs hclaims hneeds
        | true =>
          -- the condition: nobody else is past its look when the upload changes hands
          refine needs_of_fenced (halone task ?_ hclaims j hj u hu)
          rw [hplan]
          rfl
      · exact perform_needs h.unadopted hperform (hown task (Or.inl List.mem_cons_self))
          (fun u hu => hown u (Or.inl (List.mem_cons_of_mem _ hu))) fun u hu => hown u (Or.inr hu)

theorem Consistent.fenced (h : Consistent key w) : Fenced C config key w e := by
  cases e with
  | call _ _ | elsewhere _ => trivial
  | act i input =>
    intro task htask token hcurrent hne
    simp only [Fencing.step]
    obtain ⟨x', hact, -⟩ | ⟨task', rest, s', x', hplan, hperform, hact⟩ :=
      act_cases C config key input (w.sessions i) w.shared
    · rw [hact]
      exact .refl
    · rw [hact]
      rw [hplan, List.head?_cons, Option.mem_some_iff] at htask
      subst htask
      have hneeds : Needs key task' w.shared := h.relied i task' (Caller.mem_pending.mpr (by
        rw [hplan]
        exact Or.inl List.mem_cons_self))
      cases hunfenced : task'.action.unfenced with
      | false => exact (perform_effect h.unadopted hperform).fenced hunfenced token hcurrent hne
      | true => exact absurd (hneeds hunfenced token hcurrent) hne

end Kvpack.Store.Fencing
