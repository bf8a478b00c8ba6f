import Kvpack.Store.Lemmas.Transactions
import Kvpack.Store.Sessions

/-!
# What a session holds

Before its reservation a session holds nothing; after it, its upload is active with its bytes in the ledger until an
abort commits. Which exits reach that abort is what the room conditions say.
-/

namespace Kvpack.Store

open Base Kvpack.Core

variable {env : Surroundings} {config : StoreConfig} {c c₀ c' : Catalog} {key : Id32} {generation token base : Nat}
  {s s' : SessionState} {reservation : UploadReservation} {upload : Upload} {n : Nat}

/-! ## One lock scope -/

/-- The state in which the next lock scope starts. -/
def SessionState.next (env : Surroundings) (s : SessionState) : SessionState :=
  { s with catalog := env.between s.scopes s.catalog, scopes := s.scopes + 1 }

theorem SessionState.uploads_next (env : Surroundings) : (s.next env).catalog.uploads = s.catalog.uploads :=
  env.uploads_between _ _

theorem SessionState.reservedBytes_next (env : Surroundings) :
    (s.next env).catalog.reservedBytes = s.catalog.reservedBytes :=
  env.reservedBytes_between _ _

section LockScope

variable {α : Type} {t : Nat → Catalog → Except StoreError (Catalog × α)}

theorem transact_ok {a : α} (h : t (env.now s.scopes) (env.between s.scopes s.catalog) = .ok (c', a)) :
    transact env t s = .ok a { s.next env with catalog := c' } := by
  simp only [transact, h, SessionState.next]

theorem transact_error {e : StoreError} (h : t (env.now s.scopes) (env.between s.scopes s.catalog) = .error e) :
    transact env t s = .error e (s.next env) := by
  simp only [transact, h, SessionState.next]

end LockScope

section Commit

variable {t : Nat → Catalog → Except StoreError Catalog}

theorem commit_ok (h : t (env.now s.scopes) (env.between s.scopes s.catalog) = .ok c') :
    commit env t s = .ok () { s.next env with catalog := c' } :=
  transact_ok (by rw [h]; rfl)

theorem commit_error {e : StoreError} (h : t (env.now s.scopes) (env.between s.scopes s.catalog) = .error e) :
    commit env t s = .error e (s.next env) :=
  transact_error (by rw [h]; rfl)

/-- What a transaction keeps when it commits is kept whether it commits or not. -/
theorem commit_invariant {P : Catalog → Prop} (env : Surroundings) (s : SessionState)
    (hbetween : P (env.between s.scopes s.catalog))
    (hcommit : ∀ now c c', t now c = .ok c' → P c → P c') : P (finalState (commit env t s)).catalog := by
  cases h : t (env.now s.scopes) (env.between s.scopes s.catalog) with
  | ok c' =>
    rw [commit_ok h]
    exact hcommit _ _ c' h hbetween
  | error e =>
    rw [commit_error h]
    exact hbetween

end Commit

theorem inspect_ok {α : Type} {f : Nat → Catalog → Except StoreError α} {a : α}
    (h : f (env.now s.scopes) (env.between s.scopes s.catalog) = .ok a) :
    inspect env f s = .ok a (s.next env) :=
  transact_ok (by rw [h]; rfl)

theorem inspect_error {α : Type} {f : Nat → Catalog → Except StoreError α} {e : StoreError}
    (h : f (env.now s.scopes) (env.between s.scopes s.catalog) = .error e) :
    inspect env f s = .error e (s.next env) :=
  transact_error (by rw [h]; rfl)

theorem finalState_inspect {α : Type} (f : Nat → Catalog → Except StoreError α) :
    finalState (inspect env f s) = s.next env := by
  cases h : f (env.now s.scopes) (env.between s.scopes s.catalog) with
  | ok a =>
    rw [inspect_ok h]
    rfl
  | error e =>
    rw [inspect_error h]
    rfl

/-! ## Three phases -/

/-- The bytes reserved by others: those of before, less what reaping has released. -/
def Charged (env : Surroundings) (c₀ : Catalog) (base : Nat) : Prop :=
  base ≤ c₀.reservedBytes ∧ (NoneExpired env c₀ → base = c₀.reservedBytes)

/-- The upload does not exist yet; without reaping, no upload has changed. -/
structure Idle (env : Surroundings) (key : Id32) (c₀ : Catalog) (s : SessionState) : Prop where
  absent : s.catalog.uploads.get? key = none
  charged : Charged env c₀ s.catalog.reservedBytes
  uploads : NoneExpired env c₀ → s.catalog.uploads = c₀.uploads

/-- The upload is active and its bytes are in the ledger. -/
structure Holding (key : Id32) (generation token base : Nat) (s : SessionState) (upload : Upload) : Prop where
  row : s.catalog.uploads.get? key = some upload
  active : upload.state.active = true
  generation : upload.generation = generation
  token : upload.sessionToken = token
  ledger : s.catalog.reservedBytes = base + upload.reservedBytes

/-- The upload has been aborted and its bytes released. -/
structure Ended (key : Id32) (base : Nat) (s : SessionState) (upload : Upload) : Prop where
  row : s.catalog.uploads.get? key = some upload
  aborted : upload.state = .aborted
  ledger : s.catalog.reservedBytes = base

/-- The room decides whether the upload ends, and nobody else is charged. -/
def Decides (env : Surroundings) (key : Id32) (c₀ : Catalog) (room : Bool) (s : SessionState) : Prop :=
  (Inactive key s.catalog ↔ room = true) ∧ (room = true → Charged env c₀ s.catalog.reservedBytes)

theorem Idle.start (h : c.uploads.get? key = none) : Idle env key c (.start c) :=
  ⟨h, ⟨le_refl _, fun _ => rfl⟩, fun _ => rfl⟩

theorem Idle.decides (h : Idle env key c₀ s) : Decides env key c₀ true s := by
  refine ⟨iff_of_true (fun upload hrow => ?_) rfl, fun _ => h.charged⟩
  rw [h.absent] at hrow
  cases hrow

theorem Ended.decides (h : Ended key base s upload) (hbase : Charged env c₀ base) : Decides env key c₀ true s := by
  refine ⟨iff_of_true (fun upload' hrow => ?_) rfl, fun _ => h.ledger ▸ hbase⟩
  rw [h.row, Option.some.injEq] at hrow
  rw [← hrow, h.aborted]
  rfl

theorem Holding.decides (h : Holding key generation token base s upload) : Decides env key c₀ false s := by
  refine ⟨iff_of_false (fun hinactive => ?_) Bool.false_ne_true, fun hroom => (by cases hroom)⟩
  have hactive := hinactive upload h.row
  rw [h.active] at hactive
  cases hactive

theorem Idle.next (h : Idle env key c₀ s) : Idle env key c₀ (s.next env) where
  absent := by rw [SessionState.uploads_next, h.absent]
  charged := by rw [SessionState.reservedBytes_next]; exact h.charged
  uploads := fun hnone => by rw [SessionState.uploads_next, h.uploads hnone]

theorem Holding.next (env : Surroundings) (h : Holding key generation token base s upload) :
    Holding key generation token base (s.next env) upload :=
  ⟨by rw [SessionState.uploads_next, h.row], h.active, h.generation, h.token,
    by rw [SessionState.reservedBytes_next, h.ledger]⟩

theorem Ended.next (env : Surroundings) (h : Ended key base s upload) : Ended key base (s.next env) upload :=
  ⟨by rw [SessionState.uploads_next, h.row], h.aborted, by rw [SessionState.reservedBytes_next, h.ledger]⟩

/-! ## Before the reservation -/

theorem get?_put_other {other : Id32} {upload' : Upload} (hnone : c.uploads.get? key = none)
    (hget : c.uploads.get? other = some upload) : (c.uploads.put other upload').get? key = none := by
  rw [Table.get?_put, if_neg, hnone]
  rintro rfl
  rw [hnone] at hget
  cases hget

theorem clearProvisionalLedger_other {other : Id32} {published : Bool} (hnone : c.uploads.get? key = none)
    (h : clearProvisionalLedger other published c = .ok c') :
    c'.uploads.get? key = none ∧ c'.reservedBytes = c.reservedBytes := by
  obtain ⟨upload, upload', _, hget, rfl, -⟩ := clearProvisionalLedger_eq_ok h
  exact ⟨get?_put_other hnone hget, rfl⟩

theorem abortUpload_other {other : Id32} {now : Nat} (hnone : c.uploads.get? key = none)
    (h : abortUpload other now c = .ok c') :
    c'.uploads.get? key = none ∧ c'.reservedBytes ≤ c.reservedBytes := by
  obtain ⟨_, rfl⟩ | ⟨upload, _, hget, -, rfl⟩ := abortUpload_eq_ok h
  · exact ⟨hnone, le_refl _⟩
  · exact ⟨get?_put_other hnone hget, Nat.sub_le _ _⟩

theorem finishUploadDirectory_keeps {P : SessionState → Prop} : Keeps P (finishUploadDirectory env) := by
  intro s hs
  exact keeps_outcome (env.finishDirectory s.scopes) s hs

/-- Reaping other uploads leaves the key free and only lowers the reserved bytes. -/
theorem reapEach_keeps (env : Surroundings) (key : Id32) (keys : List Id32) (bytes : Nat) : Keeps
    (fun s => s.catalog.uploads.get? key = none ∧ s.catalog.reservedBytes ≤ bytes) (reapEach env keys) := by
  have hcommit : ∀ t : Nat → Catalog → Except StoreError Catalog,
      (∀ now c c', t now c = .ok c' → c.uploads.get? key = none →
        c'.uploads.get? key = none ∧ c'.reservedBytes ≤ c.reservedBytes) →
      Keeps (fun s => s.catalog.uploads.get? key = none ∧ s.catalog.reservedBytes ≤ bytes) (commit env t) := by
    intro t ht s hs
    refine commit_invariant env s (P := fun c => c.uploads.get? key = none ∧ c.reservedBytes ≤ bytes) ?_ ?_
    · rwa [env.uploads_between, env.reservedBytes_between]
    · rintro now c c' hcommit ⟨hnone, hle⟩
      obtain ⟨hnone', hle'⟩ := ht now c c' hcommit hnone
      exact ⟨hnone', hle'.trans hle⟩
  induction keys with
  | nil => exact keeps_pure ()
  | cons other keys ih =>
    refine finishUploadDirectory_keeps.bind fun _ => Keeps.bind (hcommit _ ?_) fun _ =>
      Keeps.bind (hcommit _ ?_) fun _ => ih
    · exact fun _ _ _ h hnone => abortUpload_other hnone h
    · exact fun _ _ _ h hnone => (clearProvisionalLedger_other hnone h).imp_right Eq.le

/-- Before the reservation, with at most `n` lock scopes if there was nothing to reap. -/
def Looking (env : Surroundings) (key : Id32) (c₀ : Catalog) (n : Nat) (s : SessionState) : Prop :=
  Idle env key c₀ s ∧ (NoneExpired env c₀ → s.scopes ≤ n)

theorem Looking.next (h : Looking env key c₀ n s) : Looking env key c₀ (n + 1) (s.next env) :=
  ⟨h.1.next, fun hnone => Nat.succ_le_succ (h.2 hnone)⟩

theorem Looking.mono {m : Nat} (hle : n ≤ m) (h : Looking env key c₀ n s) : Looking env key c₀ m s :=
  ⟨h.1, fun hnone => (h.2 hnone).trans hle⟩

theorem looking_outcome {α : Type} (o : Except StoreError α) :
    Contract (Looking env key c₀ n) (outcome o) (fun _ => Looking env key c₀ n) (Idle env key c₀) := by
  intro s hs
  cases o with
  | ok a => exact hs
  | error e => exact hs.1

theorem looking_inspect {α : Type} (f : Nat → Catalog → Except StoreError α) :
    Contract (Looking env key c₀ n) (inspect env f) (fun _ => Looking env key c₀ (n + 1)) (Idle env key c₀) := by
  intro s hs
  cases h : f (env.now s.scopes) (env.between s.scopes s.catalog) with
  | ok a =>
    rw [inspect_ok h]
    exact hs.next
  | error e =>
    rw [inspect_error h]
    exact hs.1.next

theorem looking_reap (hn : n ≤ lastReaping) : Contract (Looking env key c₀ n) (reapExpiredProvisionalUploads env)
    (fun _ => Looking env key c₀ (n + 1)) (Idle env key c₀) := by
  intro s hs
  have hstart : reapExpiredProvisionalUploads env s =
      reapEach env (expiredUploads (env.now s.scopes) (env.between s.scopes s.catalog)) (s.next env) :=
    bind_of_ok (inspect_ok rfl)
  have hquiet : NoneExpired env c₀ → reapExpiredProvisionalUploads env s = .ok () (s.next env) := by
    intro hnone
    have hexpired : expiredUploads (env.now s.scopes) (env.between s.scopes s.catalog) = [] := by
      rw [← hnone s.scopes ((hs.2 hnone).trans hn), expiredUploads, expiredUploads, env.uploads_between,
        hs.1.uploads hnone]
    rw [hstart, hexpired]
    rfl
  have hkept := reapEach_keeps env key (expiredUploads (env.now s.scopes) (env.between s.scopes s.catalog))
    c₀.reservedBytes (s.next env) ⟨hs.next.1.absent, hs.next.1.charged.1⟩
  rw [← hstart] at hkept
  by_cases hnone : NoneExpired env c₀
  · rw [hquiet hnone]
    exact hs.next
  · have hidle : Looking env key c₀ (n + 1) (finalState (reapExpiredProvisionalUploads env s)) :=
      ⟨⟨hkept.1, ⟨hkept.2, fun h => (hnone h).elim⟩, fun h => (hnone h).elim⟩, fun h => (hnone h).elim⟩
    cases hreap : reapExpiredProvisionalUploads env s with
    | ok a s' =>
      rw [hreap] at hidle
      exact hidle
    | error e s' =>
      rw [hreap] at hidle
      exact hidle.1

theorem looking_stat (hn : n ≤ lastReaping) : Contract (Looking env key c₀ n) (stat env)
    (fun _ => Looking env key c₀ (n + 2)) (Idle env key c₀) :=
  (looking_reap hn).bind fun _ => (looking_inspect _).bind fun _ =>
    Contract.bind (fun s hs => looking_outcome (env.listDirectories s.scopes) s hs) fun _ _ hs => hs

theorem looking_enforceQuarantineCap (hn : n ≤ lastReaping) : Contract (Looking env key c₀ n)
    (Session.enforceQuarantineCap env) (fun _ => Looking env key c₀ (n + 2)) (Idle env key c₀) := by
  refine (looking_outcome _).bind fun (raced, withinCap) => ?_
  cases raced with
  | true => exact ((looking_stat hn).bind fun _ _ hs => hs).bind fun _ => looking_outcome _
  | false => exact fun s hs => looking_outcome _ s (hs.mono (Nat.le_add_right n 2))

theorem looking_maintainCapacity (hn : n + 2 ≤ lastReaping) (capacity incoming : Nat) :
    Contract (Looking env key c₀ n) (maintainCapacityWithHeadroom env capacity incoming)
      (fun _ => Looking env key c₀ (n + 4)) (Idle env key c₀) := by
  refine (looking_outcome _).bind fun _ => (looking_outcome _).bind fun _ =>
    (looking_stat (Nat.le_of_add_right_le hn)).bind fun c => ?_
  dsimp only
  split
  · exact fun s hs => hs.mono (by omega)
  · exact (looking_outcome _).bind fun _ => (looking_stat hn).bind fun _ s hs => hs

theorem looking_checkAdmission (hn : n + 6 ≤ lastReaping) (expectedBytes : Nat) :
    Contract (Looking env key c₀ n) (checkAdmission env config expectedBytes) (fun _ => Idle env key c₀)
      (Idle env key c₀) := by
  refine (looking_enforceQuarantineCap (by omega)).bind fun _ => (looking_stat (by omega)).bind fun c => ?_
  refine (looking_outcome _).bind fun _ => (looking_outcome _).bind fun _ => ?_
  split
  · refine (looking_outcome _).bind fun _ => (looking_outcome _).bind fun _ => ?_
    exact (looking_maintainCapacity (by omega) _ _).bind fun _ s hs => (keeps_outcome _).contract s hs.1
  · exact fun s hs => hs.1

/-- The outcome of a reservation that was made. -/
def Reserved (env : Surroundings) (key : Id32) (generation : Nat) (c₀ : Catalog) (state : UploadState)
    (s : SessionState) : Prop :=
  state = .reserved ∧ ∃ base upload, Charged env c₀ base ∧ upload.state = .reserved ∧
    Holding key generation 0 base s upload

theorem Idle.reserveUpload {now : Nat} {state : UploadState} (h : Idle env key c₀ s)
    (hreserve : reserveUpload config key reservation now (s.next env).catalog = .ok (c', state)) :
    Reserved env key reservation.publicationGeneration c₀ state { s.next env with catalog := c' } := by
  simp only [Store.reserveUpload, h.next.absent, bind_eq_ok, exists_unit, pure_eq_ok, Prod.mk.injEq] at hreserve
  obtain ⟨-, _, hadmit, rfl, rfl⟩ := hreserve
  obtain ⟨-, -, _, _, rfl⟩ := admitReservation_eq_ok hadmit
  exact ⟨rfl, _, Upload.fresh reservation, h.next.charged, rfl, Table.get?_put_self, rfl, rfl, rfl, rfl⟩

theorem idle_reserveAdmitted (hn : n + 6 ≤ lastReaping) :
    Contract (Looking env key c₀ n) (reserveAdmitted env config key reservation (pure ()))
      (Reserved env key reservation.publicationGeneration c₀) (Idle env key c₀) := by
  refine (looking_checkAdmission hn _).bind fun _ => (keeps_pure _).contract.bind fun _ => ?_
  intro s hs
  cases ht : reserveUpload config key reservation (env.now s.scopes) (env.between s.scopes s.catalog) with
  | ok r =>
    rw [transact_ok ht]
    exact hs.reserveUpload ht
  | error e =>
    rw [transact_error ht]
    exact hs.next

/-- A reservation of a new key leaves nothing, or the session holding its upload. -/
theorem idle_reserve (hn : n + 8 ≤ lastReaping) : Contract (Looking env key c₀ n) (reserve env config key reservation)
    (Reserved env key reservation.publicationGeneration c₀) (Idle env key c₀) := by
  refine (looking_reap (by omega)).bind fun _ => (looking_outcome _).bind fun _ => ?_
  intro s hs
  have hnone := hs.next.1.absent
  cases hinspect : inspectReservation config key reservation (env.now s.scopes) (env.between s.scopes s.catalog) with
  | ok existing =>
    have habsent : existing = .absent := by
      unfold inspectReservation at hinspect
      have hnone' : (env.between s.scopes s.catalog).uploads.get? key = none := hnone
      simp only [hnone', bind_eq_ok, exists_unit, pure_eq_ok] at hinspect
      exact hinspect.2.symm
    subst habsent
    rw [bind_of_ok (inspect_ok hinspect)]
    exact idle_reserveAdmitted hn _ hs.next
  | error e =>
    rw [bind_of_error (inspect_error hinspect)]
    exact hs.1.next

/-! ## Holding the reservation -/

/-- The phase in which the session holds its upload. -/
def Held (key : Id32) (generation token base : Nat) (s : SessionState) : Prop :=
  ∃ upload, Holding key generation token base s upload

/-- A transaction that keeps what the session holds. -/
structure KeepsHold (key : Id32) (c c' : Catalog) : Prop where
  reservedBytes : c'.reservedBytes = c.reservedBytes
  row : ∀ upload, c.uploads.get? key = some upload → upload.state.active → ∃ upload',
    c'.uploads.get? key = some upload' ∧ upload'.state.active ∧ upload'.generation = upload.generation ∧
      upload'.sessionToken = upload.sessionToken ∧ upload'.reservedBytes = upload.reservedBytes

theorem KeepsHold.held (h : KeepsHold key s.catalog c')
    (hs : Holding key generation token base s upload) : Held key generation token base { s with catalog := c' } := by
  obtain ⟨upload', hrow, hactive, hgeneration, htoken, hbytes⟩ := h.row upload hs.row hs.active
  refine ⟨upload', hrow, hactive, hgeneration.trans hs.generation, htoken.trans hs.token, ?_⟩
  rw [h.reservedBytes, hs.ledger, hbytes]

theorem held_commit {t : Nat → Catalog → Except StoreError Catalog}
    (ht : ∀ now c c', t now c = .ok c' → KeepsHold key c c') :
    Keeps (Held key generation token base) (commit env t) := by
  rintro s ⟨upload, hs⟩
  have hnext := hs.next env
  cases h : t (env.now s.scopes) (env.between s.scopes s.catalog) with
  | ok c' =>
    rw [commit_ok h]
    exact KeepsHold.held (s := s.next env) (ht _ _ c' h) hnext
  | error e =>
    rw [commit_error h]
    exact ⟨upload, hnext⟩

theorem KeepsHold.of_uploads (huploads : c'.uploads = c.uploads) (hreserved : c'.reservedBytes = c.reservedBytes) :
    KeepsHold key c c' :=
  ⟨hreserved, fun upload hrow hactive => ⟨upload, by rw [huploads, hrow], hactive, rfl, rfl, rfl⟩⟩

theorem KeepsHold.of_put {upload upload' : Upload} (hget : c.uploads.get? key = some upload)
    (huploads : c'.uploads = c.uploads.put key upload') (hreserved : c'.reservedBytes = c.reservedBytes)
    (hactive : upload.state.active → upload'.state.active) (hgeneration : upload'.generation = upload.generation)
    (htoken : upload'.sessionToken = upload.sessionToken) (hbytes : upload'.reservedBytes = upload.reservedBytes) :
    KeepsHold key c c' := by
  refine ⟨hreserved, fun row hrow hrow' => ⟨upload', ?_, ?_⟩⟩
  · rw [huploads, Table.get?_put_self]
  · rw [hget, Option.some.injEq] at hrow
    subst hrow
    exact ⟨hactive hrow', hgeneration, htoken, hbytes⟩

theorem catalogChunks_keepsHold {objects : List ChunkObject} {keyEpoch : UInt64} {cataloged : List CatalogedChunk}
    (h : catalogChunks objects keyEpoch none c = .ok (c', cataloged)) : KeepsHold key c c' := by
  simp only [catalogChunks, bind_eq_ok, Prod.exists, pure_eq_ok, Prod.mk.injEq] at h
  obtain ⟨c₁, each, heach, rfl, -⟩ := h
  obtain ⟨chunks, rfl⟩ := catalogEach_frame heach
  exact .of_uploads rfl rfl

theorem commitProvisionalStageBatch_keepsHold {first now : Nat} {staged : List UploadChunk}
    (h : commitProvisionalStageBatch key token first staged now c = .ok c') : KeepsHold key c c' := by
  unfold commitProvisionalStageBatch at h
  split at h
  · cases h
    exact .of_uploads rfl rfl
  · simp only [bind_eq_ok, exists_unit, okOr_eq_ok, pure_eq_ok] at h
    obtain ⟨upload, hget, -, -, -, ledger, -, rfl⟩ := h
    exact .of_put hget rfl rfl id rfl rfl rfl

theorem Sealed.keepsHold {digest : Id32} (h : Sealed key digest c c') : KeepsHold key c c' := by
  obtain ⟨upload, hget, ⟨-, rfl⟩ | ⟨-, rfl⟩⟩ := h
  · exact .of_uploads rfl rfl
  · exact .of_put hget rfl rfl (fun _ => rfl) rfl rfl rfl

theorem held_work (work : SessionWork) : Keeps (Held key generation token base) (work.run env key token) := by
  cases work with
  | put objects keyEpoch =>
    refine held_commit fun _ c c' h => ?_
    simp only [map_eq_ok, Prod.exists, exists_and_right, exists_eq_right] at h
    obtain ⟨_, h⟩ := h
    exact catalogChunks_keepsHold h
  | stage first staged => exact held_commit fun _ _ _ h => commitProvisionalStageBatch_keepsHold h
  | verify expectedChunks sealDigest => exact held_commit fun _ _ _ h => (sealProvisionalUpload_eq_ok h).1.keepsHold

theorem held_runWork (work : List SessionWork) :
    Keeps (Held key generation token base) (runWork env key token work) := by
  induction work with
  | nil => exact keeps_pure ()
  | cons first rest ih => exact (held_work first).ignoring.bind fun _ => ih

theorem held_withdrawEach (promoted : List Id32) :
    Keeps (Held key generation token base) (withdrawEach env key promoted) := by
  induction promoted with
  | nil => exact keeps_pure ()
  | cons objectKey rest ih =>
    refine Keeps.bind (held_commit fun _ c c' h => ?_) fun _ => ih
    obtain ⟨_, heq, -⟩ := cleanupPromotion_eq c key objectKey
    cases h
    rw [heq]
    exact .of_uploads rfl rfl

/-! ## Reception and adoption -/

theorem markReceiving_of_room {upload : Upload} {now : Nat} (hget : c.uploads.get? key = some upload)
    (hstate : upload.state = .reserved) (hnow : now ≠ 0)
    (hroom : (requireCapacity c.outbox [⟨.receiving, .upload, key, upload.generation⟩]).isOk = true) :
    ∃ outbox, markReceiving key now c =
      .ok { c with uploads := c.uploads.put key { upload with state := .receiving }, outbox } := by
  obtain ⟨_, hroom⟩ := exists_ok_of_isOk hroom
  have hreserved : ¬ (upload.state ≠ .reserved ∧ upload.state ≠ .receiving) := fun h => h.1 hstate
  obtain ⟨outbox, hrecord⟩ := record_ok (c := c.setUpload key { upload with state := .receiving })
    [⟨.receiving, .upload, key, upload.generation⟩] hnow
  refine ⟨outbox, ?_⟩
  simp only [markReceiving, hget, okOr_some, ok_bind, rejectIf_of_not hreserved, hroom]
  exact hrecord

theorem markReceiving_of_not {upload : Upload} (now : Nat) (hget : c.uploads.get? key = some upload)
    (hroom : (requireCapacity c.outbox [⟨.receiving, .upload, key, upload.generation⟩]).isOk = false) :
    ∃ e, markReceiving key now c = .error e := by
  cases h : markReceiving key now c with
  | error e => exact ⟨e, rfl⟩
  | ok c' =>
    simp only [markReceiving, hget, okOr_some, ok_bind, bind_eq_ok, exists_unit] at h
    rw [h.2.1] at hroom
    cases hroom

theorem Holding.mark_of_room (h : Holding key generation token base s upload)
    (hstate : upload.state = .reserved) (hroom : hasRoom env .receiving key generation s = true) :
    ∃ s' upload', commit env (markReceiving key) s = .ok () s' ∧ upload'.state = .receiving ∧
      Holding key generation token base s' upload' := by
  have hnext := h.next env
  rw [hasRoom, ← h.generation] at hroom
  obtain ⟨outbox, hmark⟩ := markReceiving_of_room (c := env.between s.scopes s.catalog) hnext.row hstate
    (env.now_ne_zero s.scopes) hroom
  refine ⟨_, { upload with state := .receiving }, commit_ok (t := markReceiving key) hmark, rfl, ?_⟩
  exact ⟨Table.get?_put_self, rfl, h.generation, h.token, hnext.ledger⟩

theorem Holding.mark_of_not (h : Holding key generation token base s upload)
    (hroom : hasRoom env .receiving key generation s = false) :
    ∃ e, commit env (markReceiving key) s = .error e (s.next env) := by
  have hnext := h.next env
  rw [hasRoom, ← h.generation] at hroom
  obtain ⟨e, hmark⟩ := markReceiving_of_not (c := env.between s.scopes s.catalog) (env.now s.scopes) hnext.row
    hroom
  exact ⟨e, commit_error (t := markReceiving key) hmark⟩

theorem Holding.adopt {upload : Upload} (env : Surroundings) (h : Holding key generation token base s upload)
    (hstate : upload.state = .receiving) (token' : Nat) :
    ∃ s', commit env (adoptProvisionalSession key token') s = .ok () s' ∧
      Held key generation token' base s' := by
  have hnext := h.next env
  have hreceiving : ¬ upload.state ≠ .receiving := fun hne => hne hstate
  have hadopt : adoptProvisionalSession key token' (env.now s.scopes) (env.between s.scopes s.catalog) =
      .ok ((env.between s.scopes s.catalog).setUpload key { upload with
        sessionToken := token'
        leaseExpiresNs := env.now s.scopes + provisionalUploadLeaseNs }) := by
    have hrow : (env.between s.scopes s.catalog).uploads.get? key = some upload := hnext.row
    simp only [adoptProvisionalSession, hrow, okOr_some, ok_bind, rejectIf_of_not hreceiving]
    rfl
  exact ⟨_, commit_ok (t := adoptProvisionalSession key token') hadopt, _, Table.get?_put_self,
    h.active, h.generation, rfl, hnext.ledger⟩

/-! ## Aborting -/

/-- The phase after the abort. -/
def Closed (key : Id32) (base : Nat) (s : SessionState) : Prop := ∃ upload, Ended key base s upload

theorem abortUpload_of_active {upload : Upload} (now : Nat) (hget : c.uploads.get? key = some upload)
    (hactive : upload.state.active = true) :
    abortUpload key now c = (requireCapacity c.outbox [⟨.aborted, .upload, key, upload.generation⟩] >>= fun _ =>
      (releaseUpload key upload .aborted c).record [⟨.aborted, .upload, key, upload.generation⟩] now) := by
  have hended : ¬ (upload.state = .published ∨ upload.state = .quarantined) := by
    rintro (hs | hs) <;> rw [hs] at hactive <;> cases hactive
  have haborted : upload.state ≠ .aborted := by
    intro hs
    rw [hs] at hactive
    cases hactive
  simp only [abortUpload, hget, if_neg hended, if_neg haborted]

theorem Holding.abort_of_room (h : Holding key generation token base s upload)
    (hroom : hasRoom env .aborted key generation s = true) :
    ∃ s', commit env (abortUpload key) s = .ok () s' ∧ Closed key base s' := by
  have hnext := h.next env
  rw [hasRoom, ← h.generation] at hroom
  obtain ⟨_, hroom⟩ := exists_ok_of_isOk hroom
  obtain ⟨outbox, hrecord⟩ := record_ok (c := releaseUpload key upload .aborted (env.between s.scopes s.catalog))
    [⟨.aborted, .upload, key, upload.generation⟩] (env.now_ne_zero s.scopes)
  have habort := abortUpload_of_active (env.now s.scopes) hnext.row h.active
  have habort' : abortUpload key (env.now s.scopes) (env.between s.scopes s.catalog) =
      .ok { releaseUpload key upload .aborted (env.between s.scopes s.catalog) with outbox } := by
    refine habort.trans ?_
    rw [show (s.next env).catalog = env.between s.scopes s.catalog from rfl, hroom, ok_bind, hrecord]
  refine ⟨_, commit_ok (t := abortUpload key) habort', { upload with state := .aborted, reservedBytes := 0 },
    Table.get?_put_self, rfl, ?_⟩
  simp only [releaseUpload, Catalog.setUpload]
  exact Nat.sub_eq_of_eq_add hnext.ledger

theorem Holding.abort_of_not (h : Holding key generation token base s upload)
    (hroom : hasRoom env .aborted key generation s = false) :
    ∃ e, commit env (abortUpload key) s = .error e (s.next env) := by
  have hnext := h.next env
  rw [hasRoom, ← h.generation] at hroom
  have habort := abortUpload_of_active (env.now s.scopes) hnext.row h.active
  cases hcapacity : requireCapacity (env.between s.scopes s.catalog).outbox
      [⟨.aborted, .upload, key, upload.generation⟩] with
  | ok _ =>
    rw [hcapacity] at hroom
    cases hroom
  | error e =>
    refine ⟨e, commit_error (t := abortUpload key) (habort.trans ?_)⟩
    rw [show (s.next env).catalog = env.between s.scopes s.catalog from rfl, hcapacity, error_bind]

/-- An end of the session: released exactly when the condition holds. -/
def EndsBy (key : Id32) (generation token base : Nat) (room : Bool) (s : SessionState) : Prop :=
  (room = true ∧ Closed key base s) ∨ (room = false ∧ Held key generation token base s)

theorem EndsBy.decides {room : Bool} (h : EndsBy key generation token base room s) (hbase : Charged env c₀ base) :
    Decides env key c₀ room s := by
  obtain ⟨rfl, upload, hended⟩ | ⟨rfl, upload, hheld⟩ := h
  · exact hended.decides hbase
  · exact hheld.decides

/-- A release of what the session holds: it succeeds exactly when there is room, and otherwise changes nothing held. -/
def Releases (key : Id32) (generation token base : Nat) (room : Bool)
    (r : EStateM.Result StoreError SessionState Unit) : Prop :=
  (room = true ∧ ∃ s', r = .ok () s' ∧ Closed key base s') ∨
    (room = false ∧ ∃ e s', r = .error e s' ∧ Held key generation token base s')

theorem Releases.endsBy {room : Bool} {r : EStateM.Result StoreError SessionState Unit}
    (h : Releases key generation token base room r) : EndsBy key generation token base room (finalState r) := by
  obtain ⟨rfl, s', rfl, hclosed⟩ | ⟨rfl, e, s', rfl, hheld⟩ := h
  · exact Or.inl ⟨rfl, hclosed⟩
  · exact Or.inr ⟨rfl, hheld⟩

/-- A release that is tried again when it fails. -/
theorem Held.retry {release again : Session Unit} {room : SessionState → Bool}
    (hrelease : ∀ s, Held key generation token base s → Releases key generation token base (room s) (release s))
    (hagain : ∀ s, finalState (again s) = finalState (release s)) (h : Held key generation token base s) :
    EndsBy key generation token base (room s || room (finalState (release s)))
      (finalState (onError release again s)) := by
  obtain ⟨hroom, s', hrun, hclosed⟩ | ⟨hroom, e, s', hrun, hheld⟩ := hrelease s h
  · rw [onError_of_ok hrun, hroom, Bool.true_or]
    exact Or.inl ⟨rfl, hclosed⟩
  · rw [onError_of_error hrun, finalState_error, hagain, hrun, hroom, Bool.false_or]
    exact (hrelease s' hheld).endsBy

theorem Held.abort (env : Surroundings) (h : Held key generation token base s) :
    Releases key generation token base (hasRoom env .aborted key generation s)
      (commit env (abortUpload key) s) := by
  obtain ⟨upload, hs⟩ := h
  cases hroom : hasRoom env .aborted key generation s with
  | true => exact Or.inl ⟨rfl, hs.abort_of_room hroom⟩
  | false =>
    obtain ⟨e, habort⟩ := hs.abort_of_not hroom
    exact Or.inr ⟨rfl, e, _, habort, upload, hs.next env⟩

theorem closed_clear (env : Surroundings) (h : Closed key base s) :
    ∃ s', commit env (fun _ => clearProvisionalLedger key false) s = .ok () s' ∧ Closed key base s' := by
  obtain ⟨upload, hs⟩ := h
  have hnext := hs.next env
  have hrow : (env.between s.scopes s.catalog).uploads.get? key = some upload := hnext.row
  have haborted : ¬ upload.state ≠ (if false = true then UploadState.published else .aborted) := by
    intro hne
    exact hne hs.aborted
  have hclear : ∃ uploadChunks, clearProvisionalLedger key false (env.between s.scopes s.catalog) =
      .ok { (env.between s.scopes s.catalog).setUpload key { upload with nextChunkOrdinal := 0 } with
        uploadChunks } := by
    simp only [clearProvisionalLedger, hrow, okOr_some, ok_bind, rejectIf_of_not haborted]
    exact ⟨_, rfl⟩
  obtain ⟨_, hclear⟩ := hclear
  exact ⟨_, commit_ok (t := fun _ => clearProvisionalLedger key false) hclear, _, Table.get?_put_self, hs.aborted,
    hnext.ledger⟩

theorem held_clear : Keeps (Held key generation token base) (commit env fun _ => clearProvisionalLedger key false) := by
  refine held_commit fun _ c c' h => ?_
  simp only [clearProvisionalLedger, bind_eq_ok, exists_unit, okOr_eq_ok, rejectIf_eq_ok, not_not, pure_eq_ok,
    ne_eq] at h
  obtain ⟨upload, hget, hstate, rfl⟩ := h
  refine .of_put hget rfl rfl (fun hactive => ?_) rfl rfl rfl
  rw [hstate] at hactive
  cases hactive

/-! ## Cancelling -/

theorem Holding.checkToken {upload : Upload} {stale : StoreError} (h : Holding key generation token base s upload) :
    inspect env (fun _ => checkToken key token stale) s = .ok () (s.next env) := by
  refine inspect_ok ?_
  have hrow : (env.between s.scopes s.catalog).uploads.get? key = some upload := (h.next env).row
  have hcurrent : ¬ (upload.state.active = true ∧ upload.sessionToken ≠ token) := fun hne => hne.2 h.token
  simp only [Store.checkToken, hrow, rejectIf_of_not hcurrent]

theorem abortRoom_eq {stale : StoreError} :
    abortRoom env key token generation stale s = hasRoom env .aborted key generation (s.next env) := by
  rw [abortRoom, finalState_inspect]

theorem Held.cancel (env : Surroundings) (h : Held key generation token base s) :
    Releases key generation token base (cancelRoom env key token generation s)
      (cancelProvisionalUpload env key token s) := by
  obtain ⟨upload, hs⟩ := h
  have hnext := hs.next env
  have hdirectory : finishUploadDirectory env (s.next env) = outcome (env.finishDirectory (s.scopes + 1))
      (s.next env) := rfl
  rw [cancelRoom, abortRoom_eq, cancelProvisionalUpload, bind_of_ok hs.checkToken, bind_apply, hdirectory]
  cases hfinish : env.finishDirectory (s.scopes + 1) with
  | error e => exact Or.inr ⟨rfl, e, _, rfl, upload, hnext⟩
  | ok _ =>
    simp only [outcome]
    obtain ⟨hroom, s₁, habort, hclosed⟩ | ⟨hroom, e, s₁, habort, hheld⟩ := Held.abort env ⟨upload, hnext⟩
    · obtain ⟨s₂, hclear, hclosed'⟩ := closed_clear env hclosed
      rw [bind_of_ok habort, hroom]
      exact Or.inl ⟨rfl, s₂, hclear, hclosed'⟩
    · rw [bind_of_error habort, hroom]
      exact Or.inr ⟨rfl, e, s₁, rfl, hheld⟩

theorem Held.failBegin (env : Surroundings) {stale : StoreError} (h : Held key generation token base s) :
    EndsBy key generation token base (abortRoom env key token generation stale s)
      (finalState (failProvisionalBegin env key token s)) := by
  obtain ⟨upload, hs⟩ := h
  have hnext := hs.next env
  have hprogram : finalState (failProvisionalBegin env key token s) =
      finalState (commit env (fun _ => clearProvisionalLedger key false)
        (finalState (commit env (abortUpload key) (s.next env)))) := by
    have habort : finalState (abortProvisionalSession env key token s) =
        finalState (commit env (abortUpload key) (s.next env)) := by
      rw [abortProvisionalSession, bind_of_ok hs.checkToken]
    rw [failProvisionalBegin, bind_of_ok (ignoring_apply _ _), habort]
    rfl
  rw [abortRoom_eq, hprogram]
  obtain ⟨hroom, s₁, habort, hclosed⟩ | ⟨hroom, e, s₁, habort, hheld⟩ := Held.abort env ⟨upload, hnext⟩
  · obtain ⟨s₂, hclear, hclosed'⟩ := closed_clear env hclosed
    rw [habort, finalState_ok, hclear]
    exact Or.inl ⟨hroom, hclosed'⟩
  · rw [habort, finalState_error]
    exact Or.inr ⟨hroom, held_clear s₁ hheld⟩

theorem Held.exit (env : Surroundings) (exit : ProvisionalExit) (h : Held key generation token base s) :
    EndsBy key generation token base (exit.room env key token generation s)
      (finalState (exit.run env key token s)) := by
  cases exit with
  | dropped => exact (h.cancel env).endsBy
  | cancelled =>
    rw [ProvisionalExit.run, finalState_ignoring]
    exact h.retry (fun _ hs => hs.cancel env) fun _ => rfl
  | sealFailed promoted =>
    simp only [ProvisionalExit.run, ProvisionalExit.room, bind_of_ok (ignoring_apply _ _), finalState_ignoring]
    exact (Held.cancel env (held_withdrawEach promoted s h)).endsBy

/-! ## Whole sessions -/

theorem runWork_ok (work : List SessionWork) (s : SessionState) :
    runWork env key token work s = .ok () (finalState (runWork env key token work s)) := by
  induction work generalizing s with
  | nil => rfl
  | cons first rest ih =>
    rw [runWork, bind_of_ok (ignoring_apply _ _)]
    exact ih _

theorem Held.uploadExit (env : Surroundings) (exit : UploadExit) (h : Held key generation token base s) :
    EndsBy key generation token base (exit.room env key generation s) (finalState (exit.run env key s)) := by
  cases exit with
  | dropped => exact (h.abort env).endsBy
  | cancelled =>
    rw [UploadExit.run, finalState_ignoring]
    exact h.retry (fun _ hs => hs.abort env) fun _ => rfl

/-- The begin of a writer or an export session, which differ in the replay of a published upload. -/
theorem Looking.writes (config : StoreConfig) (reservation : UploadReservation) (work : List SessionWork)
    (exit : UploadExit) {begin_ : UploadState → Session Unit} (h : Looking env key c₀ 0 s)
    (hbegin : begin_ .reserved = do
      commit env (markReceiving key)
      runWork env key 0 work
      exit.run env key) :
    Decides env key c₀ (uploadRoom env config key reservation work exit s)
      (finalState ((reserve env config key reservation >>= begin_) s)) := by
  cases hreserve : reserve env config key reservation s with
  | error e s₁ =>
    rw [bind_of_error hreserve, uploadRoom, hreserve]
    exact ((idle_reserve (by decide)).of_error h hreserve).decides
  | ok state s₁ =>
    obtain ⟨rfl, base, upload, hbase, hstate, hheld⟩ := (idle_reserve (by decide)).of_ok h hreserve
    simp only [bind_of_ok hreserve, hbegin, uploadRoom, hreserve]
    cases hroom : hasRoom env .receiving key reservation.publicationGeneration s₁ with
    | true =>
      obtain ⟨s₂, upload', hmark, -, hheld'⟩ := hheld.mark_of_room hstate hroom
      rw [bind_of_ok hmark, hmark, finalState_ok, bind_of_ok (runWork_ok work s₂), Bool.true_and]
      exact (Held.uploadExit env exit (held_runWork work s₂ ⟨upload', hheld'⟩)).decides hbase
    | false =>
      obtain ⟨e, hmark⟩ := hheld.mark_of_not hroom
      rw [bind_of_error hmark, finalState_error]
      exact (hheld.next env).decides

/-- What a provisional session does once it has its reservation. -/
def afterReservation (env : Surroundings) (key : Id32) (work : List SessionWork) (exit : ProvisionalExit)
    (token : Nat) : Session Unit := do
  adoptUpload env key token .reserved
  onError (outcome env.createDirectory) (failProvisionalBegin env key token)
  runWork env key token work
  exit.run env key token

theorem Holding.afterReservation {upload : Upload} (env : Surroundings) (work : List SessionWork)
    (exit : ProvisionalExit) (token : Nat) (h : Holding key generation 0 base s upload)
    (hstate : upload.state = .reserved) :
    ∃ token', EndsBy key generation token' base (afterReservationRoom env key generation work exit token s)
      (finalState (afterReservation env key work exit token s)) := by
  cases hroom : hasRoom env .receiving key generation s with
  | false =>
    -- the upload could not start receiving: begin aborts it at once
    obtain ⟨e, hmark⟩ := h.mark_of_not hroom
    have hneeds : afterReservationRoom env key generation work exit token s =
        hasRoom env .aborted key generation (s.next env) := by
      simp only [afterReservationRoom, hroom, Bool.false_eq_true, if_false, hmark, finalState_error]
    have hadopt : adoptUpload env key token .reserved s =
        .error e (finalState (commit env (abortUpload key) (s.next env))) :=
      bind_of_error (onError_of_error hmark)
    rw [hneeds, Store.afterReservation, bind_of_error hadopt, finalState_error]
    exact ⟨0, (Held.abort env ⟨upload, h.next env⟩).endsBy⟩
  | true =>
    obtain ⟨s₁, upload₁, hmark, hstate₁, h₁⟩ := h.mark_of_room hstate hroom
    obtain ⟨s₂, hadoptSession, h₂⟩ := h₁.adopt env hstate₁ token
    have hadopt : adoptUpload env key token .reserved s = .ok () s₂ := by
      rw [adoptUpload, bind_of_ok (onError_of_ok hmark)]
      exact onError_of_ok hadoptSession
    refine ⟨token, ?_⟩
    simp only [afterReservationRoom, hroom, if_true, hadopt, finalState_ok, Store.afterReservation,
      bind_of_ok hadopt]
    cases hdirectory : env.createDirectory with
    | error e =>
      rw [bind_of_error (onError_of_error outcome_error)]
      exact h₂.failBegin env
    | ok _ =>
      rw [bind_of_ok (onError_of_ok outcome_ok), bind_of_ok (runWork_ok work s₂)]
      exact Held.exit env exit (held_runWork work s₂ h₂)

theorem Looking.provisional (config : StoreConfig) (reservation : UploadReservation) (work : List SessionWork)
    (exit : ProvisionalExit) (h : Looking env key c₀ 0 s) :
    Decides env key c₀ (provisionalRoom env config key reservation work exit s)
      (finalState ((SessionKind.provisional exit).run env config key reservation work s)) := by
  have hcontract : Contract (Looking env key c₀ 0) (stat env >>= fun _ => reserve env config key reservation)
      (Reserved env key reservation.publicationGeneration c₀) (Idle env key c₀) :=
    (looking_stat (by decide)).bind fun _ => idle_reserve (by decide)
  have hprogram : (SessionKind.provisional exit).run env config key reservation work =
      ((stat env >>= fun _ => reserve env config key reservation) >>= fun state =>
        outcome env.sessionToken >>= fun token =>
          (if state = .published then inspect env fun _ c => okOr ((c.uploads.get? key).map (·.sessionToken)) noRows
          else do
            adoptUpload env key token state
            onError (outcome env.createDirectory) (failProvisionalBegin env key token)
            return token) >>= fun token => runWork env key token work >>= fun _ => exit.run env key token) := by
    simp only [SessionKind.run, ProvisionalExportSession.begin, beginProvisionalUpload, bind_assoc]
  rw [hprogram]
  cases hreserve : (stat env >>= fun _ => reserve env config key reservation) s with
  | error e s₁ =>
    rw [bind_of_error hreserve, provisionalRoom, hreserve]
    exact (hcontract.of_error h hreserve).decides
  | ok state s₁ =>
    obtain ⟨rfl, base, upload, hbase, hstate, hheld⟩ := hcontract.of_ok h hreserve
    rw [bind_of_ok hreserve, provisionalRoom, hreserve]
    cases htoken : env.sessionToken with
    | error e => exact hheld.decides
    | ok token =>
      obtain ⟨token', hends⟩ := hheld.afterReservation env work exit token hstate
      rw [bind_of_ok outcome_ok]
      simp only [reduceCtorEq, if_false, bind_assoc, pure_bind]
      exact hends.decides hbase

end Kvpack.Store
