import Kvpack.Store.Lemmas.Protection
import Kvpack.Store.Theorems.Ledgers

/-!
# Readers, writers and collectors together

What an available row promises about its file, and what a pin or a lease promises about it, under every interleaving.
-/

namespace Kvpack.Store

open Base Kvpack.Core

variable {C : Crypto} {config : StoreConfig} {es : List Event}

/-! ## Files behind available rows -/

/-- An available row has its file, which no operation is going to remove, as long as every step met the condition. -/
theorem available_row_has_file (hsteps : Along (step C config) (fun s e => fileStep s e) State.initial es) :
    let s := run (step C config) State.initial es
    ∀ key row, s.catalog.chunks.get? key = some row → row.locationState = .available →
      key ∈ s.files ∧ key ∉ s.removing := by
  intro s key row hrow hstate
  have hsound : FilesSound s := run_filesSound hsteps
  have havailable : isAvailable s.catalog.chunks key := isAvailable_iff.mpr ⟨row, hrow, hstate⟩
  exact ⟨hsound.served key havailable, fun hremoving => (hsound.removing key hremoving).1 havailable⟩

/-- An object is written by an upload that is then aborted. -/
def abandonedEvents (key : Id32) (object : ChunkObject) : List Event :=
  .transact (.reserve key byteReservation) :: putEvents object ++ [.transact (.abort key)]

/-- The collection of one object, after its first transaction. -/
def collectEvents (object : ChunkObject) : List Event :=
  let moved : Moved := ⟨object.objectKey, object.bytes.length, false⟩
  [.checkVictim ⟨[⟨object.objectKey, false⟩], none, []⟩, .moveVictim ⟨[], some moved, []⟩,
    .finishCollection ⟨[], none, [moved]⟩]

/-- An object is collected and then written again. -/
def byteRewrite : List Event :=
  abandonedEvents (repeatedId 20) byteObject ++ .selectVictims [repeatedId 5] :: collectEvents byteObject ++
    .transact (.reserve (repeatedId 21) byteReservation) :: putEvents byteObject

set_option maxRecDepth 20000 in
theorem byteRewrite_has_file :
    let s := run (step checksumCrypto byteConfig) State.initial byteRewrite
    Along (step checksumCrypto byteConfig) (fun s e => fileStep s e) State.initial byteRewrite ∧
      isAvailable s.catalog.chunks (repeatedId 5) ∧ repeatedId 5 ∈ s.files ∧ repeatedId 5 ∉ s.removing := by
  have hsteps : Along (step checksumCrypto byteConfig) (fun s e => fileStep s e) State.initial byteRewrite := by
    decide +kernel
  have havailable : isAvailable (run (step checksumCrypto byteConfig) State.initial byteRewrite).catalog.chunks
      (repeatedId 5) := by decide +kernel
  obtain ⟨row, hrow, hstate⟩ := isAvailable_iff.mp havailable
  exact ⟨hsteps, havailable, available_row_has_file hsteps (repeatedId 5) row hrow hstate⟩

set_option maxRecDepth 20000 in
/-- A put finds the file of an object being collected, and catalogues it after the file is gone. -/
theorem putDuringCollection_lost_file :
    let s := run (step checksumCrypto byteConfig) State.initial
      (abandonedEvents (repeatedId 20) byteObject ++
        [.selectVictims [repeatedId 5], .transact (.reserve (repeatedId 21) byteReservation), .beginPut 1 none,
          .lookUp (putOf byteObject none) byteObject, .inspectTarget (putOf byteObject (some .inspect)) 0] ++
        collectEvents byteObject ++ [.catalogPut (putOf byteObject (some (.done false)))])
    isAvailable s.catalog.chunks (repeatedId 5) ∧ repeatedId 5 ∉ s.files := by
  decide +kernel

/-! ## Protected objects -/

/-- What protects an object when its file is removed came after it stopped being available, as long as every step met
the condition. If the puts met theirs too, it has not been available since. -/
theorem protection_came_later (hsteps : Along (step C config) (fun s e => protectStep s e) State.initial es) {e : Event}
    {s' : State} {key : Id32} (hexec : exec C config (run (step C config) State.initial es) e = .ok s')
    (hremoves : e.removes = some key) :
    let after (es : List Event) : State := run (step C config) State.initial es
    ∃ es₀ es₁, es₀ <+: es₁ ∧ es₁ <+: es ∧
      isAvailable (after es₀).catalog.chunks key ∧ ¬ isAvailable (after es₁).catalog.chunks key ∧
      (Along (step C config) (fun s e => fileStep s e) State.initial es →
        ∀ es₂, es₁ <+: es₂ → es₂ <+: es → ¬ isAvailable (after es₂).catalog.chunks key) ∧
      (∀ pinId, (after es).catalog.pins.get? pinId = some key → (after es₁).catalog.pins.get? pinId ≠ some key) ∧
      ∀ leaseId lease, (after es).catalog.sourceLeases.get? leaseId = some lease →
        lease.protects (after es).clock .chunk key → (after es₁).catalog.sourceLeases.get? leaseId = none := by
  intro after
  obtain ⟨es₀, es₁, h₀, h₁, havailable, hunavailable, hcondemned, hpins, hleases⟩ :=
    run_condemned hsteps (exec_removes hexec hremoves)
  refine ⟨es₀, es₁, h₀, h₁, havailable, hunavailable, fun hputs es₂ hle₁ hle => ?_, fun pinId _ => hpins pinId, hleases⟩
  obtain ⟨rest, rfl⟩ := hle
  refine ((run_filesSound (along_append.mp hputs).1).removing key (State.mem_removing.mpr ?_)).1
  exact (State.mem_condemned.mp (hcondemned es₂ hle₁ (List.prefix_append es₂ rest))).imp_right Or.inl

/-- The object of a published manifest, demoted and selected once more. -/
def twiceSelected : List Event :=
  uploadEvents (repeatedId 20) byteObject [bytePublication] ++
    [.selectDemotions [repeatedId 5], .demoteVictims [⟨repeatedId 5, .residentFp16, 8192⟩],
      .selectDemotions [repeatedId 5]]

def secondDemotion : Event := .demoteVictims [⟨repeatedId 5, .restQuantized, 8192⟩]

set_option maxRecDepth 20000 in
theorem twiceSelected_protection :
    let es := twiceSelected ++ [secondDemotion]
    Along (step checksumCrypto byteConfig) (fun s e => protectStep s e) State.initial es ∧
      ∃ es₀ es₁, es₀ <+: es₁ ∧ es₁ <+: es ∧
        isAvailable (run (step checksumCrypto byteConfig) State.initial es₀).catalog.chunks (repeatedId 5) ∧
        ¬ isAvailable (run (step checksumCrypto byteConfig) State.initial es₁).catalog.chunks (repeatedId 5) := by
  intro es
  have hsteps : Along (step checksumCrypto byteConfig) (fun s e => protectStep s e) State.initial es := by
    decide +kernel
  obtain ⟨s', hexec⟩ := exists_ok_of_isOk
    (x := exec checksumCrypto byteConfig (run (step checksumCrypto byteConfig) State.initial es)
      (.dropFile [repeatedId 5])) (by decide +kernel)
  obtain ⟨es₀, es₁, h₀, h₁, havailable, hunavailable, -⟩ := protection_came_later hsteps hexec rfl
  exact ⟨hsteps, es₀, es₁, h₀, h₁, havailable, hunavailable⟩

set_option maxRecDepth 20000 in
/-- A pin between the selection of a victim and the demotion: the object was available until then, and its file is
removed under the pin. -/
theorem pinned_then_demoted :
    let es := twiceSelected ++ [.transact (.pin [(byteChunk 2, repeatedId 30)]), secondDemotion]
    let s := run (step checksumCrypto byteConfig) State.initial es
    s.catalog.pins.get? (repeatedId 30) = some (repeatedId 5) ∧ repeatedId 5 ∈ s.files ∧
      ((exec checksumCrypto byteConfig s (.dropFile [repeatedId 5])).toOption.map fun s' =>
        decide (repeatedId 5 ∈ s'.files)) = some false ∧
      ∀ es₁ ∈ es.inits, ¬ isAvailable (run (step checksumCrypto byteConfig) State.initial es₁).catalog.chunks
          (repeatedId 5) →
        (run (step checksumCrypto byteConfig) State.initial es₁).catalog.pins.get? (repeatedId 30) =
          some (repeatedId 5) ∨
        ∀ es₀ ∈ es₁.inits, ¬ isAvailable (run (step checksumCrypto byteConfig) State.initial es₀).catalog.chunks
          (repeatedId 5) := by
  decide +kernel

end Kvpack.Store
