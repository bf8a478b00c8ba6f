import Kvpack.Store.Lemmas.Fencing
import Kvpack.Store.Theorems.Ledgers

/-!
# Provisional sessions and fencing

A token keeps a stale session out only where it is looked at in the transaction that acts. The removal of the
directory, the abort and the writing of files come after the look, so a session that takes the upload in between loses
to the stale one.
-/

namespace Kvpack.Store.Fencing

open Base Kvpack.Core

variable {C : Crypto} {config : StoreConfig} {key : Id32} {n : Nat} {es : List (Event n)}

/-- While no session takes the upload between a look of another and what that one does next, a session with an
outdated token changes neither the reservation nor the ledger nor the files of the current one. -/
theorem sessions_fenced (h : Along (step C config key) Alone State.initial es) :
    Along (step C config key) (Fenced C config key) State.initial es :=
  h.of_invariant (P := Consistent key) (fun _ _ halone hs => hs.step halone) (fun _ _ _ hs => hs.fenced) .initial

/-! ## Two sessions -/

/-- The next tasks of a session, one for each entry a listing may come to. -/
def acts (i : Fin 2) (entries : List (Option Nat)) : List (Event 2) := entries.map fun entry => .act i ⟨1, entry, none⟩

/-- The first begin of an upload, or the first after an abort that left nothing. -/
def firstBegin (i : Fin 2) (token tasks : Nat) : List (Event 2) :=
  .call i (.begin byteReservation token) :: acts i (List.replicate tasks none)

def stageOne (i : Fin 2) : List (Event 2) :=
  .call i (.stage [⟨[(0, [1])], 0, [⟨repeatedId 5, repeatedId 6⟩]⟩]) :: acts i [none, none, none]

/-- A session stages a chunk and cancels; the next starts over, undisturbed by another cancellation of the first. -/
def oneAfterTheOther : List (Event 2) :=
  firstBegin 0 7 10 ++ stageOne 0 ++ .call 0 .cancel :: acts 0 [none, none, some 0, none, none, none] ++
    firstBegin 1 8 12 ++ stageOne 1 ++ .call 0 .cancel :: acts 0 [none]

/-- A session looks at its token to cancel, another resumes the upload, and the first goes on. -/
def overtaken : List (Event 2) :=
  firstBegin 0 7 10 ++ stageOne 0 ++ .call 0 .cancel :: acts 0 [none] ++ firstBegin 1 8 5

set_option maxRecDepth 20000 in
theorem oneAfterTheOther_fenced :
    Along (step checksumCrypto byteConfig (repeatedId 20)) Alone State.initial oneAfterTheOther ∧
      current (repeatedId 20) (run (step checksumCrypto byteConfig (repeatedId 20)) State.initial
        oneAfterTheOther).shared.catalog = some 8 ∧
      Along (step checksumCrypto byteConfig (repeatedId 20)) (Fenced checksumCrypto byteConfig (repeatedId 20))
        State.initial oneAfterTheOther := by
  have halone : Along (step checksumCrypto byteConfig (repeatedId 20)) Alone State.initial oneAfterTheOther := by
    decide
  exact ⟨halone, by decide, sessions_fenced halone⟩

set_option maxRecDepth 20000 in
/-- The cancellation of the first removes the file and the reservation of the resumed session. -/
theorem overtaken_not_fenced :
    let next := step checksumCrypto byteConfig (repeatedId 20)
    let s := run next State.initial overtaken
    let s' := run next s (acts 0 [none, some 0, none, none])
    current (repeatedId 20) s.shared.catalog = some 8 ∧ s.shared.files = [(0, [1])] ∧
      s'.shared.files = [] ∧ (s'.shared.catalog.uploads.get? (repeatedId 20)).map (·.state) = some .aborted ∧
      ¬ Along next (Fenced checksumCrypto byteConfig (repeatedId 20)) State.initial
        (overtaken ++ acts 0 [none, some 0]) := by
  decide

end Kvpack.Store.Fencing
