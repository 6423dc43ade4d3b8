import Jolt.Pki.Lifetime

/-! The key that signs after a pass. A pass that comes late makes a successor for a key that has
expired, but the successor takes over only at a later pass. -/
namespace Jolt.Pki
open Jolt.Trust Jolt.Base List

section Signing

variable {env : Env} {s : Tower} {pass : Pass}

/-- The key that signs is listed in the bundle then current and has not expired. -/
def SignerInForce (now : Int) (outcome : Outcome) : Prop :=
  ∃ view, outcome.view = some view ∧
    ∃ entry ∈ view.bundle.signingKeys, entry.id = view.signingID ∧ now < entry.notAfter

theorem Stage.refused (listing : env.Listing) (stage : Stage env s)
    (unfit : ¬Fits env pass.now s.db) : (ensureLocked env pass s.db).error ≠ none := by
  simp only [Fits, not_forall, not_le] at unfit
  obtain ⟨root, active, due, short⟩ := unfit
  obtain ⟨other, at_last, kept⟩ := stage.databaseKept <| by
    intro none_left
    have listed_nil : env.listed [] = [] := perm_nil.mp (listing [])
    simp [activeRoot, lastIn, none_left, listed_nil] at active
  cases active.symm.trans (kept.roots.activeRoot listing)
  rw [ensureLocked_refused listing kept due short]
  exact Option.some_ne_none _

theorem sample_first : Scheduled sampleEnv Tower.empty (samplePass 0) :=
  ⟨by decide, nofun, sample_makes (by decide +kernel) (by decide), by decide +kernel⟩

/-- The pass of this day returns without an error and leaves no key in force to sign. -/
def expiredOn (today : Nat) (db : Database) : Bool :=
  let outcome := ensureLocked sampleEnv (samplePass today) db
  freeNames today db && outcome.error.isNone && outcome.published.all (fun b =>
      decide (parseBundle sampleCrypto (sampleCrypto.marshal b) = .ok b)) &&
    outcome.view.all fun view => view.bundle.signingKeys.all fun entry =>
      entry.id != view.signingID || decide (entry.notAfter ≤ today * day)

end Signing

end Jolt.Pki
