import Mathlib.Logic.Basic

/-! Runs of a machine whose steps are labelled with events and may hand out an answer.
A condition restricts which steps a run may take; what every such step keeps, the
run keeps. -/
namespace Jolt.Base

variable {σ ε α : Type} (next : σ → ε → Option (σ × Option α))

/-- The runs whose steps all meet a condition. -/
inductive Run (meets : σ → ε → σ → Prop) (s : σ) : σ → Prop where
  | refl : Run meets s s
  | step {t u : σ} {e : ε} {a : Option α} (run : Run meets s t) (moved : next t e = some (u, a))
      (met : meets t e u) : Run meets s u

variable {next} {meets : σ → ε → σ → Prop} {s t u : σ}

namespace Run

/-- What one step keeps, a run keeps. -/
theorem keeps {P : σ → Prop} (run : Run next meets s t)
    (kept : ∀ s e u a, next s e = some (u, a) → meets s e u → P s → P u) (start : P s) : P t := by
  induction run with
  | refl => exact start
  | step _ moved met ih => exact kept _ _ _ _ moved met ih

theorem mono {other : σ → ε → σ → Prop} (run : Run next meets s t)
    (implies : ∀ s e u, meets s e u → other s e u) : Run next other s t := by
  induction run with
  | refl => exact .refl
  | step _ moved met ih => exact .step ih moved (implies _ _ _ met)

/-- A run has a first step, or none. -/
theorem head (run : Run next meets s u) :
    s = u ∨ ∃ e t a, next s e = some (t, a) ∧ meets s e t ∧ Run next meets t u := by
  induction run with
  | refl => exact .inl rfl
  | step _ moved met ih =>
    rcases ih with rfl | ⟨e, t, a, first, meets_, rest⟩
    · exact .inr ⟨_, _, _, moved, met, .refl⟩
    · exact .inr ⟨e, t, a, first, meets_, .step rest moved met⟩

end Run

variable (next) in
/-- The machine after a list of events, if each of them can happen and passes a check. -/
def replay (check : σ → ε → σ → Bool) (s : σ) : List ε → Option σ
  | [] => some s
  | e :: rest =>
    match next s e with
    | none => none
    | some (t, _) => if check s e t then replay check t rest else none

theorem Run.trans (first : Run next meets s t) (second : Run next meets t u) : Run next meets s u := by
  induction second with
  | refl => exact first
  | step _ moved met ih => exact .step ih moved met

/-- A list of events that can happen one after another is a run. -/
theorem Run.of_replay {check : σ → ε → σ → Bool} (sound : ∀ s e u, check s e u = true → meets s e u)
    {events : List ε} (replayed : replay next check s events = some t) : Run next meets s t := by
  induction events generalizing s with
  | nil =>
    cases replayed
    exact .refl
  | cons e rest ih =>
    rw [replay] at replayed
    split at replayed
    · cases replayed
    rename_i u _ moved
    split at replayed
    · rename_i checked
      have first : Run next meets s u := .step .refl moved (sound s e u checked)
      exact first.trans (ih replayed)
    · cases replayed

/-- A list of events that can all happen is a run to where it ends. -/
theorem Run.of_possible {check : σ → ε → σ → Bool}
    (sound : ∀ s e u, check s e u = true → meets s e u) {events : List ε}
    (possible : (replay next check s events).isSome = true) (d : σ) :
    Run next meets s ((replay next check s events).getD d) := by
  obtain ⟨t, replayed⟩ := Option.isSome_iff_exists.mp possible
  rw [replayed]
  exact Run.of_replay sound replayed

end Jolt.Base
