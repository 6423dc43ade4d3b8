import Mathlib.Data.List.Forall2
import Mathlib.Tactic.Cases

/-! Rules that are combined by letting a denial win: what a list of rules permits is what
one of them allows and none of them denies. The order of the rules does not matter, and
neither do rules that say nothing. -/
namespace Jolt.Base

inductive Effect where
  | allow | deny | silent
  deriving DecidableEq

section Flags

variable {σ ρ : Type} {step : σ → ρ → σ} {flag : σ → Bool} {p : ρ → Bool} {Inv : σ → Prop}

/-- A flag that a loop raises at the elements with a property stands for one of them. -/
theorem foldl_flag (kept : ∀ s r, Inv s → Inv (step s r))
    (raised : ∀ s r, Inv s → flag (step s r) = (flag s || p r)) (l : List ρ) {s : σ} (start : Inv s) :
    flag (l.foldl step s) = (flag s || l.any p) := by
  induction l generalizing s with
  | nil => simp
  | cons r l ih => rw [List.foldl_cons, ih (kept s r start), raised s r start, List.any_cons, Bool.or_assoc]

theorem any_or (l : List ρ) (p q : ρ → Bool) :
    (l.any fun r => p r || q r) = (l.any p || l.any q) := by
  induction l with
  | nil => rfl
  | cons r l ih =>
    rw [List.any_cons, List.any_cons, List.any_cons, ih]
    cases p r <;> cases q r <;> simp

end Flags

section Permits

variable {ρ σ : Type} {effect other : ρ → Effect} {rules : List ρ}

def permits (effect : ρ → Effect) (rules : List ρ) : Bool :=
  rules.any (fun r => effect r = .allow) && !rules.any (fun r => effect r = .deny)

theorem permits_iff : permits effect rules = true ↔
    (∃ r ∈ rules, effect r = .allow) ∧ ∀ r ∈ rules, effect r ≠ .deny := by
  simp [permits]

theorem permits_map (f : σ → ρ) (l : List σ) :
    permits effect (l.map f) = permits (fun s => effect (f s)) l := by
  simp [permits, List.any_map, Function.comp_def]

theorem permits_congr (same : ∀ r ∈ rules, effect r = other r) :
    permits effect rules = permits other rules := by
  rw [Bool.eq_iff_iff, permits_iff, permits_iff]
  constructor
  · rintro ⟨⟨r, inside, allowed⟩, free⟩
    exact ⟨⟨r, inside, same r inside ▸ allowed⟩, fun r inside => same r inside ▸ free r inside⟩
  rintro ⟨⟨r, inside, allowed⟩, free⟩
  exact ⟨⟨r, inside, (same r inside).symm ▸ allowed⟩,
    fun r inside => (same r inside).symm ▸ free r inside⟩

theorem any_forall₂ {more : σ → Effect} {others : List σ}
    (same : List.Forall₂ (fun r s => effect r = more s) rules others) (e : Effect) :
    rules.any (fun r => effect r = e) = others.any fun s => more s = e := by
  induction same with
  | nil => rfl
  | cons first _ ih => simp [first, ih]

theorem permits_forall₂ {more : σ → Effect} {others : List σ}
    (same : List.Forall₂ (fun r s => effect r = more s) rules others) :
    permits effect rules = permits more others := by
  rw [permits, permits, any_forall₂ same, any_forall₂ same]

/-- Rules that say nothing may be dropped. -/
theorem permits_filter {keep : ρ → Bool} (silent : ∀ r ∈ rules, keep r = false → effect r = .silent) :
    permits effect (rules.filter keep) = permits effect rules := by
  have speaking : ∀ r ∈ rules, effect r ≠ .silent → r ∈ rules.filter keep := by
    intro r inside speaks
    cases kept : keep r with
    | true => exact List.mem_filter.mpr ⟨inside, kept⟩
    | false => exact absurd (silent r inside kept) speaks
  rw [Bool.eq_iff_iff, permits_iff, permits_iff]
  constructor
  · rintro ⟨⟨r, inside, allowed⟩, free⟩
    refine ⟨⟨r, (List.mem_filter.mp inside).1, allowed⟩, fun r inside denied => ?_⟩
    exact free r (speaking r inside (by simp [denied])) denied
  · rintro ⟨⟨r, inside, allowed⟩, free⟩
    exact ⟨⟨r, speaking r inside (by simp [allowed]), allowed⟩,
      fun r inside => free r (List.mem_filter.mp inside).1⟩

end Permits

end Jolt.Base
