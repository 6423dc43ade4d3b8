import Mathlib.Data.List.AList

/-! A directory of named files and the single file changes made to it. An operation
is the list of its changes; a crash leaves the directory after some first part of
that list. -/
namespace Jolt.Base
open List

variable {ν φ : Type} [DecidableEq ν]

abbrev Dir (ν φ : Type) := AList (fun _ : ν => φ)

/-- A single file change, atomic and durable. -/
inductive Action (ν φ : Type) where
  | put (name : ν) (file : φ)
  | remove (name : ν)

def Action.name : Action ν φ → ν
  | .put name _ => name
  | .remove name => name

def perform (d : Dir ν φ) : Action ν φ → Dir ν φ
  | .put name file => d.insert name file
  | .remove name => d.erase name

def performAll (d : Dir ν φ) (actions : List (Action ν φ)) : Dir ν φ :=
  actions.foldl perform d

@[simp] theorem performAll_nil (d : Dir ν φ) : performAll d [] = d := rfl

@[simp] theorem performAll_cons (d : Dir ν φ) (a : Action ν φ) (rest : List (Action ν φ)) :
    performAll d (a :: rest) = performAll (perform d a) rest := rfl

@[simp] theorem performAll_append (d : Dir ν φ) (first rest : List (Action ν φ)) :
    performAll d (first ++ rest) = performAll (performAll d first) rest := by
  simp [performAll]

theorem perform_lookup_other (d : Dir ν φ) {a : Action ν φ} {name : ν} (other : name ≠ a.name) :
    (perform d a).lookup name = d.lookup name := by
  cases a with
  | put _ file => exact AList.lookup_insert_ne other
  | remove _ => exact AList.lookup_erase_ne other

/-- A file no action names stays as it was. -/
theorem performAll_lookup_other (actions : List (Action ν φ)) (d : Dir ν φ) {name : ν}
    (other : ∀ a ∈ actions, name ≠ a.name) : (performAll d actions).lookup name = d.lookup name := by
  induction actions generalizing d with
  | nil => rfl
  | cons a rest ih =>
    rw [performAll_cons, ih _ (fun b hb => other b (mem_cons_of_mem a hb))]
    exact perform_lookup_other d (other a mem_cons_self)

/-- After writing files of different names, each of them is there. -/
theorem performAll_lookup_put (files : List (ν × φ)) (d : Dir ν φ)
    (names : (files.map Prod.fst).Nodup) {name : ν} {file : φ} (mem : (name, file) ∈ files) :
    (performAll d (files.map (fun f => .put f.1 f.2))).lookup name = some file := by
  induction files generalizing d with
  | nil => cases mem
  | cons f rest ih =>
    obtain ⟨fresh, names⟩ := nodup_cons.mp names
    rw [map_cons, performAll_cons]
    rcases mem_cons.mp mem with rfl | mem
    · rw [performAll_lookup_other]
      · exact AList.lookup_insert d
      intro a ha same
      obtain ⟨g, hg, rfl⟩ := mem_map.mp ha
      exact fresh (mem_map.mpr ⟨g, hg, same.symm⟩)
    · exact ih _ names mem

/-- `P` holds wherever the actions are interrupted, before the first and after the last included. -/
def Throughout (P : Dir ν φ → Prop) (d : Dir ν φ) (actions : List (Action ν φ)) : Prop :=
  ∀ k, P (performAll d (actions.take k))

variable {P Q : Dir ν φ → Prop} {d : Dir ν φ}

theorem throughout_nil (h : P d) : Throughout P d [] := by
  intro k
  rw [take_nil]
  exact h

theorem throughout_cons {a : Action ν φ} {rest : List (Action ν φ)} (first : P d)
    (later : Throughout P (perform d a) rest) : Throughout P d (a :: rest) := by
  intro k
  cases k with
  | zero => exact first
  | succ k => exact later k

theorem throughout_append {first rest : List (Action ν φ)} (h : Throughout P d first)
    (h' : Throughout P (performAll d first) rest) : Throughout P d (first ++ rest) := by
  intro k
  rw [take_append, performAll_append]
  by_cases short : k ≤ first.length
  · rw [Nat.sub_eq_zero_of_le short]
    exact h k
  · rw [take_of_length_le (Nat.le_of_not_le short)]
    exact h' _

theorem Throughout.imp {actions : List (Action ν φ)} (h : Throughout P d actions)
    (weaken : ∀ d, P d → Q d) : Throughout Q d actions := fun k => weaken _ (h k)

theorem Throughout.final {actions : List (Action ν φ)} (h : Throughout P d actions) :
    P (performAll d actions) := by
  have last := h actions.length
  rwa [take_length] at last

end Jolt.Base
