import Mathlib.Data.List.Basic

/-! Chains of hashes: lists whose elements each name the hash of the one before. -/
namespace Jolt.Base

section Links

variable {α η : Type} {hash : α → η} {names : α → η → Prop}

variable (hash names) in
/-- Every element names the hash of the one before it, the first one a given hash. -/
def Linked : η → List α → Prop
  | _, [] => True
  | h, a :: rest => names a h ∧ Linked (hash a) rest

variable (hash) in
/-- The hash the next element has to name. -/
def endHash : η → List α → η
  | h, [] => h
  | _, a :: rest => endHash (hash a) rest

@[simp] theorem endHash_append (h : η) (l m : List α) :
    endHash hash h (l ++ m) = endHash hash (endHash hash h l) m := by
  induction l generalizing h with
  | nil => rfl
  | cons a l ih => exact ih (hash a)

theorem linked_append (h : η) (l m : List α) :
    Linked hash names h (l ++ m) ↔
      Linked hash names h l ∧ Linked hash names (endHash hash h l) m := by
  induction l generalizing h with
  | nil => simp [Linked, endHash]
  | cons a l ih => simp only [List.cons_append, Linked, endHash, ih, and_assoc]

theorem endHash_concat (h : η) (l : List α) (a : α) : endHash hash h (l ++ [a]) = hash a := by
  rw [endHash_append]
  rfl

theorem Linked.isChain {h : η} {l : List α} (linked : Linked hash names h l) :
    l.IsChain fun a b => names b (hash a) := by
  induction l generalizing h with
  | nil => exact .nil
  | cons a l ih =>
    cases l with
    | nil => exact .singleton a
    | cons b l => exact .cons_cons linked.2.1 (ih linked.2)

theorem Linked.head {h : η} {l : List α} (linked : Linked hash names h l) :
    ∀ a ∈ l.head?, names a h := by
  cases l with
  | nil => exact nofun
  | cons a l =>
    rintro b ⟨⟩
    exact linked.1

end Links

section Cut

variable {α : Type} {p : α → Bool}

/-- A list in which nothing past an element without a property has it. -/
theorem filter_append_filter_not {l : List α}
    (falling : l.Pairwise fun a b => p b = true → p a = true) :
    l.filter p ++ l.filter (fun a => !p a) = l := by
  induction falling with
  | nil => rfl
  | @cons a l above _ ih =>
    cases here : p a with
    | true => simp only [List.filter_cons, here, if_true, Bool.not_true, Bool.false_eq_true,
        if_false, List.cons_append, ih]
    | false =>
      have rest : ∀ x ∈ l, p x = false := by
        intro x inside
        rw [Bool.eq_false_iff]
        intro there
        rw [above x inside there] at here
        cases here
      have none : l.filter p = [] := List.filter_eq_nil_iff.mpr (by simpa using rest)
      rw [none, List.nil_append] at ih
      simp [here, none, ih]

end Cut

end Jolt.Base
