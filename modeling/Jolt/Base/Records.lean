import Mathlib.Algebra.Order.BigOperators.Group.List
import Mathlib.Algebra.Order.Group.Nat

/-! Texts written one after another, each with a terminator behind it, and numbers written
in decimal. What is written can be read back as long as the terminator is in none of the
texts. -/
namespace Jolt.Base
open List

section Terminators

variable {α : Type} {z : α}

def terminated (z : α) (parts : List (List α)) : List α := parts.flatMap (· ++ [z])

@[simp] theorem terminated_nil : terminated z [] = [] := rfl

@[simp] theorem terminated_cons (p : List α) (ps : List (List α)) :
    terminated z (p :: ps) = p ++ z :: terminated z ps := by
  simp [terminated]

/-- The first terminator ends the first text. -/
theorem append_cons_inj {p q r s : List α} (first : z ∉ p) (second : z ∉ q)
    (same : p ++ z :: r = q ++ z :: s) : p = q ∧ r = s := by
  induction p generalizing q with
  | nil =>
    cases q with
    | nil => exact ⟨rfl, (List.cons.inj same).2⟩
    | cons x q => exact absurd ((List.cons.inj same).1 ▸ mem_cons_self) second
  | cons x p ih =>
    cases q with
    | nil => exact absurd ((List.cons.inj same).1 ▸ mem_cons_self) first
    | cons y q =>
      obtain ⟨head, tail⟩ := List.cons.inj same
      obtain ⟨rest, after⟩ := ih (fun inside => first (mem_cons_of_mem x inside))
        (fun inside => second (mem_cons_of_mem y inside)) tail
      exact ⟨by rw [head, rest], after⟩

/-- As many texts at the start of two writings are the same. -/
theorem terminated_start {ps qs : List (List α)} {r s : List α} (count : ps.length = qs.length)
    (first : ∀ p ∈ ps, z ∉ p) (second : ∀ q ∈ qs, z ∉ q)
    (same : terminated z ps ++ r = terminated z qs ++ s) : ps = qs ∧ r = s := by
  induction ps generalizing qs with
  | nil =>
    obtain rfl := length_eq_zero_iff.mp count.symm
    exact ⟨rfl, same⟩
  | cons p ps ih =>
    cases qs with
    | nil => cases count
    | cons q qs =>
      rw [terminated_cons, terminated_cons, append_assoc, append_assoc] at same
      obtain ⟨head, tail⟩ := append_cons_inj (first p mem_cons_self)
        (second q mem_cons_self) same
      obtain ⟨rest, after⟩ := ih (Nat.succ.inj count)
        (fun p inside => first p (mem_cons_of_mem _ inside))
        (fun q inside => second q (mem_cons_of_mem _ inside)) tail
      exact ⟨by rw [head, rest], after⟩

/-- Texts without the terminator are all read back. -/
theorem terminated_inj {ps qs : List (List α)} (first : ∀ p ∈ ps, z ∉ p) (second : ∀ q ∈ qs, z ∉ q)
    (same : terminated z ps = terminated z qs) : ps = qs := by
  induction ps generalizing qs with
  | nil =>
    cases qs with
    | nil => rfl
    | cons q qs => simp at same
  | cons p ps ih =>
    cases qs with
    | nil => simp at same
    | cons q qs =>
      rw [terminated_cons, terminated_cons] at same
      obtain ⟨head, tail⟩ := append_cons_inj (first p mem_cons_self)
        (second q mem_cons_self) same
      rw [head, ih (fun p inside => first p (mem_cons_of_mem _ inside))
        (fun q inside => second q (mem_cons_of_mem _ inside)) tail]

end Terminators

section Numbers

theorem isDigit_repr {n : Nat} {c : Char} (known : c ∈ n.repr.toList) : c.isDigit = true := by
  simp only [Nat.repr, String.toList_ofList] at known
  exact Nat.isDigit_of_mem_toDigits (by decide) (by decide) known

theorem nat_repr_inj {m n : Nat} (same : m.repr.toList = n.repr.toList) : m = n := by
  simp only [Nat.repr, String.toList_ofList] at same
  rw [← Nat.ofDigitChars_toDigits (b := 10) (n := m) (by decide) (by decide), same,
    Nat.ofDigitChars_toDigits (by decide) (by decide)]

theorem int_repr_inj {m n : Int} (same : m.repr.toList = n.repr.toList) : m = n := by
  have signed (m n : Nat) : m.repr.toList ≠ ("-" ++ n.repr).toList := fun same => by
    have inside : '-' ∈ m.repr.toList := by simp [same]
    exact absurd (isDigit_repr inside) (by decide)
  cases m with
  | ofNat m =>
    cases n with
    | ofNat n => rw [nat_repr_inj same]
    | negSucc n => exact absurd same (signed m (n + 1))
  | negSucc m =>
    cases n with
    | ofNat n => exact absurd same.symm (signed n (m + 1))
    | negSucc n =>
      simp only [Int.repr, String.toList_append] at same
      have equal := nat_repr_inj (append_cancel_left same)
      rw [Nat.succ.inj equal]

/-- A number is written with a sign and digits. -/
theorem int_repr_range (n : Int) : ∀ c ∈ n.repr.toList, 45 ≤ c.toNat ∧ c.toNat ≤ 57 := by
  have digit {n : Nat} {c : Char} (known : c ∈ n.repr.toList) : 45 ≤ c.toNat ∧ c.toNat ≤ 57 := by
    have range : 48 ≤ c.toNat ∧ c.toNat ≤ 57 := by
      simpa [Char.isDigit, UInt32.le_iff_toNat_le] using isDigit_repr known
    omega
  intro c known
  cases n with
  | ofNat n => exact digit known
  | negSucc n =>
    simp only [Int.repr, String.toList_append, mem_append] at known
    rcases known with sign | rest
    · obtain rfl : c = '-' := by simpa using sign
      decide
    · exact digit rest

end Numbers

end Jolt.Base
