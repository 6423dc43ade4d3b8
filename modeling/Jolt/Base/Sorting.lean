import Mathlib.Data.List.Sort
import Mathlib.Data.List.Perm.Basic
import Mathlib.Tactic.Cases

/-! What a sorted list says about the list it comes from, part of it at a time. -/
namespace Jolt.Base
open List

section Filtered

variable {α : Type} {r : α → α → Prop} [DecidableRel r] [Std.Total r] [IsTrans α r]
  {l m : List α} {p : α → Bool}

/-- Lists with the same elements of a kind have these elements in the same order once they
are sorted. -/
theorem filter_insertionSort_eq (first : l.Nodup) (second : m.Nodup)
    (antisymm : ∀ a ∈ l, ∀ b ∈ l, r a b → r b a → a = b)
    (same : ∀ a, p a = true → (a ∈ l ↔ a ∈ m)) :
    (l.insertionSort r).filter p = (m.insertionSort r).filter p := by
  have members (k : List α) (a : α) : a ∈ (k.insertionSort r).filter p ↔ a ∈ k ∧ p a = true := by
    rw [mem_filter, (perm_insertionSort r k).mem_iff]
  have perm : ((l.insertionSort r).filter p).Perm ((m.insertionSort r).filter p) := by
    refine (perm_ext_iff_of_nodup ?_ ?_).mpr fun a => ?_
    · exact ((perm_insertionSort r l).nodup_iff.mpr first).filter p
    · exact ((perm_insertionSort r m).nodup_iff.mpr second).filter p
    rw [members, members]
    exact ⟨fun ⟨there, kind⟩ => ⟨(same a kind).mp there, kind⟩,
      fun ⟨there, kind⟩ => ⟨(same a kind).mpr there, kind⟩⟩
  refine perm.eq_of_pairwise (fun a b left right => ?_)
    ((pairwise_insertionSort r l).filter p) ((pairwise_insertionSort r m).filter p)
  obtain ⟨here, _⟩ := (members l a).mp left
  obtain ⟨there, kind⟩ := (members m b).mp right
  exact antisymm a here b ((same b kind).mpr there)

end Filtered

section Neighbours

variable {α : Type} {lt below parts : α → α → Prop} {l : List α}

/-- Neighbours in a sorted list, none of which lies below the one before it: then whatever
has an element below it is parted from it by another one. -/
theorem isChain_not_iff (irrefl : ∀ a, ¬ lt a a) (trans : ∀ a b c, lt a b → lt b c → lt a c)
    (sorted : l.Pairwise lt) (after : ∀ p d, below p d → lt p d)
    (split : ∀ p q d, below p d → lt p q → lt q d → below p q ∨ parts p q)
    (between : ∀ p q d, below p d → parts p q → lt p q ∧ lt q d) :
    l.IsChain (fun a b => ¬ below a b) ↔ ∀ p ∈ l, (∃ d ∈ l, below p d) → ∃ q ∈ l, parts p q := by
  rw [pairwise_iff_getElem] at sorted
  rw [isChain_iff_getElem]
  have ordered {i j : Nat} (hi : i < l.length) (hj : j < l.length) (less : lt l[i] l[j]) : i < j := by
    rcases Nat.lt_trichotomy i j with before | same | behind
    · exact before
    · subst same
      exact absurd less (irrefl _)
    · exact absurd (trans _ _ _ less (sorted j i hj hi behind)) (irrefl _)
  constructor
  · rintro chain p known ⟨d, there, under⟩
    obtain ⟨i, hi, rfl⟩ := getElem_of_mem known
    obtain ⟨j, hj, rfl⟩ := getElem_of_mem there
    have later := ordered hi hj (after _ _ under)
    have next : i + 1 < l.length := by omega
    have apart := chain i next
    rcases Nat.lt_or_ge (i + 1) j with inside | last
    · -- what follows comes before the element below, so it parts the two
      have first := sorted i (i + 1) hi next (by omega)
      have second := sorted (i + 1) j next hj inside
      rcases split _ _ _ under first second with under' | parted
      · exact absurd under' apart
      · exact ⟨_, getElem_mem next, parted⟩
    · have same : j = i + 1 := by omega
      subst same
      exact absurd under apart
  · intro parted i next under
    have hi : i < l.length := by omega
    obtain ⟨q, known, sep⟩ := parted _ (getElem_mem hi) ⟨_, getElem_mem next, under⟩
    obtain ⟨j, hj, rfl⟩ := getElem_of_mem known
    obtain ⟨first, second⟩ := between _ _ _ under sep
    have low := ordered hi hj first
    have high := ordered hj next second
    omega

/-- The last element of the first part of a sorted list parts it from the rest. -/
theorem getLastD_parts {first rest : List α} {a : α} (sorted : (a :: (first ++ rest)).Pairwise lt)
    (trans : ∀ a b c, lt a b → lt b c → lt a c) :
    (∀ b ∈ a :: first, b = first.getLastD a ∨ lt b (first.getLastD a)) ∧
      ∀ b ∈ rest, lt (first.getLastD a) b := by
  induction first generalizing a with
  | nil => exact ⟨by simp, (pairwise_cons.mp sorted).1⟩
  | cons next first ih =>
    obtain ⟨least, later⟩ := pairwise_cons.mp sorted
    obtain ⟨upTo, beyond⟩ := ih later
    have step : lt a next := least next (by simp)
    rw [getLastD_cons]
    refine ⟨forall_mem_cons.mpr ⟨.inr ?_, upTo⟩, beyond⟩
    rcases upTo next (by simp) with same | less
    · exact same ▸ step
    · exact trans _ _ _ step less

/-- A check of every element against the one before it. -/
theorem any_zip_tail_eq_false {f : α → α → Bool} :
    (l.zip l.tail).any (fun x => f x.1 x.2) = false ↔ l.IsChain fun a b => f a b = false := by
  induction l with
  | nil => simp
  | cons a l ih =>
    cases l with
    | nil => simp
    | cons b l => simpa [isChain_cons_cons] using fun _ => by simpa using ih

end Neighbours

section Words

variable {α : Type} [LT α]

/-- What lies between a word and its continuations begins with it. -/
theorem prefix_of_between {u q r : List α} (low : ¬ q < u) (high : q < u ++ r) : u <+: q := by
  induction u generalizing q with
  | nil => exact nil_prefix
  | cons x u ih =>
    cases q with
    | nil => exact absurd (nil_lt_cons x u) low
    | cons y q =>
      rw [cons_append, cons_lt_cons_iff] at high
      rw [cons_lt_cons_iff, not_or] at low
      rcases high with less | ⟨rfl, less⟩
      · exact absurd less low.1
      · exact cons_prefix_cons.mpr ⟨rfl, ih (fun under => low.2 ⟨rfl, under⟩) less⟩

end Words

end Jolt.Base
