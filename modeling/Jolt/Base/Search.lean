import Mathlib.Data.List.Sort

/-! Binary search for the first index at which a test holds, and what inserting
at or deleting from that index does to a list kept in strictly increasing rank.
Nothing here knows what the ranks are. -/
namespace Jolt.Base
open List

/- The test is called at most once for each halving, so `fuel` as large as the
distance between the two ends is enough. -/
def searchLoop (test : Nat → Bool) : Nat → Nat → Nat → Nat
  | 0, low, _ => low
  | fuel + 1, low, high =>
    if low < high then
      let middle := (low + high) / 2
      if test middle then searchLoop test fuel low middle
      else searchLoop test fuel (middle + 1) high
    else low

/-- The smallest index below `n` at which a monotone test holds, or `n`. -/
def search (n : Nat) (test : Nat → Bool) : Nat := searchLoop test n 0 n

/-- `r` splits the indices below `n` into those that fail and those that pass. -/
structure Splits (n : Nat) (test : Nat → Bool) (r : Nat) : Prop where
  within : r ≤ n
  below : ∀ i, i < r → test i = false
  above : ∀ i, r ≤ i → i < n → test i = true

section

variable (n : Nat) (test : Nat → Bool) (mono : ∀ i j, i ≤ j → j < n → test i = true → test j = true)
include n test mono

theorem searchLoop_splits (fuel low high : Nat) (enough : high - low ≤ fuel) (order : low ≤ high)
    (bound : high ≤ n) (below : ∀ i, i < low → test i = false)
    (above : ∀ i, high ≤ i → i < n → test i = true) :
    Splits n test (searchLoop test fuel low high) := by
  induction fuel generalizing low high with
  | zero =>
    have closed : low = high := by omega
    exact ⟨closed ▸ bound, below, fun i hi hn => above i (closed ▸ hi) hn⟩
  | succ fuel ih =>
    unfold searchLoop
    by_cases gap : low < high
    · simp only [gap, if_true]
      by_cases pass : test ((low + high) / 2) = true
      · simp only [pass, if_true]
        apply ih low ((low + high) / 2) (by omega) (by omega) (by omega) below
        intro i hi hn
        exact mono _ i hi hn pass
      · simp only [pass]
        apply ih ((low + high) / 2 + 1) high (by omega) (by omega) bound _ above
        intro i hi
        by_contra holds
        have true_at : test i = true := by simpa using holds
        exact pass (mono i _ (by omega) (by omega) true_at)
    · simp only [gap, if_false]
      have closed : low = high := by omega
      exact ⟨closed ▸ bound, below, fun i hi hn => above i (closed ▸ hi) hn⟩

theorem search_splits :
    Splits n test (search n test) :=
  searchLoop_splits n test mono n 0 n (by omega) (by omega) (by omega)
    (fun i hi => absurd hi (Nat.not_lt_zero i)) (fun i hi hn => absurd hn (by omega))

end

section Lists

variable {ι : Type} {test : ι → Bool} {ids : List ι}

/-- The first position of a list at which an entry passes the test. -/
def position (ids : List ι) (test : ι → Bool) : Nat :=
  search ids.length (fun i => ids[i]?.all test)

section

variable (mono : ids.Pairwise (fun a b => test a = true → test b = true))
include mono

theorem position_splits :
    Splits ids.length (fun i => ids[i]?.all test) (position ids test) := by
  apply search_splits
  intro i j hij hj hi
  have hlt : i < ids.length := by omega
  simp only [getElem?_eq_getElem hlt, getElem?_eq_getElem hj, Option.all_some] at hi ⊢
  rcases Nat.lt_or_eq_of_le hij with less | same
  · exact pairwise_iff_getElem.mp mono i j hlt hj less hi
  · subst same
    exact hi

theorem take_position :
    ∀ x ∈ ids.take (position ids test), test x = false := by
  intro x hx
  obtain ⟨i, hi, rfl⟩ := mem_take_iff_getElem.mp hx
  have hlt : i < ids.length := by omega
  have fails := (position_splits mono).below i (by omega)
  simpa only [getElem?_eq_getElem hlt, Option.all_some] using fails

theorem drop_position :
    ∀ x ∈ ids.drop (position ids test), test x = true := by
  intro x hx
  obtain ⟨i, hi, rfl⟩ := mem_drop_iff_getElem.mp hx
  have bound : position ids test + i < ids.length := by omega
  have passes := (position_splits mono).above (position ids test + i) (by omega) bound
  simpa only [getElem?_eq_getElem bound, Option.all_some] using passes

end

end Lists

section Ranked

variable {ι α : Type} [LinearOrder α] {rank : ι → α} {ids : List ι}

/-- Strictly increasing rank along the list. -/
def Ranked (rank : ι → α) (ids : List ι) : Prop := ids.Pairwise (fun a b => rank a < rank b)

section

variable (h : Ranked rank ids)
include h

theorem Ranked.nodup : ids.Nodup := by
  apply List.Pairwise.imp _ h
  intro a b less same
  subst same
  exact lt_irrefl _ less

/-- A ranked list is determined by its members. -/
theorem Ranked.unique {other : List ι} (h' : Ranked rank other) (same : ∀ a, a ∈ ids ↔ a ∈ other) :
    ids = other := by
  have perm : ids.Perm other := (perm_ext_iff_of_nodup h.nodup h'.nodup).mpr same
  apply perm.eq_of_pairwise _ h h'
  intro a b _ _ hab hba
  exact absurd (lt_trans hab hba) (lt_irrefl _)

theorem Ranked.congr {rank' : ι → α} (same : ∀ a ∈ ids, rank' a = rank a) : Ranked rank' ids := by
  apply List.Pairwise.imp_of_mem _ h
  intro a b ha hb less
  rw [same a ha, same b hb]
  exact less

theorem Ranked.monotone (x : α) :
    ids.Pairwise (fun a b => decide (x ≤ rank a) = true → decide (x ≤ rank b) = true) := by
  apply List.Pairwise.imp _ h
  intro a b less hx
  simp only [decide_eq_true_eq] at hx ⊢
  exact le_trans hx (le_of_lt less)

/-- Inserting a new entry where its rank belongs keeps the list ranked. -/
theorem Ranked.insert {key : ι} (fresh : key ∉ ids)
    (injective : ∀ a ∈ ids, rank a = rank key → a = key) :
    Ranked rank (ids.take (position ids (fun a => decide (rank key ≤ rank a))) ++
      key :: ids.drop (position ids (fun a => decide (rank key ≤ rank a)))) := by
  have lower := take_position (h.monotone (rank key))
  have upper := drop_position (h.monotone (rank key))
  have strict : ∀ a ∈ ids.drop (position ids (fun a => decide (rank key ≤ rank a))),
      rank key < rank a := by
    intro a ha
    have mem := mem_of_mem_drop ha
    have le : rank key ≤ rank a := by simpa using upper a ha
    apply lt_of_le_of_ne le
    intro same
    exact fresh (injective a mem same.symm ▸ mem)
  rw [Ranked, pairwise_append]
  refine ⟨h.sublist (take_sublist _ _), ?_, ?_⟩
  · rw [pairwise_cons]
    exact ⟨strict, h.sublist (drop_sublist _ _)⟩
  intro a ha b hb
  have small : rank a < rank key := by simpa using lower a ha
  rcases mem_cons.mp hb with rfl | hb
  · exact small
  · exact lt_trans small (strict b hb)

/-- A member stands exactly where a search for its rank ends. -/
theorem Ranked.position_self {key : ι} (mem : key ∈ ids) :
    ids[position ids (fun a => decide (rank key ≤ rank a))]? = some key := by
  obtain ⟨i, hi, hkey⟩ := getElem_of_mem mem
  have splits := position_splits (h.monotone (rank key))
  have order := pairwise_iff_getElem.mp h
  generalize position ids (fun a => decide (rank key ≤ rank a)) = p at splits ⊢
  have low : p ≤ i := by
    by_contra far
    have fails := splits.below i (by omega)
    simp [hi, hkey] at fails
  have high : i ≤ p := by
    by_contra far
    have bound : p < ids.length := by omega
    have passes := splits.above p (le_refl p) bound
    have less := order p i bound hi (by omega)
    simp only [getElem?_eq_getElem bound, Option.all_some, decide_eq_true_eq] at passes
    rw [hkey] at less
    exact absurd (lt_of_le_of_lt passes less) (lt_irrefl _)
  have same : p = i := by omega
  subst same
  rw [getElem?_eq_getElem hi, hkey]

/-- Deleting at the position of a member removes that member and no other. -/
theorem Ranked.erase_mem {key : ι} {p : Nat} (at_key : ids[p]? = some key) (a : ι) :
    a ∈ ids.eraseIdx p ↔ a ∈ ids ∧ a ≠ key := by
  obtain ⟨bound, hkey⟩ := List.getElem?_eq_some_iff.mp at_key
  have nodup := h.nodup
  rw [mem_eraseIdx_iff_getElem]
  constructor
  · rintro ⟨j, hj, hne, rfl⟩
    refine ⟨getElem_mem hj, ?_⟩
    intro same
    rw [← hkey] at same
    exact hne ((nodup.getElem_inj_iff).mp same)
  · rintro ⟨mem, hne⟩
    obtain ⟨j, hj, rfl⟩ := getElem_of_mem mem
    refine ⟨j, hj, ?_, rfl⟩
    rintro rfl
    exact hne hkey

theorem Ranked.erase (p : Nat) : Ranked rank (ids.eraseIdx p) :=
  h.sublist (eraseIdx_sublist _ _)

end

end Ranked

end Jolt.Base
