import Mathlib.Data.String.Basic
import Mathlib.Data.List.Sort

/-! What loops over a list compute: the best by a rank, the first of several, as a loop that
keeps the best so far finds it; the results of a function that may fail; and decimals of a
fixed number of digits, whose order as texts is that of the numbers. -/
namespace Jolt.Base
open List

section Best

variable {α ρ : Type} [LT ρ] [DecidableLT ρ] (rank : α → ρ)

def better (found : Option α) (a : α) : Option α :=
  match found with
  | none => some a
  | some other => if rank other < rank a then some a else some other

def best (l : List α) : Option α := l.foldl (better rank) none

end Best

section BestOf

variable {α ρ : Type} [LinearOrder ρ] {rank : α → ρ}

theorem foldl_better (l : List α) (first : α) :
    ∃ a, l.foldl (better rank) (some first) = some a ∧ a ∈ first :: l ∧
      ∀ other ∈ first :: l, rank other ≤ rank a := by
  induction l generalizing first with
  | nil => exact ⟨first, rfl, by simp, by simp⟩
  | cons next l ih =>
    by_cases worse : rank first < rank next
    · obtain ⟨a, found, inside, top⟩ := ih next
      refine ⟨a, by simpa [better, worse] using found, mem_cons_of_mem _ inside, ?_⟩
      intro other member
      rcases mem_cons.mp member with rfl | later
      · exact worse.le.trans (top next (by simp))
      · exact top other later
    · obtain ⟨a, found, inside, top⟩ := ih first
      refine ⟨a, by simpa [better, worse] using found, ?_, ?_⟩
      · rcases mem_cons.mp inside with rfl | later
        · simp
        · simp [later]
      · intro other member
        rcases mem_cons.mp member with rfl | later
        · exact top _ (by simp)
        rcases mem_cons.mp later with rfl | last
        · exact (not_lt.mp worse).trans (top first (by simp))
        · exact top other (by simp [last])

/-- A list that is not empty has a best, and none of it ranks higher. -/
theorem best_cases (rank : α → ρ) (l : List α) :
    l = [] ∧ best rank l = none ∨
      ∃ a, best rank l = some a ∧ a ∈ l ∧ ∀ other ∈ l, rank other ≤ rank a := by
  cases l with
  | nil => exact .inl ⟨rfl, rfl⟩
  | cons first l => exact .inr (foldl_better l first)

end BestOf

section Results

variable {α β ε : Type} {f : α → Except ε β}

/-- A function that fails on no element has a result for each. -/
theorem mapM_ok {l : List α} (total : ∀ a ∈ l, ∃ b, f a = .ok b) :
    ∃ bs, l.mapM f = .ok bs ∧ (∀ b ∈ bs, ∃ a ∈ l, f a = .ok b) ∧
      ∀ a ∈ l, ∃ b ∈ bs, f a = .ok b := by
  induction l with
  | nil => exact ⟨[], rfl, by simp, by simp⟩
  | cons a l ih =>
    obtain ⟨b, first⟩ := total a (by simp)
    obtain ⟨bs, rest, sources, results⟩ :=
      ih fun other inside => total other (by simp [inside])
    refine ⟨b :: bs, ?_, ?_, ?_⟩
    · rw [mapM_cons, first, rest]
      rfl
    · intro c inside
      rcases mem_cons.mp inside with rfl | later
      · exact ⟨a, by simp, first⟩
      · obtain ⟨source, member, result⟩ := sources c later
        exact ⟨source, by simp [member], result⟩
    · intro other inside
      rcases mem_cons.mp inside with rfl | later
      · exact ⟨b, by simp, first⟩
      · obtain ⟨c, member, result⟩ := results other later
        exact ⟨c, by simp [member], result⟩

theorem bind_ok_iff {γ : Type} {x : Except ε α} {g : α → Except ε γ} {c : γ} :
    x >>= g = .ok c ↔ ∃ a, x = .ok a ∧ g a = .ok c := by
  cases x with
  | error err => simp [bind, Except.bind]
  | ok a => simp [bind, Except.bind]

theorem map_ok_iff {γ : Type} {x : Except ε α} {g : α → γ} {c : γ} :
    x.map g = .ok c ↔ ∃ a, x = .ok a ∧ g a = c := by
  cases x with
  | error err => simp [Except.map]
  | ok a => simp [Except.map]

theorem toOption_eq_some_iff {x : Except ε α} {a : α} : x.toOption = some a ↔ x = .ok a := by
  cases x with
  | error err => simp [Except.toOption]
  | ok b => simp [Except.toOption]

/-- A check passed on the way. -/
theorem refuse_ok_iff {γ : Type} {c : Prop} [Decidable c] {err : ε} {g : α → Except ε γ}
    {x : Except ε γ} {d : γ} :
    (if c then Except.error err >>= g else x) = .ok d ↔ ¬ c ∧ x = .ok d := by
  by_cases failed : c <;> simp [failed, bind, Except.bind]

/-- The results stand in the order of the elements. -/
theorem mapM_ok_iff {l : List α} {bs : List β} :
    l.mapM f = .ok bs ↔ List.Forall₂ (fun a b => f a = .ok b) l bs := by
  induction l generalizing bs with
  | nil => simp [pure, Except.pure, eq_comm]
  | cons a l ih =>
    rw [mapM_cons, bind_ok_iff]
    constructor
    · rintro ⟨b, first, done⟩
      obtain ⟨rest, later, same⟩ := bind_ok_iff.mp done
      cases same
      exact .cons first (ih.mp later)
    · rintro (_ | ⟨first, later⟩)
      exact ⟨_, first, bind_ok_iff.mpr ⟨_, ih.mpr later, rfl⟩⟩

theorem mapM_ok_mem {l : List α} {bs : List β} (done : l.mapM f = .ok bs) {b : β} (known : b ∈ bs) :
    ∃ a ∈ l, f a = .ok b := by
  have each := mapM_ok_iff.mp done
  clear done
  induction each with
  | nil => cases known
  | cons first _ ih =>
    cases known with
    | head => exact ⟨_, mem_cons_self, first⟩
    | tail _ later =>
      obtain ⟨a, there, same⟩ := ih later
      exact ⟨a, mem_cons_of_mem _ there, same⟩

theorem mapM_some_mem {g : α → Option β} {l : List α} {bs : List β} (done : l.mapM g = some bs)
    {b : β} (known : b ∈ bs) : ∃ a ∈ l, g a = some b := by
  induction l generalizing bs with
  | nil =>
    cases done
    cases known
  | cons a l ih =>
    simp only [mapM_cons, Option.bind_eq_bind, Option.bind_eq_some_iff] at done
    obtain ⟨first, found, rest, later, same⟩ := done
    cases same
    cases known with
    | head => exact ⟨a, mem_cons_self, found⟩
    | tail _ inside =>
      obtain ⟨a', there, same⟩ := ih later inside
      exact ⟨a', mem_cons_of_mem _ there, same⟩

/-- What is taken from the elements alone does not depend on their numbers. -/
theorem filterMap_mapIdx {γ : Type} {number : Nat → α → β} {g : β → Option γ} {h : α → Option γ}
    (same : ∀ i a, g (number i a) = h a) (l : List α) :
    (l.mapIdx number).filterMap g = l.filterMap h := by
  induction l generalizing number with
  | nil => rfl
  | cons a l ih =>
    rw [mapIdx_cons, filterMap_cons, filterMap_cons, same,
      ih fun i b => same (i + 1) b]

/-- What every turn of a loop keeps holds at its end. -/
theorem foldlM_ok {σ : Type} {step : σ → α → Except ε σ} {P : σ → Prop} {l : List α} {s t : σ}
    (kept : ∀ s t, ∀ a ∈ l, step s a = .ok t → P s → P t) (start : P s)
    (done : l.foldlM step s = .ok t) : P t := by
  induction l generalizing s with
  | nil =>
    cases done
    exact start
  | cons a l ih =>
    rw [foldlM_cons] at done
    obtain ⟨u, first, rest⟩ := bind_ok_iff.mp done
    exact ih (fun s t b later => kept s t b (mem_cons_of_mem a later))
      (kept s u a mem_cons_self first start) rest

end Results

section Decimals

/-- The last digits of a number, as many as asked for. -/
def digits : Nat → Nat → List Char
  | 0, _ => []
  | count + 1, n => digits count (n / 10) ++ [Nat.digitChar (n % 10)]

theorem digits_length (count n : Nat) : (digits count n).length = count := by
  induction count generalizing n with
  | zero => rfl
  | succ count ih => simp [digits, ih]

theorem append_lt_append {a b : List Char} (same : a.length = b.length) (less : a < b)
    (c d : List Char) : a ++ c < b ++ d := by
  induction a generalizing b with
  | nil => cases b with
    | nil => exact absurd less (lt_irrefl _)
    | cons y b => simp at same
  | cons x a ih => cases b with
    | nil => simp at same
    | cons y b =>
      rw [cons_append, cons_append, cons_lt_cons_iff]
      rcases cons_lt_cons_iff.mp less with first | ⟨rfl, rest⟩
      · exact .inl first
      · exact .inr ⟨rfl, ih (by simpa using same) rest⟩

theorem append_right_lt (a : List Char) {c d : List Char} : a ++ c < a ++ d ↔ c < d := by
  induction a with
  | nil => rfl
  | cons x a ih => simp [ih]

theorem digitChar_lt {m n : Nat} (less : m < n) (digit : n < 10) :
    Nat.digitChar m < Nat.digitChar n := by
  have all : ∀ n < 10, ∀ m < n, Nat.digitChar m < Nat.digitChar n := by decide
  exact all n digit m less

/-- Decimals of one length are in the order of the numbers. -/
theorem digits_lt {count m n : Nat} (less : m < n) (bound : n < 10 ^ count) :
    digits count m < digits count n := by
  induction count generalizing m n with
  | zero => simp at bound; omega
  | succ count ih =>
    rw [digits, digits]
    rcases Nat.lt_or_ge (m / 10) (n / 10) with higher | lower
    · refine append_lt_append (by simp [digits_length]) (ih higher ?_) _ _
      rw [Nat.pow_succ] at bound
      omega
    · have same : m / 10 = n / 10 := by omega
      rw [same]
      refine (append_right_lt _).mpr (cons_lt_cons_iff.mpr (.inl ?_))
      exact digitChar_lt (by omega) (Nat.mod_lt _ (by decide))

theorem mem_digits {count n : Nat} {c : Char} (inside : c ∈ digits count n) : '0' ≤ c ∧ c ≤ '9' := by
  induction count generalizing n with
  | zero => exact absurd inside not_mem_nil
  | succ count ih =>
    rcases mem_append.mp inside with earlier | last
    · exact ih earlier
    have all : ∀ r < 10, '0' ≤ Nat.digitChar r ∧ Nat.digitChar r ≤ '9' := by decide
    rw [mem_singleton.mp last]
    exact all (n % 10) (Nat.mod_lt _ (by decide))

/-- The decimals of a fraction without the zeros at their end. -/
def trimZeros : List Char → List Char
  | [] => []
  | c :: cs => if trimZeros cs = [] ∧ c = '0' then [] else c :: trimZeros cs

theorem mem_of_mem_trimZeros {c : Char} {cs : List Char} (inside : c ∈ trimZeros cs) : c ∈ cs := by
  induction cs with
  | nil => exact inside
  | cons d cs ih =>
    rw [trimZeros] at inside
    split at inside
    · cases inside
    · exact (mem_cons.mp inside).elim (· ▸ mem_cons_self) fun later => mem_cons_of_mem d (ih later)

theorem trimZeros_lt {a b : List Char} (same : a.length = b.length) (decimal : ∀ c ∈ a, '0' ≤ c)
    (less : a < b) : trimZeros a < trimZeros b := by
  induction a generalizing b with
  | nil => cases b with
    | nil => exact absurd less (lt_irrefl _)
    | cons y b => simp at same
  | cons x a ih => cases b with
    | nil => simp at same
    | cons y b =>
      have stays : trimZeros (y :: b) = y :: trimZeros b ∧ (x < y ∨ x = y ∧ trimZeros a < trimZeros b) := by
        rcases cons_lt_cons_iff.mp less with first | ⟨rfl, rest⟩
        · have high : y ≠ '0' := fun low => absurd (low ▸ first) (not_lt.mpr (decimal x mem_cons_self))
          exact ⟨by simp [trimZeros, high], .inl first⟩
        have shorter := ih (by simpa using same) (fun c inside => decimal c (mem_cons_of_mem x inside)) rest
        have left : trimZeros b ≠ [] := fun none => by simp [none] at shorter
        exact ⟨by simp [trimZeros, left], .inr ⟨rfl, shorter⟩⟩
      rw [stays.1, trimZeros]
      split
      · exact nil_lt_cons _ _
      · exact cons_lt_cons_iff.mpr stays.2

/-- Texts of different lengths that end with a sign above all others: the shorter of two that begin
alike comes last. -/
theorem append_lt_append_iff {z : Char} {a b : List Char} (low : ∀ c ∈ a, c < z)
    (low' : ∀ c ∈ b, c < z) :
    a ++ [z] < b ++ [z] ↔ a < b ∧ ¬ a <+: b ∨ b <+: a ∧ a ≠ b := by
  induction a generalizing b with
  | nil => cases b with
    | nil => simp
    | cons y b => simp [cons_lt_cons_iff, le_of_lt (low' y mem_cons_self), (low' y mem_cons_self).ne']
  | cons x a ih => cases b with
    | nil => simp [cons_lt_cons_iff, low x mem_cons_self]
    | cons y b =>
      have rest := ih (fun c inside => low c (mem_cons_of_mem x inside))
        (fun c inside => low' c (mem_cons_of_mem y inside))
      rcases lt_trichotomy x y with less | rfl | more
      · simp [cons_lt_cons_iff, less, less.ne, less.ne']
      · simpa [cons_lt_cons_iff] using rest
      · simp [cons_lt_cons_iff, more.ne, more.ne']

theorem lt_of_shorter {a b : List Char} (begins : a <+: b) (apart : a ≠ b) : a < b := by
  obtain ⟨rest, rfl⟩ := begins
  cases rest with
  | nil => simp at apart
  | cons c rest => simpa using (append_right_lt a).mpr (nil_lt_cons c rest)

end Decimals

end Jolt.Base
