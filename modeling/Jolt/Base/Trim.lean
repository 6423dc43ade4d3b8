import Mathlib

/-! Cutting off the patterns of a given list from the ends of a word, as often as one of
them stands there: the trimming of spaces, which are words of one or more bytes, and of
single letters. -/
namespace Jolt.Base
open List

variable {α : Type} [DecidableEq α]

section Definitions

variable (patterns : List (List α))

/-- One pattern off the start. -/
def stripStart (s : List α) : Option (List α) :=
  (patterns.find? fun p => p.isPrefixOf s).map fun p => s.drop p.length

def trimStartWithin : Nat → List α → List α
  | 0, s => s
  | n + 1, s =>
    match stripStart patterns s with
    | none => s
    | some rest => trimStartWithin n rest

/- A pattern has at least one letter, so that the length of the word is enough. -/
def trimStart (s : List α) : List α := trimStartWithin patterns s.length s

def trimEnd (s : List α) : List α := (trimStart (patterns.map List.reverse) s.reverse).reverse

def trim (s : List α) : List α := trimEnd patterns (trimStart patterns s)

end Definitions

section Start

variable {patterns : List (List α)} {s t : List α}

theorem stripStart_some {rest : List α} (stripped : stripStart patterns s = some rest) :
    ∃ p ∈ patterns, s = p ++ rest := by
  obtain ⟨p, found, rfl⟩ := Option.map_eq_some_iff.mp stripped
  have begins := find?_some found
  obtain ⟨rest, rfl⟩ := isPrefixOf_iff_prefix.mp begins
  refine ⟨p, mem_of_find?_eq_some found, ?_⟩
  rw [drop_left]

theorem stripStart_none_iff : stripStart patterns s = none ↔ ∀ p ∈ patterns, ¬ p <+: s := by
  simp only [stripStart, Option.map_eq_none_iff, find?_eq_none, isPrefixOf_iff_prefix]

theorem trimStartWithin_suffix (n : Nat) (s : List α) : trimStartWithin patterns n s <:+ s := by
  induction n generalizing s with
  | zero => exact suffix_refl s
  | succ n ih =>
    rw [trimStartWithin]
    cases stripped : stripStart patterns s with
    | none => exact suffix_refl s
    | some rest =>
      obtain ⟨p, _, rfl⟩ := stripStart_some stripped
      exact (ih rest).trans (suffix_append p rest)

theorem trimStart_suffix (s : List α) : trimStart patterns s <:+ s := trimStartWithin_suffix _ s

/-- Nothing is cut off exactly where no pattern begins the word. -/
theorem trimStart_eq_self_iff (proper : [] ∉ patterns) :
    trimStart patterns s = s ↔ ∀ p ∈ patterns, ¬ p <+: s := by
  constructor
  · intro same p inside begins
    cases stripped : stripStart patterns s with
    | none => exact stripStart_none_iff.mp stripped p inside begins
    | some rest =>
      obtain ⟨q, known, rfl⟩ := stripStart_some stripped
      have letters : q ≠ [] := fun empty => proper (empty ▸ known)
      obtain ⟨n, length⟩ : ∃ n, (q ++ rest).length = n + 1 := by
        cases q with
        | nil => exact absurd rfl letters
        | cons x q => exact ⟨(q ++ rest).length, rfl⟩
      rw [trimStart, length, trimStartWithin, stripped] at same
      have left : trimStartWithin patterns n rest = q ++ rest := same
      have shorter := (@trimStartWithin_suffix _ _ patterns n rest).length_le
      rw [left, length_append] at shorter
      have positive := length_pos_iff.mpr letters
      omega
  · intro free
    have stripped := stripStart_none_iff.mpr free
    rw [trimStart]
    cases s with
    | nil => rfl
    | cons x s => rw [length_cons, trimStartWithin, stripped]

theorem trimStart_cons {x : α} (free : ∀ p ∈ patterns, p ≠ [] ∧ p.head? ≠ some x) (s : List α) :
    trimStart patterns (x :: s) = x :: s := by
  rw [trimStart_eq_self_iff fun inside => (free [] inside).1 rfl]
  intro p inside begins
  cases p with
  | nil => exact (free [] inside).1 rfl
  | cons y p => exact (free _ inside).2 (by rw [head?_cons, (cons_prefix_cons.mp begins).1])

omit [DecidableEq α] in
/-- A letter that no pattern has stops the trimming. -/
theorem prefix_append_cons_iff {x : α} {p w : List α} (free : x ∉ p) :
    p <+: s ++ x :: w ↔ p <+: s := by
  constructor
  · intro begins
    rcases prefix_or_prefix_of_prefix begins (prefix_append s (x :: w)) with inner | outer
    · exact inner
    obtain ⟨rest, rfl⟩ := outer
    cases rest with
    | nil => exact (append_nil s).symm ▸ prefix_refl s
    | cons y rest =>
      have same := (cons_prefix_cons.mp ((prefix_append_right_inj s).mp begins)).1
      exact absurd (mem_append_right s (same ▸ mem_cons_self)) free
  · exact fun begins => begins.trans (prefix_append s (x :: w))

theorem stripStart_append_cons {x : α} (bar : ∀ p ∈ patterns, x ∉ p) (w : List α) :
    stripStart patterns (s ++ x :: w) = (stripStart patterns s).map (· ++ x :: w) := by
  have same : ∀ p ∈ patterns, p.isPrefixOf (s ++ x :: w) = p.isPrefixOf s := by
    intro p known
    rw [Bool.eq_iff_iff, isPrefixOf_iff_prefix, isPrefixOf_iff_prefix]
    exact prefix_append_cons_iff (bar p known)
  have found : patterns.find? (fun p => p.isPrefixOf (s ++ x :: w)) =
      patterns.find? (fun p => p.isPrefixOf s) := by
    clear bar
    induction patterns with
    | nil => rfl
    | cons q qs ih =>
      rw [forall_mem_cons] at same
      rw [find?_cons, find?_cons, same.1, ih same.2]
  rw [stripStart, stripStart, found, Option.map_map]
  cases stripped : patterns.find? (fun p => p.isPrefixOf s) with
  | none => rfl
  | some p =>
    have begins := find?_some stripped
    obtain ⟨rest, rfl⟩ := isPrefixOf_iff_prefix.mp begins
    simp [append_assoc]

theorem trimStartWithin_append_cons {x : α} (bar : ∀ p ∈ patterns, x ∉ p) (w : List α) (n : Nat) :
    trimStartWithin patterns n (s ++ x :: w) = trimStartWithin patterns n s ++ x :: w := by
  induction n generalizing s with
  | zero => rfl
  | succ n ih =>
    rw [trimStartWithin, trimStartWithin, stripStart_append_cons bar]
    cases stripStart patterns s with
    | none => rfl
    | some rest => exact ih

/-- The length of the word is enough, and more makes no difference. -/
theorem trimStartWithin_eq (proper : [] ∉ patterns) {n : Nat} (enough : s.length ≤ n) :
    trimStartWithin patterns n s = trimStart patterns s := by
  have more : ∀ m k s, s.length ≤ m → s.length ≤ k →
      trimStartWithin patterns m s = trimStartWithin patterns k s := by
    intro m
    induction m with
    | zero =>
      intro k s short _
      have empty := eq_nil_of_length_eq_zero (Nat.le_zero.mp short)
      have none : stripStart patterns [] = none := by
        rw [stripStart_none_iff]
        intro p known begins
        exact proper (prefix_nil.mp begins ▸ known)
      rw [empty]
      cases k with
      | zero => rfl
      | succ k => rw [trimStartWithin, trimStartWithin, none]
    | succ m ih =>
      intro k s short long
      cases stripped : stripStart patterns s with
      | none =>
        cases k with
        | zero => rw [trimStartWithin, trimStartWithin, stripped]
        | succ k => rw [trimStartWithin, trimStartWithin, stripped]
      | some rest =>
        obtain ⟨p, known, rfl⟩ := stripStart_some stripped
        have letters := length_pos_iff.mpr fun (empty : p = []) => proper (empty ▸ known)
        rw [length_append] at short long
        obtain ⟨k, rfl⟩ : ∃ k', k = k' + 1 := ⟨k - 1, by omega⟩
        rw [trimStartWithin, trimStartWithin, stripped]
        exact ih k rest (by omega) (by omega)
  exact more n s.length s enough (Nat.le_refl _)

theorem trimStart_append_cons {x : α} (proper : [] ∉ patterns) (bar : ∀ p ∈ patterns, x ∉ p)
    (s w : List α) : trimStart patterns (s ++ x :: w) = trimStart patterns s ++ x :: w := by
  rw [trimStart, trimStartWithin_append_cons bar, trimStartWithin_eq proper]
  rw [length_append]
  omega

/-- No pattern is left at the start. -/
theorem trimStart_free (proper : [] ∉ patterns) (s : List α) :
    ∀ p ∈ patterns, ¬ p <+: trimStart patterns s := by
  have within : ∀ n s, s.length ≤ n → ∀ p ∈ patterns, ¬ p <+: trimStartWithin patterns n s := by
    intro n
    induction n with
    | zero =>
      intro s short p known begins
      rw [trimStartWithin, eq_nil_of_length_eq_zero (Nat.le_zero.mp short)] at begins
      exact proper (prefix_nil.mp begins ▸ known)
    | succ n ih =>
      intro s short
      rw [trimStartWithin]
      cases stripped : stripStart patterns s with
      | none => exact stripStart_none_iff.mp stripped
      | some rest =>
        obtain ⟨q, there, rfl⟩ := stripStart_some stripped
        have letters := length_pos_iff.mpr fun (empty : q = []) => proper (empty ▸ there)
        rw [length_append] at short
        exact ih rest (by omega)
  exact within s.length s (Nat.le_refl _)

/-- What a pattern at the start does not change, trimming does not change. -/
theorem trimStart_preserves {β : Type} (f : List α → β)
    (ignores : ∀ p ∈ patterns, ∀ rest, f (p ++ rest) = f rest) (s : List α) :
    f (trimStart patterns s) = f s := by
  have within : ∀ n s, f (trimStartWithin patterns n s) = f s := by
    intro n
    induction n with
    | zero => exact fun s => rfl
    | succ n ih =>
      intro s
      rw [trimStartWithin]
      cases stripped : stripStart patterns s with
      | none => rfl
      | some rest =>
        obtain ⟨p, known, rfl⟩ := stripStart_some stripped
        exact (ih rest).trans (ignores p known rest).symm
  exact within _ s

end Start

section Ends

variable {patterns : List (List α)} {s t : List α}

theorem trimEnd_begins (s : List α) : trimEnd patterns s <+: s := by
  rw [← reverse_suffix, trimEnd, reverse_reverse]
  exact trimStart_suffix s.reverse

theorem trimEnd_eq_self_iff (proper : [] ∉ patterns) :
    trimEnd patterns s = s ↔ ∀ p ∈ patterns, ¬ p <:+ s := by
  have mirrored : [] ∉ patterns.map List.reverse := by simpa using proper
  rw [trimEnd, reverse_eq_iff, trimStart_eq_self_iff mirrored, forall_mem_map]
  simp only [List.reverse_prefix]

theorem trimEnd_free (proper : [] ∉ patterns) (s : List α) :
    ∀ p ∈ patterns, ¬ p <:+ trimEnd patterns s := by
  have mirrored : [] ∉ patterns.map List.reverse := by simpa using proper
  have free := trimStart_free mirrored s.reverse
  rw [forall_mem_map] at free
  intro p known ends
  rw [trimEnd, ← reverse_prefix, reverse_reverse] at ends
  exact free p known ends

theorem trimEnd_append_cons {x : α} (proper : [] ∉ patterns) (bar : ∀ p ∈ patterns, x ∉ p)
    (s w : List α) : trimEnd patterns (s ++ x :: w) = s ++ x :: trimEnd patterns w := by
  have mirrored : [] ∉ patterns.map List.reverse := by simpa using proper
  have barred : ∀ p ∈ patterns.map List.reverse, x ∉ p := by
    rw [forall_mem_map]
    exact fun p known inside => bar p known (mem_reverse.mp inside)
  have turned : (s ++ x :: w).reverse = w.reverse ++ x :: s.reverse := by simp
  rw [trimEnd, turned, trimStart_append_cons mirrored barred]
  simp [trimEnd]

theorem trimEnd_preserves {β : Type} (f : List α → β)
    (ignores : ∀ p ∈ patterns, ∀ rest, f (rest ++ p) = f rest) (s : List α) :
    f (trimEnd patterns s) = f s := by
  have turned : ∀ p ∈ patterns.map List.reverse, ∀ rest, f (p ++ rest).reverse = f rest.reverse := by
    rw [forall_mem_map]
    intro p known rest
    rw [reverse_append, reverse_reverse]
    exact ignores p known rest.reverse
  have kept := trimStart_preserves (fun s => f s.reverse) turned s.reverse
  rwa [reverse_reverse] at kept

/-- Trimming takes away none of the letters that no pattern has. -/
theorem count_trimStart {x : α} (bar : ∀ p ∈ patterns, x ∉ p) (s : List α) :
    (trimStart patterns s).count x = s.count x :=
  trimStart_preserves (List.count x)
    (fun p known rest => by rw [count_append, count_eq_zero_of_not_mem (bar p known),
      Nat.zero_add]) s

theorem count_trimEnd {x : α} (bar : ∀ p ∈ patterns, x ∉ p) (s : List α) :
    (trimEnd patterns s).count x = s.count x :=
  trimEnd_preserves (List.count x)
    (fun p known rest => by rw [count_append, count_eq_zero_of_not_mem (bar p known),
      Nat.add_zero]) s

end Ends

section Both

variable {patterns : List (List α)}

/-- No pattern runs into another: what ends one and begins the next is all of both. -/
def Separate (patterns : List (List α)) : Prop :=
  ∀ p ∈ patterns, ∀ q ∈ patterns, ∀ u ∈ p.tails, u ≠ [] → u <+: q → u = p ∧ p = q

omit [DecidableEq α] in
theorem Separate.reverse (separate : Separate patterns) :
    Separate (patterns.map List.reverse) := by
  intro p known q listed u ends letters begins
  obtain ⟨p, there, rfl⟩ := mem_map.mp known
  obtain ⟨q, here, rfl⟩ := mem_map.mp listed
  have start : u.reverse <+: p := reverse_suffix.mp (by
    rw [reverse_reverse]
    exact (mem_tails u _).mp ends)
  have tail : u.reverse <:+ q := reverse_prefix.mp (by
    rw [reverse_reverse]
    exact begins)
  obtain ⟨whole, same⟩ := separate q here p there u.reverse ((mem_tails _ q).mpr tail)
    (fun empty => letters (reverse_eq_nil_iff.mp empty)) start
  rw [same] at whole ⊢
  exact ⟨reverse_eq_iff.mp whole, rfl⟩

theorem stripStart_pattern (proper : [] ∉ patterns) (separate : Separate patterns) {p : List α}
    (known : p ∈ patterns) (rest : List α) : stripStart patterns (p ++ rest) = some rest := by
  cases stripped : stripStart patterns (p ++ rest) with
  | none => exact absurd (prefix_append p rest) (stripStart_none_iff.mp stripped p known)
  | some other =>
    obtain ⟨q, there, split⟩ := stripStart_some stripped
    have whole : ∀ r, r ∈ patterns → r ∈ r.tails ∧ r ≠ [] := fun r inside =>
      ⟨(mem_tails r r).mpr (suffix_refl r), fun empty => proper (empty ▸ inside)⟩
    have same : p = q := by
      have first : p <+: p ++ rest := prefix_append p rest
      have second : q <+: p ++ rest := split ▸ prefix_append q other
      rcases prefix_or_prefix_of_prefix first second with begins | begins
      · exact (separate p known q there p (whole p known).1 (whole p known).2 begins).2
      · exact (separate q there p known q (whole q there).1 (whole q there).2 begins).2.symm
    rw [same] at split
    rw [append_cancel_left split]

section

variable (proper : [] ∉ patterns) (separate : Separate patterns)
include proper separate

theorem trimStart_pattern {p : List α} (known : p ∈ patterns) (rest : List α) :
    trimStart patterns (p ++ rest) = trimStart patterns rest := by
  have letters := length_pos_iff.mpr fun (empty : p = []) => proper (empty ▸ known)
  obtain ⟨n, length⟩ : ∃ n, (p ++ rest).length = n + 1 ∧ rest.length ≤ n := by
    rw [length_append]
    exact ⟨p.length + rest.length - 1, by omega, by omega⟩
  rw [trimStart, length.1, trimStartWithin, stripStart_pattern proper separate known]
  exact trimStartWithin_eq proper length.2

theorem trimEnd_pattern {p : List α} (known : p ∈ patterns) (rest : List α) :
    trimEnd patterns (rest ++ p) = trimEnd patterns rest := by
  have mirrored : [] ∉ patterns.map List.reverse := by simpa using proper
  rw [trimEnd, reverse_append,
    trimStart_pattern mirrored separate.reverse (mem_map_of_mem known)]
  rfl

/-- Trimming one end and then the other is the same in either order. -/
theorem trimStart_trimEnd (s : List α) :
    trimStart patterns (trimEnd patterns s) = trimEnd patterns (trimStart patterns s) := by
  -- induction on the length: both ends lose a pattern, or one of them is done
  induction length : s.length using Nat.strong_induction_on generalizing s with
  | _ n ih =>
    by_cases front : ∀ p ∈ patterns, ¬ p <+: s
    · have kept : ∀ p ∈ patterns, ¬ p <+: trimEnd patterns s := fun p known begins =>
        front p known (begins.trans (trimEnd_begins s))
      rw [(trimStart_eq_self_iff proper).mpr front, (trimStart_eq_self_iff proper).mpr kept]
    by_cases back : ∀ p ∈ patterns, ¬ p <:+ s
    · have kept : ∀ p ∈ patterns, ¬ p <:+ trimStart patterns s := fun p known ends =>
        back p known (ends.trans (trimStart_suffix s))
      rw [(trimEnd_eq_self_iff proper).mpr back, (trimEnd_eq_self_iff proper).mpr kept]
    push Not at front back
    obtain ⟨p, known, y, rfl⟩ := front
    obtain ⟨q, there, z, split⟩ := back
    have first := length_pos_iff.mpr fun (empty : p = []) => proper (empty ▸ known)
    have last := length_pos_iff.mpr fun (empty : q = []) => proper (empty ▸ there)
    have apart : (∃ m, y = m ++ q) ∨ y = [] := by
      rcases append_eq_append_iff.mp split with ⟨u, outer, inner⟩ | ⟨m, _, inner⟩
      · by_cases none : u = []
        · rw [none, nil_append] at inner
          exact .inl ⟨[], inner.symm⟩
        have ends : u ∈ p.tails := (mem_tails u p).mpr (outer ▸ suffix_append z u)
        have whole := separate p known q there u ends none (inner ▸ prefix_append u y)
        rw [whole.1, whole.2] at inner
        exact .inr (self_eq_append_right.mp inner)
      · exact .inl ⟨m, inner⟩
    rcases apart with ⟨m, rfl⟩ | rfl
    · simp only [length_append] at length
      have front := ih (p ++ m).length (by rw [length_append]; omega) (p ++ m) rfl
      have back := ih (m ++ q).length (by rw [length_append]; omega) (m ++ q) rfl
      have inner := ih m.length (by omega) m rfl
      rw [trimStart_pattern proper separate known] at front
      rw [trimEnd_pattern proper separate there] at back
      rw [trimStart_pattern proper separate known, ← back, ← append_assoc,
        trimEnd_pattern proper separate there, front, inner]
    · have start := trimStart_pattern proper separate known []
      have tail := trimEnd_pattern proper separate known []
      rw [nil_append] at tail
      rw [start, append_nil, tail]
      rfl

end

end Both

end Jolt.Base
