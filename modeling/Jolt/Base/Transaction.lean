import Mathlib.Logic.Basic

/-! Functions that collect the records of one transaction and may give it up. Notes
are what such a function has done at once and a failure does not take back; records
count only when it ends without an error. The rules below turn "this function
committed these records" into the facts its steps have checked. -/
namespace Jolt.Base

structure Transaction (ν ρ ε α : Type) where
  notes : List ν
  records : List ρ
  outcome : Except ε α

namespace Transaction

variable {ν ρ ε α β : Type}

protected def pure (a : α) : Transaction ν ρ ε α := ⟨[], [], .ok a⟩

protected def bind (m : Transaction ν ρ ε α) (f : α → Transaction ν ρ ε β) :
    Transaction ν ρ ε β :=
  match m.outcome with
  | .error e => ⟨m.notes, m.records, .error e⟩
  | .ok a => ⟨m.notes ++ (f a).notes, m.records ++ (f a).records, (f a).outcome⟩

instance : Monad (Transaction ν ρ ε) where
  pure := Transaction.pure
  bind := Transaction.bind

def put (r : ρ) : Transaction ν ρ ε Unit := ⟨[], [r], .ok ()⟩

def note (v : ν) : Transaction ν ρ ε Unit := ⟨[v], [], .ok ()⟩

def refuse (e : ε) : Transaction ν ρ ε α := ⟨[], [], .error e⟩

def refuseIf (p : Prop) [Decidable p] (e : ε) : Transaction ν ρ ε Unit :=
  if p then refuse e else Transaction.pure ()

def check (x : Except ε α) : Transaction ν ρ ε α := ⟨[], [], x⟩

/-- The function ends without an error, with these records and this answer. -/
def Commits (m : Transaction ν ρ ε α) (records : List ρ) (a : α) : Prop :=
  m.records = records ∧ m.outcome = .ok a

variable {records : List ρ}

@[simp] theorem commits_pure {a b : α} :
    (pure a : Transaction ν ρ ε α).Commits records b ↔ records = [] ∧ a = b := by
  change ([] = records ∧ Except.ok a = Except.ok b) ↔ _
  rw [Except.ok.injEq, eq_comm]

@[simp] theorem commits_refuse {e : ε} {b : α} :
    ¬ (refuse e : Transaction ν ρ ε α).Commits records b :=
  fun h => nomatch h.2

@[simp] theorem commits_put {r : ρ} {u : Unit} :
    (put r : Transaction ν ρ ε Unit).Commits records u ↔ records = [r] := by
  change ([r] = records ∧ Except.ok () = Except.ok u) ↔ _
  exact ⟨fun h => h.1.symm, fun h => ⟨h.symm, rfl⟩⟩

theorem commits_bind {m : Transaction ν ρ ε α} {f : α → Transaction ν ρ ε β} {b : β} :
    (m >>= f).Commits records b ↔
      ∃ first a rest, m.Commits first a ∧ (f a).Commits rest b ∧ records = first ++ rest := by
  change (Transaction.bind m f).Commits records b ↔ _
  unfold Transaction.bind Commits
  cases m.outcome with
  | error e => simp
  | ok a =>
    constructor
    · rintro ⟨collected, ended⟩
      exact ⟨_, a, _, ⟨rfl, rfl⟩, ⟨rfl, ended⟩, collected.symm⟩
    rintro ⟨first, a', rest, ⟨rfl, same⟩, ⟨rfl, ended⟩, rfl⟩
    cases same
    exact ⟨rfl, ended⟩

section Steps

variable {b : β}

theorem commits_bind_pure {m : Transaction ν ρ ε α} {f : α → β} :
    (m >>= fun a => pure (f a)).Commits records b ↔ ∃ a, m.Commits records a ∧ f a = b := by
  rw [commits_bind]
  constructor
  · rintro ⟨_, a, _, done, ended, rfl⟩
    obtain ⟨rfl, same⟩ := commits_pure.mp ended
    exact ⟨a, by rwa [List.append_nil], same⟩
  · rintro ⟨a, done, same⟩
    exact ⟨_, a, [], done, commits_pure.mpr ⟨rfl, same⟩, (List.append_nil _).symm⟩

theorem of_commits_pure {a : β} {P : ρ → Prop}
    (h : (pure a : Transaction ν ρ ε β).Commits records b) : ∀ r ∈ records, P r := by
  simp [(commits_pure.mp h).1]

@[simp] theorem commits_put_bind {r : ρ} {f : Unit → Transaction ν ρ ε β} :
    (put r >>= f).Commits records b ↔ ∃ rest, (f ()).Commits rest b ∧ records = r :: rest := by
  rw [commits_bind]
  constructor
  · rintro ⟨first, _, rest, put, follows, rfl⟩
    rw [commits_put.mp put]
    exact ⟨rest, follows, rfl⟩
  · rintro ⟨rest, follows, rfl⟩
    exact ⟨[r], (), rest, commits_put.mpr rfl, follows, rfl⟩

@[simp] theorem commits_check_bind {x : Except ε α} {f : α → Transaction ν ρ ε β} :
    (check x >>= f).Commits records b ↔ ∃ a, x = .ok a ∧ (f a).Commits records b := by
  rw [commits_bind]
  constructor
  · rintro ⟨first, a, rest, ⟨rfl, found⟩, follows, rfl⟩
    exact ⟨a, found, follows⟩
  · rintro ⟨a, found, follows⟩
    exact ⟨[], a, records, ⟨rfl, found⟩, follows, rfl⟩

@[simp] theorem commits_note_bind {v : ν} {f : Unit → Transaction ν ρ ε β} :
    (note v >>= f).Commits records b ↔ (f ()).Commits records b := by
  rw [commits_bind]
  constructor
  · rintro ⟨first, _, rest, ⟨rfl, _⟩, follows, rfl⟩
    exact follows
  · intro follows
    exact ⟨[], (), records, ⟨rfl, rfl⟩, follows, rfl⟩

@[simp] theorem commits_refuseIf_bind {p : Prop} [Decidable p] {e : ε}
    {f : Unit → Transaction ν ρ ε β} :
    (refuseIf p e >>= f).Commits records b ↔ ¬ p ∧ (f ()).Commits records b := by
  rw [commits_bind]
  unfold refuseIf
  by_cases hp : p
  · simp [hp]
  rw [if_neg hp]
  constructor
  · rintro ⟨first, _, rest, ⟨rfl, _⟩, follows, rfl⟩
    exact ⟨hp, follows⟩
  · rintro ⟨_, follows⟩
    exact ⟨[], (), records, ⟨rfl, rfl⟩, follows, rfl⟩

end Steps

/-- A function that fails, or that has nothing to record, leaves no note behind. -/
def Traceless (m : Transaction ν ρ ε α) : Prop :=
  (m.records = [] ∨ ∃ e, m.outcome = .error e) → m.notes = []

theorem traceless_of_records {m : Transaction ν ρ ε α} {a : α} (ended : m.outcome = .ok a)
    (written : m.records ≠ []) : m.Traceless := by
  rintro (empty | ⟨e, failed⟩)
  · exact absurd empty written
  · rw [ended] at failed
    cases failed

theorem traceless_pure (a : α) : (pure a : Transaction ν ρ ε α).Traceless := fun _ => rfl

theorem traceless_refuse (e : ε) : (refuse e : Transaction ν ρ ε α).Traceless := fun _ => rfl

theorem traceless_check_bind {x : Except ε α} {f : α → Transaction ν ρ ε β}
    (rest : ∀ a, x = .ok a → (f a).Traceless) : (check x >>= f).Traceless := by
  cases x with
  | error e => exact fun _ => rfl
  | ok a => exact rest a rfl

theorem traceless_refuseIf_bind {p : Prop} [Decidable p] {e : ε} {f : Unit → Transaction ν ρ ε β}
    (rest : (f ()).Traceless) : (refuseIf p e >>= f).Traceless := by
  unfold refuseIf
  split
  · exact fun _ => rfl
  · exact rest

end Transaction

end Jolt.Base
