import Jolt.Pki.Publication
import Jolt.Pki.Tower

/-! The authority left to itself: passes only, a day apart at most. One pass after the other
either leaves everything in order, or finds a renewal that does not fit under the root; then
every later pass fails. -/
namespace Jolt.Pki
open Jolt.Trust

section Passes

variable (env : Env)

/-- A pass that comes within a day of the last one, and makes what it makes as it should. -/
structure Scheduled (s : Tower) (pass : Pass) : Prop where
  later : s.clock ≤ pass.now
  soon : ∀ passed, s.passed = some passed → pass.now ≤ passed + day
  proper : pass.Proper env s.db

def Daily (s : Tower) (step : Step) (_ : Tower) : Prop :=
  ∃ pass, step = .ensure pass ∧ Scheduled env s pass

/-- After the pass there is an unexpired key that signs and that the bundle lists, and an
unexpired intermediate that issues. -/
def Survives (now : Int) (outcome : Outcome) : Prop :=
  outcome.error = none ∧ ∃ view, outcome.view = some view ∧
    (∃ entry ∈ view.bundle.signingKeys, entry.id = view.signingID ∧ now < entry.notAfter) ∧
    now < view.issuer.notAfter

/-- Where passes alone can lead: nothing yet, everything in order, or a renewal that fails from
now on. -/
inductive Stage (s : Tower) : Prop where
  | fresh (db : s.db = .empty) (passed : s.passed = none) (clock : 0 ≤ s.clock)
  | kept (root : PKIObject) (passed : s.passed = some s.clock) (clock : 0 ≤ s.clock)
      (kept : DatabaseKept env s.clock root s.db)
  | stuck (root : PKIObject) (at_last : Int) (kept : DatabaseKept env at_last root s.db)
      (due : renewalDue s.clock (currentIssuer env s.db.intermediates) = true)
      (short : root.notAfter < s.clock + intermediateValidity)

variable {env} {s t : Tower} {pass : Pass} {root : PKIObject} {roots : List PKIObject}
  {db : Database}

theorem PassDone.survives {keys : List SigningKey} {key : SigningKey} {view : View}
    {published : Option Bundle} {after : Database}
    (done : PassDone env pass db root roots keys key view published after) :
    Survives pass.now ⟨after, some view, published, none⟩ := by
  refine ⟨rfl, view, rfl, ?_, done.issuers.live⟩
  obtain ⟨signer, one, _, _, live, _⟩ := done.managed.signer
  have same : signer = key := by simpa [done.signer] using one.symm
  have inside : key ∈ keys := by
    have found : key ∈ keys.filter (·.object.state == .active) := by simp [done.signer]
    exact (List.mem_filter.mp found).1
  refine ⟨bundleKey key, ?_, done.signingID.symm, same ▸ live⟩
  rw [done.publication.content.2.2.1]
  exact (List.perm_insertionSort _ _).mem_iff.mpr (List.mem_map_of_mem inside)

theorem ready_survives (listing : env.Listing) (ready : PassReady env pass db root roots)
    (proper : pass.Proper env db) :
    Survives pass.now (ensureLocked env pass db) ∧
      DatabaseKept env pass.now root (ensureLocked env pass db).db := by
  obtain ⟨keys, key, view, published, after, passes, done⟩ := ensureLocked_ok listing ready
  have readable := proper.readable
  rw [passes] at readable ⊢
  exact ⟨done.survives, done.databaseKept ready readable⟩

theorem ensureLocked_refused (listing : env.Listing) {at_last : Int}
    (kept : DatabaseKept env at_last root db)
    (due : renewalDue pass.now (currentIssuer env db.intermediates) = true)
    (short : root.notAfter < pass.now + intermediateValidity) :
    ensureLocked env pass db =
      .failed db "the root expires before the intermediate would" := by
  have ensured := ensureRoot_kept kept.roots listing pass.now pass.root
  have refused : renewIssuer env pass.now pass.intermediate root db.intermediates = _ :=
    renewIssuer_refused listing (kept.roots.usable root kept.roots.mem) kept.issuers due short
  simp only [ensureLocked, ensured, refused]

theorem renewalDue_mono {now later : Int} {issuer : Option PKIObject}
    (due : renewalDue now issuer = true) (le : now ≤ later) : renewalDue later issuer = true := by
  cases issuer with
  | none => rfl
  | some issuer =>
    simp only [renewalDue, renewDue, decide_eq_true_eq] at due ⊢
    omega

theorem stage_refused (listing : env.Listing) {at_last : Int}
    (kept : DatabaseKept env at_last root s.db)
    (due : renewalDue pass.now (currentIssuer env s.db.intermediates) = true)
    (short : root.notAfter < pass.now + intermediateValidity) :
    (Survives pass.now (ensureLocked env pass s.db) ↔ Fits env pass.now s.db) ∧
      Stage env (s.pass env pass) := by
  have refused := ensureLocked_refused listing kept due short
  constructor
  · constructor
    · intro survives
      rw [refused] at survives
      cases survives.1
    · intro fits
      have enough := fits root (kept.roots.activeRoot listing) due
      omega
  · have same : (s.pass env pass).db = s.db := by simp [Tower.pass, refused, Outcome.failed]
    exact .stuck root at_last (same ▸ kept) (same ▸ due) short

theorem Stage.databaseKept (stage : Stage env s) (made : s.db.roots ≠ []) :
    ∃ root at_last, DatabaseKept env at_last root s.db := by
  cases stage with
  | fresh empty =>
    rw [empty] at made
    exact absurd rfl made
  | kept root passed clock kept => exact ⟨root, _, kept⟩
  | stuck root at_last kept => exact ⟨root, at_last, kept⟩

/-- A pass that comes in time finds everything in order, or a renewal that is due and does not fit
under the root. -/
theorem Stage.found (listing : env.Listing) (stage : Stage env s) (later : s.clock ≤ pass.now)
    (soon : ∀ passed, s.passed = some passed → pass.now ≤ passed + day)
    (makes : pass.Makes env s.db) :
    (0 ≤ pass.now ∧ Fits env pass.now s.db ∧ ∃ root roots, PassReady env pass s.db root roots ∧
        (s.db = .empty ∧ roots = [root] ∧ root.notAfter = toSecond (pass.now + rootValidity) ∨
          roots = s.db.roots)) ∨
      ∃ root at_last, DatabaseKept env at_last root s.db ∧
        renewalDue pass.now (currentIssuer env s.db.intermediates) = true ∧
        root.notAfter < pass.now + intermediateValidity := by
  cases stage with
  | fresh empty passed clock =>
    rw [empty] at makes ⊢
    obtain ⟨root, ready, ends⟩ := empty_ready listing makes (by omega)
    refine .inl ⟨by omega, ?_, root, [root], ready, .inl ⟨rfl, rfl, ends⟩⟩
    intro found active
    have listed_nil : env.listed [] = [] := List.perm_nil.mp (listing [])
    simp [activeRoot, lastIn, Database.empty, listed_nil] at active
  | kept root passed clock kept =>
    by_cases fits : Fits env pass.now s.db
    · have ready := kept.ready listing makes (by omega) (soon _ passed) fits
      exact .inl ⟨by omega, fits, root, s.db.roots, ready, .inr rfl⟩
    · have active := kept.roots.activeRoot listing
      simp only [Fits, active, Option.some.injEq, forall_eq', not_forall, not_le] at fits
      obtain ⟨due, short⟩ := fits
      exact .inr ⟨root, _, kept, due, short⟩
  | stuck root at_last kept due short =>
    exact .inr ⟨root, at_last, kept, renewalDue_mono due later, by omega⟩

theorem stage_next (listing : env.Listing) (stage : Stage env s) (scheduled : Scheduled env s pass) :
    (Survives pass.now (ensureLocked env pass s.db) ↔ Fits env pass.now s.db) ∧
      Stage env (s.pass env pass) := by
  have proper := scheduled.proper
  rcases stage.found listing scheduled.later scheduled.soon proper.makes with
    ⟨positive, fits, root, roots, ready, _⟩ | ⟨root, at_last, kept, due, short⟩
  · obtain ⟨survives, kept⟩ := ready_survives listing ready proper
    exact ⟨⟨fun _ => fits, fun _ => survives⟩, .kept root rfl positive kept⟩
  · exact stage_refused listing kept due short

end Passes

end Jolt.Pki
