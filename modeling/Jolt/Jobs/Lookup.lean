import Jolt.Jobs.Store

/-! What the records of a transaction do to each bucket, what `get` answers, and the
shape of the table that every transaction keeps: records stand under the id their
value carries, and a job's record repeats its state. -/
namespace Jolt.Jobs
open Jolt.State

namespace Bucket

variable {α β : Type} {b : Bucket α} {t : Table} {key : String}

@[simp] theorem put_bucket (group order : String) (a : α) :
    (b.put key group order a).bucket = b.name := rfl

@[simp] theorem remove_bucket : (b.remove key).bucket = b.name := rfl

@[simp] theorem jobs_name : jobs.name = "jobs" := rfl

@[simp] theorem destructivePlans_name : destructivePlans.name = "destructive_plans" := rfl

@[simp] theorem jobAuthorizations_name : jobAuthorizations.name = "job_authorizations" := rfl

@[simp] theorem idempotency_name : idempotency.name = "idempotency" := rfl

@[simp] theorem destructiveIdempotency_name :
    destructiveIdempotency.name = "destructive_idempotency" := rfl

theorem get_ok {a : α} : b.get t key = .ok a ↔ b.find t key = some a := by
  unfold get find holds
  cases held : t.refs b.name key with
  | none => simp
  | some r =>
    cases decoded : r.data.bind b.unwrap with
    | none => simp [decoded]
    | some v => simp [decoded]

theorem get_notFound : b.get t key = .error .notFound ↔ b.holds t key = false := by
  unfold get
  cases held : b.holds t key with
  | false => simp
  | true =>
    cases b.find t key with
    | none => simp
    | some v => simp

theorem find_of_absent (absent : b.holds t key = false) : b.find t key = none := by
  have none : t.refs b.name key = none := Option.not_isSome_iff_eq_none.mp (by simpa [holds] using absent)
  simp [find, none]

theorem find_applyRecord (r : Record Value) :
    b.find (t.applyRecord r r) key =
      if b.name = r.bucket ∧ key = r.key then
        if r.delete then none else r.data.bind b.unwrap
      else b.find t key := by
  unfold find
  rw [Index.applyRecord_refs]
  split
  · split <;> rfl
  · rfl

@[simp] theorem find_put (group order : String) (a : α) (k : String) :
    b.find (t.applyRecord (b.put key group order a) (b.put key group order a)) k =
      if k = key then some a else b.find t k := by
  rw [find_applyRecord]
  simp [put, b.unwrap_wrap]

theorem find_put_other {c : Bucket β} (other : b.name ≠ c.name) (group order k : String) (a : β) :
    b.find (t.applyRecord (c.put key group order a) (c.put key group order a)) k = b.find t k := by
  rw [find_applyRecord, if_neg]
  exact fun same => other same.1

theorem find_applyAll_other {rs : List (Record Value)}
    (other : ∀ r ∈ rs, r.bucket ≠ b.name ∨ r.key ≠ key) :
    b.find (t.applyAll rs) key = b.find t key := by
  unfold find
  rw [Index.applyAll_refs_other]
  intro r hr same
  obtain ⟨hb, hk⟩ := Prod.mk.inj same
  rcases other r hr with ne | ne
  · exact ne hb
  · exact ne hk

theorem find_applyAll_cases (b : Bucket α) (t : Table) (key : String) (rs : List (Record Value)) :
    b.find (t.applyAll rs) key = b.find t key ∨ ∃ r ∈ rs, r.bucket = b.name ∧ r.key = key ∧
      b.find (t.applyAll rs) key = if r.delete then none else r.data.bind b.unwrap := by
  induction rs generalizing t with
  | nil => exact .inl rfl
  | cons r rs ih =>
    rw [Index.applyAll_cons]
    rcases ih (t.applyRecord r r) with earlier | ⟨r', hr', hb, hk, found⟩
    · rw [earlier, find_applyRecord]
      split
      · rename_i here
        exact .inr ⟨r, List.mem_cons_self, here.1.symm, here.2.symm, rfl⟩
      · exact .inl rfl
    · exact .inr ⟨r', List.mem_cons_of_mem r hr', hb, hk, found⟩

end Bucket

/-- The record of a job, a plan or an authorization stands under the id of its value. -/
def Record.fits (r : Record Value) : Prop :=
  (r.bucket = "jobs" → ∃ j : Job, r.data = some (.job j) ∧ j.id = r.key ∧ r.state = j.state.text) ∧
  (r.bucket = "destructive_plans" → ∃ p, r.data = some (.plan p) ∧ p.id = r.key) ∧
  (r.bucket = "job_authorizations" → ∃ a, r.data = some (.authorization a) ∧ a.jobID = r.key)

def Formed (t : Table) : Prop :=
  ∀ b k r, t.refs b k = some r → r.bucket = b ∧ r.key = k ∧ Record.fits r

theorem formed_empty : Formed Index.empty := fun _ _ _ found => nomatch found

theorem Formed.applyAll {t : Table} (formed : Formed t) {rs : List (Record Value)}
    (fit : ∀ r ∈ rs, r.delete = false → Record.fits r) : Formed (t.applyAll rs) := by
  induction rs generalizing t with
  | nil => exact formed
  | cons r rs ih =>
    apply ih
    · intro b k r' found
      rw [Index.applyRecord_refs] at found
      split_ifs at found with here gone
      · cases found
        exact ⟨here.1.symm, here.2.symm, fit r List.mem_cons_self (by simpa using gone)⟩
      · exact formed b k r' found
    · exact fun r' hr => fit r' (List.mem_cons_of_mem r hr)

section Formed

variable {t : Table} (formed : Formed t)

include formed

theorem Formed.record {α : Type} {b : Bucket α} {id : String} {a : α}
    (found : b.find t id = some a) :
    ∃ r, t.refs b.name id = some r ∧ r.bucket = b.name ∧ r.key = id ∧ Record.fits r ∧
      r.data.bind b.unwrap = some a := by
  obtain ⟨r, held, decoded⟩ := Option.bind_eq_some_iff.mp found
  obtain ⟨hb, hk, fits⟩ := formed _ _ _ held
  exact ⟨r, held, hb, hk, fits, decoded⟩

theorem Formed.job {id : String} {j : Job} (found : Bucket.jobs.find t id = some j) :
    j.id = id ∧ ∃ r, t.refs "jobs" id = some r ∧ r.state = j.state.text := by
  obtain ⟨r, held, hb, hk, fits, decoded⟩ := formed.record found
  obtain ⟨j', data, named, state⟩ := fits.1 hb
  rw [data] at decoded
  cases decoded
  exact ⟨named.trans hk, r, held, state⟩

theorem Formed.plan {id : String} {p : DestructivePlan}
    (found : Bucket.destructivePlans.find t id = some p) : p.id = id := by
  obtain ⟨r, _, hb, hk, fits, decoded⟩ := formed.record found
  obtain ⟨p', data, named⟩ := fits.2.1 hb
  rw [data] at decoded
  cases decoded
  exact named.trans hk

end Formed

section Records

variable {id group order : String}

theorem job_fits {j : Job} (named : j.id = id) :
    Record.fits (Bucket.jobs.put id group order j) :=
  ⟨fun _ => ⟨j, rfl, named, rfl⟩, fun h => absurd h (by simp),
    fun h => absurd h (by simp)⟩

theorem plan_fits {p : DestructivePlan} (named : p.id = id) :
    Record.fits (Bucket.destructivePlans.put id group order p) :=
  ⟨fun h => absurd h (by simp), fun _ => ⟨p, rfl, named⟩,
    fun h => absurd h (by simp)⟩

theorem authorization_fits {a : JobAuthorization} (named : a.jobID = id) :
    Record.fits (Bucket.jobAuthorizations.put id group order a) :=
  ⟨fun h => absurd h (by simp),
    fun h => absurd h (by simp), fun _ => ⟨a, rfl, named⟩⟩

theorem Record.fits_of_bucket {r : Record Value} (jobs : r.bucket ≠ "jobs")
    (plans : r.bucket ≠ "destructive_plans") (authorizations : r.bucket ≠ "job_authorizations") :
    Record.fits r :=
  ⟨fun h => absurd h jobs, fun h => absurd h plans, fun h => absurd h authorizations⟩

end Records

end Jolt.Jobs
