import Jolt.Jobs.Secured

/-! Jobs are created under the idempotency key of the request. Once a key is bound it names one job
for ever, whichever of the creating operations bound it and whichever is called with it again. -/
namespace Jolt.Jobs
open Jolt.Base Jolt.State Transaction

inductive Creation where
  | plain (j : Job) (items : List JobItem)
  | awaiting (j : Job) (actorID credentialID : String)
  | planned (j : Job) (items : List JobItem) (actorID credentialID : String)
  | plannedMove (j : Job) (items : List JobItem) (actorID credentialID : String)
      (plan : MovePlanBinding)

def Creation.run (l : Ledger Value) (key hash : String) : Creation → Tx (Job × Bool)
  | .plain j items => createJobWithItemsHashed l j items key hash
  | .awaiting j actorID credentialID =>
    createJobAwaitingAuthorization l j actorID credentialID key hash
  | .planned j items actorID credentialID =>
    createPlannedJobAwaitingAuthorization l j items actorID credentialID key hash
  | .plannedMove j items actorID credentialID plan =>
    createPlannedMoveAwaitingAuthorization l j items actorID credentialID key hash plan

def Creation.op {κ : Type} (key hash : String) : Creation → Op κ
  | .plain j items => .createJob j items key hash
  | .awaiting j actorID credentialID =>
    .createJobAwaitingAuthorization j actorID credentialID key hash
  | .planned j items actorID credentialID =>
    .createPlannedJobAwaitingAuthorization j items actorID credentialID key hash
  | .plannedMove j items actorID credentialID plan =>
    .createPlannedMoveAwaitingAuthorization j items actorID credentialID key hash plan

section Answers

variable {l : Ledger Value} {rs : List (Record Value)} {key hash : String} {j : Job}
  {items : List JobItem} {job : Job} {reused : Bool}

/-- What a creation that succeeds has recorded, and which job it answers with. -/
inductive Created (t : Table) (key hash : String) (rs : List (Record Value)) (job : Job) :
    Bool → Prop where
  | again {v : IdempotencyRecord} (bound : Bucket.idempotency.find t key = some v)
      (same : hash = "" ∨ hash = v.requestHash) (stored : Bucket.jobs.find t v.jobID = some job)
      (quiet : rs = []) : Created t key hash rs job true
  | new (free : key = "" ∨ Bucket.idempotency.holds t key = false)
      (stored : Bucket.jobs.find (t.applyAll rs) job.id = some job)
      (bound : key ≠ "" → Bucket.idempotency.find (t.applyAll rs) key = some ⟨job.id, hash⟩) :
      Created t key hash rs job false

theorem putNewJob_stored {t : Table} {u : Unit} (h : (putNewJob j items key hash).Commits rs u) :
    Bucket.jobs.find (t.applyAll rs) j.id = some j ∧
      (key ≠ "" → Bucket.idempotency.find (t.applyAll rs) key = some ⟨j.id, hash⟩) := by
  obtain ⟨details, rfl, detail⟩ := putNewJob_records h
  constructor
  · rw [Index.applyAll_cons, Bucket.find_applyAll_other, Bucket.find_put, if_pos rfl]
    intro r hr
    rcases detail r hr with item | ⟨_, rfl⟩
    · exact .inl (by rw [item]; decide)
    · exact .inl (by simp)
  · intro named
    simp only [putNewJob, putJob, commits_put_bind] at h
    obtain ⟨details, h, same⟩ := h
    cases same
    obtain ⟨placed, _, keyed, _, written, rfl⟩ := commits_bind.mp h
    rw [putIdempotency, if_neg named, commits_put] at written
    rw [written, ← List.cons_append, Index.applyAll_append]
    simp [Index.applyAll_cons]

theorem createJob_created (h : (createJobWithItemsHashed l j items key hash).Commits rs
    (job, reused)) : job.secured = false ∧ Created l.table key hash rs job reused := by
  unfold createJobWithItemsHashed at h
  simp only [commits_refuseIf_bind] at h
  obtain ⟨plain, h⟩ := h
  split at h
  · rename_i v known
    simp only [commits_refuseIf_bind, commits_check_bind, commits_pure] at h
    obtain ⟨matches', stored, found, unsecured, rfl, ⟨⟩⟩ := h
    split_ifs at known
    exact ⟨Bool.eq_false_iff.mpr unsecured, .again (Bucket.get_ok.mp known)
      (by tauto) (Bucket.get_ok.mp found) rfl⟩
  · rename_i unknown
    simp only [commits_refuseIf_bind] at h
    obtain ⟨_, h⟩ := h
    obtain ⟨_, stored, ⟨⟩⟩ := commits_bind_pure.mp h
    obtain ⟨noPlan, unbound, requires, _⟩ :=
      claimsAuthorization_eq_false (Bool.eq_false_iff.mpr plain)
    obtain ⟨there, bound⟩ := putNewJob_stored stored
    refine ⟨by simp [Job.secured, noPlan, unbound, requires], .new ?_ there bound⟩
    split_ifs at unknown with empty
    · exact .inl empty
    · exact .inr (Bucket.get_notFound.mp unknown)
  · exact absurd h commits_refuse

theorem createAwaiting_created {actorID credentialID : String} {plan : Option MovePlanBinding}
    (h : (createAwaitingAuthorization l j items actorID credentialID key hash plan).Commits rs
      (job, reused)) : Created l.table key hash rs job reused := by
  unfold createAwaitingAuthorization at h
  simp only [commits_refuseIf_bind] at h
  obtain ⟨_, h⟩ := h
  split at h
  · rename_i v known
    simp only [commits_refuseIf_bind, commits_check_bind, commits_pure, not_not] at h
    obtain ⟨same, stored, found, _, rfl, ⟨⟩⟩ := h
    exact .again (Bucket.get_ok.mp known) (.inr same.symm) (Bucket.get_ok.mp found) rfl
  · rename_i unknown
    simp only [commits_refuseIf_bind, commits_note_bind] at h
    obtain ⟨_, h⟩ := h
    obtain ⟨planRecords, j', rest, used, following, rfl⟩ := commits_bind.mp h
    obtain ⟨_, stored, ⟨⟩⟩ := commits_bind_pure.mp following
    obtain ⟨there, bound⟩ := putNewJob_stored stored
    refine .new (.inr (Bucket.get_notFound.mp unknown)) ?_ ?_
    · rw [Index.applyAll_append]
      exact there
    · rw [Index.applyAll_append]
      exact bound
  · exact absurd h commits_refuse

theorem Creation.created (c : Creation) (h : (c.run l key hash).Commits rs (job, reused)) :
    Created l.table key hash rs job reused := by
  cases c with
  | plain => exact (createJob_created h).2
  | awaiting | planned | plannedMove =>
    simp only [Creation.run, createJobAwaitingAuthorization, createPlannedJobAwaitingAuthorization,
      createPlannedMoveAwaitingAuthorization, commits_refuseIf_bind] at h
    exact createAwaiting_created h.2

end Answers

section Keys

variable {κ : Type} {signing : Signing κ} {l : Ledger Value}

theorem Creation.op_apply (c : Creation) (key hash : String) :
    (c.op key hash).apply signing l = (transact l (c.run l key hash)).1 := by
  cases c <;> rfl

theorem Creation.answer (c : Creation) (l : Ledger Value) (key hash : String) :
    ((∃ e, (transact l (c.run l key hash)).2 = .error e) ∧
        (transact l (c.run l key hash)).1.table = l.table) ∨
      ∃ rs job reused, (transact l (c.run l key hash)).2 = .ok (job, reused) ∧
        (transact l (c.run l key hash)).1.table = l.table.applyAll rs ∧
        (c.run l key hash).Commits rs (job, reused) := by
  rcases transact_cases l (c.run l key hash) with failed | ⟨rs, ⟨job, reused⟩, commits, ok, table⟩
  · exact .inl failed
  · exact .inr ⟨rs, job, reused, ok, table, commits⟩

theorem Creation.repeated (c : Creation) (signing : Signing κ) {key : String} (hash : String)
    {v : IdempotencyRecord} (named : key ≠ "") (bound : Bucket.idempotency.find l.table key = some v) :
    ((c.op key hash).apply signing l).table = l.table ∧
      ∀ job reused, (transact l (c.run l key hash)).2 = .ok (job, reused) →
        (hash = "" ∨ hash = v.requestHash) ∧ Bucket.jobs.find l.table v.jobID = some job ∧
          reused = true := by
  rw [c.op_apply]
  rcases c.answer l key hash with ⟨⟨e, failed⟩, same⟩ | ⟨rs, job, reused, ok, table, commits⟩
  · refine ⟨same, fun job reused ok => ?_⟩
    rw [failed] at ok
    cases ok
  · cases c.created commits with
    | again known matches' stored quiet =>
      cases known.symm.trans bound
      refine ⟨by rw [table, quiet]; rfl, fun other again ok' => ?_⟩
      cases ok.symm.trans ok'
      exact ⟨matches', stored, rfl⟩
    | new free =>
      rw [Bucket.find_of_absent (free.resolve_left named)] at bound
      cases bound

/-- In every reachable store a key that is bound names its one job for ever; a creation with that key
changes no record and fails, with a different hash always, or answers with that job; a creation
that succeeds leaves its key bound to the job it answers with, one that fails leaves every record
as it was, and a plain one never answers with a secured job. -/
theorem idempotency_key_names_one_job (reached : Steps signing emptyLedger l) (c : Creation)
    (key hash : String) :
    (key ≠ "" → ∀ v, Bucket.idempotency.find l.table key = some v →
      (∀ l', Steps signing l l' → Bucket.idempotency.find l'.table key = some v) ∧
      ((c.op key hash).apply signing l).table = l.table ∧
      (hash ≠ "" → hash ≠ v.requestHash → ∃ e, (transact l (c.run l key hash)).2 = .error e) ∧
      ∀ job reused, (transact l (c.run l key hash)).2 = .ok (job, reused) →
        Bucket.jobs.find l.table v.jobID = some job ∧ job.id = v.jobID ∧ reused = true) ∧
    (∀ job reused, (transact l (c.run l key hash)).2 = .ok (job, reused) →
      Bucket.jobs.find ((c.op key hash).apply signing l).table job.id = some job ∧
      (key ≠ "" → ∃ recorded, Bucket.idempotency.find ((c.op key hash).apply signing l).table key =
        some ⟨job.id, recorded⟩)) ∧
    (∀ e, (transact l (c.run l key hash)).2 = .error e →
      ((c.op key hash).apply signing l).table = l.table) ∧
    (∀ j items, c = .plain j items → ∀ job reused,
      (transact l (c.run l key hash)).2 = .ok (job, reused) → job.secured = false) := by
  have sound := reached.sound sound_empty
  refine ⟨fun named v bound => ?_, fun job reused ok => ?_, fun e failed => ?_, ?_⟩
  · obtain ⟨same, answer⟩ := c.repeated signing hash named bound
    refine ⟨fun l' run => run.idempotency sound bound, same, fun given other => ?_, ?_⟩
    · rcases c.answer l key hash with ⟨failed, _⟩ | ⟨rs, job, reused, ok, _⟩
      · exact failed
      rcases (answer job reused ok).1 with none | equal
      · exact absurd none given
      · exact absurd equal other
    · intro job reused ok
      obtain ⟨_, stored, again⟩ := answer job reused ok
      exact ⟨stored, (sound.formed.job stored).1, again⟩
  · rw [c.op_apply]
    rcases c.answer l key hash with ⟨⟨e, failed⟩, _⟩ | ⟨rs, found, again, ok', table, commits⟩
    · rw [failed] at ok
      cases ok
    cases ok.symm.trans ok'
    rw [table]
    cases c.created commits with
    | @again v bound _ stored quiet =>
      rw [quiet, (sound.formed.job stored).1]
      exact ⟨stored, fun _ => ⟨v.requestHash, bound⟩⟩
    | new _ stored bound => exact ⟨stored, fun named => ⟨hash, bound named⟩⟩
  · rw [c.op_apply]
    rcases c.answer l key hash with ⟨_, same⟩ | ⟨_, _, _, ok, _⟩
    · exact same
    · rw [ok] at failed
      cases failed
  · rintro j items rfl job reused ok
    rcases Creation.answer (.plain j items) l key hash with ⟨⟨e, failed⟩, _⟩ | ⟨_, _, _, ok', _, commits⟩
    · rw [failed] at ok
      cases ok
    · cases ok.symm.trans ok'
      exact (createJob_created commits).1

def keyedSample : Ledger Value :=
  (Op.createJob sampleJob [] "k" "h").apply sampleSigning emptyLedger

/-- A second request with the key of the first creates nothing. -/
theorem sample_key_names_job :
    ((Op.createJob { sampleJob with id := "other" } [] "k" "h").apply sampleSigning
      keyedSample).table = keyedSample.table := by
  have reached : Steps sampleSigning emptyLedger keyedSample := Steps.one _ emptyLedger
  have bound : Bucket.idempotency.find keyedSample.table "k" = some ⟨"j", "h"⟩ := by decide
  exact ((idempotency_key_names_one_job reached (.plain { sampleJob with id := "other" } []) "k"
    "h").1 (by decide) _ bound).2.1

end Keys

end Jolt.Jobs
