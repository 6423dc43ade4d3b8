import Jolt.Jobs.Effects
import Jolt.Jobs.Service

/-! What one step of the service does, seen from one job that is under no authorization:
first each use of the store, then each event of the system. Every step either leaves
the job alone, is the mutex holder's own, or is one of the few unlocked writers. -/
namespace Jolt.Jobs
open Jolt.Base Jolt.State Transaction

section Store

variable {κ : Type} {signing : Signing κ} {l : Ledger Value} {id : String}

theorem find_written {t : Table} {j : Job} {group order : String} {details : List (Record Value)}
    (quiet : ∀ r ∈ details, r.bucket ≠ "jobs") (key : String) :
    Bucket.jobs.find (t.applyAll (Bucket.jobs.put id group order j :: details)) key =
      if key = id then some j else Bucket.jobs.find t key := by
  rw [Index.applyAll_cons, Bucket.find_applyAll_other (fun r hr => .inl (quiet r hr)),
    Bucket.find_put]

/-- A stored job is replaced by `j`, and no other job changes. -/
def Replaced (t t' : Table) (j : Job) : Prop :=
  ∃ old, Bucket.jobs.find t j.id = some old ∧ ∀ key,
    Bucket.jobs.find t' key =
      if key = j.id then some { j with createdAt := old.createdAt } else Bucket.jobs.find t key

theorem Replaced.other {t t' : Table} {j : Job} (replaced : Replaced t t' j) (other : id ≠ j.id) :
    Bucket.jobs.find t' id = Bucket.jobs.find t id := by
  obtain ⟨_, _, all⟩ := replaced
  rw [all, if_neg other]

theorem Replaced.here {t t' : Table} {j : Job} (replaced : Replaced t t' j) (here : j.id = id) :
    ∃ j', Bucket.jobs.find t' id = some j' ∧ j'.state = j.state ∧ j'.attempt = j.attempt := by
  obtain ⟨old, _, all⟩ := replaced
  exact ⟨_, (all id).trans (if_pos here.symm), rfl, rfl⟩

theorem updateJob_ok {j : Job} {u : Unit} (done : (transact l (updateJob l j)).2 = .ok u) :
    Replaced l.table (transact l (updateJob l j)).1.table j := by
  rcases transact_cases l (updateJob l j) with ⟨⟨e, failed⟩, _⟩ | ⟨rs, a, commits, _, table⟩
  · rw [failed] at done
    cases done
  obtain ⟨old, found, _, rfl⟩ := updateJob_records commits
  refine ⟨old, found, fun key => ?_⟩
  rw [table]
  exact find_written (fun r hr => absurd hr List.not_mem_nil) key

theorem transact_failed {α : Type} {m : Tx α} {e : Failure} (failed : (transact l m).2 = .error e) :
    (transact l m).1.table = l.table := by
  rcases transact_cases l m with ⟨_, table⟩ | ⟨rs, a, _, answer, _⟩
  · exact table
  · rw [answer] at failed
    cases failed

theorem updateJob_find (j : Job) :
    (transact l (updateJob l j)).1.table = l.table ∨
      Replaced l.table (transact l (updateJob l j)).1.table j := by
  cases outcome : (transact l (updateJob l j)).2 with
  | error e => exact .inl (transact_failed outcome)
  | ok u => exact .inr (updateJob_ok outcome)

theorem updateJobWithEvent_find (j : Job) (event : JobEvent) :
    (transact l (updateJobWithEvent l j event)).1.table = l.table ∨
      Replaced l.table (transact l (updateJobWithEvent l j event)).1.table j := by
  rcases transact_cases l (updateJobWithEvent l j event) with ⟨_, table⟩ | ⟨rs, a, commits, _, table⟩
  · exact .inl table
  obtain ⟨old, e, found, _, rfl, events⟩ := updateJobWithEvent_records commits
  refine .inr ⟨old, found, fun key => ?_⟩
  rw [table]
  refine find_written (fun r hr => ?_) key
  rw [List.mem_singleton.mp hr, events]
  decide

theorem claimNextJob_ok (formed : Formed l.table) {now : Time} {job : Job}
    (done : (transact l (claimNextJob l now)).2 = .ok job) :
    ∃ j, Bucket.jobs.find l.table job.id = some j ∧ j.state = .queued ∧ job = j.start now ∧ ∀ key,
      Bucket.jobs.find (transact l (claimNextJob l now)).1.table key =
        if key = job.id then some job else Bucket.jobs.find l.table key := by
  rcases transact_cases l (claimNextJob l now) with ⟨⟨e, failed⟩, _⟩ | ⟨rs, a, commits, answer, table⟩
  · rw [failed] at done
    cases done
  rw [answer] at done
  cases done
  obtain ⟨id, j, found, queued, _, _, rfl, rfl⟩ := claimFrom_records commits
  have named : j.id = id := (formed.job found).1
  subst named
  refine ⟨j, found, queued, rfl, fun key => ?_⟩
  rw [table]
  exact find_written (fun r hr => absurd hr List.not_mem_nil) key

theorem claimSecuredFrom_answer {t : Table} {nodeID : String} {keys : κ} {now : Time}
    {ids : List String} {rs : List (Record Value)} {job : Job}
    (h : (claimSecuredFrom signing t nodeID keys now ids).Commits rs (some job)) :
    ∃ id j before group order, Bucket.jobs.find t id = some j ∧ j.state = .queued ∧
      executableSecuredJob j = true ∧ job = j.start now ∧
      rs = before ++ [Bucket.jobs.put id group order job] := by
  induction ids generalizing rs with
  | nil => cases (commits_pure.mp h).2
  | cons id ids ih =>
    obtain ⟨j, got, h⟩ := commits_check_bind.mp h
    split_ifs at h with skipped lapsed
    · exact ih h
    · obtain ⟨rest, follows, rfl⟩ := commits_put_bind.mp h
      obtain ⟨id', j', before, group, order, found, queued, executable, started, rfl⟩ := ih follows
      exact ⟨id', j', _ :: before, group, order, found, queued, executable, started, rfl⟩
    · simp only [not_or, not_not, Bool.not_eq_false] at skipped
      simp only [putJobAt, commits_put_bind, commits_pure] at h
      obtain ⟨_, ⟨rfl, same⟩, rfl⟩ := h
      cases same
      exact ⟨id, j, [], _, _, Bucket.get_ok.mp got, skipped.1, skipped.2.1, rfl, rfl⟩

theorem claimNextSecuredJob_ok (formed : Formed l.table) {nodeID : String} {keys : κ} {now : Time}
    {job : Job} (done : (transact l (claimNextSecuredJob signing l nodeID keys now)).2 = .ok (some job)) :
    ∃ j, Bucket.jobs.find l.table job.id = some j ∧ j.secured = true ∧ j.state = .queued ∧
      job = j.start now ∧ Bucket.jobs.find
        (transact l (claimNextSecuredJob signing l nodeID keys now)).1.table job.id = some job := by
  rcases transact_cases l (claimNextSecuredJob signing l nodeID keys now) with
    ⟨⟨e, failed⟩, _⟩ | ⟨rs, a, commits, answer, table⟩
  · rw [failed] at done
    cases done
  rw [answer] at done
  cases done
  simp only [claimNextSecuredJob, commits_refuseIf_bind] at commits
  obtain ⟨id, j, before, group, order, found, queued, executable, rfl, rfl⟩ :=
    claimSecuredFrom_answer commits.2
  have named : j.id = id := (formed.job found).1
  have bound : j.signedAuthBound = true := by
    simp only [executableSecuredJob, Bool.and_eq_true] at executable
    exact executable.1
  refine ⟨j, named.symm ▸ found, by simp [Job.secured, bound], queued, rfl, ?_⟩
  rw [table, Index.applyAll_append]
  exact (Bucket.find_put ..).trans (if_pos named)

theorem createJob_find (j : Job) (items : List JobItem) (key hash : String) :
    ((transact l (createJobWithItemsHashed l j items key hash)).1.table = l.table ∧
      ∀ c, (transact l (createJobWithItemsHashed l j items key hash)).2 ≠ .ok (c, false)) ∨
    ((transact l (createJobWithItemsHashed l j items key hash)).2 = .ok (j, false) ∧
      Bucket.jobs.find l.table j.id = none ∧ ∀ k,
      Bucket.jobs.find (transact l (createJobWithItemsHashed l j items key hash)).1.table k =
        if k = j.id then some j else Bucket.jobs.find l.table k) := by
  rcases transact_cases l (createJobWithItemsHashed l j items key hash) with
    ⟨⟨e, failed⟩, table⟩ | ⟨rs, a, commits, answer, table⟩
  · refine .inl ⟨table, fun c done => ?_⟩
    rw [failed] at done
    cases done
  · unfold createJobWithItemsHashed at commits
    simp only [commits_refuseIf_bind] at commits
    obtain ⟨_, commits⟩ := commits
    split at commits
    · simp only [commits_refuseIf_bind, commits_check_bind, commits_pure] at commits
      obtain ⟨_, _, _, _, rfl, rfl⟩ := commits
      refine .inl ⟨table, fun c done => ?_⟩
      rw [answer] at done
      cases done
    · simp only [commits_refuseIf_bind] at commits
      obtain ⟨fresh, commits⟩ := commits
      obtain ⟨_, stored, rfl⟩ := commits_bind_pure.mp commits
      obtain ⟨details, rfl, detail⟩ := putNewJob_records stored
      refine .inr ⟨answer, Bucket.find_of_absent (Bool.eq_false_iff.mpr fresh), fun k => ?_⟩
      rw [table]
      refine find_written (fun r hr => ?_) k
      rcases detail r hr with item | ⟨_, rfl⟩
      · rw [item]
        decide
      · simp
    · exact absurd commits commits_refuse

theorem apply_find (formed : Formed l.table) {op : Op κ}
    (kind : op.isFree = true ∨ ∃ nodeID keys now, op = .claimNextSecuredJob nodeID keys now)
    (before : ∀ j, Bucket.jobs.find l.table id = some j → j.secured = false)
    (after : ∀ j, Bucket.jobs.find (op.apply signing l).table id = some j → j.secured = false) :
    Bucket.jobs.find (op.apply signing l).table id = Bucket.jobs.find l.table id ∨
      (Bucket.jobs.find l.table id = none ∧ ∃ j, Bucket.jobs.find (op.apply signing l).table id = some j) ∨
      ∃ j now, Bucket.jobs.find l.table id = some j ∧ (j.state = .waitingPeer ∨ j.state = .waitingMount) ∧
        Bucket.jobs.find (op.apply signing l).table id = some (j.wake now) := by
  rcases (op.moves signing formed).job id with same | ⟨j, found, move⟩
  · exact .inl same
  generalize earlier : Bucket.jobs.find l.table id = old at move before
  have bound : ∀ old : Job, executableSecuredJob old = true → old.secured = false → False := by
    intro old executable unsecured
    simp only [executableSecuredJob, Bool.and_eq_true] at executable
    simp [Job.secured, executable.1] at unsecured
  have other : ∀ {op' : Op κ}, op = op' → op'.isFree = false →
      (∀ n k t, op' ≠ .claimNextSecuredJob n k t) → False := by
    rintro _ rfl locked apart
    rcases kind with free | ⟨n, k, t, same⟩
    · exact absurd free (locked ▸ Bool.false_ne_true)
    · exact apart n k t same
  cases move with
  | create => exact .inr (.inl ⟨rfl, j, found⟩)
  | wake waiting => exact .inr (.inr ⟨_, _, rfl, waiting, found⟩)
  | update _ source =>
    rcases source with same | ⟨event, same⟩ <;> exact (other same rfl (by simp)).elim
  | claim _ _ source | recover _ source => exact (other source rfl (by simp)).elim
  | claimSecured _ executable => exact absurd (before _ rfl) (fun h => bound _ executable h)
  | park _ executable => exact absurd (before _ rfl) (fun h => bound _ executable h)
  | bind =>
    have secured := after _ found
    simp [Job.secured, Job.bind_keeps] at secured

theorem recover_find (signing : Signing κ) (formed : Formed l.table) (now : Time) (id : String) :
    (∀ j, Bucket.jobs.find l.table id = some j → j.state = .paused ∨ j.state = .canceled →
      Bucket.jobs.find (transact l (recoverRunningJobs l now)).1.table id = some j) ∧
    ∀ j, Bucket.jobs.find (transact l (recoverRunningJobs l now)).1.table id = some j →
      ∀ old, Bucket.jobs.find l.table id = some old → j.attempt = old.attempt := by
  rcases ((Op.recoverRunningJobs now).moves signing formed).job id with same | ⟨j', after, move⟩
  · refine ⟨fun j found _ => same.trans found, fun j found old before => ?_⟩
    cases before.symm.trans (same.symm.trans found)
    rfl
  · have recovered : ∀ old, Bucket.jobs.find l.table id = some old →
        j'.attempt = old.attempt ∧ ¬(old.state = .paused ∨ old.state = .canceled) := by
      intro old found
      rw [found] at move
      cases move with
      | update _ source => rcases source with same | ⟨_, same⟩ <;> cases same
      | claim _ _ source => cases source
      | claimSecured _ _ _ source => cases source
      | park queued => exact ⟨rfl, by simp [queued]⟩
      | wake waiting => exact ⟨rfl, by rcases waiting with h | h <;> simp [h]⟩
      | recover unsettled =>
        refine ⟨rfl, fun rests => ?_⟩
        rcases rests with h | h <;> simp [h] at unsettled
      | bind _ _ source =>
        obtain ⟨_, offered⟩ := source
        cases offered
    refine ⟨fun j found rests => absurd rests (recovered j found).2, fun j found old before => ?_⟩
    cases after.symm.trans found
    exact (recovered old before).1

end Store

section Wiring

variable {κ : Type} {signing : Signing κ} {s s' : System} {e : Event κ} {a : Option Answer}

/-- The records of the store are in order, a job read under the mutex is the job asked
for, and a worker that holds the mutex still has its job. -/
structure Wired (s : System) : Prop where
  formed : Formed s.ledger.table
  named : ∀ call job, s.lock = some ⟨call, some job⟩ → job.id = call.id
  executing : ∀ w id loaded, s.lock = some ⟨.execute w id, loaded⟩ →
    ∃ o, s.owners w = some o ∧ o.job.id = id ∧ o.stage = .claimed
  finishing : ∀ w id loaded, s.lock = some ⟨.finish w id, loaded⟩ →
    ∃ job err bytes, s.owners w = some ⟨job, .finishing err bytes⟩ ∧ job.id = id

def Stage.isLocking : Stage → Bool
  | .claimed | .finishing _ _ => true
  | .operating | .inline => false

theorem Wired.keep (wired : Wired s) (formed : Formed s'.ledger.table) (lock : s'.lock = s.lock)
    (owners : ∀ w o, s.owners w = some o → o.stage.isLocking = true → s'.owners w = some o) :
    Wired s' := by
  refine ⟨formed, ?_, ?_, ?_⟩
  · intro call job held
    exact wired.named call job (lock ▸ held)
  · intro w id loaded held
    obtain ⟨o, owner, named, stage⟩ := wired.executing w id loaded (lock ▸ held)
    exact ⟨o, owners w o owner (by simp [stage, Stage.isLocking]), named, stage⟩
  · intro w id loaded held
    obtain ⟨job, err, bytes, owner, named⟩ := wired.finishing w id loaded (lock ▸ held)
    exact ⟨job, err, bytes, owners w _ owner rfl, named⟩

theorem Wired.unlocked (formed : Formed s'.ledger.table) (lock : s'.lock = none) : Wired s' := by
  refine ⟨formed, ?_, ?_, ?_⟩ <;> intros <;> simp_all

theorem Wired.started {l : Ledger Value} (formed : Formed l.table) : Wired (System.started l) :=
  Wired.unlocked formed rfl

@[simp] theorem setOwner_ledger (w : Nat) (o : Option Owner) :
    (s.setOwner w o).ledger = s.ledger := rfl

@[simp] theorem setOwner_owners (w i : Nat) (o : Option Owner) :
    (s.setOwner w o).owners i = if i = w then o else s.owners i := rfl

theorem Wired.setOwner (wired : Wired s) {w : Nat} {o : Option Owner}
    (outside : ∀ o, s.owners w = some o → o.stage.isLocking = false) : Wired (s.setOwner w o) := by
  refine wired.keep wired.formed rfl ?_
  intro i p owner locking
  rw [setOwner_owners, if_neg]
  · exact owner
  rintro rfl
  rw [outside p owner] at locking
  cases locking

theorem Wired.setLedger (wired : Wired s) {l : Ledger Value} (formed : Formed l.table) :
    Wired { s with ledger := l } :=
  wired.keep formed rfl (fun _ _ owner _ => owner)

theorem giveUp_ledger (call : Call) (err : OperationError) :
    (s.giveUp call err).ledger = s.ledger ∧ (s.giveUp call err).lock = none := by
  unfold System.giveUp
  dsimp only
  split
  · split <;> exact ⟨rfl, rfl⟩
  · exact ⟨rfl, rfl⟩
  · exact ⟨rfl, rfl⟩

theorem Wired.giveUp (wired : Wired s) (call : Call) (err : OperationError) :
    Wired (s.giveUp call err) := by
  obtain ⟨ledger, lock⟩ := @giveUp_ledger s call err
  exact .unlocked (ledger ▸ wired.formed) lock

theorem Wired.answer (signing : Signing κ) (wired : Wired s) (call : Call) (job : Job) (now : Time) :
    Wired (s.answer call job now).1 := by
  unfold System.answer
  split
  · rename_i job' _
    have formed := ((Op.updateJob job').moves signing wired.formed).formed
    simp only [Op.apply] at formed
    split <;> rename_i transacted <;> rw [transacted] at formed <;> exact .unlocked formed rfl
  · exact .unlocked wired.formed rfl
  · exact .unlocked wired.formed rfl

theorem Wired.begin (signing : Signing κ) (wired : Wired s) (w : Nat) (job : Job) (now : Time)
    (invalid : Option OperationError) : Wired (s.begin w job now invalid) := by
  unfold System.begin
  dsimp only
  split
  · split
    · exact .unlocked wired.formed rfl
    have formed := ((Op.updateJob (job.transferring now)).moves signing wired.formed).formed
    simp only [Op.apply] at formed
    split <;> rename_i transacted <;> rw [transacted] at formed <;> exact .unlocked formed rfl
  · exact .unlocked wired.formed rfl

theorem finish_some {w : Nat} {job : Job} {err : Option OperationError} {bytes : Int} {now : Time}
    (finished : s.finish w job err bytes now = some s') :
    ∃ j type, Jobs.finish s.stopping job err bytes now = some (j, type) ∧
      s' = { s with
        lock := none
        ledger := (transact s.ledger (updateJobWithEvent s.ledger j
          (newJobEvent j type j.error now))).1 }.setOwner w none := by
  unfold System.finish at finished
  split at finished
  · cases finished
  · rename_i j type decided
    exact ⟨j, type, decided, (Option.some.inj finished).symm⟩

theorem Wired.next (wired : Wired s) (moved : s.next signing e = some (s', a)) : Wired s' := by
  have formed : ∀ op : Op κ, Formed (op.apply signing s.ledger).table :=
    fun op => (op.moves signing wired.formed).formed
  have vacant : ∀ {w : Nat}, s.owners w = none →
      ∀ o, s.owners w = some o → o.stage.isLocking = false := by
    intro w empty o owner
    rw [empty] at owner
    cases owner
  cases e with
  | store op =>
    simp only [System.next] at moved
    split_ifs at moved
    cases moved
    exact wired.setLedger (formed op)
  | claim w id now =>
    simp only [System.next] at moved
    split_ifs at moved with empty
    split at moved
    · rename_i l job transacted
      split_ifs at moved
      cases moved
      have after := formed (.claimNextJob now)
      simp only [Op.apply, transacted] at after
      exact (wired.setLedger after).setOwner (vacant empty)
    · cases moved
  | claimSecured w nodeID keys now =>
    simp only [System.next] at moved
    split_ifs at moved with empty
    have after := formed (.claimNextSecuredJob nodeID keys now)
    split at moved <;> rename_i transacted <;> cases moved <;>
      simp only [Op.apply, transacted] at after
    · exact (wired.setLedger after).setOwner (vacant empty)
    · exact wired.setLedger after
  | createInline w job key =>
    simp only [System.next] at moved
    split_ifs at moved with empty
    have after := formed (.createJob job [] key "")
    split at moved <;> rename_i transacted <;> cases moved <;>
      simp only [Op.apply, transacted] at after
    · exact (wired.setLedger after).setOwner (vacant empty.1)
    · exact wired.setLedger after
  | enter call =>
    simp only [System.next] at moved
    split_ifs at moved with free
    cases moved
    refine ⟨wired.formed, fun _ _ held => by simp at held, ?_, ?_⟩
    · intro w id loaded held
      cases held
      have enters := free.2
      simp only [System.mayEnter, Option.any_eq_true, Bool.and_eq_true, beq_iff_eq] at enters
      obtain ⟨o, owner, stage, named⟩ := enters
      exact ⟨o, owner, named, stage⟩
    · intro w id loaded held
      cases held
      have enters := free.2
      simp only [System.mayEnter, Option.any_eq_true, Bool.and_eq_true, beq_iff_eq] at enters
      obtain ⟨⟨job, stage⟩, owner, finishing, named⟩ := enters
      cases stage with
      | finishing err bytes => exact ⟨job, err, bytes, owner, named⟩
      | _ => cases finishing
  | load =>
    simp only [System.next] at moved
    split at moved
    · rename_i call held
      split at moved <;> rename_i read <;> cases moved
      · rename_i job
        refine ⟨wired.formed, ?_, ?_, ?_⟩
        · intro call' job' now
          cases now
          exact (wired.formed.job (Bucket.get_ok.mp read)).1
        · intro w id loaded now
          cases now
          exact wired.executing w id none held
        · intro w id loaded now
          cases now
          exact wired.finishing w id none held
      · exact wired.giveUp call _
    · cases moved
  | commit now invalid =>
    simp only [System.next] at moved
    split at moved
    · cases moved
      exact wired.begin signing _ _ _ _
    · split at moved
      · obtain ⟨t, finished, same⟩ := Option.map_eq_some_iff.mp moved
        cases same
        obtain ⟨j, type, _, rfl⟩ := finish_some finished
        exact Wired.unlocked (formed (.updateJobWithEvent j _)) rfl
      · cases moved
    · obtain rfl : (s.answer _ _ now).1 = s' := congrArg Prod.fst (Option.some.inj moved)
      exact wired.answer signing _ _ _
    · cases moved
  | fail err =>
    simp only [System.next] at moved
    split at moved
    · cases moved
      exact wired.giveUp _ err
    · cases moved
  | rewrite w job =>
    simp only [System.next] at moved
    split at moved
    · split_ifs at moved
      cases moved
      exact wired.setLedger (formed (.updateJob job))
    · cases moved
  | operated w err bytes =>
    simp only [System.next] at moved
    split at moved
    · rename_i owner
      cases moved
      refine wired.setOwner (fun o owner' => ?_)
      cases owner.symm.trans owner'
      rfl
    · cases moved
  | complete w bytes err now =>
    simp only [System.next] at moved
    split at moved
    · rename_i job owner
      cases moved
      refine (wired.setLedger (formed (.updateJobWithEvent _ _))).setOwner (fun o owner' => ?_)
      cases owner.symm.trans owner'
      rfl
    · cases moved
  | shutdown =>
    cases moved
    exact wired.keep wired.formed rfl (fun _ _ owner _ => owner)
  | restart now =>
    cases moved
    exact Wired.started (formed (.recoverRunningJobs now))

end Wiring

section Effects

variable {call : Call} {j j' : Job} {now : Time} {w : Nat}

def System.job (s : System) (id : String) : Option Job := Bucket.jobs.find s.ledger.table id

def System.owns (s : System) (id : String) (w : Nat) (o : Owner) : Prop :=
  s.owners w = some o ∧ o.job.id = id

variable {κ : Type} (id : String) (s : System) (e : Event κ) (s' : System)

def Read (id : String) (s : System) (n : Int) : Prop :=
  ∃ call j, s.lock = some ⟨call, some j⟩ ∧ call.id = id ∧ j.attempt = n

/-- What a step can do to one job, to those who work on it and to the mutex. -/
inductive Effect : Prop where
  | idle (job : s'.job id = s.job id) (owners : ∀ i o, s'.owns id i o → s.owns id i o)
      (lock : s'.lock = s.lock ∨ s'.lock = none)
  | created {j : Job} {w : Nat} (absent : s.job id = none) (job : s'.job id = some j)
      (owners : ∀ i o, s'.owns id i o →
        s.owns id i o ∨ (i = w ∧ o = ⟨j, .inline⟩ ∧ j.state = .running))
      (lock : s'.lock = s.lock)
  | woken {j : Job} {now : Time} (job : s.job id = some j)
      (waiting : j.state = .waitingPeer ∨ j.state = .waitingMount)
      (job' : s'.job id = some (j.wake now)) (owners : ∀ i o, s'.owns id i o → s.owns id i o)
      (lock : s'.lock = s.lock)
  | claimed {j : Job} {w : Nat} {now : Time} (event : e = .claim w id now)
      (job : s.job id = some j) (queued : j.state = .queued)
      (job' : s'.job id = some (j.start now))
      (owners : ∀ i o, s'.owns id i o → s.owns id i o ∨ (i = w ∧ o = ⟨j.start now, .claimed⟩))
      (lock : s'.lock = s.lock)
  | entered {call : Call} (event : e = .enter call) (job : s'.job id = s.job id)
      (owners : ∀ i o, s'.owns id i o → s.owns id i o) (lock : s'.lock = some ⟨call, none⟩)
  | loaded {call : Call} {j : Job} (job : s'.job id = s.job id)
      (owners : ∀ i o, s'.owns id i o → s.owns id i o) (held : s.lock = some ⟨call, none⟩)
      (lock : s'.lock = some ⟨call, some j⟩) (read : s.job call.id = some j)
  | wrote {call : Call} {j j' old : Job} {now : Time} (held : s.lock = some ⟨call, some j⟩)
      (mine : call.id = id) (verdict : call.verdict now j = .write j') (job : s.job id = some old)
      (job' : s'.job id = some { j' with createdAt := old.createdAt })
      (owners : ∀ i o, s'.owns id i o → s.owns id i o) (lock : s'.lock = none)
  | worked {w : Nat} {o : Owner} (owner : s.owns id w o) (worker : o.stage ≠ .inline)
      (job : s'.job id = s.job id ∨ ∃ j, s'.job id = some j ∧
        ((j.state = .running ∧ Read id s j.attempt) ∨
          (∃ k, e = .rewrite w k ∧ j.attempt = k.attempt) ∧ o.stage = .operating ∧
            j.state = o.job.state))
      (owners : ∀ i p, s'.owns id i p → s.owns id i p ∨
        (i = w ∧ (p.stage = .operating → p.job.state = .running) ∧
          (p.job.attempt = o.job.attempt ∨ Read id s p.job.attempt)))
      (lock : s'.lock = s.lock ∨ s'.lock = none)
  | finished {w : Nat} {o : Owner} (owner : s.owns id w o)
      (job : s'.job id = s.job id ∨ ∃ j, s'.job id = some j ∧
        (j.attempt = o.job.attempt ∨ ∃ n, Read id s n ∧ (0 ≤ n → 0 ≤ j.attempt)))
      (owners : ∀ i p, s'.owns id i p → i ≠ w ∧ s.owns id i p)
      (lock : s'.lock = s.lock ∨ s'.lock = none)
  | restarted (job : ∀ j, s.job id = some j → j.state = .paused ∨ j.state = .canceled →
        s'.job id = some j)
      (counts : ∀ j, s'.job id = some j → ∀ old, s.job id = some old → j.attempt = old.attempt)
      (owners : ∀ i o, ¬ s'.owns id i o) (lock : s'.lock = none)

variable {id s e s'}

theorem owns_setOwner {i : Nat} {q : Option Owner} {p : Owner}
    (owns : (s.setOwner w q).owns id i p) :
    (i = w ∧ q = some p ∧ p.job.id = id) ∨ (i ≠ w ∧ s.owns id i p) := by
  obtain ⟨owner, named⟩ := owns
  rw [setOwner_owners] at owner
  split_ifs at owner with here
  · exact .inl ⟨here, owner, named⟩
  · exact .inr ⟨here, owner, named⟩

theorem owns_placed {i : Nat} {q p : Owner} (owns : (s.setOwner w (some q)).owns id i p) :
    s.owns id i p ∨ (i = w ∧ p = q) := by
  rcases owns_setOwner owns with ⟨here, same, _⟩ | ⟨_, kept⟩
  · exact .inr ⟨here, (Option.some.inj same).symm⟩
  · exact .inl kept

theorem owns_of_setOwner {i : Nat} {q : Option Owner} {p : Owner}
    (other : ∀ o, q = some o → o.job.id ≠ id) (owns : (s.setOwner w q).owns id i p) :
    i ≠ w ∧ s.owns id i p := by
  rcases owns_setOwner owns with ⟨_, same, named⟩ | kept
  · exact absurd named (other p same)
  · exact kept

inductive Turned : Call → JobState → JobState → Prop where
  | paused {id : String} {state : JobState} (idle : state ∈ [JobState.queued, .interrupted,
      .waitingPeer, .waitingMount, .waitingValidation]) : Turned (.pause id) state .paused
  | pauseRequested {id : String} : Turned (.pause id) .running .pauseRequested
  | canceled {id : String} {state : JobState} (idle : state ∈ [JobState.queued, .paused,
      .interrupted, .waitingPeer, .waitingMount, .waitingValidation, .waitingUserDecision]) :
      Turned (.cancel id) state .canceled
  | cancelRequested {id : String} {state : JobState}
      (runs : state ∈ [JobState.running, .pauseRequested]) : Turned (.cancel id) state .cancelRequested
  | resumed {id : String} {state : JobState}
      (rests : state ∈ [JobState.paused, .interrupted, .waitingValidation]) :
      Turned (.resume id) state .queued
  | retried {id : String} {state : JobState}
      (ended : state ∈ [JobState.failed, .completedWithWarnings]) : Turned (.retry id) state .queued
  | overridden {id : String} {unresolved : Bool} {state : JobState}
      (next : state ∈ [JobState.waitingUserDecision, .queued]) :
      Turned (.overrideItem id unresolved) .waitingUserDecision state
  | progressed {id : String} {report : Progress} : Turned (.progress id report) .running .running

/-- What a call that writes makes of the job it has read. -/
structure Rewrites (call : Call) (j j' : Job) : Prop where
  id : j'.id = j.id
  type : j'.type = j.type
  attempt : j'.attempt = j.attempt ∨
    (j'.attempt = 0 ∧ (j.state = .failed ∨ j.state = .completedWithWarnings))
  turned : Turned call j.state j'.state

theorem pause_write (verdict : pause j now = .write j') (id : String) : Rewrites (.pause id) j j' := by
  unfold pause at verdict
  split at verdict <;> rename_i state
  case h_6 =>
    split_ifs at verdict
    cases verdict
    exact ⟨rfl, rfl, .inl rfl, state ▸ .pauseRequested⟩
  all_goals cases verdict
  all_goals exact ⟨rfl, rfl, .inl rfl, state ▸ .paused (by decide)⟩

theorem cancel_write (verdict : cancel j now = .write j') (id : String) :
    Rewrites (.cancel id) j j' := by
  unfold cancel at verdict
  split at verdict <;> rename_i state
  case h_8 | h_9 =>
    split_ifs at verdict
    cases verdict
    exact ⟨rfl, rfl, .inl rfl, state ▸ .cancelRequested (by decide)⟩
  all_goals cases verdict
  all_goals exact ⟨rfl, rfl, .inl rfl, state ▸ .canceled (by decide)⟩

theorem resume_write (verdict : resume j now = .write j') (id : String) :
    Rewrites (.resume id) j j' := by
  unfold resume at verdict
  split at verdict <;> rename_i state <;> cases verdict
  all_goals exact ⟨rfl, rfl, .inl rfl, state ▸ .resumed (by decide)⟩

theorem retry_write (verdict : retry j now = .write j') (id : String) :
    Rewrites (.retry id) j j' := by
  unfold retry at verdict
  split at verdict <;> rename_i state <;> cases verdict
  all_goals exact ⟨rfl, rfl, .inr ⟨rfl, by simp [state]⟩, state ▸ .retried (by decide)⟩

theorem Call.verdict_write (verdict : call.verdict now j = .write j') : Rewrites call j j' := by
  cases call with
  | pause id => exact pause_write verdict id
  | cancel id => exact cancel_write verdict id
  | resume id => exact resume_write verdict id
  | retry id => exact retry_write verdict id
  | overrideItem id unresolved =>
    simp only [Call.verdict, Jobs.overrideItem] at verdict
    split at verdict <;> rename_i state <;> cases verdict
    cases unresolved
    all_goals exact ⟨rfl, rfl, .inl rfl, state ▸ .overridden (by simp [Job.requeue])⟩
  | progress id report =>
    simp only [Call.verdict, Jobs.progress] at verdict
    split at verdict <;> rename_i state <;> cases verdict
    refine ⟨rfl, rfl, .inl rfl, ?_⟩
    simpa only [state] using Turned.progressed
  | execute | finish => cases verdict

theorem Turned.keepsClaim {read state : JobState} (turned : Turned call read state)
    (claimed : read.claimed = true) : state.claimed = true := by
  have idle : ∀ r ∈ [JobState.queued, .paused, .interrupted, .waitingPeer, .waitingMount,
      .waitingValidation, .waitingUserDecision, .failed, .completedWithWarnings],
      ¬ r.claimed = true := by decide
  cases turned with
  | pauseRequested | cancelRequested | progressed => rfl
  | overridden => cases claimed
  | paused rests | canceled rests | resumed rests | retried rests =>
    refine absurd claimed (idle read ?_)
    simp only [List.mem_cons, List.not_mem_nil, or_false] at rests ⊢
    tauto

theorem finish_keeps {stopping : Bool} {job : Job} {err : Option OperationError} {bytes : Int}
    {type : String} (done : Jobs.finish stopping job err bytes now = some (j, type)) :
    j.id = job.id ∧ (0 ≤ job.attempt → 0 ≤ j.attempt) := by
  have givenBack : 0 ≤ job.attempt →
      0 ≤ (if 0 < job.attempt then job.attempt - 1 else job.attempt) := by
    intro natural
    split_ifs <;> omega
  unfold Jobs.finish at done
  dsimp only at done
  split at done
  · cases done
    exact ⟨rfl, fun natural => natural⟩
  · cases done
    exact ⟨rfl, fun natural => natural⟩
  split at done
  · cases done
    exact ⟨rfl, fun natural => natural⟩
  · unfold finishFailed at done
    split_ifs at done <;> cases done <;> first | exact ⟨rfl, fun natural => natural⟩ | exact ⟨rfl, givenBack⟩

theorem complete_keeps (job : Job) (bytes : Int) (err : Option String) (now : Time) :
    (Jobs.complete job bytes err now).1.id = job.id ∧
      (Jobs.complete job bytes err now).1.attempt = job.attempt := by
  unfold Jobs.complete
  cases err <;> exact ⟨rfl, rfl⟩

variable {signing : Signing κ} {a : Option Answer}

theorem answer_effect (wired : Wired s) {job : Job} (held : s.lock = some ⟨call, some job⟩)
    (now : Time) :
    Effect id s e (s.answer call job now).1 := by
  have named := wired.named call job held
  unfold System.answer
  split
  · rename_i job' verdict
    have same := (Call.verdict_write verdict).id
    split
    · rename_i l u transacted
      have replaced := @updateJob_ok s.ledger job' u (by rw [transacted])
      rw [transacted] at replaced
      by_cases mine : call.id = id
      · obtain ⟨old, found, all⟩ := replaced
        have here : job'.id = id := same.trans (named.trans mine)
        refine .wrote held mine verdict (here ▸ found) ?_ (fun _ _ owns => owns) rfl
        exact (all id).trans (if_pos here.symm)
      · refine .idle (replaced.other ?_) (fun _ _ owns => owns) (.inr rfl)
        exact fun here => mine ((same.trans named).symm.trans here.symm)
    · rename_i l err transacted
      have unchanged := @transact_failed s.ledger Unit (updateJob s.ledger job') err (by rw [transacted])
      rw [transacted] at unchanged
      exact .idle (congrArg (Bucket.jobs.find · id) unchanged) (fun _ _ owns => owns) (.inr rfl)
  · exact .idle rfl (fun _ _ owns => owns) (.inr rfl)
  · exact .idle rfl (fun _ _ owns => owns) (.inr rfl)

theorem place_effect {o q : Owner} {t : System} (owner : s.owners w = some o)
    (worker : o.stage ≠ .inline) (same : q.job.id = o.job.id)
    (running : q.stage = .operating → q.job.state = .running)
    (counts : q.job.attempt = o.job.attempt ∨ Read o.job.id s q.job.attempt) (table : t.ledger.table
      = s.ledger.table ∨ ∃ j, Replaced s.ledger.table t.ledger.table j ∧ j.id = o.job.id ∧ j.state =
      .running ∧ Read o.job.id s j.attempt) (owners : t.owners = s.owners)
    (lock : t.lock = s.lock ∨ t.lock = none) :
    Effect id s e (t.setOwner w (some q)) := by
  by_cases mine : o.job.id = id
  · refine .worked ⟨owner, mine⟩ worker ?_ (w := w) ?_ lock
    · rcases table with unchanged | ⟨j, replaced, here, state, read⟩
      · exact .inl (congrArg (Bucket.jobs.find · id) unchanged)
      obtain ⟨j', found, state', attempt⟩ := replaced.here (here.trans mine)
      rw [mine, ← attempt] at read
      exact .inr ⟨j', found, .inl ⟨state'.trans state, read⟩⟩
    · intro i p owns
      rcases owns_placed owns with kept | ⟨here, rfl⟩
      · exact .inl ⟨owners ▸ kept.1, kept.2⟩
      · exact .inr ⟨here, running, mine ▸ counts⟩
  · refine .idle ?_ ?_ lock
    · rcases table with unchanged | ⟨j, replaced, here, _⟩
      · exact congrArg (Bucket.jobs.find · id) unchanged
      · exact replaced.other (fun at' => mine (here.symm.trans at'.symm))
    · intro i p owns
      obtain ⟨_, kept⟩ := owns_of_setOwner (fun r now => by
        cases now
        exact fun here => mine (same.symm.trans here)) owns
      exact ⟨owners ▸ kept.1, kept.2⟩

theorem giveUp_effect (wired : Wired s) {loaded : Option Job} (held : s.lock = some ⟨call, loaded⟩)
    (err : OperationError) :
    Effect id s e (s.giveUp call err) := by
  obtain ⟨ledger, lock⟩ := @giveUp_ledger s call err
  have job : (s.giveUp call err).job id = s.job id := by rw [System.job, System.job, ledger]
  cases call with
  | execute w id' =>
    obtain ⟨o, owner, named, stage⟩ := wired.executing w id' loaded held
    have placed : s.giveUp (.execute w id') err =
        { s with lock := none }.setOwner w (some { o with stage := .finishing (some err) 0 }) := by
      simp only [System.giveUp, owner]
    rw [placed]
    exact place_effect owner (by rw [stage]; decide) rfl nofun
      (.inl rfl) (.inl rfl) rfl (.inr rfl)
  | finish w id' =>
    exact .idle job (fun i p owns => (owns_of_setOwner (fun q same => by cases same) owns).2)
      (.inr lock)
  | pause | cancel | resume | retry | overrideItem | progress =>
    exact .idle job (fun i p owns => owns) (.inr lock)

theorem begin_effect (wired : Wired s) {id' : String} {job : Job}
    (held : s.lock = some ⟨.execute w id', some job⟩) (now : Time)
    (invalid : Option OperationError) :
    Effect id s e (s.begin w job now invalid) := by
  obtain ⟨o, owner, owned, stage⟩ := wired.executing w id' _ held
  have same : job.id = o.job.id := (wired.named _ job held).trans owned.symm
  have worker : o.stage ≠ .inline := by rw [stage]; decide
  have read : Read o.job.id s job.attempt := ⟨_, job, held, owned.symm, rfl⟩
  unfold System.begin
  dsimp only
  split
  · rename_i running
    split
    · exact place_effect owner worker same nofun (.inr read)
        (.inl rfl) rfl (.inr rfl)
    split
    · rename_i l u transacted
      have replaced := @updateJob_ok s.ledger (job.transferring now) u (by rw [transacted])
      rw [transacted] at replaced
      exact place_effect owner worker same (fun _ => running) (.inr read)
        (.inr ⟨_, replaced, same, running, read⟩) rfl (.inr rfl)
    · rename_i l err transacted
      have unchanged := @transact_failed s.ledger Unit (updateJob s.ledger (job.transferring now)) err
        (by rw [transacted])
      rw [transacted] at unchanged
      exact place_effect owner worker same nofun (.inr read)
        (.inl unchanged) rfl (.inr rfl)
  · exact place_effect owner worker same nofun (.inr read)
      (.inl rfl) rfl (.inr rfl)

theorem release_effect {o : Owner} {event : JobEvent} {t : System} (owner : s.owners w = some o)
    (same : j.id = o.job.id)
    (ledger : t.ledger = (transact s.ledger (updateJobWithEvent s.ledger j event)).1)
    (counts : j.attempt = o.job.attempt ∨ ∃ n, Read o.job.id s n ∧ (0 ≤ n → 0 ≤ j.attempt))
    (owners : t.owners = s.owners) (lock : t.lock = s.lock ∨ t.lock = none) :
    Effect id s e (t.setOwner w none) := by
  have kept : ∀ i p, (t.setOwner w none).owns id i p → i ≠ w ∧ s.owns id i p := by
    intro i p owns
    have kept := owns_of_setOwner (fun q none => by cases none) owns
    exact ⟨kept.1, owners ▸ kept.2.1, kept.2.2⟩
  have outcome := @updateJobWithEvent_find s.ledger j event
  rw [← ledger] at outcome
  by_cases mine : o.job.id = id
  · refine .finished ⟨owner, mine⟩ ?_ kept lock
    rcases outcome with unchanged | replaced
    · exact .inl (congrArg (Bucket.jobs.find · id) unchanged)
    obtain ⟨j', found, _, attempt⟩ := replaced.here (same.trans mine)
    rw [mine, ← attempt] at counts
    exact .inr ⟨j', found, counts⟩
  · refine .idle ?_ (fun i p owns => (kept i p owns).2) lock
    rcases outcome with unchanged | replaced
    · exact congrArg (Bucket.jobs.find · id) unchanged
    · exact replaced.other (fun here => mine (same.symm.trans here.symm))

def Unsecured (id : String) (s : System) : Prop := ∀ j, s.job id = some j → j.secured = false

theorem apply_effect (signing : Signing κ) (op : Op κ) (wired : Wired s) {t : System}
    (kind : op.isFree = true ∨ ∃ nodeID keys now, op = .claimNextSecuredJob nodeID keys now)
    (before : Unsecured id s) (after : Unsecured id t) (ledger : t.ledger = op.apply signing s.ledger)
    (owners : ∀ i o, t.owns id i o → s.owns id i o) (lock : t.lock = s.lock) : Effect id s e t := by
  unfold Unsecured System.job at after
  rw [ledger] at after
  have job : t.job id = Bucket.jobs.find (op.apply signing s.ledger).table id := by
    rw [System.job, ledger]
  rcases apply_find wired.formed kind before after with
    same | ⟨absent, j, found⟩ | ⟨j, now, found, waiting, woken⟩
  · exact .idle (job.trans same) owners (.inl lock)
  · exact .created (w := 0) absent (job.trans found) (fun i o owns => .inl (owners i o owns)) lock
  · exact .woken found waiting (job.trans woken) owners lock

theorem next_effect (wired : Wired s) (before : Unsecured id s) (after : Unsecured id s')
    (moved : s.next signing e = some (s', a)) : Effect id s e s' := by
  cases e with
  | store op =>
    simp only [System.next] at moved
    split_ifs at moved with free
    cases moved
    exact apply_effect signing op wired (.inl free) before after rfl (fun _ _ owns => owns) rfl
  | claim w id' now =>
    simp only [System.next] at moved
    split_ifs at moved
    split at moved
    · rename_i l job transacted
      split_ifs at moved with named
      cases moved
      have done : (transact s.ledger (claimNextJob s.ledger now)).2 = .ok job := by rw [transacted]
      obtain ⟨j, found, queued, rfl, all⟩ := claimNextJob_ok wired.formed done
      rw [transacted] at all
      by_cases mine : id' = id
      · subst mine
        exact .claimed rfl (named ▸ found) queued ((all id').trans (if_pos named.symm))
          (fun _ _ => owns_placed) rfl
      · have other : id ≠ (j.start now).id := fun here => mine (named.symm.trans here.symm)
        refine .idle ((all id).trans (if_neg other)) (fun i o owns => ?_) (.inl rfl)
        exact (owns_of_setOwner (fun q same => by cases same; exact other.symm) owns).2
    · cases moved
  | claimSecured w nodeID keys now =>
    simp only [System.next] at moved
    split_ifs at moved
    have kind : ∃ n k t, Op.claimNextSecuredJob nodeID keys now = .claimNextSecuredJob n k t :=
      ⟨nodeID, keys, now, rfl⟩
    split at moved <;> rename_i transacted <;> cases moved
    · rename_i l job
      refine apply_effect signing (.claimNextSecuredJob nodeID keys now) wired (.inr kind) before
        after (by rw [Op.apply, transacted]; rfl) ?_ rfl
      intro i o owns
      have done : (transact s.ledger (claimNextSecuredJob signing s.ledger nodeID keys now)).2 =
          .ok (some job) := by rw [transacted]
      obtain ⟨j, found, secured, _⟩ := claimNextSecuredJob_ok wired.formed done
      refine (owns_of_setOwner (fun q same => ?_) owns).2
      cases same
      rintro rfl
      rw [before j found] at secured
      cases secured
    · exact apply_effect signing (.claimNextSecuredJob nodeID keys now) wired (.inr kind) before
        after (by rw [Op.apply, transacted]) (fun _ _ owns => owns) rfl
  | createInline w job key =>
    simp only [System.next] at moved
    split_ifs at moved with start
    rcases @createJob_find s.ledger job [] key "" with ⟨unchanged, repeated⟩ | ⟨answer, absent, all⟩
    · split at moved <;> rename_i transacted
      · exact absurd (by rw [transacted]) (repeated _)
      cases moved
      rw [transacted] at unchanged
      exact .idle (congrArg (Bucket.jobs.find · id) unchanged) (fun _ _ owns => owns) (.inl rfl)
    · split at moved <;> rename_i transacted
      · cases moved
        rw [transacted] at answer all
        cases answer
        by_cases mine : job.id = id
        · refine .created (w := w) (mine ▸ absent) ((all id).trans (if_pos mine.symm)) ?_ rfl
          intro i o owns
          exact (owns_placed owns).imp_right fun ⟨here, same⟩ => ⟨here, same, start.2⟩
        · refine .idle ((all id).trans (if_neg (fun here => mine here.symm))) (fun i o owns => ?_)
            (.inl rfl)
          exact (owns_of_setOwner (fun q same => by cases same; exact mine) owns).2
      · rename_i fresh
        rw [transacted] at answer
        exact absurd answer (fresh job)
  | enter call =>
    simp only [System.next] at moved
    split_ifs at moved
    cases moved
    exact .entered rfl rfl (fun _ _ owns => owns) rfl
  | load =>
    simp only [System.next] at moved
    split at moved
    · rename_i call held
      split at moved <;> rename_i read <;> cases moved
      · exact .loaded rfl (fun _ _ owns => owns) held rfl (Bucket.get_ok.mp read)
      · exact giveUp_effect wired held _
    · cases moved
  | commit now invalid =>
    simp only [System.next] at moved
    split at moved
    · rename_i held
      cases moved
      exact begin_effect wired held now invalid
    · rename_i w id' job held
      split at moved
      · rename_i job' err bytes owner
        obtain ⟨t, finished, same⟩ := Option.map_eq_some_iff.mp moved
        cases same
        obtain ⟨j, type, decided, rfl⟩ := finish_some finished
        obtain ⟨_, _, _, owner', named⟩ := wired.finishing w id' _ held
        cases owner.symm.trans owner'
        have read : job.id = id' := wired.named _ job held
        obtain ⟨kept, natural⟩ := finish_keeps decided
        exact release_effect owner (kept.trans (read.trans named.symm)) rfl
          (.inr ⟨_, ⟨_, job, held, named.symm, rfl⟩, natural⟩) rfl (.inr rfl)
      · cases moved
    · rename_i held
      obtain rfl : (s.answer _ _ now).1 = s' := congrArg Prod.fst (Option.some.inj moved)
      exact answer_effect wired held now
    · cases moved
  | fail err =>
    simp only [System.next] at moved
    split at moved
    · rename_i held locked
      cases moved
      exact giveUp_effect wired locked err
    · cases moved
  | rewrite w job =>
    simp only [System.next] at moved
    split at moved
    · rename_i o owner
      split_ifs at moved with copies
      obtain ⟨operating, named, state⟩ := copies
      cases moved
      rcases @updateJob_find s.ledger job with unchanged | replaced
      · exact .idle (congrArg (Bucket.jobs.find · id) unchanged) (fun _ _ owns => owns) (.inl rfl)
      by_cases mine : job.id = id
      · obtain ⟨j, found, state', attempt⟩ := replaced.here mine
        exact .worked ⟨owner, named.symm.trans mine⟩ (by rw [operating]; decide)
          (.inr ⟨j, found, .inr ⟨⟨job, rfl, attempt⟩, operating, state'.trans state⟩⟩)
          (fun _ _ owns => .inl owns) (.inl rfl)
      · exact .idle (replaced.other (fun here => mine here.symm)) (fun _ _ owns => owns) (.inl rfl)
    · cases moved
  | operated w err bytes =>
    simp only [System.next] at moved
    split at moved
    · rename_i job owner
      cases moved
      exact place_effect owner nofun rfl nofun
        (.inl rfl) (.inl rfl) rfl (.inl rfl)
    · cases moved
  | complete w bytes err now =>
    simp only [System.next] at moved
    split at moved
    · rename_i job owner
      cases moved
      obtain ⟨kept, counts⟩ := complete_keeps job bytes err now
      exact release_effect owner kept rfl (.inl counts) rfl (.inl rfl)
    · cases moved
  | shutdown =>
    cases moved
    exact .idle rfl (fun _ _ owns => owns) (.inl rfl)
  | restart now =>
    cases moved
    obtain ⟨rests, counts⟩ := recover_find signing wired.formed now id
    exact .restarted rests counts (fun i o owns => by cases owns.1) rfl

end Effects

end Jolt.Jobs
