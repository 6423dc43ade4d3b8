import Jolt.Jobs.Renewal
import Jolt.Jobs.Turns

/-! What becomes of a peer's jobs when the peer is revoked. `CancelPeer` goes through the jobs of
the peer, the newest first, and stops at the first one that cannot be canceled. -/
namespace Jolt.Jobs
open Jolt.Base Jolt.State Transaction List

section Model

def recordEvent (l : Ledger Value) (job : Job) (type message : String) (now : Time) : Ledger Value :=
  (transact l (recordJobEvent l (newJobEvent job type message now))).1

/-- `Cancel` as a whole; the files it cleans up are not part of the store. -/
def cancelJob (l : Ledger Value) (id : String) (now : Time) : Ledger Value × Except Failure Job :=
  match Bucket.jobs.get l.table id with
  | .error e => (l, .error e)
  | .ok job =>
    match cancel job now with
    | .refuse text => (l, .error (.message text))
    | .keep => (l, .ok job)
    | .write job' =>
      match transact l (updateJob l job') with
      | (l, .error e) => (l, .error e)
      | (l, .ok ()) => (recordEvent l job' ("job." ++ job'.state.text) "" now, .ok job')

def JobState.stoppable : JobState → Bool
  | .queued | .paused | .interrupted | .waitingPeer | .waitingMount | .waitingValidation
  | .waitingUserDecision | .running | .pauseRequested => true
  | _ => false

def listJobsByPeer (t : Table) (peer : String) : Except Failure (List Job) :=
  (t.keys "jobs" peer).reverse.mapM (Bucket.jobs.get t)

/-- The loop of `CancelPeer`; the clock is read for each job. -/
def cancelJobs (clock : String → Time) (l : Ledger Value) (canceled : Nat) :
    List Job → Ledger Value × Nat × Option Failure
  | [] => (l, canceled, none)
  | job :: rest =>
    if job.state.stoppable then
      match cancelJob l job.id (clock job.id) with
      | (l, .error e) => (l, canceled, some e)
      | (l, .ok _) => cancelJobs clock l (canceled + 1) rest
    else cancelJobs clock l canceled rest

def cancelPeer (clock : String → Time) (l : Ledger Value) (peer : String) :
    Ledger Value × Nat × Option Failure :=
  match listJobsByPeer l.table peer with
  | .error e => (l, 0, some e)
  | .ok items => cancelJobs clock l 0 items

end Model

section Calls

def JobState.idle : JobState → Bool
  | .queued | .paused | .interrupted | .waitingPeer | .waitingMount | .waitingValidation
  | .waitingUserDecision => true
  | _ => false

/-- A job that runs and may not be interrupted, or whose record the store keeps as it is. -/
def Job.uncancelable (job : Job) : Bool :=
  (job.state == .running || job.state == .pauseRequested) &&
    (!interruptible job || job.secured && !executableSecuredJob job)

def Job.stopState (job : Job) : JobState := if job.state.idle then .canceled else .cancelRequested

structure Stopping (job job' : Job) : Prop where
  id : job'.id = job.id
  security : job'.security = job.security
  scope : job'.scope = job.scope

variable {job : Job} {l : Ledger Value} {now : Time}

def JobState.working : JobState → Bool
  | .running | .pauseRequested => true
  | _ => false

theorem JobState.stoppable_iff (state : JobState) :
    state.stoppable = true ↔ state.idle = true ∨ state.working = true := by
  cases state with
  | _ => simp [JobState.stoppable, JobState.idle, JobState.working]

theorem cancel_idle (idle : job.state.idle = true) :
    cancel job now = .write { job.turn .canceled .cleanup now with completedAt := some now } := by
  unfold cancel
  cases state : job.state with
  | queued | paused | interrupted | waitingPeer | waitingMount | waitingValidation
  | waitingUserDecision => rfl
  | _ => simp [JobState.idle, state] at idle

theorem cancel_working (working : job.state.working = true) :
    cancel job now =
      if interruptible job then .write (job.turn .cancelRequested .canceling now)
      else .refuse ("running " ++ job.type.text ++ " jobs cannot be canceled safely") := by
  unfold cancel
  cases state : job.state with
  | running | pauseRequested => rfl
  | _ => simp [JobState.working, state] at working

theorem JobState.claimed_of_working {state : JobState} (working : state.working = true) :
    state.claimed = true ∧ state ≠ .canceled := by
  cases state with
  | running | pauseRequested => decide
  | _ => cases working

theorem uncancelable_eq : job.uncancelable =
    (job.state.working && (!interruptible job || job.secured && !executableSecuredJob job)) := by
  unfold Job.uncancelable
  cases job.state with
  | _ => rfl

theorem stopState_working (working : job.state.working = true) : job.stopState = .cancelRequested := by
  unfold Job.stopState
  cases state : job.state with
  | running | pauseRequested => rfl
  | _ => simp [JobState.working, state] at working

theorem cancel_stops (stops : job.state.stoppable = true) (able : job.uncancelable = false) :
    ∃ job', cancel job now = .write job' ∧ Stopping job job' ∧ job'.state = job.stopState := by
  rcases (JobState.stoppable_iff _).mp stops with idle | working
  · exact ⟨_, cancel_idle idle, ⟨rfl, rfl, rfl⟩, by rw [Job.stopState, if_pos idle]; rfl⟩
  have free : interruptible job = true := by
    rw [uncancelable_eq, working] at able
    grind
  have written := @cancel_working job now working
  rw [if_pos free] at written
  exact ⟨_, written, ⟨rfl, rfl, rfl⟩, (stopState_working working).symm⟩

theorem update_valid {job' : Job} (stopping : Stopping job job') (state : job'.state = job.stopState)
    (stops : job.state.stoppable = true) (able : job.uncancelable = false) :
    validSecuredJobUpdate job job' = true := by
  unfold validSecuredJobUpdate
  rw [stopping.security, stopping.scope, state]
  rcases (JobState.stoppable_iff _).mp stops with idle | working
  · rw [Job.stopState, if_pos idle]
    grind [JobState.claimed, JobState.idle]
  have claimed := JobState.claimed_of_working working
  rw [uncancelable_eq, working] at able
  grind

theorem cancel_fails (blocked : job.uncancelable = true) :
    (∃ text, cancel job now = .refuse text) ∨
      ∃ job', cancel job now = .write job' ∧ Stopping job job' ∧
        validSecuredJobUpdate job job' = false := by
  rw [uncancelable_eq, Bool.and_eq_true] at blocked
  rw [cancel_working blocked.1]
  cases free : interruptible job with
  | false => exact .inl ⟨_, rfl⟩
  | true =>
    have kept : job.secured = true ∧ executableSecuredJob job = false := by
      simpa [free] using blocked.2
    refine .inr ⟨_, rfl, ⟨rfl, rfl, rfl⟩, ?_⟩
    have security : (job.turn .cancelRequested .canceling now).security = job.security := rfl
    have scope : (job.turn .cancelRequested .canceling now).scope = job.scope := rfl
    have next : (job.turn .cancelRequested .canceling now).state = .cancelRequested := rfl
    unfold validSecuredJobUpdate
    rw [security, scope, next]
    have claimed := JobState.claimed_of_working blocked.1
    grind

theorem recordEvent_find (type message id : String) :
    Bucket.jobs.find (recordEvent l job type message now).table id =
      Bucket.jobs.find l.table id := by
  unfold recordEvent
  rcases transact_cases l (recordJobEvent l (newJobEvent job type message now)) with
    ⟨_, table⟩ | ⟨rs, a, commits, _, table⟩
  · rw [table]
  simp only [recordJobEvent, putEvent, commits_refuseIf_bind, commits_put_bind, commits_pure]
    at commits
  obtain ⟨_, rest, ⟨rfl, _⟩, rfl⟩ := commits
  have events : "events" ≠ "jobs" := by decide
  rw [table]
  refine Bucket.find_applyAll_other fun r listed => .inl ?_
  rw [mem_singleton.mp listed]
  exact events

theorem cancelJob_ok (found : Bucket.jobs.find l.table job.id = some job) (named : job.id ≠ "")
    (stops : job.state.stoppable = true) (able : job.uncancelable = false) :
    ∃ l' job', cancelJob l job.id now = (l', .ok job') ∧
      (∃ stored, Bucket.jobs.find l'.table job.id = some stored ∧ stored.state = job.stopState) ∧
      ∀ id, id ≠ job.id → Bucket.jobs.find l'.table id = Bucket.jobs.find l.table id := by
  obtain ⟨job', verdict, stopping, state⟩ := @cancel_stops job now stops able
  have valid := update_valid stopping state stops able
  have found' : Bucket.jobs.find l.table job'.id = some job := stopping.id ▸ found
  have commits : (updateJob l job').Commits [Bucket.jobs.put job'.id job'.peerNodeID
      job.createdAt.order { job' with createdAt := job.createdAt }] () := by
    simp only [updateJob, putJob, commits_check_bind, commits_refuseIf_bind, commits_put]
    exact ⟨job, Bucket.get_ok.mpr found', by simp [valid], rfl⟩
  have done := @transact_ok Unit l _ _ _ commits (by
    intro r listed
    have jobs : "jobs" ≠ "" ∧ historyBucket "jobs" = false := by decide
    obtain rfl := mem_singleton.mp listed
    exact ⟨jobs.1, stopping.id ▸ named, jobs.2⟩)
  have replaced := updateJob_ok done
  refine ⟨recordEvent (transact l (updateJob l job')).1 job' ("job." ++ job'.state.text) "" now,
    job', ?_, ?_, ?_⟩
  · unfold cancelJob
    rw [Bucket.get_ok.mpr found]
    have pair : transact l (updateJob l job') = ((transact l (updateJob l job')).1, .ok ()) :=
      Prod.ext rfl done
    simp only [verdict]
    rw [pair]
  · obtain ⟨stored, here, same, _⟩ := replaced.here stopping.id
    exact ⟨stored, (recordEvent_find _ _ _).trans here, same.trans state⟩
  · intro id other
    rw [recordEvent_find]
    exact replaced.other (stopping.id ▸ other)

theorem cancelJob_error (found : Bucket.jobs.find l.table job.id = some job)
    (blocked : job.uncancelable = true) :
    ∃ l' e, cancelJob l job.id now = (l', .error e) ∧ l'.table = l.table := by
  unfold cancelJob
  rw [Bucket.get_ok.mpr found]
  rcases @cancel_fails job now blocked with ⟨text, verdict⟩ | ⟨job', verdict, stopping, invalid⟩
  · exact ⟨l, .message text, by simp only [verdict], rfl⟩
  have found' : Bucket.jobs.find l.table job'.id = some job := stopping.id ▸ found
  rcases transact_cases l (updateJob l job') with ⟨⟨e, failed⟩, table⟩ | ⟨rs, a, commits, _⟩
  · have pair : transact l (updateJob l job') = ((transact l (updateJob l job')).1, .error e) :=
      Prod.ext rfl failed
    refine ⟨(transact l (updateJob l job')).1, e, ?_, table⟩
    simp only [verdict]
    rw [pair]
  · obtain ⟨old, there, valid, _⟩ := updateJob_records commits
    obtain rfl : old = job := Option.some.inj (there.symm.trans found')
    rw [invalid] at valid
    cases valid

end Calls

section Loop

variable {clock : String → Time} {l : Ledger Value}

/-- What the loop leaves of the jobs it was given: it stops those before the first one that
cannot be canceled. -/
structure LoopStops (before after : Table) (items : List Job) : Prop where
  others : ∀ id, (∀ job ∈ items, job.id ≠ id) → Bucket.jobs.find after id = Bucket.jobs.find before id
  stopped : ∀ job ∈ items.takeWhile fun job => !job.uncancelable, job.state.stoppable = true →
    ∃ stored, Bucket.jobs.find after job.id = some stored ∧ stored.state = job.stopState
  left : ∀ job ∈ items.dropWhile fun job => !job.uncancelable,
    Bucket.jobs.find after job.id = some job

theorem stoppable_of_uncancelable {job : Job} (blocked : job.uncancelable = true) :
    job.state.stoppable = true := by
  rw [uncancelable_eq, Bool.and_eq_true] at blocked
  exact (JobState.stoppable_iff _).mpr (.inr blocked.1)

theorem cancelJobs_stops {items : List Job} (canceled : Nat)
    (found : ∀ job ∈ items, Bucket.jobs.find l.table job.id = some job)
    (named : ∀ job ∈ items, job.id ≠ "") (distinct : (items.map Job.id).Nodup) :
    LoopStops l.table (cancelJobs clock l canceled items).1.table items := by
  induction items generalizing l canceled with
  | nil => exact ⟨fun _ _ => rfl, by simp, by simp⟩
  | cons job rest ih =>
    obtain ⟨here, later⟩ := forall_mem_cons.mp found
    obtain ⟨name, names⟩ := forall_mem_cons.mp named
    rw [map_cons, nodup_cons] at distinct
    have apart : ∀ other ∈ rest, other.id ≠ job.id := fun other inside same =>
      distinct.1 (same ▸ mem_map_of_mem inside)
    rw [cancelJobs]
    cases blocked : job.uncancelable with
    | true =>
      -- the loop ends here and leaves all that is left as it was
      obtain ⟨l', e, outcome, table⟩ := @cancelJob_error job l (clock job.id) here blocked
      rw [if_pos (stoppable_of_uncancelable blocked), outcome]
      refine ⟨fun _ _ => by rw [table], by simp [blocked], fun other inside => ?_⟩
      rw [table]
      simp only [blocked, Bool.not_true, dropWhile_cons] at inside
      exact found other inside
    | false =>
      by_cases stops : job.state.stoppable = true
      · obtain ⟨l', job', outcome, turned, kept⟩ :=
          @cancelJob_ok job l (clock job.id) here name stops blocked
        have rest_found : ∀ other ∈ rest, Bucket.jobs.find l'.table other.id = some other :=
          fun other inside => (kept _ (apart other inside)).trans (later other inside)
        have stopped := ih (canceled + 1) rest_found names distinct.2
        rw [if_pos stops, outcome]
        refine ⟨?_, ?_, ?_⟩
        · intro id outside
          obtain ⟨other, others⟩ := forall_mem_cons.mp outside
          exact (stopped.others id others).trans (kept id other.symm)
        · rw [takeWhile_cons_of_pos (by simp [blocked])]
          refine forall_mem_cons.mpr ⟨fun _ => ?_, stopped.stopped⟩
          rw [stopped.others job.id apart]
          exact turned
        · rw [dropWhile_cons_of_pos (by simp [blocked])]
          exact stopped.left
      · have stopped := @ih l canceled later names distinct.2
        rw [if_neg stops]
        refine ⟨?_, ?_, ?_⟩
        · intro id outside
          exact stopped.others id (forall_mem_cons.mp outside).2
        · rw [takeWhile_cons_of_pos (by simp [blocked])]
          exact forall_mem_cons.mpr ⟨fun able => absurd able stops, stopped.stopped⟩
        · rw [dropWhile_cons_of_pos (by simp [blocked])]
          exact stopped.left

end Loop

section Peers

/-- A table whose jobs are listed by the peer they are for. -/
structure Stored (t : Table) : Prop where
  mirrors : t.Mirrors
  formed : Formed t
  grouped : ∀ id r j, t.refs "jobs" id = some r → r.data = some (.job j) → r.group = j.peerNodeID
  named : ∀ id r, t.refs "jobs" id = some r → id ≠ ""

def peerJobs (t : Table) (peer : String) : List Job :=
  (t.keys "jobs" peer).reverse.filterMap (Bucket.jobs.find t)

variable {t : Table} {peer : String}

section

variable (stored : Stored t)
include stored

theorem Stored.listed {id : String} (inside : id ∈ t.keys "jobs" peer) :
    ∃ job, Bucket.jobs.find t id = some job ∧ job.id = id ∧ id ≠ "" := by
  obtain ⟨r, held, _⟩ := (stored.mirrors.member _ id).mp inside
  obtain ⟨hb, hk, fits⟩ := stored.formed _ _ _ held
  obtain ⟨job, data, named, _⟩ := fits.1 hb
  refine ⟨job, ?_, named.trans hk, stored.named id r held⟩
  simp only [Bucket.find, Bucket.jobs_name]
  rw [show t.refs "jobs" id = some r from held, Option.bind_some, data]
  rfl

theorem Stored.mem_keys {id : String} {job : Job} (found : Bucket.jobs.find t id = some job)
    (of_peer : job.peerNodeID = peer) :
    id ∈ t.keys "jobs" peer := by
  obtain ⟨r, held, hb, _, fits, decoded⟩ := stored.formed.record found
  obtain ⟨j, data, _⟩ := fits.1 hb
  rw [data] at decoded
  cases decoded
  have group : Placed.group r = peer := (stored.grouped id r job held data).trans of_peer
  refine (stored.mirrors.member _ id).mpr ⟨r, held, ?_⟩
  simp only [Index.selections, mem_cons, Selection.mk.injEq, not_mem_nil, or_false]
  by_cases everyone : peer = ""
  · exact .inl (by simp [everyone])
  · exact .inr (.inl (by simp [everyone, group]))

theorem Stored.peerJobs_found {job : Job} (inside : job ∈ peerJobs t peer) :
    Bucket.jobs.find t job.id = some job ∧ job.id ≠ "" := by
  obtain ⟨id, listed, found⟩ := mem_filterMap.mp inside
  obtain ⟨job', found', same, named⟩ := stored.listed (mem_reverse.mp listed)
  obtain rfl : job' = job := Option.some.inj (found'.symm.trans found)
  exact ⟨same ▸ found, same ▸ named⟩

theorem Stored.peerJobs_ids :
    (peerJobs t peer).map Job.id = (t.keys "jobs" peer).reverse := by
  have each : ∀ id ∈ (t.keys "jobs" peer).reverse,
      ∃ job, Bucket.jobs.find t id = some job ∧ job.id = id := fun id inside => by
    obtain ⟨job, found, same, _⟩ := stored.listed (mem_reverse.mp inside)
    exact ⟨job, found, same⟩
  unfold peerJobs
  generalize (t.keys "jobs" peer).reverse = ids at each
  induction ids with
  | nil => rfl
  | cons id ids ih =>
    obtain ⟨⟨job, found, same⟩, later⟩ := forall_mem_cons.mp each
    rw [filterMap_cons_some found, map_cons, same, ih later]

theorem Stored.peerJobs_distinct : ((peerJobs t peer).map Job.id).Nodup := by
  rw [stored.peerJobs_ids]
  exact nodup_reverse.mpr (stored.mirrors.ranked _).nodup

theorem Stored.listJobsByPeer_eq :
    listJobsByPeer t peer = .ok (peerJobs t peer) := by
  have each : ∀ id ∈ (t.keys "jobs" peer).reverse, ∃ job, Bucket.jobs.find t id = some job :=
    fun id inside => by
      obtain ⟨job, found, _⟩ := stored.listed (mem_reverse.mp inside)
      exact ⟨job, found⟩
  unfold listJobsByPeer peerJobs
  generalize (t.keys "jobs" peer).reverse = ids at each
  induction ids with
  | nil => rfl
  | cons id ids ih =>
    obtain ⟨⟨job, found⟩, later⟩ := forall_mem_cons.mp each
    rw [mapM_cons, Bucket.get_ok.mpr found, ih later, filterMap_cons_some found]
    rfl

end

def PeerStopped (before after : Table) (peer : String) : Prop :=
  ∀ id job, Bucket.jobs.find before id = some job → job.peerNodeID = peer →
    (job.state.idle = true →
      ∃ stored, Bucket.jobs.find after id = some stored ∧ stored.state = .canceled) ∧
    (job.state = .running → interruptible job = true →
      ∃ stored, Bucket.jobs.find after id = some stored ∧
        (stored.state = .canceled ∨ stored.state = .cancelRequested))

def Job.mustStop (job : Job) : Bool :=
  job.state.idle || job.state == .running && interruptible job

/-- Revoking a peer stops its work exactly when none of it is listed from the first job on that
cannot be canceled. -/
theorem cancelPeer_stops_iff {l : Ledger Value} (stored : Stored l.table) (clock : String → Time)
    (peer : String) :
    PeerStopped l.table (cancelPeer clock l peer).1.table peer ↔
      ∀ job ∈ (peerJobs l.table peer).dropWhile fun job => !job.uncancelable,
        job.peerNodeID = peer → job.mustStop = false := by
  have found := fun {job} => @Stored.peerJobs_found l.table peer stored job
  have loop := @cancelJobs_stops clock l _ 0 (fun job inside => (found inside).1)
    (fun job inside => (found inside).2) (@Stored.peerJobs_distinct _ peer stored)
  have run : cancelPeer clock l peer = cancelJobs clock l 0 (peerJobs l.table peer) := by
    rw [cancelPeer, stored.listJobsByPeer_eq]
  rw [run]
  constructor
  · intro stopped job inside of_peer
    have listed := (dropWhile_suffix _).mem inside
    obtain ⟨idle, running⟩ := stopped job.id job (found listed).1 of_peer
    have after := loop.left job inside
    rw [Job.mustStop, Bool.or_eq_false_iff]
    constructor
    · by_contra waits
      obtain ⟨other, there, state⟩ := idle (by simpa using waits)
      obtain rfl : other = job := Option.some.inj (there.symm.trans after)
      simp [state, JobState.idle] at waits
    · by_contra runs
      simp only [Bool.not_eq_false, Bool.and_eq_true, beq_iff_eq] at runs
      obtain ⟨other, there, state⟩ := running runs.1 runs.2
      obtain rfl : other = job := Option.some.inj (there.symm.trans after)
      simp [runs.1] at state
  · intro clear id job here of_peer
    obtain rfl : job.id = id := (stored.formed.job here).1
    have listed : job ∈ peerJobs l.table peer :=
      mem_filterMap.mpr ⟨job.id, mem_reverse.mpr (stored.mem_keys here of_peer), here⟩
    rw [← @List.takeWhile_append_dropWhile _ (fun job => !job.uncancelable) (peerJobs l.table peer),
      mem_append] at listed
    rcases listed with early | late
    · constructor
      · intro idle
        obtain ⟨after, there, state⟩ :=
          loop.stopped job early ((JobState.stoppable_iff _).mpr (.inl idle))
        exact ⟨after, there, by rw [state, Job.stopState, if_pos idle]⟩
      · intro runs _
        have working : job.state.working = true := by rw [runs]; rfl
        obtain ⟨after, there, state⟩ :=
          loop.stopped job early ((JobState.stoppable_iff _).mpr (.inr working))
        exact ⟨after, there, .inr (state.trans (stopState_working working))⟩
    · have free := clear job late of_peer
      rw [Job.mustStop, Bool.or_eq_false_iff] at free
      constructor
      · intro idle
        rw [idle] at free
        cases free.1
      · intro runs able
        simp [runs, able] at free

end Peers

section Sample

theorem stored_empty : Stored Index.empty := by
  refine ⟨Index.empty_mirrors, formed_empty, ?_, ?_⟩
  · intro id r j held
    cases held
  · intro id r held
    cases held

theorem Stored.put {t : Table} (stored : Stored t) {job : Job} (named : job.id ≠ "")
    (order : String) :
    Stored (t.applyAll [Bucket.jobs.put job.id job.peerNodeID order job]) := by
  have fits : Record.fits (Bucket.jobs.put job.id job.peerNodeID order job) := job_fits rfl
  refine ⟨?_, ?_, ?_, ?_⟩
  · rw [Index.applyAll_cons, Index.applyAll_nil]
    exact Index.applyRecord_mirrors stored.mirrors _ _
  · refine stored.formed.applyAll fun r listed _ => ?_
    rw [mem_singleton.mp listed]
    exact fits
  · intro id r j held data
    rw [Index.applyAll_cons, Index.applyAll_nil, Index.applyRecord_refs] at held
    split_ifs at held
    · cases held
      cases data
      rfl
    · exact stored.grouped id r j held data
  · intro id r held
    rw [Index.applyAll_cons, Index.applyAll_nil, Index.applyRecord_refs] at held
    split_ifs at held with here
    · exact fun empty => named (here.2.symm.trans empty)
    · exact stored.named id r held

def storeJobs (jobs : List Job) : Ledger Value where
  table := jobs.foldl (fun t job =>
    t.applyAll [Bucket.jobs.put job.id job.peerNodeID job.createdAt.order job]) Index.empty
  sequence := jobs.length
  envelopeVersion := 1

theorem storeJobs_stored {jobs : List Job} (named : ∀ job ∈ jobs, job.id ≠ "") :
    Stored (storeJobs jobs).table := by
  have each : ∀ jobs : List Job, (∀ job ∈ jobs, job.id ≠ "") → ∀ t : Table, Stored t →
      Stored (jobs.foldl (fun t job =>
        t.applyAll [Bucket.jobs.put job.id job.peerNodeID job.createdAt.order job]) t) := by
    intro jobs
    induction jobs with
    | nil => exact fun _ _ stored => stored
    | cons job rest ih =>
      intro named t stored
      obtain ⟨name, names⟩ := forall_mem_cons.mp named
      exact ih names _ (stored.put name _)
  exact each jobs named _ stored_empty

def peerJob (id : String) (type : JobType) (state : JobState) (created : Time) : Job :=
  { id := id, type := type, state := state, peerNodeID := "p", createdAt := created }

/-- A batch runs beside an older copy that waits and a newer one that is queued. -/
def batchRunning : Ledger Value :=
  storeJobs [peerJob "a" .transferPull .waitingPeer 1, peerJob "b" .transferPullBatch .running 2,
    peerJob "c" .transferPull .queued 3]

/-- Without the older one, everything is stopped. -/
theorem newer_job_stopped :
    PeerStopped (storeJobs [peerJob "b" .transferPullBatch .running 2,
        peerJob "c" .transferPull .queued 3]).table
      (cancelPeer (fun _ => 5) (storeJobs [peerJob "b" .transferPullBatch .running 2,
        peerJob "c" .transferPull .queued 3]) "p").1.table "p" :=
  (cancelPeer_stops_iff (storeJobs_stored (by decide)) _ _).mpr (by decide +kernel)

/-- The running batch cannot be interrupted; the older job goes on waiting for its peer. -/
theorem older_job_left :
    (cancelPeer (fun _ => 5) batchRunning "p").2 =
        (1, some (.message "running transfer_pull_batch jobs cannot be canceled safely")) ∧
      ["a", "b", "c"].map (fun id =>
        (Bucket.jobs.find (cancelPeer (fun _ => 5) batchRunning "p").1.table id).map Job.state) =
          [some .waitingPeer, some .running, some .canceled] ∧
      ¬ PeerStopped batchRunning.table (cancelPeer (fun _ => 5) batchRunning "p").1.table "p" := by
  refine ⟨by decide +kernel, by decide +kernel, fun stopped => ?_⟩
  obtain ⟨stored, there, state⟩ :=
    (stopped "a" (peerJob "a" .transferPull .waitingPeer 1) (by decide +kernel) rfl).1 rfl
  have left : (Bucket.jobs.find (cancelPeer (fun _ => 5) batchRunning "p").1.table "a").map
    Job.state = some .waitingPeer := by decide +kernel
  rw [there, Option.map_some, state] at left
  cases left

end Sample

end Jolt.Jobs
