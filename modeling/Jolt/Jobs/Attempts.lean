import Jolt.Jobs.Interruption

/-! The attempts of a job. `finish` delays a retry by a shift of one less than the attempts the job
has made, so it must not find a job that has made none. A claim counts the attempt without the
service's mutex, and a call that has read the job before the claim takes it back when it writes. -/
namespace Jolt.Jobs
open Jolt.Base

/-- The job stays without authorization, and no claim takes it while a call has read it and not yet
written. A new job has made no attempt, and an executor writes back the attempts of its copy. -/
structure Undisturbed {κ : Type} (id : String) (s : System) (e : Event κ) (s' : System) : Prop where
  unsecured : Unsecured id s'
  apart : ∀ w now n, e = .claim w id now → ¬Read id s n
  fresh : ∀ j, s.job id = none → s'.job id = some j → j.attempt = 0
  faithful : ∀ w j o, e = .rewrite w j → s.owners w = some o → j.attempt = o.job.attempt

section Counting

variable {κ : Type} {signing : Signing κ} {id : String} {s s' : System} {e : Event κ}

theorem Undisturbed.orderly (calm : Undisturbed id s e s') : Orderly id s e s' := by
  refine ⟨calm.unsecured, fun w now claims => ?_⟩
  rintro ⟨call, j, held, mine, _⟩
  exact calm.apart w now j.attempt claims ⟨call, j, held, mine, rfl⟩

/-- Every copy of the job has a natural number of attempts, and while a worker has the job it is not
zero. -/
structure Counted (id : String) (s : System) : Prop where
  stored : ∀ j, s.job id = some j → 0 ≤ j.attempt
  copied : ∀ i o, s.owns id i o → 0 ≤ o.job.attempt
  read : ∀ n, Read id s n → 0 ≤ n
  claimed : ∀ i o, s.owns id i o → o.stage ≠ .inline → 1 ≤ o.job.attempt ∧
    (∀ j, s.job id = some j → 1 ≤ j.attempt) ∧ ∀ n, Read id s n → 1 ≤ n

theorem Counted.started : Counted id (System.started emptyLedger) where
  stored _ found := by cases found
  copied _ _ owns := by cases owns.1
  read _ reads := by obtain ⟨_, _, held, _⟩ := reads; cases held
  claimed _ _ owns := by cases owns.1

theorem Read.earlier {n : Int} (reads : Read id s' n) (lock : s'.lock = s.lock ∨ s'.lock = none) :
    Read id s n := by
  obtain ⟨call, j, held, mine, counts⟩ := reads
  rcases lock with same | none
  · exact ⟨call, j, same ▸ held, mine, counts⟩
  · rw [none] at held
    cases held

theorem Read.not_unread {call : Call} {n : Int} (lock : s.lock = some ⟨call, none⟩) :
    ¬Read id s n := by
  rintro ⟨_, _, held, _⟩
  rw [lock] at held
  cases held

theorem Counted.change (counted : Counted id s) (owners : ∀ i o, s'.owns id i o → s.owns id i o)
    (lock : ∀ n, Read id s' n → Read id s n ∨ ∃ j, s.job id = some j ∧ j.attempt = n)
    (job : s'.job id = s.job id ∨ ∃ j, s'.job id = some j ∧ 0 ≤ j.attempt ∧
      ∀ i o, s.owns id i o → o.stage ≠ .inline → 1 ≤ j.attempt) : Counted id s' where
  stored j found := by
    rcases job with same | ⟨k, there, natural, _⟩
    · exact counted.stored j (same ▸ found)
    · cases there.symm.trans found
      exact natural
  copied i o owns := counted.copied i o (owners i o owns)
  read n reads := by
    rcases lock n reads with earlier | ⟨j, found, rfl⟩
    · exact counted.read n earlier
    · exact counted.stored j found
  claimed i o owns worker := by
    obtain ⟨copy, stored, read⟩ := counted.claimed i o (owners i o owns) worker
    refine ⟨copy, fun j found => ?_, fun n reads => ?_⟩
    · rcases job with same | ⟨k, there, _, counts⟩
      · exact stored j (same ▸ found)
      · cases there.symm.trans found
        exact counts i o (owners i o owns) worker
    · rcases lock n reads with earlier | ⟨j, found, rfl⟩
      · exact read n earlier
      · exact stored j found

theorem Counted.vacated (counted : Counted id s) (free : ∀ i o, ¬s'.owns id i o)
    (lock : s'.lock = s.lock ∨ s'.lock = none)
    (stored : ∀ j, s'.job id = some j → 0 ≤ j.attempt) : Counted id s' where
  stored := stored
  copied i o owns := absurd owns (free i o)
  read n reads := counted.read n (reads.earlier lock)
  claimed i o owns := absurd owns (free i o)

theorem Counted.next {a : Option Answer} (tracked : Tracked id s) (counted : Counted id s)
    (moved : s.next signing e = some (s', a)) (calm : Undisturbed id s e s') : Counted id s' := by
  have earlier : s'.lock = s.lock ∨ s'.lock = none → ∀ n, Read id s' n →
      Read id s n ∨ ∃ j, s.job id = some j ∧ j.attempt = n :=
    fun lock n reads => .inl (reads.earlier lock)
  cases next_effect tracked.wired tracked.unsecured calm.unsecured moved with
  | idle job owners lock => exact counted.change owners (earlier lock) (.inl job)
  | @created j w absent job owners lock =>
    have natural : 0 ≤ j.attempt := (calm.fresh j absent job).ge
    have inline : ∀ i o, s'.owns id i o → o = ⟨j, .inline⟩ := fun i o owns =>
      ((owners i o owns).resolve_left (tracked.free_absent absent i o)).2.1
    refine ⟨fun k found => ?_, fun i o owns => ?_, fun n reads => ?_, fun i o owns worker => ?_⟩
    · cases job.symm.trans found
      exact natural
    · rw [inline i o owns]
      exact natural
    · exact counted.read n (reads.earlier (.inl lock))
    · rw [inline i o owns] at worker
      exact absurd rfl worker
  | @woken j now found waiting job owners lock =>
    refine counted.change owners (earlier (.inl lock)) (.inr ⟨_, job, counted.stored j found, ?_⟩)
    refine fun i o owns => absurd owns (tracked.free_of found ?_ i o)
    rcases waiting with state | state <;> rw [state] <;> rfl
  | @claimed j w now event found queued job owners lock =>
    have free := tracked.free_of found (by rw [queued]; rfl)
    have counts : 1 ≤ (j.start now).attempt := Int.le_add_of_nonneg_left (counted.stored j found)
    have unread : ∀ n, ¬Read id s' n := fun n reads =>
      calm.apart w now n event (reads.earlier (.inl lock))
    have mine : ∀ i o, s'.owns id i o → o = ⟨j.start now, .claimed⟩ := fun i o owns =>
      ((owners i o owns).resolve_left (free i o)).2
    refine ⟨fun k found => ?_, fun i o owns => ?_, fun n reads => absurd reads (unread n),
      fun i o owns _ => ⟨?_, fun k found => ?_, fun n reads => absurd reads (unread n)⟩⟩
    · cases job.symm.trans found
      exact Int.le_trans (by decide) counts
    · rw [mine i o owns]
      exact Int.le_trans (by decide) counts
    · rw [mine i o owns]
      exact counts
    · cases job.symm.trans found
      exact counts
  | entered _ job owners lock =>
    exact counted.change owners (fun n reads => absurd reads (Read.not_unread lock)) (.inl job)
  | @loaded call j job owners held lock read =>
    refine counted.change owners (fun n reads => .inr ?_) (.inl job)
    obtain ⟨call', k, held', rfl, rfl⟩ := reads
    cases lock.symm.trans held'
    exact ⟨j, read, rfl⟩
  | @wrote call j j' old now held mine verdict found job owners lock =>
    have reads : Read id s j.attempt := ⟨call, j, held, mine, rfl⟩
    refine counted.change owners (earlier (.inr lock)) (.inr ⟨_, job, ?_, fun i o owns worker => ?_⟩)
    · rcases (Call.verdict_write verdict).attempt with same | ⟨zero, _⟩
      · exact same ▸ counted.read _ reads
      · exact zero.ge
    · rcases (Call.verdict_write verdict).attempt with same | ⟨_, ended⟩
      · exact same ▸ (counted.claimed i o owns worker).2.2 _ reads
      -- a job that has ended stays so while the call has the mutex
      obtain ⟨k, there, state⟩ := (tracked.loaded call j held mine).settled
        (by rcases ended with state | state <;> rw [state] <;> rfl)
        (by rcases ended with state | state <;> rw [state] <;> rfl)
      refine absurd owns (tracked.free_of there ?_ i o)
      rcases ended with ends | ends <;> rw [state, ends] <;> rfl
  | @worked w o owner worker job owners lock =>
    obtain ⟨copy, stored, read⟩ := counted.claimed w o owner worker
    have written : ∀ j, s'.job id = some j → 1 ≤ j.attempt := by
      intro j found
      rcases job with same | ⟨k, there, ⟨_, reads⟩ | ⟨⟨job, event, attempt⟩, _⟩⟩
      · exact stored j (same ▸ found)
      · cases there.symm.trans found
        exact read _ reads
      cases there.symm.trans found
      rw [attempt, calm.faithful w job o event owner.1]
      exact copy
    have copies : ∀ i p, s'.owns id i p → 1 ≤ p.job.attempt := by
      intro i p owns
      rcases owners i p owns with before | ⟨_, _, same | reads⟩
      · cases tracked.alone i w p o before owner
        cases before.1.symm.trans owner.1
        exact copy
      · exact same ▸ copy
      · exact read _ reads
    refine ⟨fun j found => ?_, fun i p owns => ?_, fun n reads => ?_, fun i p owns _ => ?_⟩
    · exact Int.le_trans (by decide) (written j found)
    · exact Int.le_trans (by decide) (copies i p owns)
    · exact counted.read n (reads.earlier lock)
    · exact ⟨copies i p owns, written, fun n reads => read n (reads.earlier lock)⟩
  | @finished w o owner job owners lock =>
    refine counted.vacated (fun i p owns => ?_) lock (fun j found => ?_)
    · obtain ⟨other, before⟩ := owners i p owns
      exact other (tracked.alone i w p o before owner)
    rcases job with same | ⟨k, there, attempt | ⟨n, reads, natural⟩⟩
    · exact counted.stored j (same ▸ found)
    · cases there.symm.trans found
      exact attempt ▸ counted.copied w o owner
    · cases there.symm.trans found
      exact natural (counted.read n reads)
  | restarted _ counts free lock =>
    refine counted.vacated free (.inr lock) (fun j found => ?_)
    cases before : s.job id with
    | none => exact (calm.fresh j before found).ge
    | some old => exact counts j found old before ▸ counted.stored old before

theorem finish_possible {job : Job} (counts : 1 ≤ job.attempt) (stopping : Bool)
    (err : Option OperationError) (bytes : Int) (now : Time) :
    Jobs.finish stopping job err bytes now ≠ none := by
  intro panics
  unfold Jobs.finish at panics
  dsimp only at panics
  split at panics
  · cases panics
  · cases panics
  split at panics
  · cases panics
  unfold finishFailed at panics
  split_ifs at panics with _ _ _ _ _ _ _ none
  exact absurd counts (Int.not_le.mpr none)

/-- No two processes work on one job, and the store shows a job being worked on as taken. -/
theorem workers_exclude {i k : Nat} {o p : Owner}
    (run : Run (System.next signing) (Orderly id) (System.started emptyLedger) s)
    (one : s.owns id i o) (two : s.owns id k p) :
    i = k ∧ ∃ j, s.job id = some j ∧ j.state.claimed = true := by
  have tracked := Tracked.run run (.started sound_empty.formed fun _ found => by cases found)
  exact ⟨tracked.alone i k o p one two, tracked.owned i o one⟩

end Counting

section Sample

/-- The sample job is created, claimed and fails; its worker is about to write the outcome. -/
def attemptEvents : List (Event Unit) :=
  [.store (.createJob sampleJob [] "" ""), .claim 0 "j" sampleTime, .enter (.execute 0 "j"), .load,
    .commit sampleTime none, .operated 0 (some { text := "disk" }) 0, .enter (.finish 0 "j"), .load]

def calmly (s : System) (e : Event Unit) (s' : System) : Bool :=
  (s'.job "j").all (fun j => !j.secured) &&
    (match e with | .claim _ _ _ => s.lock.isNone | .rewrite _ _ => false | _ => true) &&
    ((s.job "j").isSome || (s'.job "j").all fun j => j.attempt == 0)

theorem calmly_undisturbed (s : System) (e : Event Unit) (s' : System)
    (calm : calmly s e s' = true) : Undisturbed "j" s e s' := by
  simp only [calmly, Bool.and_eq_true, Bool.or_eq_true] at calm
  obtain ⟨⟨plain, still⟩, fresh⟩ := calm
  refine ⟨fun j found => ?_, ?_, fun j absent found => ?_, ?_⟩
  · rw [found] at plain
    simpa using plain
  · rintro w now n rfl ⟨_, _, held, _⟩
    rw [held] at still
    cases still
  · rw [absent, found] at fresh
    simpa using fresh
  · rintro w j o rfl
    cases still

def attempted : System :=
  (replay (System.next sampleSigning) calmly (System.started emptyLedger) attemptEvents).getD
    (System.started emptyLedger)

theorem sample_worker_alone : ∃ j, attempted.job "j" = some j ∧ j.state.claimed = true := by
  have run : Run (System.next sampleSigning) (Orderly "j") (System.started emptyLedger) attempted :=
    Run.of_possible (fun _ _ _ calm => (calmly_undisturbed _ _ _ calm).orderly) (by decide +kernel) _
  have works : (attempted.owners 0).any (·.job.id = "j") = true := by decide +kernel
  obtain ⟨o, owner, named⟩ := Option.any_eq_true .. |>.mp works
  have owns : attempted.owns "j" 0 o := ⟨owner, of_decide_eq_true named⟩
  exact (workers_exclude run owns owns).2

/-- A Cancel reads the queued job, a worker claims it, and the Cancel writes what it has read. The
worker finds the job canceled and finishes it. -/
def lostAttempt : List (Event Unit) :=
  [.store (.createJob sampleJob [] "" ""), .enter (.cancel "j"), .load, .claim 0 "j" sampleTime,
    .commit sampleTime none, .enter (.execute 0 "j"), .load, .commit sampleTime none,
    .enter (.finish 0 "j"), .load]

def unattempted : System :=
  (replay (System.next sampleSigning) (fun _ _ _ => true) (System.started emptyLedger)
    lostAttempt).getD (System.started emptyLedger)

end Sample

end Jolt.Jobs
