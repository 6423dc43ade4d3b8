import Jolt.Jobs.Turns
import Jolt.Jobs.Secured

/-! Pause and Cancel against the workers. A claim does not take the service's mutex, so
it can fall between the read and the write of a Pause or a Cancel; the worker then finds
the job stopped under its hands, and `finish` puts it back in the queue. As long as no
claim falls there, a job that rests keeps resting. -/
namespace Jolt.Jobs
open Jolt.Base Jolt.State

def JobState.waits : JobState → Bool
  | .queued | .waitingPeer | .waitingMount => true
  | _ => false

def Call.interrupts : Call → Bool
  | .pause _ | .cancel _ => true
  | _ => false

def Interrupting (id : String) (s : System) : Prop :=
  ∃ call j, s.lock = some ⟨call, some j⟩ ∧ call.id = id ∧ call.interrupts = true

/-- The job stays without authorization, and no claim takes it out of the hands of a
Pause or a Cancel. -/
def Orderly {κ : Type} (id : String) (s : System) (e : Event κ) (s' : System) : Prop :=
  Unsecured id s' ∧ ∀ w now, e = .claim w id now → ¬ Interrupting id s

section Invariant

variable {κ : Type} {signing : Signing κ} {id : String} {s s' : System} {e : Event κ}

/-- What a call has read still stands, as far as the unlocked writers leave it alone. -/
structure Stands (call : Call) (read : JobState) (stored : Option Job) : Prop where
  settled : read.claimed = false → read.waits = false → ∃ j, stored = some j ∧ j.state = read
  waiting : read.waits = true → call.interrupts = true → ∃ j, stored = some j ∧ j.state.waits = true

/-- At most one process works on the job, and while it does the job is marked so. -/
structure Tracked (id : String) (s : System) : Prop where
  wired : Wired s
  unsecured : Unsecured id s
  owned : ∀ i o, s.owns id i o → ∃ j, s.job id = some j ∧ j.state.claimed = true
  alone : ∀ i k o p, s.owns id i o → s.owns id k p → i = k
  copy : ∀ i o, s.owns id i o → o.stage = .operating → o.job.state = .running
  loaded : ∀ call j, s.lock = some ⟨call, some j⟩ → call.id = id → Stands call j.state (s.job id)

theorem Tracked.vacant (wired : Wired s) (unsecured : Unsecured id s)
    (free : ∀ i o, ¬ s.owns id i o)
    (loaded : ∀ call j, s.lock = some ⟨call, some j⟩ → call.id = id →
      Stands call j.state (s.job id)) : Tracked id s where
  wired := wired
  unsecured := unsecured
  owned i o owns := absurd owns (free i o)
  alone i _ o _ owns := absurd owns (free i o)
  copy i o owns := absurd owns (free i o)
  loaded := loaded

theorem Tracked.frame (tracked : Tracked id s) (wired : Wired s') (unsecured : Unsecured id s')
    (job : s'.job id = s.job id) (owners : ∀ i o, s'.owns id i o → s.owns id i o)
    (loaded : ∀ call j, s'.lock = some ⟨call, some j⟩ → call.id = id →
      Stands call j.state (s.job id)) : Tracked id s' where
  wired := wired
  unsecured := unsecured
  owned i o owns := by
    rw [job]
    exact tracked.owned i o (owners i o owns)
  alone i k o p first second := tracked.alone i k o p (owners i o first) (owners k p second)
  copy i o owns := tracked.copy i o (owners i o owns)
  loaded := by
    rw [job]
    exact loaded

theorem Tracked.started {l : Ledger Value} (formed : Formed l.table)
    (unsecured : Unsecured id (System.started l)) : Tracked id (System.started l) := by
  refine .vacant (Wired.started formed) unsecured (fun i o owns => ?_) (fun call j held => ?_)
  · cases owns.1
  · cases held

theorem Tracked.free (tracked : Tracked id s)
    (idle : ∀ j, s.job id = some j → j.state.claimed = false) (i : Nat) (o : Owner) :
    ¬ s.owns id i o := by
  intro owns
  obtain ⟨j, found, claimed⟩ := tracked.owned i o owns
  rw [idle j found] at claimed
  cases claimed

theorem Tracked.free_of {j : Job} (tracked : Tracked id s) (found : s.job id = some j)
    (idle : j.state.claimed = false) : ∀ i o, ¬ s.owns id i o :=
  tracked.free fun _ found' => Option.some.inj (found'.symm.trans found) ▸ idle

theorem Tracked.free_absent (tracked : Tracked id s) (absent : s.job id = none) :
    ∀ i o, ¬ s.owns id i o :=
  tracked.free fun _ found => nomatch absent.symm.trans found

theorem JobState.not_claimed_of_waits {state : JobState} (waits : state.waits = true) :
    state.claimed = false := by
  cases state <;> first | rfl | cases waits

theorem Stands.read_claimed {call : Call} {read : JobState} {old : Job}
    (stands : Stands call read (some old)) (claimed : old.state.claimed = true) :
    read.claimed = true ∨ (read.waits = true ∧ call.interrupts = false) := by
  by_cases running : read.claimed = true
  · exact .inl running
  by_cases waits : read.waits = true
  · refine .inr ⟨waits, Bool.eq_false_iff.mpr fun interrupts => ?_⟩
    obtain ⟨j, same, here⟩ := stands.waiting waits interrupts
    cases same
    rw [JobState.not_claimed_of_waits here] at claimed
    cases claimed
  · obtain ⟨j, same, here⟩ :=
      stands.settled (Bool.eq_false_iff.mpr running) (Bool.eq_false_iff.mpr waits)
    cases same
    exact absurd (here ▸ claimed) running

theorem Stands.of_claimed {call : Call} {read : JobState} {old : Job}
    (stands : Stands call read (some old)) (claimed : old.state.claimed = true)
    (stored : Option Job) : Stands call read stored := by
  rcases stands.read_claimed claimed with running | ⟨waits, other⟩
  · constructor
    · intro idle
      rw [running] at idle
      cases idle
    · intro waits
      rw [JobState.not_claimed_of_waits waits] at running
      cases running
  · constructor
    · intro _ still
      rw [waits] at still
      cases still
    · intro _ interrupts
      rw [other] at interrupts
      cases interrupts

theorem Turned.interrupts {call : Call} {read state : JobState} (turned : Turned call read state)
    (waits : read.waits = true) : call.interrupts = true := by
  cases turned with
  | paused | pauseRequested | canceled | cancelRequested => rfl
  | resumed rests =>
    have settled : ∀ r ∈ [JobState.paused, .interrupted, .waitingValidation], ¬ r.waits = true := by
      decide
    exact absurd waits (settled read rests)
  | retried ended =>
    have settled : ∀ r ∈ [JobState.failed, .completedWithWarnings], ¬ r.waits = true := by decide
    exact absurd waits (settled read ended)
  | overridden => cases waits
  | progressed => cases waits

theorem Turned.claimed {call : Call} {read state : JobState} {old : Job}
    (turned : Turned call read state) (stands : Stands call read (some old))
    (claimed : old.state.claimed = true) : state.claimed = true := by
  rcases stands.read_claimed claimed with running | ⟨waits, other⟩
  · exact turned.keepsClaim running
  · rw [turned.interrupts waits] at other
    cases other

theorem Tracked.next {a : Option Answer} (tracked : Tracked id s)
    (moved : s.next signing e = some (s', a)) (orderly : Orderly id s e s') : Tracked id s' := by
  have wired := tracked.wired.next moved
  have unread : ∀ {call : Call} {j : Job}, s'.lock = s.lock ∨ s'.lock = none →
      s'.lock = some ⟨call, some j⟩ → s.lock = some ⟨call, some j⟩ := by
    rintro call j (same | none) held
    · exact same ▸ held
    · rw [none] at held
      cases held
  cases next_effect tracked.wired tracked.unsecured orderly.1 moved with
  | idle job owners lock =>
    exact tracked.frame wired orderly.1 job owners
      (fun call j held => tracked.loaded call j (unread lock held))
  | @created j w absent job owners lock =>
    -- nobody works on a job that is not there
    have mine : ∀ i o, s'.owns id i o → i = w ∧ o = ⟨j, .inline⟩ ∧ j.state = .running :=
      fun i o owns => (owners i o owns).resolve_left (tracked.free_absent absent i o)
    refine ⟨wired, orderly.1, ?_, ?_, ?_, ?_⟩
    · intro i o owns
      exact ⟨j, job, by rw [(mine i o owns).2.2]; rfl⟩
    · exact fun i k o p first second => (mine i o first).1.trans (mine k p second).1.symm
    · intro i o owns operating
      rw [(mine i o owns).2.1] at operating
      cases operating
    · intro call j' held here
      have stands := tracked.loaded call j' (lock ▸ held) here
      rw [absent] at stands
      constructor
      · intro idle still
        obtain ⟨_, none, _⟩ := stands.settled idle still
        cases none
      · intro waits interrupts
        obtain ⟨_, none, _⟩ := stands.waiting waits interrupts
        cases none
  | @woken j now job waiting job' owners lock =>
    have waits : j.state.waits = true := by
      rcases waiting with state | state <;> rw [state] <;> rfl
    have free := tracked.free_of job (JobState.not_claimed_of_waits waits)
    refine .vacant wired orderly.1 (fun i o owns => free i o (owners i o owns)) ?_
    intro call j' held here
    have stands := tracked.loaded call j' (lock ▸ held) here
    rw [job] at stands
    constructor
    · intro idle still
      obtain ⟨_, same, state⟩ := stands.settled idle still
      cases same
      rw [← state, waits] at still
      cases still
    · intro _ _
      exact ⟨_, job', rfl⟩
  | @claimed j w now event job queued job' owners lock =>
    have free := tracked.free_of job (by rw [queued]; rfl)
    have mine : ∀ i o, s'.owns id i o → i = w ∧ o = ⟨j.start now, .claimed⟩ :=
      fun i o owns => (owners i o owns).resolve_left (free i o)
    refine ⟨wired, orderly.1, ?_, ?_, ?_, ?_⟩
    · exact fun _ _ _ => ⟨_, job', rfl⟩
    · exact fun i k o p first second => (mine i o first).1.trans (mine k p second).1.symm
    · intro i o owns operating
      rw [(mine i o owns).2] at operating
      cases operating
    · intro call j' held here
      have held' : s.lock = some ⟨call, some j'⟩ := lock ▸ held
      have stands := tracked.loaded call j' held' here
      rw [job] at stands
      constructor
      · intro idle still
        obtain ⟨_, same, state⟩ := stands.settled idle still
        cases same
        rw [← state, queued] at still
        cases still
      · intro _ interrupts
        exact absurd ⟨call, j', held', here, interrupts⟩ (orderly.2 w now event)
  | entered event job owners lock =>
    refine tracked.frame wired orderly.1 job owners (fun call j held => ?_)
    rw [lock] at held
    cases held
  | loaded job owners held lock read =>
    refine tracked.frame wired orderly.1 job owners (fun call' j' held' here => ?_)
    rw [lock] at held'
    cases held'
    rw [← here, read]
    exact ⟨fun _ _ => ⟨_, rfl, rfl⟩, fun waits _ => ⟨_, rfl, waits⟩⟩
  | @wrote call j j' old now held mine verdict job job' owners lock =>
    have stands := tracked.loaded call j held mine
    rw [job] at stands
    refine ⟨wired, orderly.1, ?_, ?_, ?_, ?_⟩
    · intro i o owns
      obtain ⟨_, found, claimed⟩ := tracked.owned i o (owners i o owns)
      cases job.symm.trans found
      exact ⟨_, job', (Call.verdict_write verdict).turned.claimed stands claimed⟩
    · exact fun i k o p first second => tracked.alone i k o p (owners i o first) (owners k p second)
    · exact fun i o owns => tracked.copy i o (owners i o owns)
    · intro call' j'' held'
      rw [lock] at held'
      cases held'
  | @worked w o owner _ job owners lock =>
    obtain ⟨old, found, claimed⟩ := tracked.owned w o owner
    have alone : ∀ i p, s'.owns id i p → i = w := by
      intro i p owns
      rcases owners i p owns with earlier | ⟨here, _⟩
      · exact tracked.alone i w p o earlier owner
      · exact here
    refine ⟨wired, orderly.1, ?_, ?_, ?_, ?_⟩
    · intro i p _
      rcases job with same | ⟨j, found', ⟨running, _⟩ | ⟨_, operating, copied⟩⟩
      · exact ⟨old, same.trans found, claimed⟩
      · exact ⟨j, found', by rw [running]; rfl⟩
      · exact ⟨j, found', by rw [copied, tracked.copy w o owner operating]; rfl⟩
    · exact fun i k p q first second => (alone i p first).trans (alone k q second).symm
    · intro i p owns
      rcases owners i p owns with earlier | ⟨_, running, _⟩
      · exact tracked.copy i p earlier
      · exact running
    · intro call j held here
      have stands := tracked.loaded call j (unread lock held) here
      rw [found] at stands
      exact stands.of_claimed claimed _
  | @finished w o owner _ owners lock =>
    obtain ⟨old, found, claimed⟩ := tracked.owned w o owner
    have free : ∀ i p, ¬ s'.owns id i p := by
      intro i p owns
      obtain ⟨other, earlier⟩ := owners i p owns
      exact other (tracked.alone i w p o earlier owner)
    refine .vacant wired orderly.1 free (fun call j held here => ?_)
    have stands := tracked.loaded call j (unread lock held) here
    rw [found] at stands
    exact stands.of_claimed claimed _
  | restarted job _ owners lock =>
    refine .vacant wired orderly.1 owners (fun call j held => ?_)
    rw [lock] at held
    cases held

structure Parked (id : String) (s : System) : Prop where
  rests : ∃ j, s.job id = some j ∧ (j.state = .paused ∨ j.state = .canceled)
  known : ∀ call j, s.lock = some ⟨call, some j⟩ → call.id = id →
    j.state = .paused ∨ j.state = .canceled
  kept : ∀ loaded, s.lock ≠ some ⟨.resume id, loaded⟩

theorem Parked.unlocked {j : Job} (found : s.job id = some j)
    (rests : j.state = .paused ∨ j.state = .canceled) (lock : s.lock = none) : Parked id s := by
  refine ⟨⟨j, found, rests⟩, fun call j' held => ?_, fun loaded held => ?_⟩
  · rw [lock] at held
    cases held
  · rw [lock] at held
    cases held

theorem Turned.rests {call : Call} {read state : JobState} (turned : Turned call read state)
    (rests : read = .paused ∨ read = .canceled) :
    state = .canceled ∨ ∃ id, call = .resume id := by
  cases turned with
  | canceled => exact .inl rfl
  | resumed => exact .inr ⟨_, rfl⟩
  | paused idle => rcases rests with rfl | rfl <;> simp at idle
  | cancelRequested runs => rcases rests with rfl | rfl <;> simp at runs
  | retried ended => rcases rests with rfl | rfl <;> simp at ended
  | pauseRequested | overridden | progressed => rcases rests with same | same <;> cases same

theorem Parked.next {a : Option Answer} (tracked : Tracked id s) (parked : Parked id s)
    (moved : s.next signing e = some (s', a)) (orderly : Orderly id s e s')
    (noResume : e ≠ .enter (.resume id)) : Parked id s' := by
  obtain ⟨j, found, rests⟩ := parked.rests
  have free := tracked.free_of found (by rcases rests with state | state <;> rw [state] <;> rfl)
  cases next_effect tracked.wired tracked.unsecured orderly.1 moved with
  | idle job owners lock =>
    rcases lock with same | none
    · refine ⟨⟨j, job.trans found, rests⟩, ?_, ?_⟩
      · exact fun call j' held => parked.known call j' (same ▸ held)
      · exact fun loaded held => parked.kept loaded (same ▸ held)
    · exact .unlocked (job.trans found) rests none
  | created absent =>
    rw [absent] at found
    cases found
  | woken job waiting =>
    cases job.symm.trans found
    rcases rests with state | state <;> rw [state] at waiting <;> simp at waiting
  | claimed _ job queued =>
    cases job.symm.trans found
    rw [queued] at rests
    simp at rests
  | @entered call event job owners lock =>
    refine ⟨⟨j, job.trans found, rests⟩, ?_, ?_⟩
    · intro call' j' held
      rw [lock] at held
      cases held
    · intro loaded held
      rw [lock] at held
      cases held
      exact noResume event
  | loaded job owners held lock read =>
    refine ⟨⟨j, job.trans found, rests⟩, ?_, ?_⟩
    · intro call' j' held' here
      rw [lock] at held'
      cases held'
      rw [here] at read
      cases read.symm.trans found
      exact rests
    · intro loaded held'
      rw [lock] at held'
      cases held'
      exact parked.kept none held
  | @wrote call j₀ j' old now held mine verdict job job' owners lock =>
    rcases (Call.verdict_write verdict).turned.rests (parked.known call j₀ held mine) with
      state | ⟨id', rfl⟩
    · exact .unlocked job' (.inr state) lock
    · cases mine
      exact absurd held (parked.kept _)
  | worked owner => exact absurd owner (free _ _)
  | finished owner => exact absurd owner (free _ _)
  | restarted job _ owners lock => exact .unlocked (job j found rests) rests lock

theorem next_answer {answer : Answer} (moved : s.next signing e = some (s', some answer)) :
    ∃ j now, s.lock = some ⟨answer.call, some j⟩ ∧ s'.lock = none ∧
      ((answer.call.verdict now j = .write answer.job ∧
          Replaced s.ledger.table s'.ledger.table answer.job) ∨
        (answer.job = j ∧ s'.ledger = s.ledger)) := by
  cases e with
  | commit now invalid =>
    simp only [System.next] at moved
    split at moved
    · cases moved
    · split at moved
      · obtain ⟨_, _, same⟩ := Option.map_eq_some_iff.mp moved
        cases same
      · cases moved
    · rename_i held
      unfold System.answer at moved
      split at moved
      · rename_i job' verdict
        split at moved
        · rename_i l u transacted
          cases moved
          have replaced := @updateJob_ok s.ledger job' u (by rw [transacted])
          rw [transacted] at replaced
          exact ⟨_, now, held, rfl, .inl ⟨verdict, replaced⟩⟩
        · cases moved
      · cases moved
        exact ⟨_, now, held, rfl, .inr ⟨rfl, rfl⟩⟩
      · cases moved
    · cases moved
  | _ =>
    simp only [System.next] at moved
    repeat' split at moved
    all_goals cases moved

theorem Parked.of_answer {answer : Answer} (tracked : Tracked id s)
    (moved : s.next signing e = some (s', some answer)) (mine : answer.call.id = id)
    (rests : answer.job.state = .paused ∨ answer.job.state = .canceled) : Parked id s' := by
  obtain ⟨j, now, held, lock, ⟨verdict, replaced⟩ | ⟨rfl, ledger⟩⟩ := next_answer moved
  · have named := (Call.verdict_write verdict).id.trans (tracked.wired.named _ j held)
    obtain ⟨j', found, state, _⟩ := replaced.here (named.trans mine)
    exact .unlocked found (state.symm ▸ rests) lock
  · obtain ⟨j', found, state⟩ := (tracked.loaded _ _ held mine).settled
      (by rcases rests with state | state <;> rw [state] <;> rfl)
      (by rcases rests with state | state <;> rw [state] <;> rfl)
    refine .unlocked (j := j') ?_ (state.symm ▸ rests) lock
    rw [System.job, ledger]
    exact found

variable {s₁ s₂ s₃ : System} {l : Ledger Value}

theorem Tracked.run (run : Run (System.next signing) (Orderly id) s s') (tracked : Tracked id s) :
    Tracked id s' :=
  run.keeps (fun _ _ _ _ moved orderly tracked => tracked.next moved orderly) tracked

/-- Once Cancel has answered with a canceled job, or Pause with a paused one, the job is
neither queued nor running until it is resumed, in every run in which no claim takes the
job between the read and the write of a Pause or a Cancel of it. -/
theorem interruption_lasts (reached : Steps signing emptyLedger l)
    (unsecured : Unsecured id (System.started l)) {answer : Answer}
    (before : Run (System.next signing) (Orderly id) (System.started l) s₁)
    (moved : s₁.next signing e = some (s₂, some answer)) (orderly : Orderly id s₁ e s₂)
    (stops : (answer.call = .cancel id ∧ answer.job.state = .canceled) ∨
      (answer.call = .pause id ∧ answer.job.state = .paused))
    (after : Run (System.next signing)
      (fun s e s' => Orderly id s e s' ∧ e ≠ .enter (.resume id)) s₂ s₃) :
    ∃ j, s₃.job id = some j ∧ j.state ≠ .queued ∧ j.state ≠ .running := by
  have tracked₁ := Tracked.run before
    (Tracked.started (reached.sound sound_empty).formed unsecured)
  have tracked₂ := tracked₁.next moved orderly
  have mine : answer.call.id = id := by
    rcases stops with ⟨call, _⟩ | ⟨call, _⟩ <;> rw [call] <;> rfl
  have rests : answer.job.state = .paused ∨ answer.job.state = .canceled :=
    stops.elim (fun canceled => .inr canceled.2) (fun paused => .inl paused.2)
  have parked₂ := Parked.of_answer tracked₁ moved mine rests
  have both := after.keeps (P := fun s => Tracked id s ∧ Parked id s)
    (fun s e u a moved met now => ⟨now.1.next moved met.1, now.2.next now.1 moved met.1 met.2⟩)
    ⟨tracked₂, parked₂⟩
  obtain ⟨j, found, state | state⟩ := both.2.rests
  · exact ⟨j, found, by rw [state]; decide, by rw [state]; decide⟩
  · exact ⟨j, found, by rw [state]; decide, by rw [state]; decide⟩

end Invariant

section Sample

def sampleCanceling : System :=
  { System.started createdSample with lock := some ⟨.cancel "j", some sampleJob⟩ }

def sampleCanceled : System := (sampleCanceling.answer (.cancel "j") sampleJob sampleTime).1

/-- A Cancel that no claim disturbs. -/
theorem sample_cancel_lasts :
    ∃ j, sampleCanceled.job "j" = some j ∧ j.state ≠ .queued ∧ j.state ≠ .running := by
  have reached : Steps sampleSigning emptyLedger createdSample :=
    Steps.one (.createJob sampleJob [] "" "") emptyLedger
  have stored : Bucket.jobs.find createdSample.table "j" = some sampleJob := by decide
  have unsecured : ∀ s : System, s.ledger = createdSample → Unsecured "j" s := by
    intro s ledger j found
    rw [System.job, ledger, stored] at found
    cases found
    rfl
  have entered : Run (System.next sampleSigning) (Orderly "j") (System.started createdSample)
      { System.started createdSample with lock := some ⟨.cancel "j", none⟩ } :=
    .step .refl (e := .enter (.cancel "j")) rfl ⟨unsecured _ rfl, by simp⟩
  have read : System.next sampleSigning
      { System.started createdSample with lock := some ⟨.cancel "j", none⟩ } .load =
        some (sampleCanceling, none) := by
    have got : Bucket.jobs.get createdSample.table "j" = .ok sampleJob := Bucket.get_ok.mpr stored
    simp only [System.next, Call.id, System.started, got]
    rfl
  have before := entered.step read ⟨unsecured _ rfl, by simp⟩
  have answer : (sampleCanceling.answer (.cancel "j") sampleJob sampleTime).2 =
      some ⟨.cancel "j", { sampleJob.turn .canceled .cleanup sampleTime with
        completedAt := some sampleTime }⟩ := by decide +kernel
  have moved : sampleCanceling.next sampleSigning (.commit sampleTime none) =
      some (sampleCanceled, some ⟨.cancel "j", { sampleJob.turn .canceled .cleanup sampleTime with
        completedAt := some sampleTime }⟩) := by
    rw [← answer]
    rfl
  have later : Unsecured "j" sampleCanceled := by
    have found : (sampleCanceled.job "j").map Job.secured = some false := by decide +kernel
    intro j here
    rw [here] at found
    exact Option.some.inj found
  exact interruption_lasts reached (unsecured _ rfl) before moved
    ⟨later, by simp⟩ (.inl ⟨rfl, rfl⟩) .refl

/-- The first attempt of the sample job fails; a Cancel then reads the queued job, and a
worker claims it before the Cancel writes. -/
def raceBefore : List (Event Unit) :=
  [.claim 0 "j" sampleTime, .enter (.execute 0 "j"), .load, .commit sampleTime none,
    .operated 0 (some { text := "disk" }) 0, .enter (.finish 0 "j"), .load, .commit sampleTime none,
    .enter (.cancel "j"), .load, .claim 1 "j" (sampleTime + Time.minute)]

def raceAfter : List (Event Unit) :=
  [.enter (.execute 1 "j"), .load, .commit (sampleTime + Time.minute) none,
    .enter (.finish 1 "j"), .load, .commit (sampleTime + Time.minute) none]

def raced : System :=
  (replay (System.next sampleSigning) (fun _ _ _ => true) (System.started createdSample)
    raceBefore).getD (System.started emptyLedger)

def answered : System × Option Answer :=
  (raced.next sampleSigning (.commit (sampleTime + Time.minute) none)).getD
    (System.started emptyLedger, none)

def Event.revives {κ : Type} (id : String) : Event κ → Bool
  | .enter (.resume other) | .enter (.retry other) => other == id
  | _ => false

def racedOn : System :=
  (replay (System.next sampleSigning) (fun _ e _ => !e.revives "j") answered.1 raceAfter).getD
    (System.started emptyLedger)

/-- Cancel has answered that the job is canceled, and without a Resume or a Retry the job
is queued again. -/
theorem canceled_job_queued_again :
    Run (System.next sampleSigning) (fun _ _ _ => True) (System.started createdSample) raced ∧
      (∃ answer : Answer, raced.next sampleSigning (.commit (sampleTime + Time.minute) none) =
        some (answered.1, some answer) ∧ answer.call = .cancel "j" ∧ answer.job.state = .canceled) ∧
      Run (System.next sampleSigning)
        (fun _ e _ => e ≠ .enter (.resume "j") ∧ e ≠ .enter (.retry "j")) answered.1 racedOn ∧
      (racedOn.job "j").map (fun j => (j.state, j.secured)) = some (.queued, false) := by
  refine ⟨?_, ?_, ?_, by decide +kernel⟩
  · exact Run.of_possible (fun _ _ _ _ => trivial) (by decide +kernel) _
  · have told : answered.2.map (fun answer => (answer.call, answer.job.state)) =
        some (.cancel "j", .canceled) := by decide +kernel
    obtain ⟨answer, given, same⟩ := Option.map_eq_some_iff.mp told
    obtain ⟨call, state⟩ := Prod.mk.inj same
    refine ⟨answer, ?_, call, state⟩
    rw [← given]
    unfold answered at given ⊢
    cases moved : raced.next sampleSigning (.commit (sampleTime + Time.minute) none) with
    | none =>
      rw [moved] at given
      cases given
    | some _ => rfl
  · refine Run.of_possible (fun _ e _ dead => ?_) (by decide +kernel) _
    constructor <;> rintro rfl <;> cases dead

end Sample

end Jolt.Jobs
