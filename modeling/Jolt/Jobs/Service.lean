import Jolt.Jobs.Moves
import Jolt.Base.Runs

/-! The job service over the store: what Pause, Cancel, Resume, Retry, OverrideItem, the
progress reports, `execute` and `finish` decide about the job they have read, and the
system of workers and callers that take turns on the store. The service's mutex orders
all of them but the claims, the wakes and the writes a running operation makes itself. -/
namespace Jolt.Jobs
open Jolt.State

section Decisions

inductive Verdict where
  | write (job : Job)
  | keep
  | refuse (text : String)
  deriving DecidableEq

def interruptible (job : Job) : Bool :=
  match job.type with
  | .copyLocal | .transferPull | .transferPullDirectory => true
  | _ => false

def Job.turn (job : Job) (state : JobState) (phase : Phase) (now : Time) : Job :=
  { job with state := state, phase := phase, updatedAt := now }

def pause (job : Job) (now : Time) : Verdict :=
  match job.state with
  | .queued | .interrupted | .waitingPeer | .waitingMount | .waitingValidation =>
    .write (job.turn .paused .paused now)
  | .running =>
    if interruptible job then .write (job.turn .pauseRequested .pausing now)
    else .refuse ("running " ++ job.type.text ++ " jobs cannot be paused safely")
  | .paused => .keep
  | state => .refuse ("cannot pause job in " ++ state.text)

def cancel (job : Job) (now : Time) : Verdict :=
  match job.state with
  | .queued | .paused | .interrupted | .waitingPeer | .waitingMount | .waitingValidation
  | .waitingUserDecision =>
    .write { job.turn .canceled .cleanup now with completedAt := some now }
  | .running | .pauseRequested =>
    if interruptible job then .write (job.turn .cancelRequested .canceling now)
    else .refuse ("running " ++ job.type.text ++ " jobs cannot be canceled safely")
  | .canceled => .keep
  | state => .refuse ("cannot cancel job in " ++ state.text)

def Job.requeue (job : Job) (now : Time) : Job :=
  { job with
    state := .queued, phase := .validation, error := "", updatedAt := now, nextAttemptAt := none
    completedAt := none }

def resume (job : Job) (now : Time) : Verdict :=
  match job.state with
  | .paused | .interrupted | .waitingValidation => .write (job.requeue now)
  | state => .refuse ("cannot resume job in " ++ state.text)

def retry (job : Job) (now : Time) : Verdict :=
  match job.state with
  | .failed | .completedWithWarnings => .write { job.requeue now with attempt := 0 }
  | state => .refuse ("cannot retry job in " ++ state.text)

/-- The end of OverrideItem, once the items are written; `unresolved` says whether a
conflict is left among them. -/
def overrideItem (job : Job) (unresolved : Bool) (now : Time) : Verdict :=
  match job.state with
  | .waitingUserDecision =>
    .write (if unresolved then { job with updatedAt := now } else job.requeue now)
  | _ => .refuse "job is not waiting for a decision"

/-- What a progress report changes. The speed and the estimate come from floating-point
arithmetic and are given as they are stored. -/
structure Progress where
  bytesCompleted : Int
  bytesTotal : Int
  bytesPerSecond : UInt64
  etaSeconds : Option Int
  etaConfidence : String
  files : Option (Int × Int)
  deriving DecidableEq

def progress (job : Job) (report : Progress) (now : Time) : Verdict :=
  match job.state with
  | .running => .write { job with
      filesCompleted := (report.files.map Prod.fst).getD job.filesCompleted
      filesFailed := (report.files.map Prod.snd).getD job.filesFailed
      bytesCompleted := report.bytesCompleted, bytesTotal := report.bytesTotal
      bytesPerSecond := report.bytesPerSecond, etaSeconds := report.etaSeconds
      etaConfidence := report.etaConfidence, updatedAt := now }
  | _ => .refuse "context canceled"

/-- An error of an operation, by the sentinels it wraps. -/
structure OperationError where
  text : String
  canceled : Bool := false
  authorizationLost : Bool := false
  warnings : Bool := false
  waitingUserDecision : Bool := false
  waitingPeer : Bool := false
  waitingMount : Bool := false
  deriving DecidableEq

def contextCanceled : OperationError := { text := "context canceled", canceled := true }

def Job.giveBack (job : Job) : Job :=
  { job with attempt := if 0 < job.attempt then job.attempt - 1 else job.attempt }

/- The branches of `finish` for a job nobody asked to stop. Shifting by a negative number
panics: then there is no job to write. -/
def finishFailed (stopping : Bool) (job : Job) (e : OperationError) (bytes : Int) (now : Time) :
    Option (Job × String) :=
  if stopping && e.canceled then
    some ({ job with
      state := .waitingValidation, phase := .waitingValidation
      error := "node stopped before the operation completed; explicit validation is required" },
      "job.interrupted")
  else if job.signedAuthBound && e.authorizationLost then
    some ({ job.giveBack with
      state := .waitingValidation, phase := .waitingAuthorization, nextAttemptAt := none
      error := "job authorization expired or changed; waiting for renewal" },
      "job.waiting_authorization")
  else if e.warnings then
    some ({ job with
      state := .completedWithWarnings, phase := .finalization, error := e.text
      completedAt := some now, bytesCompleted := bytes }, "job.completed_with_warnings")
  else if e.waitingUserDecision then
    some ({ job with
      state := .waitingUserDecision, phase := .waitingUserDecision, error := e.text },
      "job.waiting_user_decision")
  else if e.waitingPeer then
    some ({ job.giveBack with
      state := .waitingPeer, phase := .waitingPeer, error := e.text, nextAttemptAt := none },
      "job.waiting_peer")
  else if e.waitingMount then
    some ({ job.giveBack with
      state := .waitingMount, phase := .waitingMount, error := e.text, nextAttemptAt := none },
      "job.waiting_mount")
  else if job.attempt < job.maxAttempts then
    if job.attempt < 1 then none
    else some ({ job with
      state := .queued, phase := .retryWait, error := e.text
      nextAttemptAt := some (now + Time.second * 2 ^ (min (job.attempt - 1) 6).toNat) },
      "job.retry_scheduled")
  else
    some ({ job with
      state := .failed, phase := .finalization, error := e.text, completedAt := some now },
      "job.failed")

/-- The job `finish` writes and the type of its event. -/
def finish (stopping : Bool) (current : Job) (err : Option OperationError) (bytes : Int)
    (now : Time) : Option (Job × String) :=
  let job := { current with updatedAt := now, etaSeconds := none, etaConfidence := "" }
  match current.state with
  | .pauseRequested =>
    some ({ job with state := .paused, phase := .paused, error := "" }, "job.paused")
  | .cancelRequested =>
    some ({ job with
      state := .canceled, phase := .cleanup, error := "", completedAt := some now }, "job.canceled")
  | _ =>
    match err with
    | none => some ({ job with
        state := .completed, phase := .finalization, error := "", completedAt := some now
        bytesCompleted := bytes, bytesTotal := bytes }, "job.completed")
    | some e => finishFailed stopping job e bytes now

/-- `Complete`: the end of an operation that ran inside a request. -/
def complete (job : Job) (bytes : Int) (err : Option String) (now : Time) : Job × String :=
  let job := { job with
    updatedAt := now, completedAt := some now, bytesCompleted := bytes, bytesTotal := bytes
    phase := .finalization, etaSeconds := none, etaConfidence := "" }
  match err with
  | some text => ({ job with state := .failed, error := text }, "job.failed")
  | none => ({ job with state := .completed, error := "" }, "job.completed")

def newJobEvent (job : Job) (type message : String) (now : Time) : JobEvent where
  jobID := job.id
  type := type
  state := job.state
  phase := job.phase
  bytesTotal := job.bytesTotal
  bytesCompleted := job.bytesCompleted
  bytesPerSecond := job.bytesPerSecond
  etaSeconds := job.etaSeconds
  etaConfidence := job.etaConfidence
  message := message
  filesTotal := job.filesTotal
  filesCompleted := job.filesCompleted
  filesFailed := job.filesFailed
  correlationID := job.correlationID
  createdAt := now

end Decisions

section System

/-- How far the process that holds a running job has come. -/
inductive Stage where
  | claimed
  | operating
  | finishing (err : Option OperationError) (bytes : Int)
  | inline
  deriving DecidableEq

/-- A worker or a request with the copy of the job it works on. -/
structure Owner where
  job : Job
  stage : Stage
  deriving DecidableEq

inductive Call where
  | pause (id : String)
  | cancel (id : String)
  | resume (id : String)
  | retry (id : String)
  | overrideItem (id : String) (unresolved : Bool)
  | progress (id : String) (report : Progress)
  | execute (worker : Nat) (id : String)
  | finish (worker : Nat) (id : String)
  deriving DecidableEq

def Call.id : Call → String
  | .pause id | .cancel id | .resume id | .retry id | .overrideItem id _ | .progress id _
  | .execute _ id | .finish _ id => id

/-- The call that holds the mutex, and the job once it has read it. -/
structure Held where
  call : Call
  loaded : Option Job
  deriving DecidableEq

structure System where
  ledger : Ledger Value
  owners : Nat → Option Owner
  lock : Option Held
  stopping : Bool

def System.started (l : Ledger Value) : System := ⟨l, fun _ => none, none, false⟩

def System.setOwner (s : System) (worker : Nat) (owner : Option Owner) : System :=
  { s with owners := fun i => if i = worker then owner else s.owners i }

structure Answer where
  call : Call
  job : Job
  deriving DecidableEq

variable (κ : Type) in
inductive Event where
  | store (op : Op κ)
  | claim (worker : Nat) (id : String) (now : Time)
  | claimSecured (worker : Nat) (nodeID : String) (keys : κ) (now : Time)
  | createInline (worker : Nat) (job : Job) (key : String)
  | enter (call : Call)
  | load
  | commit (now : Time) (invalid : Option OperationError)
  | fail (err : OperationError)
  | rewrite (worker : Nat) (job : Job)
  | operated (worker : Nat) (err : Option OperationError) (bytes : Int)
  | complete (worker : Nat) (bytes : Int) (err : Option String) (now : Time)
  | shutdown
  | restart (now : Time)

variable {κ : Type}

/-- The operations of the store that are called without the mutex and make no owner. -/
def Op.isFree : Op κ → Bool
  | .updateJob _ | .updateJobWithEvent _ _ | .claimNextJob _ | .claimNextSecuredJob _ _ _
  | .recoverRunningJobs _ => false
  | _ => true

def System.mayEnter (s : System) : Call → Bool
  | .execute worker id =>
    (s.owners worker).any (fun o => o.stage == .claimed && o.job.id == id)
  | .finish worker id => (s.owners worker).any (fun o =>
      (match o.stage with | .finishing _ _ => true | _ => false) && o.job.id == id)
  | _ => true

def Call.verdict (now : Time) (job : Job) : Call → Verdict
  | .pause _ => Jobs.pause job now
  | .cancel _ => Jobs.cancel job now
  | .resume _ => Jobs.resume job now
  | .retry _ => Jobs.retry job now
  | .overrideItem _ unresolved => Jobs.overrideItem job unresolved now
  | .progress _ report => Jobs.progress job report now
  | .execute _ _ | .finish _ _ => .keep

def storeError (e : Failure) : OperationError := { text := e.text }

def System.answer (s : System) (call : Call) (job : Job) (now : Time) : System × Option Answer :=
  match call.verdict now job with
  | .write job' =>
    match transact s.ledger (updateJob s.ledger job') with
    | (l, .ok _) => ({ s with ledger := l, lock := none }, some ⟨call, job'⟩)
    | (l, .error _) => ({ s with ledger := l, lock := none }, none)
  | .keep => ({ s with lock := none }, some ⟨call, job⟩)
  | .refuse _ => ({ s with lock := none }, none)

def Job.transferring (job : Job) (now : Time) : Job :=
  { job with phase := .transfer, updatedAt := now }

/-- The end of the locked section of `execute`; `invalid` is the failure of the guard or of
the validation of the mount. -/
def System.begin (s : System) (worker : Nat) (current : Job) (now : Time)
    (invalid : Option OperationError) : System :=
  let s := { s with lock := none }
  if current.state = .running then
    match invalid with
    | some e => s.setOwner worker (some ⟨current, .finishing (some e) 0⟩)
    | none =>
      let job := current.transferring now
      match transact s.ledger (updateJob s.ledger job) with
      | (l, .ok _) => { s with ledger := l }.setOwner worker (some ⟨job, .operating⟩)
      | (l, .error e) =>
        { s with ledger := l }.setOwner worker (some ⟨job, .finishing (some (storeError e)) 0⟩)
  else s.setOwner worker (some ⟨current, .finishing (some contextCanceled) 0⟩)

/-- The end of `finish`, after which the worker is done with the job. -/
def System.finish (s : System) (worker : Nat) (current : Job) (err : Option OperationError)
    (bytes : Int) (now : Time) : Option System :=
  match Jobs.finish s.stopping current err bytes now with
  | none => none
  | some (job, type) =>
    let l := (transact s.ledger (updateJobWithEvent s.ledger job
      (newJobEvent job type job.error now))).1
    some ({ s with lock := none, ledger := l }.setOwner worker none)

/- A call that cannot read or write the store ends; a worker goes on to `finish` or gives
the job up. -/
def System.giveUp (s : System) (call : Call) (err : OperationError) : System :=
  let s := { s with lock := none }
  match call with
  | .execute worker _ =>
    match s.owners worker with
    | some o => s.setOwner worker (some { o with stage := .finishing (some err) 0 })
    | none => s
  | .finish worker _ => s.setOwner worker none
  | _ => s

def System.next (signing : Signing κ) (s : System) : Event κ → Option (System × Option Answer)
  | .store op => if op.isFree then some ({ s with ledger := op.apply signing s.ledger }, none) else none
  | .claim worker id now =>
    if s.owners worker = none then
      match transact s.ledger (claimNextJob s.ledger now) with
      | (l, .ok job) =>
        if job.id = id then some ({ s with ledger := l }.setOwner worker (some ⟨job, .claimed⟩), none)
        else none
      | (_, .error _) => none
    else none
  | .claimSecured worker nodeID keys now =>
    if s.owners worker = none then
      match transact s.ledger (claimNextSecuredJob signing s.ledger nodeID keys now) with
      | (l, .ok (some job)) =>
        some ({ s with ledger := l }.setOwner worker (some ⟨job, .claimed⟩), none)
      | (l, _) => some ({ s with ledger := l }, none)
    else none
  | .createInline worker job key =>
    if s.owners worker = none ∧ job.state = .running then
      match transact s.ledger (createJobWithItemsHashed s.ledger job [] key "") with
      | (l, .ok (created, false)) =>
        some ({ s with ledger := l }.setOwner worker (some ⟨created, .inline⟩), none)
      | (l, _) => some ({ s with ledger := l }, none)
    else none
  | .enter call =>
    if s.lock = none ∧ s.mayEnter call = true then some ({ s with lock := some ⟨call, none⟩ }, none)
    else none
  | .load =>
    match s.lock with
    | some ⟨call, none⟩ =>
      match Bucket.jobs.get s.ledger.table call.id with
      | .ok job => some ({ s with lock := some ⟨call, some job⟩ }, none)
      | .error e => some (s.giveUp call (storeError e), none)
    | _ => none
  | .commit now invalid =>
    match s.lock with
    | some ⟨.execute worker _, some job⟩ => some (s.begin worker job now invalid, none)
    | some ⟨.finish worker _, some job⟩ =>
      match s.owners worker with
      | some ⟨_, .finishing err bytes⟩ => (s.finish worker job err bytes now).map (·, none)
      | _ => none
    | some ⟨call, some job⟩ => some (s.answer call job now)
    | _ => none
  | .fail err =>
    match s.lock with
    | some held => some (s.giveUp held.call err, none)
    | none => none
  | .rewrite worker job =>
    match s.owners worker with
    | some o =>
      if o.stage = .operating ∧ job.id = o.job.id ∧ job.state = o.job.state then
        some ({ s with ledger := (transact s.ledger (updateJob s.ledger job)).1 }, none)
      else none
    | none => none
  | .operated worker err bytes =>
    match s.owners worker with
    | some ⟨job, .operating⟩ => some (s.setOwner worker (some ⟨job, .finishing err bytes⟩), none)
    | _ => none
  | .complete worker bytes err now =>
    match s.owners worker with
    | some ⟨job, .inline⟩ =>
      let (job, type) := Jobs.complete job bytes err now
      some ({ s with ledger := (transact s.ledger (updateJobWithEvent s.ledger job
        (newJobEvent job type job.error now))).1 }.setOwner worker none, none)
    | _ => none
  | .shutdown => some ({ s with stopping := true }, none)
  | .restart now =>
    some (System.started (transact s.ledger (recoverRunningJobs s.ledger now)).1, none)

end System

end Jolt.Jobs
