import Jolt.Executors.Decisions

/-! The executors as a machine over the stored job and its items. A step is a decision together
with one write, or what a worker does while it holds the lock of the counters; workers, the
service's calls and a restart come in between in any order. -/
namespace Jolt.Executors
open Jolt.Jobs

inductive Mode where
  | serial | parallel | remote
  deriving DecidableEq

/-- How far the copy of a file has come: its bytes arrive, or a report about them is on its way
to the store, first the item and then the counters. -/
inductive Stage where
  | copying
  | storing (snapshot : Counters) (final : Bool)
  | reporting (snapshot : Counters) (final : Bool)
  deriving DecidableEq

inductive Closing where
  | open | finalizing | cleaning
  deriving DecidableEq

/-- An operation that runs. `memory` holds the items as the executor sees them, `next` is the
place of its loop and `stage` the files that are being copied. -/
structure Execution where
  mode : Mode
  job : Job
  memory : List JobItem
  next : Nat := 0
  owes : Bool := false
  queue : List Nat := []
  pendingFiles : Nat := 0
  stage : Nat → Option Stage := fun _ => none
  lock : Option Nat := none
  counters : Counters
  failure : Option OperationError := none
  closing : Closing := .open
  result : Option (Option OperationError) := none

structure System where
  job : Job
  items : List JobItem
  execution : Option Execution := none

section Counting

def total (f : JobItem → Int) (items : List JobItem) : Int := (items.map f).sum

def isFile (item : JobItem) : Int := if item.type = .file then 1 else 0

def fileBytes (item : JobItem) : Int := if item.type = .file then item.bytesCompleted else 0

def finishedFile (item : JobItem) : Int := if item.type = .file ∧ finished item then 1 else 0

/-- The bytes an executor counts for an item; the serial loop counts completed files only. -/
def Mode.weight (mode : Mode) (item : JobItem) : Int :=
  match mode with
  | .serial => if item.type = .file ∧ item.state = .completed then item.bytesCompleted else 0
  | _ => fileBytes item

end Counting

def Execution.start (mode : Mode) (job : Job) (items : List JobItem) : Execution where
  mode := mode
  job := job
  memory := items
  counters := { bytes := total mode.weight items, files := total finishedFile items }

def modeOf (job : Job) (items : List JobItem) : Mode :=
  match job.type with
  | .copyLocal =>
    if 1 < job.maxParallelFiles ∧ parallelLocalCopyEligible items then .parallel else .serial
  | _ => .remote

section Steps

def Execution.setStage (e : Execution) (i : Nat) (stage : Option Stage) : Execution :=
  { e with stage := fun j => if j = i then stage else e.stage j }

def Execution.busy (e : Execution) : Nat :=
  ((List.range e.memory.length).filter fun i => (e.stage i).isSome).length

def Execution.working (e : Execution) : Bool := e.result.isNone && e.closing == .open

def Execution.drained (e : Execution) : Bool :=
  e.working && !e.owes && e.next == e.memory.length && e.queue.isEmpty && e.busy == 0

def Execution.parallelism (e : Execution) : Int :=
  match e.mode with
  | .serial => 1
  | .parallel => min e.job.maxParallelFiles e.pendingFiles
  | .remote => min (if e.job.maxParallelFiles ≤ 0 then 1 else e.job.maxParallelFiles) e.pendingFiles

def Execution.visit (e : Execution) (item : JobItem) (a : Answers) : Visit :=
  match e.mode with
  | .serial => serialVisit e.job e.counters item a
  | .parallel => localScan e.job e.counters item a
  | .remote => remoteVisit e.job e.counters item a

def Execution.begins (e : Execution) (item : JobItem) (a : Answers) : Visit :=
  match e.mode with
  | .remote => .copy { item with state := .running }
  | _ => workerTransfer e.job e.counters item a

def Execution.copied (e : Execution) (item : JobItem) (a : Answers) : Visit :=
  match e.mode with
  | .serial => serialCopied e.job e.counters item a
  | .parallel => workerCopied e.job e.counters item a
  | .remote => remoteCopied e.counters item a

def Execution.fail (e : Execution) (err : OperationError) : Execution :=
  { e with failure := some (e.failure.getD err) }

def Execution.ends (e : Execution) (err : Option OperationError) : Execution :=
  { e with result := some err }

/-- The counters and the item after bytes have arrived, and what is reported of them. -/
def Execution.arrive (e : Execution) (i : Nat) (item : JobItem) (bytes : Int) : Execution :=
  let counters := match e.mode with
    | .serial => e.counters
    | _ => { e.counters with bytes := e.counters.bytes + (bytes - item.bytesCompleted) }
  let snapshot := match e.mode with
    | .serial => { e.counters with bytes := e.counters.bytes + bytes }
    | _ => counters
  let e : Execution := { e with
    memory := e.memory.set i { item with bytesCompleted := bytes }, counters := counters
    lock := if e.mode = .parallel then some i else e.lock }
  e.setStage i (some (.storing snapshot false))

/-- A job with the counters of a report; a job that is not running is left as it is. -/
def reported (job : Job) (bytesTotal : Int) (c : Counters) : Job :=
  if job.state = .running then
    { job with
      filesCompleted := c.files, filesFailed := c.failed, bytesCompleted := c.bytes
      bytesTotal := bytesTotal }
  else job

def System.keep (s : System) (e : Execution) : System := { s with execution := some e }

def System.store (s : System) (i : Nat) (item : JobItem) : System :=
  { s with items := s.items.set i item }

def System.visit (s : System) (e : Execution) (item : JobItem) (a : Answers) : System :=
  let i := e.next
  let e := { e with next := e.next + 1 }
  match e.visit item a with
  | .pass => s.keep e
  | .settle item c =>
    (s.store i item).keep { e with memory := e.memory.set i item, counters := c, owes := true }
  | .note item c => (s.store i item).keep { e with memory := e.memory.set i item, counters := c }
  | .enqueue item => s.keep { e with
      memory := e.memory.set i item, queue := e.queue ++ [i], pendingFiles := e.pendingFiles + 1 }
  | .copy item =>
    (s.store i item).keep ({ e with memory := e.memory.set i item }.setStage i (some .copying))
  | .stop (some item) c err =>
    (s.store i item).keep ({ e with memory := e.memory.set i item, counters := c }.ends
      (some err.toOperationError))
  | .stop none c err => s.keep ({ e with counters := c }.ends (some err.toOperationError))

def System.take (s : System) (e : Execution) (i : Nat) (queue : List Nat) (item : JobItem)
    (a : Answers) : System :=
  let e := { e with queue := queue }
  match e.begins item a with
  | .copy item =>
    (s.store i item).keep ({ e with memory := e.memory.set i item }.setStage i (some .copying))
  | .note item c | .settle item c =>
    (s.store i item).keep { e with memory := e.memory.set i item, counters := c }
  | .stop (some item) c err =>
    (s.store i item).keep ({ e with memory := e.memory.set i item, counters := c }.fail
      err.toOperationError)
  | .stop none c err => s.keep ({ e with counters := c }.fail err.toOperationError)
  | .pass | .enqueue _ => s.keep e

def System.copied (s : System) (e : Execution) (i : Nat) (item : JobItem) (a : Answers) : System :=
  let stop (e : Execution) (err : FileError) :=
    if e.mode = .serial then e.ends (some err.toOperationError) else e.fail err.toOperationError
  match e.copied item a with
  | .settle item c =>
    let e : Execution := { e with
      memory := e.memory.set i item, counters := c
      lock := if e.mode = .parallel then some i else e.lock }
    s.keep (e.setStage i (some (.storing c true)))
  | .note item c =>
    (s.store i item).keep ({ e with memory := e.memory.set i item, counters := c }.setStage i none)
  | .stop (some item) c err =>
    (s.store i item).keep
      (stop ({ e with memory := e.memory.set i item, counters := c }.setStage i none) err)
  | .stop none c err => s.keep (stop ({ e with counters := c }.setStage i none) err)
  | .pass | .enqueue _ | .copy _ => s.keep e

def System.persist (s : System) (e : Execution) (i : Nat) (snapshot : Counters) (final : Bool) :
    System :=
  let e := { e with lock := if e.lock = some i then none else e.lock }.setStage i
    (if final then none else some .copying)
  -- a pull learns that its job is no longer running
  let e := if e.mode = .remote ∧ s.job.state ≠ .running ∧ final then e.fail contextCanceled else e
  { s with job := reported s.job e.job.bytesTotal snapshot, execution := some e }

/-- What the operation returns once everything is done; none if a move is to be finished. -/
def Execution.outcome (e : Execution) : Option (Option OperationError) :=
  match e.mode with
  | .serial => some (copyWarning e.counters.warnings e.job.sourcesOmitted)
  | .parallel =>
    if e.pendingFiles = 0 then some none
    else
      match e.failure with
      | some err => some (some err)
      | none => some (copyWarning e.counters.failed e.job.sourcesOmitted)
  | .remote =>
    match e.failure with
    | some err => some (some err)
    | none =>
      match pullWarning e.counters.warnings e.job.sourcesOmitted with
      | some err => some (some err)
      | none => if e.job.type = .transferMoveBatch then none else some none

def System.close (s : System) (e : Execution) : System :=
  let s := if e.mode = .serial then
      { s with job := reported s.job e.job.bytesTotal e.counters }
    else s
  match e.outcome with
  | some err => s.keep (e.ends err)
  | none => s.keep { e with closing := .finalizing }

end Steps

section Service

/-- The calls that change a job without touching its items or its counters. -/
inductive Control where
  | pause | cancel | resume | retry | wake | claim
  deriving DecidableEq

def Verdict.job : Verdict → Option Job
  | .write job => some job
  | _ => none

def Control.apply (job : Job) (now : Time) : Control → Option Job
  | .pause => Verdict.job (Jobs.pause job now)
  | .cancel => Verdict.job (Jobs.cancel job now)
  | .resume => Verdict.job (Jobs.resume job now)
  | .retry => Verdict.job (Jobs.retry job now)
  | .wake =>
    if job.state = .waitingPeer ∨ job.state = .waitingMount then some (job.wake now) else none
  | .claim => if job.state = .queued ∧ job.due now then some (job.start now) else none

/-- The items that OverrideItem changes, from the decision about one conflict; a file that is
renamed takes a name that is free. -/
def overridden (ordinal : Int) (following : Bool) (item : JobItem) : Bool :=
  item.action == .conflict &&
    (item.ordinal == ordinal || following && decide (ordinal < item.ordinal))

def overrideItems (ordinal : Int) (following : Bool) (action : ItemAction) (free : String → String)
    (items : List JobItem) : List JobItem :=
  items.map fun item =>
    if overridden ordinal following item then
      { item with
        action := action, state := .pending, error := ""
        destinationPath := if action = .rename then free item.destinationPath
          else item.destinationPath }
    else item

def overridable (ordinal : Int) (following : Bool) (action : ItemAction) (items : List JobItem) :
    Bool :=
  (action == .skip || action == .overwrite || action == .rename || action == .fail) &&
    items.any (fun item => item.ordinal == ordinal) &&
    items.all fun item =>
      (item.ordinal != ordinal || item.action == .conflict) &&
        (!overridden ordinal following item || item.type == .file ||
          action == .skip || action == .fail)

def fits (type : ItemType) (action : ItemAction) : Bool :=
  match action with
  | .create | .merge => type != .file
  | .copy | .overwrite | .rename => type == .file
  | _ => true

def planned (item : JobItem) : Bool :=
  item.state == .pending && item.bytesCompleted == 0 && fits item.type item.action

inductive Event where
  | control (call : Control) (now : Time)
  | override (ordinal : Int) (following : Bool) (action : ItemAction) (free : String → String)
      (now : Time)
  | restart (now : Time)
  | plan (items : List JobItem) (bytesTotal filesTotal omitted : Int)
  /-- the node stops between the two writes of the planning -/
  | planLost (items : List JobItem) (now : Time)
  | begin
  | visit (a : Answers)
  | report
  | interrupt (err : OperationError)
  | take (a : Answers)
  | arrive (i : Nat) (bytes : Int)
  | copied (i : Nat) (a : Answers)
  | store (i : Nat)
  | persist (i : Nat)
  | close
  | finalize (err : Option OperationError)
  | cleaned (err : Option OperationError)
  | finish (mountLost : Bool) (stopping : Bool) (now : Time)

def interrupted (job : Job) (now : Time) : Job :=
  match job.state with
  | .running | .pauseRequested | .cancelRequested | .queued | .waitingPeer | .waitingMount =>
    job.recover now
  | _ => job

def plannable (s : System) (items : List JobItem) : Bool :=
  s.execution.isNone && s.job.state == .running && s.job.type == .copyLocal && s.items.isEmpty &&
    items.all planned

def Answers.proper (a : Answers) (item : JobItem) : Bool :=
  match a.replan with
  | .ok (action, _, _) => item.state != .failed || fits item.type action
  | .error _ => true

def Visit.isNote : Visit → Bool
  | .note _ _ => true
  | _ => false

def System.visits (s : System) (e : Execution) (a : Answers) : Option System :=
  match e.memory[e.next]? with
  | none => none
  | some item =>
    if e.working && !e.owes && a.proper item && (e.mode != .serial || e.busy == 0) then
      some (s.visit e item a)
    else none

def System.takes (s : System) (e : Execution) (a : Answers) : Option System :=
  match e.queue with
  | [] => none
  | i :: queue =>
    match e.memory[i]? with
    | none => none
    | some item =>
      if e.working && !e.owes && e.next == e.memory.length && e.mode != .serial &&
          decide ((e.busy : Int) < e.parallelism) &&
          !(e.mode == .parallel && e.lock.isSome && (e.begins item a).isNote) then
        some (s.take e i queue item a)
      else none

def Execution.free (e : Execution) : Bool := e.mode != .parallel || e.lock.isNone

def System.arrives (s : System) (e : Execution) (i : Nat) (bytes : Int) : Option System :=
  match e.stage i, e.memory[i]? with
  | some .copying, some item =>
    if e.working && e.free then some (s.keep (e.arrive i item bytes)) else none
  | _, _ => none

def System.copies (s : System) (e : Execution) (i : Nat) (a : Answers) : Option System :=
  match e.stage i, e.memory[i]? with
  | some .copying, some item =>
    if e.working && (e.free || (a.copied matches .error _)) then some (s.copied e i item a)
    else none
  | _, _ => none

def System.stores (s : System) (e : Execution) (i : Nat) : Option System :=
  match e.stage i, e.memory[i]? with
  | some (.storing snapshot final), some item =>
    if e.working then
      some ((s.store i item).keep (e.setStage i (some (.reporting snapshot final))))
    else none
  | _, _ => none

def System.persists (s : System) (e : Execution) (i : Nat) : Option System :=
  match e.stage i with
  | some (.reporting snapshot final) =>
    if e.working then some (s.persist e i snapshot final) else none
  | _ => none

/-- The main loop reports its counters; a pull learns that its job is no longer running. -/
def System.reports (s : System) (e : Execution) : Option System :=
  if e.working && e.owes then
    let s := { s with job := reported s.job e.job.bytesTotal e.counters }
    let e := { e with owes := false }
    some (s.keep (if e.mode = .remote ∧ s.job.state ≠ .running then e.ends (some contextCanceled)
      else e))
  else none

/-- The end of a move: the job is written as it was when the operation began. -/
def System.finalizes (s : System) (e : Execution) (err : Option OperationError) : Option System :=
  if e.closing = .finalizing ∧ e.result = none then
    match err with
    | some err => some (s.keep (e.ends (some err)))
    | none => some { s with
        job := { e.job with phase := .other "finalizing" }
        execution := some { e with closing := .cleaning } }
  else none

def mountLostError (err : OperationError) : OperationError :=
  { text := "job is waiting for its mount: mount became unavailable: " ++ err.text
    waitingMount := true }

def System.finishes (s : System) (e : Execution) (mountLost stopping : Bool) (now : Time) :
    Option System :=
  match e.result with
  | none => none
  | some err =>
    let err := if mountLost then err.map mountLostError else err
    (Jobs.finish stopping s.job err e.counters.bytes now).map fun (job, _) =>
      { s with job := job, execution := none }

def System.next (s : System) : Event → Option System
  | .control call now => (call.apply s.job now).map fun job => { s with job := job }
  | .override ordinal following action free now =>
    if s.execution.isNone && overridable ordinal following action s.items then
      let items := overrideItems ordinal following action free s.items
      (Verdict.job (overrideItem s.job (items.any (·.action == .conflict)) now)).map fun job =>
        { s with job := job, items := items }
    else none
  | .restart now => some { s with job := interrupted s.job now, execution := none }
  | .plan items bytesTotal filesTotal omitted =>
    if plannable s items then
      some { s with
        items := items
        job := { s.job with
          bytesTotal := bytesTotal, filesTotal := filesTotal, sourcesOmitted := omitted
          phase := .transfer } }
    else none
  | .planLost items now =>
    if plannable s items then some { s with items := items, job := interrupted s.job now } else none
  | .begin =>
    if s.execution.isNone && s.job.state == .running &&
        (s.job.type != .copyLocal || !s.items.isEmpty) then
      some (s.keep (.start (modeOf s.job s.items) s.job s.items))
    else none
  | .visit a => s.execution.bind fun e => s.visits e a
  | .report => s.execution.bind fun e => s.reports e
  | .interrupt err => s.execution.bind fun e =>
      if e.working && !e.owes && (e.next == 0 || decide (e.next < e.memory.length)) &&
          (e.mode != .serial || e.busy == 0) then
        some (s.keep (e.ends (some err)))
      else none
  | .take a => s.execution.bind fun e => s.takes e a
  | .arrive i bytes => s.execution.bind fun e => s.arrives e i bytes
  | .copied i a => s.execution.bind fun e => s.copies e i a
  | .store i => s.execution.bind fun e => s.stores e i
  | .persist i => s.execution.bind fun e => s.persists e i
  | .close => s.execution.bind fun e => if e.drained then some (s.close e) else none
  | .finalize err => s.execution.bind fun e => s.finalizes e err
  | .cleaned err => s.execution.bind fun e =>
      if e.closing = .cleaning ∧ e.result = none then some (s.keep (e.ends err)) else none
  | .finish mountLost stopping now => s.execution.bind fun e => s.finishes e mountLost stopping now

end Service

end Jolt.Executors
