import Jolt.Jobs.Service

/-! What the executors of local copies and of remote pulls decide about one item: the serial
loop of `executeCopy`, the scan and the workers of `executeParallelLocalCopy`, and those of
`ExecuteDirectoryPull`. The answers of the file service and of the peer are given. -/
namespace Jolt.Executors
open Jolt.Jobs

structure FileError extends OperationError where
  sourceChanged : Bool := false
  deriving DecidableEq

structure Source where
  size : Int
  modifiedAt : Time
  deriving DecidableEq

/-- What the operations on one item answer, those that are called for it. -/
structure Answers where
  replan : Except FileError (ItemAction × String × String)
  denied : Option String
  createDirectory : Option FileError
  metadata : Except FileError Source
  checksum : Except FileError String
  copied : Except FileError (Int × String)
  refreshed : Except FileError Source
  refreshedChecksum : Except FileError String

def finished (item : JobItem) : Bool := item.state == .completed || item.state == .skipped

structure Counters where
  bytes : Int := 0
  files : Int := 0
  failed : Int := 0
  warnings : Int := 0
  deriving DecidableEq

def Counters.warn (c : Counters) (item : JobItem) : Counters :=
  { c with
    warnings := c.warnings + 1
    failed := if item.type = .file then c.failed + 1 else c.failed }

inductive Visit where
  | pass
  /-- it is stored, and the counters are reported -/
  | settle (item : JobItem) (c : Counters)
  /-- it is stored, and nothing is reported -/
  | note (item : JobItem) (c : Counters)
  /-- it waits for a worker -/
  | enqueue (item : JobItem)
  /-- it is stored, and its bytes are copied -/
  | copy (item : JobItem)
  /-- the operation fails, after the item was stored if it is given -/
  | stop (stored : Option JobItem) (c : Counters) (err : FileError)

def waitingUserDecision : FileError :=
  { text := "job is waiting for a user decision", waitingUserDecision := true }

section Actions

variable (job : Job) (c : Counters)

/-- The actions that the serial loop and the scan of a pull carry out alike. -/
def actOn (item : JobItem) (created : Option FileError) (transfer : Visit) (unknown : String) :
    Visit :=
  match item.action with
  | .skip =>
    .settle { item with state := .skipped }
      (if item.type = .file then { c with files := c.files + 1 } else c)
  | .conflict =>
    if job.conflictPolicy = .ask then
      .stop (some { item with
        state := .waitingUserDecision, error := "destination conflict requires a decision" }) c
        waitingUserDecision
    else .settle { item with state := .failed, error := "destination conflict" } (c.warn item)
  | .fail =>
    .settle { item with state := .failed, error := "destination conflict rejected by user" }
      (c.warn item)
  | .merge => .settle { item with state := .completed } c
  | .create =>
    match created with
    | some err => .stop (some { item with state := .failed, error := err.text }) c err
    | none => .settle { item with state := .completed } c
  | .copy | .overwrite | .rename => transfer
  | .other text => .stop none c { text := unknown ++ " \"" ++ text ++ "\"" }

def again (item : JobItem) : JobItem := { item with attempt := item.attempt + 1, error := "" }

def attempted (item : JobItem) : JobItem := { again item with jobID := job.id }

def changed (current : Source) (item : JobItem) : Bool :=
  current.size != item.size || current.modifiedAt != item.modifiedAt

def refresh (item : JobItem) (current : Source) : JobItem :=
  { item with size := current.size, modifiedAt := current.modifiedAt }

def sourceChangedText : String := "source changed after the manifest was created"

def serialTransfer (item : JobItem) (a : Answers) : Visit :=
  match a.metadata with
  | .error err => .stop (some { item with state := .failed, error := err.text }) c err
  | .ok current =>
    if changed current item ∧ job.sourceChangePolicy ≠ .copyAnyway then
      let item := { item with error := sourceChangedText }
      if job.sourceChangePolicy = .retry then
        let item := { refresh item current with state := .pending }
        let retrying : FileError := { text := "source changed; retrying with refreshed metadata" }
        if job.verifyChecksum then
          match a.checksum with
          | .error err => .stop none c err
          | .ok checksum => .stop (some { item with checksum := checksum }) c retrying
        else .stop (some item) c retrying
      else
        .note { item with state := .failed }
          { c with warnings := c.warnings + 1, failed := c.failed + 1 }
    else
      let item := if changed current item then refresh item current else item
      if job.verifyChecksum ∧ item.checksum = "" then
        match a.checksum with
        | .error err => .stop none c err
        | .ok checksum => .copy { item with checksum := checksum, state := .running }
      else .copy { item with state := .running }

def serialVisit (item : JobItem) (a : Answers) : Visit :=
  let act (item : JobItem) :=
    actOn job c item a.createDirectory (serialTransfer job c item a)
      "invalid job request: unsupported plan action"
  if finished item then .pass
  else
    let item := attempted job item
    if item.state = .failed then
      match a.replan with
      | .error err => .stop none c err
      | .ok (action, destination, checksum) =>
        act { item with action := action, destinationPath := destination, checksum := checksum }
    else act item

def completed (item : JobItem) (written : Int) (checksum : String) : JobItem :=
  { item with
    state := .completed, bytesCompleted := written
    checksum := if job.verifyChecksum then checksum else item.checksum }

def serialCopied (item : JobItem) (a : Answers) : Visit :=
  match a.copied with
  | .ok (written, checksum) =>
    .settle (completed job item written checksum)
      { c with bytes := c.bytes + written, files := c.files + 1 }
  | .error err =>
    if err.sourceChanged ∧ job.sourceChangePolicy = .retry then
      match a.refreshed with
      | .error err => .stop none c err
      | .ok current =>
        match a.refreshedChecksum with
        | .error err => .stop none c err
        | .ok checksum =>
          .stop (some { refresh item current with
            state := .pending, checksum := checksum, error := err.text }) c err
    else if err.sourceChanged ∧ job.sourceChangePolicy = .fail then
      .note { item with state := .failed, error := err.text }
        { c with warnings := c.warnings + 1, failed := c.failed + 1 }
    else if err.canceled then .stop (some { item with state := .pending }) c err
    else .stop (some { item with state := .failed, error := err.text }) c err

def parallelLocalCopyEligible (items : List JobItem) : Bool :=
  items.all fun item =>
    if finished item then true
    else if item.state = .failed then false
    else if item.type = .directory then item.action == .create || item.action == .merge
    else item.action == .copy || item.action == .overwrite || item.action == .rename

/-- The scan of `executeParallelLocalCopy`: directories are made, files wait for a worker. -/
def localScan (item : JobItem) (a : Answers) : Visit :=
  if finished item then .pass
  else
    let item := attempted job item
    if item.type = .file then .enqueue item
    else
      match item.action, a.createDirectory with
      | .create, some err => .stop (some { item with state := .failed, error := err.text }) c err
      | _, _ => .note { item with state := .completed } c

def workerTransfer (item : JobItem) (a : Answers) : Visit :=
  match a.metadata with
  | .error err => .stop (some { item with state := .failed, error := err.text }) c err
  | .ok current =>
    if changed current item ∧ job.sourceChangePolicy ≠ .copyAnyway then
      let item := { item with error := sourceChangedText }
      if job.sourceChangePolicy = .retry then
        let item := { refresh item current with state := .pending }
        let sourceChanged : FileError :=
          { text := "source changed during copy", sourceChanged := true }
        if job.verifyChecksum then
          match a.checksum with
          -- the refreshed item is stored even if its checksum cannot be read
          | .error err => .stop (some { item with checksum := "" }) c err
          | .ok checksum => .stop (some { item with checksum := checksum }) c sourceChanged
        else .stop (some item) c sourceChanged
      else .note { item with state := .failed } { c with failed := c.failed + 1 }
    else
      let item := if changed current item then refresh item current else item
      if job.verifyChecksum ∧ item.checksum = "" then
        match a.checksum with
        | .error err => .stop none c err
        | .ok checksum => .copy { item with checksum := checksum, state := .running }
      else .copy { item with state := .running }

def workerCopied (item : JobItem) (a : Answers) : Visit :=
  match a.copied with
  | .ok (written, checksum) =>
    .settle (completed job item written checksum)
      { c with bytes := c.bytes + (written - item.bytesCompleted), files := c.files + 1 }
  | .error err =>
    if err.canceled then .stop (some { item with state := .pending, error := "" }) c err
    else .stop (some { item with state := .failed, error := err.text }) c err

/-- The scan of `ExecuteDirectoryPull`. -/
def remoteVisit (item : JobItem) (a : Answers) : Visit :=
  if finished item then .pass
  else
    let item := again item
    match a.denied with
    | some text => .note { item with state := .failed, error := text } (c.warn item)
    | none =>
      actOn job c item a.createDirectory (.enqueue item)
        "invalid transfer: unsupported remote plan action"

def remoteCopied (item : JobItem) (a : Answers) : Visit :=
  match a.copied with
  | .ok (written, _) =>
    .settle { item with state := .completed, bytesCompleted := written }
      { c with bytes := c.bytes + (written - item.bytesCompleted), files := c.files + 1 }
  | .error err =>
    if err.canceled then .stop (some { item with state := .pending, error := "" }) c err
    else
      .stop (some { item with state := .failed, error := err.text })
        { c with failed := c.failed + 1 } err

end Actions

def warning (text : String) : OperationError :=
  { text := "job completed with warnings: " ++ text, warnings := true }

def copyWarning (failed omitted : Int) : Option OperationError :=
  if 0 < failed ∧ 0 < omitted then
    some (warning (toString failed ++ " item(s) could not be copied; " ++ toString omitted ++
      " source entries were not accessible"))
  else if 0 < failed then some (warning (toString failed ++ " item(s) could not be copied"))
  else if 0 < omitted then
    some (warning (toString omitted ++ " source entries were not accessible"))
  else none

def pullWarning (warnings omitted : Int) : Option OperationError :=
  if 0 < omitted then copyWarning warnings omitted
  else if 0 < warnings then
    some (warning (toString warnings ++ " remote item(s) could not be copied"))
  else none

end Jolt.Executors
