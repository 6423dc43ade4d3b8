import Jolt.Jobs.Service

/-! A batch of files moved from another node: how its items are planned, how an attempt
carries them out against a destination tree that others may change at any time, and how
the sources are deleted in the end. The bytes of the source do not change; what the
program reads of them is their checksum. -/
namespace Jolt.Transfers
open Jolt.Base Jolt.Jobs

abbrev Bytes := List UInt8

inductive Entry where
  | directory
  | file (bytes : Bytes)
  deriving DecidableEq

/-- What stands at each path below the destination mount. -/
abbrev Tree := String → Option Entry

def Tree.put (t : Tree) (path : String) (entry : Entry) : Tree :=
  fun p => if p = path then some entry else t p

/-- The source node: the bytes of its files and the checksum both nodes use. -/
structure Remote where
  sha256 : Bytes → String
  content : String → Bytes

section Paths

def cleanRelative (value : String) : String :=
  let slashed := value.toList.map (fun c => if c = '\\' then '/' else c)
  let trimmed := ((slashed.dropWhile isSpace).reverse.dropWhile isSpace).reverse
  let cleaned := clean pathLetters (trimmed.dropWhile (· = '/'))
  if cleaned = [] ∨ cleaned = ['/'] then "." else String.ofList cleaned

def extension (path : List Char) : List Char :=
  let last := path.reverse.takeWhile (· ≠ '/')
  if '.' ∈ last then '.' :: (last.takeWhile (· ≠ '.')).reverse else []

/-- The first free name "base (n).ext"; `permitted` is the grant and the hidden names. -/
def uniqueDestination (permitted : String → Bool) (t : Tree) (destination : String) :
    Option String :=
  let suffix := extension destination.toList
  let base := destination.toList.take (destination.toList.length - suffix.length)
  ((List.range 10000).map fun n => String.ofList base ++ " (" ++ toString (n + 1) ++ ")" ++
    String.ofList suffix).find? (fun candidate => permitted candidate && (t candidate).isNone)

end Paths

section Planning

variable (remote : Remote)

/-- What a manifest of the source says of one entry, as the item it becomes. -/
def manifestItem (item : JobItem) : JobItem :=
  { item with checksum := remote.sha256 (remote.content item.sourcePath), state := .pending }

def planRemoteAction (permitted : String → Bool) (t : Tree) (item : JobItem)
    (policy : ConflictPolicy) : Except String (ItemAction × String) :=
  match t item.destinationPath with
  | none => .ok (if item.type = .directory then .create else .copy, item.destinationPath)
  | some .directory =>
    .ok (if item.type = .directory then .merge else .conflict, item.destinationPath)
  | some (.file bytes) =>
    if item.type = .directory then .ok (.conflict, item.destinationPath)
    else match policy with
      | .skip => .ok (.skip, item.destinationPath)
      | .overwrite => .ok (.overwrite, item.destinationPath)
      | .rename =>
        match uniqueDestination permitted t item.destinationPath with
        | some destination => .ok (.rename, destination)
        | none => .error "no conflict-free destination name is available"
      | .checksum =>
        if item.checksum = "" then .error "checksum policy requires remote checksums"
        else if remote.sha256 bytes = item.checksum then .ok (.skip, item.destinationPath)
        else .ok (.overwrite, item.destinationPath)
      | _ => .ok (.conflict, item.destinationPath)

/-- One turn of the loop of `planBatchRoot`; `blocked` says that a directory above the
entry is in conflict. -/
def planItem (permitted : String → Bool) (t : Tree) (policy : ConflictPolicy) (blocked : Bool)
    (item : JobItem) : Except String JobItem :=
  let item := manifestItem remote item
  if blocked then .ok { item with action := .conflict }
  else match planRemoteAction remote permitted t item policy with
    | .ok (action, destination) =>
      .ok { item with action := action, destinationPath := destination }
    | .error text => .error text

end Planning

section Pulling

inductive Pull where
  | queued
  | started
  | admitted
  | opened (expected : String)
  | receiving (expected : String)
  | received (bytes : Bytes)
  | returned (result : Except OperationError Int)

inductive PullInput where
  | proceed
  | receive (bytes : Bytes)
  | fail (err : OperationError)

def destinationConflict : OperationError := { text := "destination already exists" }

def sourceChanged : OperationError := { text := "source changed during copy" }

variable (remote : Remote) (job : Job)

def verifies : Bool := job.verifyChecksum || job.conflictPolicy == .checksum

/- The answer to the request for the metadata, and under the checksum policy the look at
a file that already stands at the destination. -/
def openPull (t : Tree) (item : JobItem) : Pull :=
  let expected := remote.sha256 (remote.content item.sourcePath)
  if verifies job = false then .opened ""
  else if expected = "" then .returned (.error sourceChanged)
  else if job.conflictPolicy = .checksum then
    match t item.destinationPath with
    | none => .opened expected
    | some .directory => .returned (.error { text := "invalid request: path is not a file" })
    | some (.file bytes) =>
      if remote.sha256 bytes = expected then .returned (.ok 0) else .opened expected
  else .opened expected

/- The end of the receiver: the partial file takes the place of the destination. -/
def publish (t : Tree) (item : JobItem) (bytes : Bytes) : Pull × Tree :=
  let conflict : Bool :=
    if item.action = .overwrite then t item.destinationPath == some .directory
    else (t item.destinationPath).isSome
  if conflict then (.returned (.error destinationConflict), t)
  else (.returned (.ok bytes.length), t.put item.destinationPath (.file bytes))

/-- One step of `executePullFile`, from one look at the tree to the next. -/
def executePullFile (t : Tree) (item : JobItem) : Pull → PullInput → Option (Pull × Tree)
  | .started, .proceed =>
    if job.conflictPolicy = .skip ∧ (t item.destinationPath).isSome then some (.returned (.ok 0), t)
    else some (.admitted, t)
  | .admitted, .proceed => some (openPull remote job t item, t)
  | .opened expected, .proceed =>
    if item.action ≠ .overwrite ∧ (t item.destinationPath).isSome then
      some (.returned (.error destinationConflict), t)
    else some (.receiving expected, t)
  | .receiving expected, .receive bytes =>
    if expected ≠ "" ∧ remote.sha256 bytes ≠ expected then
      some (.returned (.error sourceChanged), t)
    else some (.received bytes, t)
  | .received bytes, .proceed => some (publish t item bytes)
  | .queued, _ | .returned _, _ => none
  | _, .fail err => some (.returned (.error err), t)
  | _, _ => none

end Pulling

section Attempts

structure Puller where
  item : JobItem
  pull : Pull

/-- One attempt of `ExecuteDirectoryPull`: the items it has yet to look at, the files it
pulls, and in the end the sources it has yet to delete. -/
structure Attempt where
  todo : List JobItem
  pullers : List Puller
  warnings : Nat
  failed : Bool
  cleaning : Option (List JobItem)

/-- The job with its stored items, the tree, and the attempt that is under way. -/
structure MoveRun where
  job : Job
  items : List JobItem
  tree : Tree
  attempt : Option Attempt

inductive MoveEvent where
  | change (tree : Tree)
  | overrideItem (ordinal : Int) (action : ItemAction) (destination : String)
  | begin
  | scan (denied : Option String) (created : Bool) (now : Time)
  | pick (ordinal : Int)
  | pull (ordinal : Int) (input : PullInput)
  | record (ordinal : Int) (lost : Bool) (now : Time)
  | finalize
  | delete (err : Option String) (now : Time)
  | stop

def isFinished (item : JobItem) : Bool := item.state == .completed || item.state == .skipped

/-- `UpdateJobItem` -/
def storeItem (items : List JobItem) (item : JobItem) : List JobItem :=
  items.map (fun i => if i.ordinal = item.ordinal then item else i)

inductive Scanned where
  | stored (item : JobItem) (warning : Bool) (tree : Tree)
  | queued (item : JobItem)
  | ended (item : JobItem)
  | unsupported

def JobItem.fail (item : JobItem) (text : String) : JobItem :=
  { item with state := .failed, error := text }

def takeUp (item : JobItem) (now : Time) : JobItem :=
  { item with attempt := item.attempt + 1, error := "", updatedAt := now }

/- `denied` is why the current policy no longer permits the item; `created` says that the
directory could be made. -/
def scanItem (job : Job) (t : Tree) (item : JobItem) (denied : Option String) (created : Bool)
    (now : Time) : Scanned :=
  let item := takeUp item now
  match denied with
  | some text => .stored (JobItem.fail item text) true t
  | none => match item.action with
    | .skip => .stored { item with state := .skipped } false t
    | .conflict =>
      if job.conflictPolicy = .ask then .ended { item with
        state := .waitingUserDecision, error := "destination conflict requires a decision" }
      else .stored (JobItem.fail item "destination conflict") true t
    | .fail => .stored (JobItem.fail item "destination conflict rejected by user") true t
    | .merge => .stored { item with state := .completed } false t
    | .create =>
      if created ∧ t item.destinationPath = none then
        .stored { item with state := .completed } false (t.put item.destinationPath .directory)
      else .ended (JobItem.fail item "the directory cannot be created")
    | .copy | .overwrite | .rename => .queued item
    | .other _ => .unsupported

def removedBefore (a b : JobItem) : Prop :=
  if a.type ≠ b.type then a.type = .file
  else b.sourcePath.toList.count '/' ≤ a.sourcePath.toList.count '/'

instance (a b : JobItem) : Decidable (removedBefore a b) := by
  unfold removedBefore
  infer_instance

def hasRoot (items : List JobItem) (item : JobItem) : Bool :=
  items.any fun candidate => candidate.sourceRoot &&
    (let base := cleanRelative candidate.sourcePath
     let child := cleanRelative item.sourcePath
     base == "." || child == base || (base ++ "/").toList.isPrefixOf child.toList)

/-- The checks before the first source is deleted, and the order of the deletions. -/
def cleanupList (job : Job) (items : List JobItem) : Option (List JobItem) :=
  if items.any (fun item => item.action == .skip && job.conflictPolicy != .checksum) then none
  else if items.any (·.sourceRoot) = false then none
  else some ((items.filter (fun item => item.sourceCleanupState != .completed)).insertionSort
    removedBefore)

def Attempt.over (items : List JobItem) : Attempt :=
  ⟨items.filter (fun item => !isFinished item), [], 0, false, none⟩

def Attempt.find (a : Attempt) (ordinal : Int) : Option Puller :=
  a.pullers.find? (fun p => p.item.ordinal == ordinal)

def Attempt.others (a : Attempt) (ordinal : Int) : List Puller :=
  a.pullers.filter (fun p => p.item.ordinal != ordinal)

def Attempt.advance (a : Attempt) (p : Puller) : Attempt :=
  { a with pullers := p :: a.others p.item.ordinal }

def picked (item : JobItem) : JobItem := { item with state := .running }

def Puller.outcome (p : Puller) (result : Except OperationError Int) (now : Time) : JobItem :=
  match result with
  | .ok written => { p.item with state := .completed, bytesCompleted := written, updatedAt := now }
  | .error err =>
    if err.canceled then { p.item with state := .pending, error := "", updatedAt := now }
    else { p.item with state := .failed, error := err.text, updatedAt := now }

def cleaned (item : JobItem) (err : Option String) (now : Time) : JobItem :=
  { item with
    sourceCleanupState := if err = none then .completed else .other "failed"
    error := err.getD "", updatedAt := now }

/- OverrideItem for one item: directories can only be skipped or failed, and a new name
must be free. -/
def mayOverride (items : List JobItem) (t : Tree) (ordinal : Int) (action : ItemAction)
    (destination : String) : Bool :=
  match action with
  | .skip | .fail => true
  | .overwrite => items.all (fun item => item.ordinal != ordinal || item.type == .file)
  | .rename => items.all (fun item => item.ordinal != ordinal || item.type == .file) &&
      (t destination).isNone
  | _ => false

def overridden (items : List JobItem) (ordinal : Int) (action : ItemAction) (destination : String) :
    List JobItem :=
  items.map fun item =>
    if item.ordinal = ordinal ∧ item.action = .conflict then
      { item with
        action := action, state := .pending, error := ""
        destinationPath := if action = .rename then destination else item.destinationPath }
    else item

def batchVerifies (type : JobType) (policy : ConflictPolicy) (requested : Bool) : Bool :=
  requested || policy == .checksum || type == .transferMoveBatch

variable (remote : Remote)

/-- A move as it is created: its items have been planned for the tree. -/
structure MovePlan where
  job : Job
  items : List JobItem
  tree : Tree
  isMove : job.type = .transferMoveBatch
  verified : ∃ requested, job.verifyChecksum = batchVerifies job.type job.conflictPolicy requested
  numbered : (items.map JobItem.ordinal).Nodup
  planned : ∀ item ∈ items, ∃ permitted blocked entry,
    planItem remote permitted tree job.conflictPolicy blocked entry = .ok item

def MovePlan.start (plan : MovePlan remote) : MoveRun := ⟨plan.job, plan.items, plan.tree, none⟩

/-- One step of the run; the answer is the item whose source the other node is asked to
delete. -/
def MoveRun.next (s : MoveRun) : MoveEvent → Option (MoveRun × Option JobItem)
  | .change tree => some ({ s with tree := tree }, none)
  | .overrideItem ordinal action destination =>
    -- a job waits for a decision under the ask policy only
    if s.attempt.isNone ∧ s.job.conflictPolicy = .ask ∧ mayOverride s.items s.tree ordinal action
        destination then
      some ({ s with items := overridden s.items ordinal action destination }, none)
    else none
  | .begin =>
    match s.attempt with
    | some _ => none
    | none => some ({ s with attempt := some (.over s.items) }, none)
  | .scan denied created now =>
    match s.attempt with
    | some a =>
      match a.todo with
      | [] => none
      | item :: rest =>
        match scanItem s.job s.tree item denied created now with
        | .stored item warning tree =>
          some ({ s with
            items := storeItem s.items item, tree := tree
            attempt := some { a with
              todo := rest, warnings := if warning then a.warnings + 1 else a.warnings } }, none)
        | .queued item =>
          some ({ s with attempt := some { a with todo := rest, pullers := ⟨item, .queued⟩ :: a.pullers } },
            none)
        | .ended item => some ({ s with items := storeItem s.items item, attempt := none }, none)
        | .unsupported => some ({ s with attempt := none }, none)
    | none => none
  | .pick ordinal =>
    match s.attempt with
    | some a =>
      match a.todo, a.find ordinal with
      | [], some ⟨item, .queued⟩ =>
        some ({ s with
          items := storeItem s.items (picked item)
          attempt := some (a.advance ⟨picked item, .started⟩) }, none)
      | _, _ => none
    | none => none
  | .pull ordinal input =>
    match s.attempt with
    | some a =>
      match a.find ordinal with
      | some p =>
        match executePullFile remote s.job s.tree p.item p.pull input with
        | some (pull, tree) =>
          some ({ s with tree := tree, attempt := some (a.advance ⟨p.item, pull⟩) }, none)
        | none => none
      | none => none
    | none => none
  | .record ordinal lost now =>
    match s.attempt with
    | some a =>
      match a.find ordinal with
      | some ⟨item, .returned result⟩ =>
        let pullers := a.others ordinal
        if lost then some ({ s with attempt := some { a with pullers := pullers, failed := true } }, none)
        else
          let item := Puller.outcome ⟨item, .returned result⟩ result now
          some ({ s with
            items := storeItem s.items item
            attempt := some { a with pullers := pullers, failed := a.failed || !result.isOk } }, none)
      | _ => none
    | none => none
  | .finalize =>
    match s.attempt with
    | some a =>
      if a.todo = [] ∧ a.pullers.isEmpty ∧ a.failed = false ∧ a.warnings = 0 ∧
          s.job.sourcesOmitted ≤ 0 ∧ a.cleaning = none then
        match if s.job.type = .transferMoveBatch then cleanupList s.job s.items else none with
        | some list => some ({ s with attempt := some { a with cleaning := some list } }, none)
        | none => some ({ s with attempt := none }, none)
      else none
    | none => none
  | .delete err now =>
    match s.attempt with
    | some a =>
      match a.cleaning with
      | some (item :: rest) =>
        if hasRoot s.items item then
          some ({ s with
            items := storeItem s.items (cleaned item err now)
            attempt := if err = none then some { a with cleaning := some rest } else none }, some item)
        else none
      | _ => none
    | none => none
  | .stop => some ({ s with attempt := none }, none)

end Attempts

end Jolt.Transfers
