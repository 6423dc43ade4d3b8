import Mathlib

/-! The records of the job store: jobs with their items and events, destructive
plans, and the signed authorization of a job. Texts that the program compares with
fixed words are enumerations; a word none of its branches knows is kept as `other`. -/
namespace Jolt.Jobs

/-- Nanoseconds since the zero time, the first of January of year one (UTC). -/
abbrev Time := Int

/-- A number printed with `%0`, a width and `d`. -/
def zeroPad (width : Nat) (n : Int) : String :=
  let digits := toString n.natAbs
  if n < 0 then "-" ++ String.ofList (List.replicate (width - 1 - digits.length) '0') ++ digits
  else String.ofList (List.replicate (width - digits.length) '0') ++ digits

namespace Time

def second : Time := 10 ^ 9

def minute : Time := 60 * second

def isZero (t : Time) : Bool := t == 0

/- 1970 begins 62135596800 seconds after the zero time. -/
def unix (t : Time) : Int := t / second - 62135596800

def ofUnix (seconds : Int) : Time := (seconds + 62135596800) * second

/- Years are counted from March so that the leap day comes last; 306 days lie between
the first of March of year zero and the zero time. -/
def civil (days : Int) : Int × Int × Int :=
  let z := days + 306
  let era := z / 146097
  let doe := z % 146097
  let yoe := (doe - doe / 1460 + doe / 36524 - doe / 146096) / 365
  let doy := doe - (365 * yoe + yoe / 4 - yoe / 100)
  let mp := (5 * doy + 2) / 153
  let day := doy - (153 * mp + 2) / 5 + 1
  let month := if mp < 10 then mp + 3 else mp - 9
  (yoe + era * 400 + (if month ≤ 2 then 1 else 0), month, day)

/-- `order`: the UTC time as 2006-01-02T15:04:05.000000000Z. -/
def order (t : Time) : String :=
  let (year, month, day) := civil (t / (86400 * second))
  let clock := t % (86400 * second)
  let date := zeroPad 4 year ++ "-" ++ zeroPad 2 month ++ "-" ++ zeroPad 2 day
  date ++ "T" ++ zeroPad 2 (clock / (3600 * second)) ++ ":" ++ zeroPad 2 (clock / minute % 60) ++
    ":" ++ zeroPad 2 (clock / second % 60) ++ "." ++ zeroPad 9 (clock % second) ++ "Z"

end Time

def jobStateTexts : List String :=
  ["queued", "running", "pause_requested", "paused", "cancel_requested", "canceled", "interrupted",
    "waiting_peer", "waiting_mount", "waiting_validation", "waiting_user_decision", "completed",
    "completed_with_warnings", "failed"]

inductive JobState where
  | queued | running | pauseRequested | paused | cancelRequested | canceled | interrupted
  | waitingPeer | waitingMount | waitingValidation | waitingUserDecision
  | completed | completedWithWarnings | failed
  | other (text : String) (unknown : text ∉ jobStateTexts)
  deriving DecidableEq

def JobState.text : JobState → String
  | .queued => "queued"
  | .running => "running"
  | .pauseRequested => "pause_requested"
  | .paused => "paused"
  | .cancelRequested => "cancel_requested"
  | .canceled => "canceled"
  | .interrupted => "interrupted"
  | .waitingPeer => "waiting_peer"
  | .waitingMount => "waiting_mount"
  | .waitingValidation => "waiting_validation"
  | .waitingUserDecision => "waiting_user_decision"
  | .completed => "completed"
  | .completedWithWarnings => "completed_with_warnings"
  | .failed => "failed"
  | .other text _ => text

def jobTypeTexts : List String :=
  ["mkdir", "copy_local", "move_local", "delete", "upload", "transfer_pull",
    "transfer_pull_directory", "transfer_pull_batch", "transfer_move_batch"]

inductive JobType where
  | mkdir | copyLocal | moveLocal | delete | upload
  | transferPull | transferPullDirectory | transferPullBatch | transferMoveBatch
  | other (text : String) (unknown : text ∉ jobTypeTexts)
  deriving DecidableEq

def JobType.text : JobType → String
  | .mkdir => "mkdir"
  | .copyLocal => "copy_local"
  | .moveLocal => "move_local"
  | .delete => "delete"
  | .upload => "upload"
  | .transferPull => "transfer_pull"
  | .transferPullDirectory => "transfer_pull_directory"
  | .transferPullBatch => "transfer_pull_batch"
  | .transferMoveBatch => "transfer_move_batch"
  | .other text _ => text

def knownStates : List JobState :=
  [.queued, .running, .pauseRequested, .paused, .cancelRequested, .canceled, .interrupted,
    .waitingPeer, .waitingMount, .waitingValidation, .waitingUserDecision, .completed,
    .completedWithWarnings, .failed]

theorem knownStates_texts : knownStates.map JobState.text = jobStateTexts := rfl

theorem JobState.text_injective {a b : JobState} (same : a.text = b.text) : a = b := by
  have known : ∀ s : JobState, s ∈ knownStates ∨ ∃ t h, s = .other t h := by
    intro s
    cases s with
    | other t h => exact .inr ⟨t, h, rfl⟩
    | _ => exact .inl (by decide)
  have apart : ∀ a ∈ knownStates, ∀ b ∈ knownStates, a.text = b.text → a = b := by decide
  have listed : ∀ s ∈ knownStates, s.text ∈ jobStateTexts :=
    fun s hs => knownStates_texts ▸ List.mem_map_of_mem hs
  rcases known a with ha | ⟨t, h, rfl⟩
  · rcases known b with hb | ⟨t, h, rfl⟩
    · exact apart a ha b hb same
    · have text : a.text = t := same
      exact absurd (text ▸ listed a ha) h
  · rcases known b with hb | ⟨t', h', rfl⟩
    · have text : t = b.text := same
      exact absurd (text ▸ listed b hb) h
    · cases same
      rfl

inductive Phase where
  | validation | planning | transfer | paused | pausing | canceling | cleanup | finalization
  | retryWait | waitingAuthorization | waitingValidation | waitingUserDecision
  | waitingPeer | waitingMount
  | other (text : String)
  deriving DecidableEq

inductive ConflictPolicy where
  | skip | overwrite | rename | fail | ask | checksum
  | other (text : String)
  deriving DecidableEq

inductive SourceChangePolicy where
  | fail | retry | copyAnyway
  | other (text : String)
  deriving DecidableEq

structure Job where
  parentJobID : String := ""
  destructivePlanID : String := ""
  signedAuthBound : Bool := false
  requiresSignedAuth : Bool := false
  signedAuthActorID : String := ""
  signedAuthCredentialID : String := ""
  sourcesOmitted : Int := 0
  id : String
  type : JobType
  state : JobState
  phase : Phase := .validation
  mountID : String := ""
  peerNodeID : String := ""
  sourceGrantID : String := ""
  destinationGrantID : String := ""
  sourceETag : String := ""
  sourcePath : String := ""
  destination : String := ""
  bytesTotal : Int := 0
  bytesCompleted : Int := 0
  /-- The bits of the 64-bit float; no branch of the program reads them. -/
  bytesPerSecond : UInt64 := 0
  etaSeconds : Option Int := none
  etaConfidence : String := ""
  filesTotal : Int := 0
  filesCompleted : Int := 0
  filesFailed : Int := 0
  conflictPolicy : ConflictPolicy := .fail
  sourceChangePolicy : SourceChangePolicy := .fail
  verifyChecksum : Bool := false
  bandwidthLimit : Int := 0
  maxParallelFiles : Int := 0
  maxParallelChunks : Int := 0
  overwrite : Bool := false
  recursive : Bool := false
  attempt : Int := 0
  maxAttempts : Int := 0
  error : String := ""
  correlationID : String := ""
  createdAt : Time := 0
  updatedAt : Time := 0
  startedAt : Option Time := none
  nextAttemptAt : Option Time := none
  completedAt : Option Time := none
  deriving DecidableEq

inductive ItemType where
  | file | directory
  | other (text : String)
  deriving DecidableEq

inductive ItemAction where
  | copy | create | merge | skip | overwrite | rename | conflict | fail
  | other (text : String)
  deriving DecidableEq

inductive ItemState where
  | pending | running | completed | skipped | failed | waitingUserDecision
  | other (text : String)
  deriving DecidableEq

inductive CleanupState where
  | none | pending | completed
  | other (text : String)
  deriving DecidableEq

structure JobItem where
  jobID : String := ""
  ordinal : Int
  relativePath : String
  sourcePath : String
  destinationPath : String
  type : ItemType
  size : Int := 0
  modifiedAt : Time := 0
  checksum : String := ""
  sourceRoot : Bool := false
  sourceCleanupState : CleanupState := .none
  action : ItemAction
  state : ItemState := .pending
  bytesCompleted : Int := 0
  attempt : Int := 0
  error : String := ""
  updatedAt : Time := 0
  deriving DecidableEq

structure JobEvent where
  id : Int := 0
  jobID : String
  type : String
  state : JobState
  phase : Phase
  bytesTotal : Int := 0
  bytesCompleted : Int := 0
  bytesPerSecond : UInt64 := 0
  etaSeconds : Option Int := none
  etaConfidence : String := ""
  filesTotal : Int := 0
  filesCompleted : Int := 0
  filesFailed : Int := 0
  message : String := ""
  correlationID : String := ""
  createdAt : Time := 0
  deriving DecidableEq

inductive PlanOperation where
  | delete | move | transferMove
  | other (text : String)
  deriving DecidableEq

inductive SubjectType where
  | user | serviceAccount
  | other (text : String)
  deriving DecidableEq

structure DestructivePlan where
  id : String
  tokenHash : String
  subjectType : SubjectType
  subjectID : String
  operation : PlanOperation
  mountID : String
  source : String := ""
  destination : String := ""
  overwrite : Bool := false
  destinationExists : Bool := false
  treeDigest : String
  destinationDigest : String := ""
  createdAt : Time := 0
  expiresAt : Time := 0
  consumedJobID : String := ""
  idempotencyKey : String := ""
  requestHash : String := ""
  deriving DecidableEq

structure MovePlanBinding where
  planID : String
  subjectType : SubjectType
  tokenHash : String
  digest : String
  now : Time
  deriving DecidableEq

structure IdempotencyRecord where
  jobID : String
  requestHash : String
  deriving DecidableEq

/-- What a signed authorization is for; the operation is a job type or a file request. -/
structure Binding where
  actorID : String := ""
  credentialID : String := ""
  operation : String := ""
  requestID : String := ""
  sourceNodeID : String := ""
  sourceGrantID : String := ""
  sourceMountID : String := ""
  sourceRoot : String := ""
  destinationNodeID : String := ""
  destinationGrantID : String := ""
  destinationMountID : String := ""
  destinationRoot : String := ""
  planID : String := ""
  jobOptionsDigest : String := ""
  deriving DecidableEq

structure JobOptions where
  overwrite : Bool
  recursive : Bool
  conflictPolicy : ConflictPolicy
  sourceChangePolicy : SourceChangePolicy
  verifyChecksum : Bool
  bandwidthLimit : Int
  maxParallelFiles : Int
  maxParallelChunks : Int
  maxAttempts : Int
  deriving DecidableEq

structure JobAuthorization where
  jobID : String
  binding : Binding
  revision : Nat
  envelope : String
  expiresAt : Time
  deriving DecidableEq

end Jolt.Jobs
