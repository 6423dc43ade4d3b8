import Jolt.Base.Transaction
import Jolt.Jobs.Lease
import Jolt.State.Durability

/-! The job store: the transactions over jobs, their items and events, destructive
plans and job authorizations. Each function reads the records as they were before the
transaction and lists what it changes. Checks the source makes before it opens the
transaction stand at the beginning; they neither read nor change the store. -/
namespace Jolt.Jobs
open Jolt.Base Jolt.State

inductive Failure where
  | notFound | inUse | idempotencyConflict
  | message (text : String)
  deriving DecidableEq

def Failure.text : Failure → String
  | .notFound => "not found"
  | .inUse => "resource is in use"
  | .idempotencyConflict => "idempotency key was reused with a different request"
  | .message text => text

inductive Value where
  | job (j : Job)
  | item (i : JobItem)
  | event (e : JobEvent)
  | idempotency (r : IdempotencyRecord)
  | plan (p : DestructivePlan)
  | authorization (a : JobAuthorization)
  deriving DecidableEq

/- Only a job has a state of its own in the index. -/
def Value.state : Value → String
  | .job j => j.state.text
  | _ => ""

abbrev Table := Index (Record Value)

structure Bucket (α : Type) where
  name : String
  wrap : α → Value
  unwrap : Value → Option α
  unwrap_wrap : ∀ a, unwrap (wrap a) = some a

namespace Bucket

def jobs : Bucket Job :=
  ⟨"jobs", .job, fun v => match v with | .job j => some j | _ => none, fun _ => rfl⟩

def items : Bucket JobItem :=
  ⟨"items", .item, fun v => match v with | .item i => some i | _ => none, fun _ => rfl⟩

def events : Bucket JobEvent :=
  ⟨"events", .event, fun v => match v with | .event e => some e | _ => none, fun _ => rfl⟩

def idempotency : Bucket IdempotencyRecord :=
  ⟨"idempotency", .idempotency, fun v => match v with | .idempotency r => some r | _ => none,
    fun _ => rfl⟩

def destructiveIdempotency : Bucket IdempotencyRecord :=
  { idempotency with name := "destructive_idempotency" }

def destructivePlans : Bucket DestructivePlan :=
  ⟨"destructive_plans", .plan, fun v => match v with | .plan p => some p | _ => none, fun _ => rfl⟩

def jobAuthorizations : Bucket JobAuthorization :=
  ⟨"job_authorizations", .authorization,
    fun v => match v with | .authorization a => some a | _ => none, fun _ => rfl⟩

variable {α : Type} (b : Bucket α)

def find (t : Table) (key : String) : Option α :=
  (t.refs b.name key).bind (fun r => r.data.bind b.unwrap)

def holds (t : Table) (key : String) : Bool := (t.refs b.name key).isSome

/-- `get`: an absent key is one error, a value that does not decode another. -/
def get (t : Table) (key : String) : Except Failure α :=
  if b.holds t key then
    match b.find t key with
    | some a => .ok a
    | none => .error (.message "invalid state record location")
  else .error .notFound

def put (key group order : String) (a : α) : Record Value :=
  { bucket := b.name, key := key, group := group, order := order, state := (b.wrap a).state
    data := some (b.wrap a) }

def remove (key : String) : Record Value := { bucket := b.name, key := key, delete := true }

end Bucket

/-- A function of the job store, as it runs inside `update`. -/
abbrev Tx := Transaction SecurityVersion (Record Value) Failure

export Transaction (put note refuse refuseIf check)

def Tx.body {α : Type} (m : Tx α) : Body Value :=
  ⟨m.notes, match m.outcome with
    | .error e => .error e.text
    | .ok _ => .ok m.records⟩

/-- The store after the function's transaction and what the function answers. -/
def transact {α : Type} (l : Ledger Value) (m : Tx α) : Ledger Value × Except Failure α :=
  ((l.update (Tx.body m)).1, match m.outcome, (l.update (Tx.body m)).2 with
    | .error e, _ => .error e
    | .ok a, .ok () => .ok a
    | .ok _, .error text => .error (.message text))

def securityVersion (value : Nat) (known : value ≤ currentEnvelopeVersion := by decide) :
    SecurityVersion := ⟨value, known⟩

section Rules

def securedJobKind (job : Job) : Bool :=
  match job.type with
  | .copyLocal | .transferPullBatch => job.destructivePlanID == ""
  | .delete | .moveLocal | .transferMoveBatch => job.destructivePlanID != ""
  | _ => false

def executableSecuredJob (job : Job) : Bool := job.signedAuthBound && securedJobKind job

def Job.secured (job : Job) : Bool :=
  job.destructivePlanID != "" || job.signedAuthBound || job.requiresSignedAuth

def Job.claimsAuthorization (job : Job) : Bool :=
  job.destructivePlanID != "" || job.signedAuthBound || job.requiresSignedAuth ||
    job.signedAuthActorID != "" || job.signedAuthCredentialID != ""

def JobState.claimed : JobState → Bool
  | .running | .pauseRequested | .cancelRequested => true
  | _ => false

def Job.options (job : Job) : JobOptions :=
  ⟨job.overwrite, job.recursive, job.conflictPolicy, job.sourceChangePolicy, job.verifyChecksum,
    job.bandwidthLimit, job.maxParallelFiles, job.maxParallelChunks, job.maxAttempts⟩

/-- What a job is to do; an update of a secured job must repeat it. -/
structure JobScope where
  type : JobType
  mountID : String
  sourcePath : String
  destination : String
  options : JobOptions
  peerNodeID : String
  sourceGrantID : String
  destinationGrantID : String
  deriving DecidableEq

def Job.scope (job : Job) : JobScope :=
  ⟨job.type, job.mountID, job.sourcePath, job.destination, job.options, job.peerNodeID,
    job.sourceGrantID, job.destinationGrantID⟩

/-- What ties a job to its plan and to its signed authorization. -/
structure JobSecurity where
  destructivePlanID : String
  signedAuthBound : Bool
  requiresSignedAuth : Bool
  signedAuthActorID : String
  signedAuthCredentialID : String
  deriving DecidableEq

def Job.security (job : Job) : JobSecurity :=
  ⟨job.destructivePlanID, job.signedAuthBound, job.requiresSignedAuth, job.signedAuthActorID,
    job.signedAuthCredentialID⟩

def validSecuredJobUpdate (old next : Job) : Bool :=
  if old.security ≠ next.security then false
  else if old.secured = false then true
  else if old.scope ≠ next.scope then false
  else if old.state = .canceled ∧ next.state ≠ .canceled then false
  else if executableSecuredJob old = true then
    if old.state.claimed = true then true
    else if old.state = .completed ∨ old.state = .completedWithWarnings then
      decide (next.state = old.state)
    else decide (next.state = .waitingValidation ∨ next.state = .paused ∨
      next.state = .canceled ∨ next.state = .queued)
  else decide (next.state = .waitingValidation ∨ next.state = .paused ∨ next.state = .canceled)

def jobItemsWritable (job : Job) : Bool :=
  if job.secured = false then true
  else executableSecuredJob job && job.state.claimed

end Rules

section Jobs

def putJob (j : Job) : Tx Unit := put (Bucket.jobs.put j.id j.peerNodeID j.createdAt.order j)

/- The key under which a loop over the listing found the job. -/
def putJobAt (id : String) (j : Job) : Tx Unit :=
  put (Bucket.jobs.put id j.peerNodeID j.createdAt.order j)

def itemKey (item : JobItem) : String := item.jobID ++ "\x00" ++ item.relativePath

def putItem (item : JobItem) : Tx Unit :=
  put (Bucket.items.put (itemKey item) item.jobID (zeroPad 12 item.ordinal) item)

def putItems (jobID : String) : List String → List JobItem → Tx Unit
  | _, [] => pure ()
  | seen, item :: rest => do
    let item := { item with jobID := jobID }
    refuseIf (itemKey item ∈ seen) (.message "duplicate job item")
    putItem item
    putItems jobID (itemKey item :: seen) rest

def putIdempotency (key jobID hash : String) : Tx Unit :=
  if key = "" then pure () else put (Bucket.idempotency.put key "" "" ⟨jobID, hash⟩)

/-- The records of a new job: the job, its items and the key of the request. -/
def putNewJob (j : Job) (items : List JobItem) (key hash : String) : Tx Unit := do
  putJob j
  putItems j.id [] items
  putIdempotency key j.id hash

/-- `CreateJobWithItemsHashed`: the job and whether it is an earlier one. -/
def createJobWithItemsHashed (l : Ledger Value) (j : Job) (items : List JobItem)
    (key hash : String) : Tx (Job × Bool) := do
  refuseIf (j.claimsAuthorization = true) .inUse
  match (if key = "" then .error .notFound else Bucket.idempotency.get l.table key) with
  | .ok previous => do
    refuseIf (hash ≠ "" ∧ hash ≠ previous.requestHash) .idempotencyConflict
    let stored ← check (Bucket.jobs.get l.table previous.jobID)
    refuseIf (stored.secured = true) .idempotencyConflict
    pure (stored, true)
  | .error .notFound => do
    refuseIf (Bucket.jobs.holds l.table j.id = true) (.message "job already exists")
    putNewJob j items key hash
    pure (j, false)
  | .error e => refuse e

def planDigest (value : String) : Bool :=
  value.toList.length == 64 &&
    value.toList.all (fun c => ('0' ≤ c && c ≤ '9') || ('a' ≤ c && c ≤ 'f'))

def DestructivePlan.usedBy (plan : DestructivePlan) (jobID key hash : String) : DestructivePlan :=
  { plan with consumedJobID := jobID, idempotencyKey := key, requestHash := hash }

def Job.using (job : Job) (planID : String) : Job := { job with destructivePlanID := planID }

/-- `consumeMovePlan`: the job with the plan it now uses. -/
def consumeMovePlan (l : Ledger Value) (binding : MovePlanBinding) (actorID : String) (job : Job)
    (key hash : String) : Tx Job := do
  match Bucket.destructivePlans.get l.table binding.planID with
  | .error _ => refuse .inUse
  | .ok plan => do
    refuseIf (plan.operation ≠ .transferMove ∨ plan.subjectType ≠ binding.subjectType ∨
      plan.subjectID ≠ actorID ∨ plan.mountID ≠ job.mountID ∨ plan.consumedJobID ≠ "" ∨
      plan.tokenHash ≠ binding.tokenHash ∨ plan.treeDigest ≠ binding.digest ∨
      ¬ binding.now < plan.expiresAt ∨ binding.now < plan.createdAt) .inUse
    put (Bucket.destructivePlans.put plan.id plan.subjectID plan.createdAt.order
      (plan.usedBy job.id key hash))
    pure (job.using plan.id)

def usePlan (l : Ledger Value) (plan : Option MovePlanBinding) (actorID : String) (job : Job)
    (key hash : String) : Tx Job :=
  match plan with
  | none => pure job
  | some binding => consumeMovePlan l binding actorID job key hash

def Job.awaiting (job : Job) (actorID credentialID : String) : Job :=
  { job with
    requiresSignedAuth := true, signedAuthActorID := actorID, signedAuthCredentialID := credentialID
    state := .waitingValidation, phase := .waitingAuthorization
    error := "job execution requires authorization and validation", nextAttemptAt := none }

def createAwaitingAuthorization (l : Ledger Value) (j : Job) (items : List JobItem)
    (actorID credentialID key hash : String) (plan : Option MovePlanBinding) :
    Tx (Job × Bool) := do
  refuseIf (¬ (validKeyID j.id ∧ validKeyID j.mountID ∧ validKeyID actorID ∧
    validKeyID credentialID) ∨ key = "" ∨ hash = "" ∨ j.state ≠ .queued ∨
    j.claimsAuthorization = true) .inUse
  match Bucket.idempotency.get l.table key with
  | .ok previous => do
    refuseIf (previous.requestHash ≠ hash) .idempotencyConflict
    let stored ← check (Bucket.jobs.get l.table previous.jobID)
    refuseIf (stored.requiresSignedAuth = false ∨ stored.signedAuthActorID ≠ actorID ∨
      stored.signedAuthCredentialID ≠ credentialID ∨
      ∃ p ∈ plan, stored.destructivePlanID ≠ p.planID) .idempotencyConflict
    pure (stored, true)
  | .error .notFound => do
    refuseIf (Bucket.jobs.holds l.table j.id = true) .inUse
    note (securityVersion 6)
    let j ← usePlan l plan actorID j key hash
    let j := j.awaiting actorID credentialID
    putNewJob j items key hash
    pure (j, false)
  | .error e => refuse e

def createJobAwaitingAuthorization (l : Ledger Value) (j : Job)
    (actorID credentialID key hash : String) : Tx (Job × Bool) := do
  refuseIf (j.type ≠ .delete ∧ j.type ≠ .copyLocal ∧ j.type ≠ .moveLocal) .inUse
  createAwaitingAuthorization l j [] actorID credentialID key hash none

def createPlannedJobAwaitingAuthorization (l : Ledger Value) (j : Job) (items : List JobItem)
    (actorID credentialID key hash : String) : Tx (Job × Bool) := do
  refuseIf (j.type ≠ .transferPullBatch ∨ items = []) .inUse
  createAwaitingAuthorization l j items actorID credentialID key hash none

def createPlannedMoveAwaitingAuthorization (l : Ledger Value) (j : Job) (items : List JobItem)
    (actorID credentialID key hash : String) (plan : MovePlanBinding) : Tx (Job × Bool) := do
  refuseIf (j.type ≠ .transferMoveBatch ∨ items = [] ∨ ¬ validKeyID plan.planID ∨
    ¬ planDigest plan.tokenHash ∨ ¬ planDigest plan.digest ∨ plan.now.isZero) .inUse
  createAwaitingAuthorization l j items actorID credentialID key hash (some plan)

def updateJob (l : Ledger Value) (j : Job) : Tx Unit := do
  let old ← check (Bucket.jobs.get l.table j.id)
  refuseIf (validSecuredJobUpdate old j = false) .inUse
  putJob { j with createdAt := old.createdAt }

/- The event takes the number the transaction is about to get. -/
def putEvent (l : Ledger Value) (event : JobEvent) : Tx JobEvent := do
  let event := { event with id := (l.sequence : Int) + 1 }
  let key := zeroPad 20 event.id
  put (Bucket.events.put key event.jobID key event)
  pure event

def updateJobWithEvent (l : Ledger Value) (j : Job) (event : JobEvent) : Tx Unit := do
  refuseIf (event.jobID ≠ j.id) (.message "job event does not belong to job")
  let old ← check (Bucket.jobs.get l.table j.id)
  refuseIf (validSecuredJobUpdate old j = false) .inUse
  putJob { j with createdAt := old.createdAt }
  let _ ← putEvent l event
  pure ()

end Jobs

section Scheduling

def queuedJobs (t : Table) : List String := t.ordered ⟨"jobs", .state, "queued"⟩

def Job.due (job : Job) (now : Time) : Prop := ∀ next ∈ job.nextAttemptAt, next ≤ now

instance (job : Job) (now : Time) : Decidable (job.due now) :=
  inferInstanceAs (Decidable (∀ next ∈ job.nextAttemptAt, next ≤ now))

def Job.start (job : Job) (now : Time) : Job :=
  { job with
    state := .running, phase := .validation, updatedAt := now, nextAttemptAt := none
    attempt := job.attempt + 1, startedAt := some (job.startedAt.getD now) }

/- The loop of `ClaimNextJob` from one place of the listing on. -/
def claimFrom (t : Table) (now : Time) : List String → Tx Job
  | [] => refuse .notFound
  | id :: rest => do
    let j ← check (Bucket.jobs.get t id)
    if j.state ≠ .queued ∨ j.secured = true ∨ ¬ j.due now then claimFrom t now rest
    else do
      putJobAt id (j.start now)
      pure (j.start now)

def claimNextJob (l : Ledger Value) (now : Time) : Tx Job :=
  claimFrom l.table now (queuedJobs l.table)

def Job.wake (job : Job) (now : Time) : Job :=
  { job with
    state := .queued, phase := .validation, error := "", updatedAt := now, nextAttemptAt := none }

def Job.recover (job : Job) (now : Time) : Job :=
  { job with
    state := .waitingValidation, phase := .waitingValidation
    error := "node restarted before the operation completed; explicit validation is required"
    updatedAt := now, nextAttemptAt := none, etaSeconds := none, etaConfidence := "" }

/-- The changes `changeJobs` makes to a job it matches. -/
def Job.change (job : Job) (now : Time) (recovery : Bool) : Job :=
  if recovery then job.recover now else job.wake now

def changeFrom (t : Table) (now : Time) (states : List JobState) (isMatch : Job → Bool)
    (recovery : Bool) : List String → Tx (List Job)
  | [] => pure []
  | id :: rest => do
    let state := ((t.refs "jobs" id).map Record.state).getD ""
    if ∀ known ∈ states, known.text ≠ state then changeFrom t now states isMatch recovery rest
    else do
      let j ← check (Bucket.jobs.get t id)
      if isMatch j = false ∨ recovery = false ∧ (j.destructivePlanID ≠ "" ∨
          (j.signedAuthBound = true ∨ j.requiresSignedAuth = true) ∧
            executableSecuredJob j = false) then
        changeFrom t now states isMatch recovery rest
      else do
        putJobAt id (j.change now recovery)
        let more ← changeFrom t now states isMatch recovery rest
        pure (j.change now recovery :: more)

def changeJobs (l : Ledger Value) (now : Time) (states : List JobState) (isMatch : Job → Bool)
    (recovery : Bool) : Tx (List Job) :=
  changeFrom l.table now states isMatch recovery (l.table.keys "jobs" "")

def recoverRunningJobs (l : Ledger Value) (now : Time) : Tx (List Job) :=
  changeJobs l now [.running, .pauseRequested, .cancelRequested, .queued, .waitingPeer,
    .waitingMount] (fun _ => true) true

def wakeWaitingPeerJobs (l : Ledger Value) (id : String) (now : Time) : Tx (List Job) :=
  changeJobs l now [.waitingPeer] (fun j => j.peerNodeID == id) false

def wakeWaitingMountJobs (l : Ledger Value) (id : String) (now : Time) : Tx (List Job) :=
  changeJobs l now [.waitingMount] (fun j => j.mountID == id) false

def removeItems : List String → Tx Unit
  | [] => pure ()
  | key :: rest => do
    put (Bucket.items.remove key)
    removeItems rest

def replaceJobItems (l : Ledger Value) (id : String) (items : List JobItem) : Tx Unit := do
  let job ← check (Bucket.jobs.get l.table id)
  refuseIf (jobItemsWritable job = false) .inUse
  removeItems (l.table.keys "items" id)
  putItems id [] items

def updateJobItem (l : Ledger Value) (item : JobItem) : Tx Unit := do
  let job ← check (Bucket.jobs.get l.table item.jobID)
  refuseIf (jobItemsWritable job = false) .inUse
  refuseIf (Bucket.items.holds l.table (itemKey item) = false) .notFound
  putItem item

def recordJobEvent (l : Ledger Value) (event : JobEvent) : Tx JobEvent := do
  refuseIf (Bucket.jobs.holds l.table event.jobID = false) .notFound
  putEvent l event

end Scheduling

section Plans

/-- `planPath`: a clean relative path inside the mount. -/
def planPath (value : String) : Bool :=
  value != "" && value.utf8ByteSize ≤ 2048 && trimmed value &&
    !(value.toList.any (fun c => c == '\\' || c == '\x00')) && value.toList.head? != some '/' &&
    value != "." && value != ".." && !(['.', '.', '/'].isPrefixOf value.toList) && cleaned value

def destructiveIdempotencyKey {κ : Type} (signing : Signing κ) (subjectType : String)
    (subjectID key : String) : String :=
  signing.sha256 (subjectType ++ "\x00" ++ subjectID ++ "\x00" ++ key)

def SubjectType.text : SubjectType → String
  | .user => "user"
  | .serviceAccount => "service_account"
  | .other text => text

def DestructivePlan.fresh (plan : DestructivePlan) (now : Time) : Bool :=
  validKeyID plan.id && validKeyID plan.subjectID && validKeyID plan.mountID &&
    (plan.subjectType == .user || plan.subjectType == .serviceAccount) &&
    planDigest plan.tokenHash && planDigest plan.treeDigest && !now.isZero &&
    plan.consumedJobID == "" && plan.idempotencyKey == "" && plan.requestHash == ""

/-- Records a plan whose fields have been checked; it can be used for five minutes. -/
def recordPlan (l : Ledger Value) (plan : DestructivePlan) (now : Time) : Tx Unit := do
  refuseIf (Bucket.destructivePlans.holds l.table plan.id = true) .inUse
  note (securityVersion 4)
  put (Bucket.destructivePlans.put plan.id plan.subjectID now.order
    { plan with createdAt := now, expiresAt := now + 5 * Time.minute })

def checkPlan (plan : DestructivePlan) : Tx Unit :=
  match plan.operation with
  | .delete => refuseIf (plan.destination ≠ "" ∨ plan.overwrite = true ∨
      plan.destinationExists = true ∨ plan.destinationDigest ≠ "") (.message "invalid delete plan")
  | .move => refuseIf (planPath plan.destination = false ∨ plan.destination = plan.source ∨
      (plan.source ++ "/").toList.isPrefixOf plan.destination.toList = true ∨
      (plan.destinationExists = true ∧
        (plan.overwrite = false ∨ planDigest plan.destinationDigest = false)) ∨
      (plan.destinationExists = false ∧ plan.destinationDigest ≠ "")) (.message "invalid move plan")
  | _ => refuse (.message "invalid destructive operation")

def createDestructivePlan (l : Ledger Value) (plan : DestructivePlan) (now : Time) : Tx Unit := do
  refuseIf (plan.fresh now = false ∨ planPath plan.source = false)
    (.message "invalid destructive plan")
  checkPlan plan
  recordPlan l plan now

def createTransferMovePlan (l : Ledger Value) (plan : DestructivePlan) (now : Time) : Tx Unit := do
  refuseIf (plan.fresh now = false ∨ plan.operation ≠ .transferMove ∨ plan.source ≠ "" ∨
    plan.destination ≠ "" ∨ plan.overwrite = true ∨ plan.destinationExists = true ∨
    plan.destinationDigest ≠ "") (.message "invalid transfer move plan")
  recordPlan l plan now

/- The loop of the purge; at most a thousand plans go in one transaction. -/
def purgeFrom (t : Table) (now : Time) : Nat → List String → Tx Nat
  | removed, [] => pure removed
  | removed, id :: rest =>
    if removed = 1000 then pure removed
    else do
      let plan ← check (Bucket.destructivePlans.get t id)
      if plan.consumedJobID = "" ∧ ¬ now < plan.expiresAt then do
        put (Bucket.destructivePlans.remove id)
        purgeFrom t now (removed + 1) rest
      else purgeFrom t now removed rest

def purgeExpiredDestructivePlans (l : Ledger Value) (now : Time) : Tx Nat := do
  refuseIf (now.isZero = true) .inUse
  purgeFrom l.table now 0 (l.table.keys "destructive_plans" "")

structure PlanRequest where
  id : String
  subjectType : SubjectType
  subjectID : String
  tokenHash : String
  treeDigest : String
  destinationExists : Bool
  destinationDigest : String
  idempotencyKey : String
  requestHash : String
  now : Time

def PlanRequest.fits (r : PlanRequest) (plan : DestructivePlan) (job : Job) : Prop :=
  plan.subjectType = r.subjectType ∧ plan.subjectID = r.subjectID ∧ plan.tokenHash = r.tokenHash ∧
    job.mountID = plan.mountID ∧ job.sourcePath = plan.source ∧
    job.destination = plan.destination ∧ job.overwrite = plan.overwrite ∧
    (plan.operation = .delete → job.type = .delete ∧ job.recursive = true) ∧
    (plan.operation = .move → job.type = .moveLocal)

instance (r : PlanRequest) (plan : DestructivePlan) (job : Job) : Decidable (r.fits plan job) :=
  inferInstanceAs (Decidable (_ ∧ _ ∧ _ ∧ _ ∧ _ ∧ _ ∧ _ ∧ _ ∧ _))

def Job.confirmed (job : Job) (plan : DestructivePlan) : Job :=
  { job with
    destructivePlanID := plan.id, state := .waitingValidation, phase := .waitingAuthorization
    error := "destructive plan execution requires authorization" }

def acceptDestructivePlan {κ : Type} (signing : Signing κ) (l : Ledger Value) (r : PlanRequest)
    (job : Job) : Tx (Job × Bool) := do
  refuseIf (¬ validKeyID r.id ∨ ¬ validKeyID r.subjectID ∨ ¬ planDigest r.tokenHash ∨
    ¬ planDigest r.treeDigest ∨ r.idempotencyKey = "" ∨ 256 < r.idempotencyKey.utf8ByteSize ∨
    ¬ planDigest r.requestHash ∨ r.now.isZero = true) .inUse
  let plan ← check (Bucket.destructivePlans.get l.table r.id)
  refuseIf (¬ r.fits plan job) .inUse
  if plan.consumedJobID ≠ "" then do
    refuseIf (plan.idempotencyKey ≠ r.idempotencyKey ∨ plan.requestHash ≠ r.requestHash) .inUse
    let accepted ← check (Bucket.jobs.get l.table plan.consumedJobID)
    pure (accepted, true)
  else do
    refuseIf (¬ r.now < plan.expiresAt ∨ r.now < plan.createdAt ∨ plan.treeDigest ≠ r.treeDigest ∨
      plan.destinationExists ≠ r.destinationExists ∨
      plan.destinationDigest ≠ r.destinationDigest ∨ ¬ validKeyID job.id ∨ job.state ≠ .queued ∨
      job.claimsAuthorization = true) .inUse
    refuseIf (Bucket.jobs.holds l.table job.id = true) .inUse
    let key := destructiveIdempotencyKey signing r.subjectType.text r.subjectID r.idempotencyKey
    match Bucket.destructiveIdempotency.get l.table key with
    | .ok _ => refuse .idempotencyConflict
    | .error .notFound => do
      let job := job.confirmed plan
      put (Bucket.destructivePlans.put plan.id plan.subjectID plan.createdAt.order
        (plan.usedBy job.id r.idempotencyKey r.requestHash))
      putJob job
      put (Bucket.destructiveIdempotency.put key "" "" ⟨job.id, r.requestHash⟩)
      pure (job, false)
    | .error e => refuse e

end Plans

section Authorizations

variable {κ : Type} (signing : Signing κ)

/-- `jobAuthorizationMatches`: the binding is for exactly this job on this node. -/
def jobAuthorizationMatches (job : Job) (expected : Binding) (nodeID : String) : Bool :=
  if job.requiresSignedAuth = true ∧ (job.signedAuthActorID ≠ expected.actorID ∨
      job.signedAuthCredentialID ≠ expected.credentialID) then false
  else if (job.requiresSignedAuth = true ∧ expected.jobOptionsDigest = "") ∨
      (expected.jobOptionsDigest ≠ "" ∧
        expected.jobOptionsDigest ≠ signing.jobOptionsDigest job.options) then false
  else if expected.planID ≠ job.id ∨ expected.operation ≠ job.type.text ∨
      expected.requestID ≠ "" ∨ expected.sourceRoot ≠ job.sourcePath then false
  else match job.type with
    | .delete => decide (expected.sourceNodeID = nodeID ∧ expected.sourceMountID = job.mountID ∧
        expected.destinationNodeID = "")
    | .copyLocal | .moveLocal => decide (expected.sourceNodeID = nodeID ∧
        expected.destinationNodeID = nodeID ∧ expected.sourceMountID = job.mountID ∧
        expected.destinationMountID = job.mountID ∧ expected.destinationRoot = job.destination)
    | .transferPull | .transferPullDirectory | .transferPullBatch | .transferMoveBatch =>
      decide (expected.sourceNodeID = job.peerNodeID ∧ expected.destinationNodeID = nodeID ∧
        expected.sourceGrantID = job.sourceGrantID ∧
        expected.destinationGrantID = job.destinationGrantID ∧
        expected.destinationMountID = job.mountID ∧ expected.destinationRoot = job.destination)
    | _ => false

def planMatches (t : Table) (job : Job) (actorID : String) : Prop :=
  job.destructivePlanID = "" ∨ ∃ plan ∈ Bucket.destructivePlans.find t job.destructivePlanID,
    plan.consumedJobID = job.id ∧ plan.subjectID = actorID

instance (t : Table) (job : Job) (actorID : String) : Decidable (planMatches t job actorID) :=
  inferInstanceAs (Decidable (_ ∨ ∃ plan ∈ _, _))

/-- `verifiedJobLease`: the stored lease of the job, if it still verifies. -/
def verifiedJobLease (t : Table) (job : Job) (nodeID : String) (keys : κ) (now : Time) :
    Option JobAuthorization :=
  match Bucket.jobAuthorizations.find t job.id with
  | none => none
  | some current =>
    if job.signedAuthBound = false ∨ current.jobID ≠ job.id ∨
        jobAuthorizationMatches signing job current.binding nodeID = false ∨
        ¬ planMatches t job current.binding.actorID then none
    else match verifyJobLease signing current.envelope keys current.binding nodeID
        current.revision now with
      | none => none
      | some claims => if claims.expiresAt = current.expiresAt.unix then some current else none

def Job.park (job : Job) (now : Time) : Job :=
  { job with
    state := .waitingValidation, phase := .waitingAuthorization, updatedAt := now
    error := "job authorization expired; waiting for renewal" }

/- Jobs parked on the way stay parked, also when no job is found to run. -/
def claimSecuredFrom (t : Table) (nodeID : String) (keys : κ) (now : Time) :
    List String → Tx (Option Job)
  | [] => pure none
  | id :: rest => do
    let j ← check (Bucket.jobs.get t id)
    if j.state ≠ .queued ∨ executableSecuredJob j = false ∨ ¬ j.due now then
      claimSecuredFrom t nodeID keys now rest
    else if verifiedJobLease signing t j nodeID keys now = none then do
      putJobAt id (j.park now)
      claimSecuredFrom t nodeID keys now rest
    else do
      putJobAt id (j.start now)
      pure (some (j.start now))

/-- `ClaimNextSecuredJob`; no job is the error `notFound` of the source. -/
def claimNextSecuredJob (l : Ledger Value) (nodeID : String) (keys : κ) (now : Time) :
    Tx (Option Job) := do
  refuseIf (validKeyID nodeID = false ∨ now.isZero = true) .inUse
  claimSecuredFrom signing l.table nodeID keys now (queuedJobs l.table)

def Job.bind (job : Job) (now : Time) : Job :=
  let job := { job with signedAuthBound := true }
  let autoResume := securedJobKind job && (decide (job.state = .queued) ||
    (decide (job.state = .waitingValidation) && decide (job.phase = .waitingAuthorization)))
  let job :=
    if job.state = .paused then job
    else if autoResume then { job with state := .queued, phase := .validation, error := "" }
    else { job with
      state := .waitingValidation, phase := .waitingValidation
      error := "job execution requires authorization renewal and validation", nextAttemptAt := none }
  { job with updatedAt := now }

/-- A lease can be recorded for a job that waits, or for one that runs under a lease. -/
def Job.renewable (job : Job) : Bool :=
  match job.state with
  | .queued | .waitingValidation | .paused | .interrupted => true
  | .running => executableSecuredJob job
  | _ => false

/-- `RenewJobAuthorization`: verify the envelope as the next revision and record it. -/
def renewJobAuthorization (l : Ledger Value) (jobID nodeID envelope : String) (expected : Binding)
    (keys : κ) (now : Time) : Tx JobAuthorization := do
  refuseIf (¬ validKeyID jobID ∨ ¬ validKeyID nodeID ∨ now.isZero = true ∨ envelope = "") .inUse
  let job ← check (Bucket.jobs.get l.table jobID)
  refuseIf (job.renewable = false) .inUse
  refuseIf (jobAuthorizationMatches signing job expected nodeID = false) .inUse
  refuseIf (¬ planMatches l.table job expected.actorID) .inUse
  match Bucket.jobAuthorizations.get l.table job.id with
  | .ok old => do
    refuseIf (job.signedAuthBound = false ∨ old.jobID ≠ job.id ∨ old.revision = 2 ^ 64 - 1 ∨
      old.binding ≠ expected) .inUse
    if old.envelope = envelope then
      -- the current envelope again: it is verified, but nothing is written
      match verifyJobLease signing envelope keys expected nodeID old.revision now with
      | none => refuse .inUse
      | some claims => do
        refuseIf (claims.expiresAt ≠ old.expiresAt.unix) .inUse
        pure old
    else recordLease job (old.revision + 1)
  | .error .notFound => do
    refuseIf (job.signedAuthBound = true) .inUse
    recordLease job 1
  | .error _ => refuse .inUse
where
  recordLease (job : Job) (revision : Nat) : Tx JobAuthorization :=
    match verifyJobLease signing envelope keys expected nodeID revision now with
    | none => refuse .inUse
    | some claims => do
      note (securityVersion 5)
      let authorization : JobAuthorization :=
        ⟨job.id, expected, revision, envelope, Time.ofUnix claims.expiresAt⟩
      put (Bucket.jobAuthorizations.put job.id "" now.order authorization)
      -- the executor owns the record of a running job; only the lease advances
      if job.state = .running then pure authorization
      else do
        putJob (job.bind now)
        pure authorization

/-- `RegisterSignedJobAuthorization`: the binding comes from the verified envelope. -/
def registerSignedJobAuthorization (l : Ledger Value) (jobID nodeID envelope : String) (keys : κ)
    (now : Time) : Tx JobAuthorization :=
  match verifiedJobLeaseBinding signing envelope keys nodeID now with
  | none => refuse .inUse
  | some binding => do
    refuseIf (binding.planID ≠ jobID) .inUse
    renewJobAuthorization signing l jobID nodeID envelope binding keys now

end Authorizations

end Jolt.Jobs
