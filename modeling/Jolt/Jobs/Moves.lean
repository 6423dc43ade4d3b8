import Jolt.Jobs.Lookup

/-! The operations of the job store, and once for all of them what one of them can do
to a job, to a plan and to an authorization. Every invariant of the store is drawn
from these moves. -/
namespace Jolt.Jobs
open Jolt.State

inductive Op (κ : Type) where
  | createJob (j : Job) (items : List JobItem) (key hash : String)
  | createJobAwaitingAuthorization (j : Job) (actorID credentialID key hash : String)
  | createPlannedJobAwaitingAuthorization (j : Job) (items : List JobItem)
      (actorID credentialID key hash : String)
  | createPlannedMoveAwaitingAuthorization (j : Job) (items : List JobItem)
      (actorID credentialID key hash : String) (plan : MovePlanBinding)
  | updateJob (j : Job)
  | updateJobWithEvent (j : Job) (event : JobEvent)
  | claimNextJob (now : Time)
  | claimNextSecuredJob (nodeID : String) (keys : κ) (now : Time)
  | recoverRunningJobs (now : Time)
  | wakeWaitingPeerJobs (id : String) (now : Time)
  | wakeWaitingMountJobs (id : String) (now : Time)
  | replaceJobItems (id : String) (items : List JobItem)
  | updateJobItem (item : JobItem)
  | recordJobEvent (event : JobEvent)
  | createDestructivePlan (plan : DestructivePlan) (now : Time)
  | createTransferMovePlan (plan : DestructivePlan) (now : Time)
  | purgeExpiredDestructivePlans (now : Time)
  | acceptDestructivePlan (r : PlanRequest) (job : Job)
  | renewJobAuthorization (jobID nodeID envelope : String) (expected : Binding) (keys : κ)
      (now : Time)
  | registerSignedJobAuthorization (jobID nodeID envelope : String) (keys : κ) (now : Time)

variable {κ : Type}

def Op.apply (signing : Signing κ) (l : Ledger Value) : Op κ → Ledger Value
  | .createJob j items key hash => (transact l (createJobWithItemsHashed l j items key hash)).1
  | .createJobAwaitingAuthorization j actorID credentialID key hash =>
    (transact l (Jobs.createJobAwaitingAuthorization l j actorID credentialID key hash)).1
  | .createPlannedJobAwaitingAuthorization j items actorID credentialID key hash =>
    (transact l
      (Jobs.createPlannedJobAwaitingAuthorization l j items actorID credentialID key hash)).1
  | .createPlannedMoveAwaitingAuthorization j items actorID credentialID key hash plan =>
    (transact l
      (Jobs.createPlannedMoveAwaitingAuthorization l j items actorID credentialID key hash plan)).1
  | .updateJob j => (transact l (Jobs.updateJob l j)).1
  | .updateJobWithEvent j event => (transact l (Jobs.updateJobWithEvent l j event)).1
  | .claimNextJob now => (transact l (Jobs.claimNextJob l now)).1
  | .claimNextSecuredJob nodeID keys now =>
    (transact l (Jobs.claimNextSecuredJob signing l nodeID keys now)).1
  | .recoverRunningJobs now => (transact l (Jobs.recoverRunningJobs l now)).1
  | .wakeWaitingPeerJobs id now => (transact l (Jobs.wakeWaitingPeerJobs l id now)).1
  | .wakeWaitingMountJobs id now => (transact l (Jobs.wakeWaitingMountJobs l id now)).1
  | .replaceJobItems id items => (transact l (Jobs.replaceJobItems l id items)).1
  | .updateJobItem item => (transact l (Jobs.updateJobItem l item)).1
  | .recordJobEvent event => (transact l (Jobs.recordJobEvent l event)).1
  | .createDestructivePlan plan now => (transact l (Jobs.createDestructivePlan l plan now)).1
  | .createTransferMovePlan plan now => (transact l (Jobs.createTransferMovePlan l plan now)).1
  | .purgeExpiredDestructivePlans now => (transact l (Jobs.purgeExpiredDestructivePlans l now)).1
  | .acceptDestructivePlan r job => (transact l (Jobs.acceptDestructivePlan signing l r job)).1
  | .renewJobAuthorization jobID nodeID envelope expected keys now =>
    (transact l (Jobs.renewJobAuthorization signing l jobID nodeID envelope expected keys now)).1
  | .registerSignedJobAuthorization jobID nodeID envelope keys now =>
    (transact l (Jobs.registerSignedJobAuthorization signing l jobID nodeID envelope keys now)).1

def Op.subject : Op κ → Option (SubjectType × String)
  | .createPlannedMoveAwaitingAuthorization _ _ actorID _ _ _ plan =>
    some (plan.subjectType, actorID)
  | .acceptDestructivePlan r _ => some (r.subjectType, r.subjectID)
  | _ => none

def Op.offers : Op κ → Option (String × String)
  | .renewJobAuthorization jobID _ envelope _ _ _ => some (jobID, envelope)
  | .registerSignedJobAuthorization jobID _ envelope _ _ => some (jobID, envelope)
  | _ => none

/-- The job has the mount of the plan and, for a plan that names paths, its paths. -/
def DestructivePlan.covers (plan : DestructivePlan) (j : Job) : Prop :=
  j.mountID = plan.mountID ∧
    (plan.operation ≠ .transferMove → j.sourcePath = plan.source ∧ j.destination = plan.destination)

section Relations

variable (signing : Signing κ) (op : Op κ) (t t' : Table)

/-- How a new job comes to its plan: not at all, or by using a plan nobody has used. -/
def Planned (j : Job) : Prop :=
  j.destructivePlanID = "" ∨ ∃ plan key hash,
    Bucket.destructivePlans.find t j.destructivePlanID = some plan ∧ plan.consumedJobID = "" ∧
    Bucket.destructivePlans.find t' j.destructivePlanID = some (plan.usedBy j.id key hash) ∧
    plan.covers j ∧ op.subject = some (plan.subjectType, plan.subjectID) ∧
    (j.requiresSignedAuth = true → j.signedAuthActorID = plan.subjectID) ∧ j.id ≠ ""

inductive JobMove (id : String) : Option Job → Job → Prop where
  | create {j : Job} (absent : Bucket.jobs.holds t id = false) (unbound : j.signedAuthBound = false)
      (planned : Planned op t t' j) : JobMove id none j
  | update {old next : Job} (valid : validSecuredJobUpdate old next = true)
      (source : op = .updateJob next ∨ ∃ event, op = .updateJobWithEvent next event) :
      JobMove id (some old) { next with createdAt := old.createdAt }
  | claim {old : Job} {now : Time} (queued : old.state = .queued) (unsecured : old.secured = false)
      (source : op = .claimNextJob now) : JobMove id (some old) (old.start now)
  | claimSecured {old : Job} {nodeID : String} {keys : κ} {now : Time} {lease : JobAuthorization}
      (queued : old.state = .queued) (executable : executableSecuredJob old = true)
      (verified : verifiedJobLease signing t old nodeID keys now = some lease)
      (source : op = .claimNextSecuredJob nodeID keys now) : JobMove id (some old) (old.start now)
  | park {old : Job} {now : Time} (queued : old.state = .queued)
      (executable : executableSecuredJob old = true) : JobMove id (some old) (old.park now)
  | wake {old : Job} {now : Time} (waiting : old.state = .waitingPeer ∨ old.state = .waitingMount) :
      JobMove id (some old) (old.wake now)
  | recover {old : Job} {now : Time}
      (unsettled : old.state ∈ [JobState.running, .pauseRequested, .cancelRequested, .queued,
        .waitingPeer, .waitingMount])
      (source : op = .recoverRunningJobs now) : JobMove id (some old) (old.recover now)
  | bind {old : Job} {now : Time} (renewable : old.renewable = true)
      (idle : old.state ≠ .running) (source : ∃ envelope, op.offers = some (id, envelope)) :
      JobMove id (some old) (old.bind now)

inductive PlanMove (id : String) : Option DestructivePlan → Option DestructivePlan → Prop where
  | create {p : DestructivePlan} (absent : Bucket.destructivePlans.holds t id = false)
      (unused : p.consumedJobID = "") : PlanMove id none (some p)
  | consume {p : DestructivePlan} {j : Job} {key hash : String} (unused : p.consumedJobID = "")
      (fresh : Bucket.jobs.holds t j.id = false) (named : j.id ≠ "")
      (held : Bucket.jobs.find t' j.id = some j) (bound : j.destructivePlanID = id) :
      PlanMove id (some p) (some (p.usedBy j.id key hash))
  | purge {p : DestructivePlan} (unused : p.consumedJobID = "") : PlanMove id (some p) none

inductive LeaseMove (id : String) : Option JobAuthorization → JobAuthorization → Prop where
  | renew {old : Option JobAuthorization} {a : JobAuthorization} {j j' : Job} {keys : κ}
      {nodeID : String} {now : Time} {claims : Claims}
      (revision : a.revision = (old.map JobAuthorization.revision).getD 0 + 1)
      (follows : ∀ o ∈ old, o.binding = a.binding ∧ o.envelope ≠ a.envelope)
      (verified : verifyJobLease signing a.envelope keys a.binding nodeID a.revision now = some claims)
      (expiry : a.expiresAt = Time.ofUnix claims.expiresAt) (job : a.binding.planID = id)
      (found : Bucket.jobs.find t id = some j) (plan : planMatches t j a.binding.actorID)
      (matching : jobAuthorizationMatches signing j a.binding nodeID = true)
      (after : Bucket.jobs.find t' id = some j') (bound : j'.signedAuthBound = true)
      (source : op.offers = some (id, a.envelope)) : LeaseMove id old a

inductive Justified (r : Record Value) : Prop where
  | job {id group order : String} {j : Job} (record : r = Bucket.jobs.put id group order j)
      (named : j.id = id)
      (move : JobMove signing op t t' id (Bucket.jobs.find t id) j)
  | plan {id group order : String} {p : DestructivePlan}
      (record : r = Bucket.destructivePlans.put id group order p) (named : p.id = id)
      (move : PlanMove t t' id (Bucket.destructivePlans.find t id) (some p))
  | purge {id : String} (record : r = Bucket.destructivePlans.remove id)
      (move : PlanMove t t' id (Bucket.destructivePlans.find t id) none)
  | lease {id group order : String} {a : JobAuthorization}
      (record : r = Bucket.jobAuthorizations.put id group order a) (named : a.jobID = id)
      (move : LeaseMove signing op t t' id (Bucket.jobAuthorizations.find t id) a)
  | idempotency {b : Bucket IdempotencyRecord} {key group order : String} {value : IdempotencyRecord}
      (record : r = b.put key group order value)
      (bucket : b = Bucket.idempotency ∨ b = Bucket.destructiveIdempotency)
      (absent : b.holds t key = false)
  | detail (bucket : r.bucket = "items" ∨ r.bucket = "events")

end Relations

end Jolt.Jobs
