import Jolt.Jobs.Effects

/-! Secured jobs, over every run of the store. A job with a recorded lease enters a
claimed state only through `ClaimNextSecuredJob`, under a lease that verifies there and
then; from the moment a job is secured, what it is to do and for whom stays as it is;
and once canceled it stays canceled. -/
namespace Jolt.Jobs
open Jolt.State

variable {κ : Type} {signing : Signing κ}

def emptyLedger : Ledger Value := ⟨Index.empty, 0, 1⟩

variable (signing) in
def Steps : Ledger Value → Ledger Value → Prop :=
  Relation.ReflTransGen (fun l l' => ∃ op : Op κ, l' = op.apply signing l)

theorem Steps.one (op : Op κ) (l : Ledger Value) : Steps signing l (op.apply signing l) :=
  Relation.ReflTransGen.single ⟨op, rfl⟩

theorem Steps.keeps {P : Ledger Value → Prop} {l l' : Ledger Value}
    (step : ∀ l (op : Op κ), P l → P (op.apply signing l)) (start : P l)
    (run : Steps signing l l') : P l' := by
  induction run with
  | refl => exact start
  | tail _ last ih =>
    obtain ⟨op, rfl⟩ := last
    exact step _ op ih

def LeasesBound (t : Table) : Prop :=
  ∀ id a, Bucket.jobAuthorizations.find t id = some a →
    ∃ j, Bucket.jobs.find t id = some j ∧ j.signedAuthBound = true

structure SameJob (j j' : Job) : Prop where
  scope : j'.scope = j.scope
  plan : j'.destructivePlanID = j.destructivePlanID
  requires : j'.requiresSignedAuth = j.requiresSignedAuth
  actor : j'.signedAuthActorID = j.signedAuthActorID
  credential : j'.signedAuthCredentialID = j.signedAuthCredentialID

theorem SameJob.refl (j : Job) : SameJob j j := ⟨rfl, rfl, rfl, rfl, rfl⟩

theorem SameJob.trans {j j' j'' : Job} (h : SameJob j j') (h' : SameJob j' j'') : SameJob j j'' :=
  ⟨h'.scope.trans h.scope, h'.plan.trans h.plan, h'.requires.trans h.requires,
    h'.actor.trans h.actor, h'.credential.trans h.credential⟩

theorem Job.bind_sameJob (j : Job) (now : Time) : SameJob j (j.bind now) := by
  unfold Job.bind
  dsimp only
  split_ifs <;> exact ⟨rfl, rfl, rfl, rfl, rfl⟩

theorem Job.bind_state (j : Job) (now : Time) :
    (j.bind now).state = .paused ∨ (j.bind now).state = .queued ∨
      (j.bind now).state = .waitingValidation := by
  unfold Job.bind
  dsimp only
  split_ifs with paused resumed
  · exact .inl paused
  · exact .inr (.inl rfl)
  · exact .inr (.inr rfl)

theorem validSecuredJobUpdate_secured {old next : Job} (valid : validSecuredJobUpdate old next = true)
    (secured : old.secured = true) :
    next.security = old.security ∧ next.scope = old.scope ∧
      (old.state = .canceled → next.state = .canceled) ∧
      (old.state.claimed = false → next.state.claimed = false) := by
  unfold validSecuredJobUpdate at valid
  split_ifs at valid with security plain scope canceled executable claimed done
  · exact absurd secured (by simp [plain])
  all_goals
    refine ⟨(not_not.mp security).symm, (not_not.mp scope).symm,
      fun was => not_not.mp fun left => canceled ⟨was, left⟩, fun idle => ?_⟩
  · exact absurd claimed (by simp [idle])
  · rw [of_decide_eq_true valid]
    exact idle
  · rcases of_decide_eq_true valid with h | h | h | h <;> rw [h] <;> rfl
  · rcases of_decide_eq_true valid with h | h | h <;> rw [h] <;> rfl

section Steps

variable {op : Op κ} {t t' : Table} {id : String} {j j' : Job}

theorem JobMove.secured (move : JobMove signing op t t' id (some j) j') (secured : j.secured = true) :
    SameJob j j' ∧ (j.signedAuthBound = true → j'.signedAuthBound = true) ∧
      (j.state = .canceled → j'.state = .canceled) := by
  cases move with
  | update valid _ =>
    obtain ⟨security, scope, canceled, _⟩ := validSecuredJobUpdate_secured valid secured
    simp only [Job.security, JobSecurity.mk.injEq] at security
    exact ⟨⟨scope, security.1, security.2.2.1, security.2.2.2.1, security.2.2.2.2⟩,
      fun bound => security.2.1.trans bound, canceled⟩
  | claim queued unsecured _ =>
    rw [unsecured] at secured
    cases secured
  | claimSecured queued _ _ _ =>
    exact ⟨⟨rfl, rfl, rfl, rfl, rfl⟩, fun bound => bound, fun was => by simp [was] at queued⟩
  | park queued _ =>
    exact ⟨⟨rfl, rfl, rfl, rfl, rfl⟩, fun bound => bound, fun was => by simp [was] at queued⟩
  | wake waiting =>
    exact ⟨⟨rfl, rfl, rfl, rfl, rfl⟩, fun bound => bound, fun was => by simp [was] at waiting⟩
  | recover unsettled _ =>
    exact ⟨⟨rfl, rfl, rfl, rfl, rfl⟩, fun bound => bound, fun was => by simp [was] at unsettled⟩
  | bind renewable _ _ =>
    exact ⟨Job.bind_sameJob j _, fun _ => (Job.bind_keeps j _).2,
      fun was => by simp [Job.renewable, was] at renewable⟩

theorem JobMove.claims (move : JobMove signing op t t' id (some j) j')
    (bound : j.signedAuthBound = true) (idle : j.state.claimed = false)
    (claimed : j'.state.claimed = true) :
    ∃ nodeID keys now lease, op = .claimNextSecuredJob nodeID keys now ∧
      verifiedJobLease signing t j nodeID keys now = some lease := by
  have secured : j.secured = true := by simp [Job.secured, bound]
  cases move with
  | @update _ next valid _ =>
    have later := (validSecuredJobUpdate_secured valid secured).2.2.2 idle
    have same : ({ next with createdAt := j.createdAt } : Job).state = next.state := rfl
    rw [same, later] at claimed
    cases claimed
  | claim _ unsecured _ =>
    rw [unsecured] at secured
    cases secured
  | claimSecured _ _ verified source => exact ⟨_, _, _, _, source, verified⟩
  | park | wake | recover => cases claimed
  | @bind _ now _ _ _ =>
    rcases Job.bind_state j now with state | state | state <;> rw [state] at claimed <;> cases claimed

theorem Moves.secured (moves : Moves signing op t t') (found : Bucket.jobs.find t id = some j)
    (secured : j.secured = true) :
    ∃ j', Bucket.jobs.find t' id = some j' ∧ SameJob j j' ∧
      (j.signedAuthBound = true → j'.signedAuthBound = true) ∧
      (j.state = .canceled → j'.state = .canceled) := by
  rcases moves.job id with same | ⟨j', found', move⟩
  · exact ⟨j, same.trans found, SameJob.refl j, fun bound => bound, fun was => was⟩
  · rw [found] at move
    exact ⟨j', found', move.secured secured⟩

theorem Moves.leasesBound (moves : Moves signing op t t') (bound : LeasesBound t) :
    LeasesBound t' := by
  intro id a lease
  rcases moves.lease id with same | ⟨a', found', move⟩
  · obtain ⟨j, found, signed⟩ := bound id a (same ▸ lease)
    obtain ⟨j', found', _, kept, _⟩ := moves.secured found (by simp [Job.secured, signed])
    exact ⟨j', found', kept signed⟩
  · cases move with
    | renew _ _ _ _ _ _ _ _ after signed _ => exact ⟨_, after, signed⟩

theorem verifiedJobLease_some {nodeID : String} {keys : κ} {now : Time} {lease : JobAuthorization}
    (h : verifiedJobLease signing t j nodeID keys now = some lease) :
    Bucket.jobAuthorizations.find t j.id = some lease ∧ j.signedAuthBound = true ∧
      jobAuthorizationMatches signing j lease.binding nodeID = true ∧
      planMatches t j lease.binding.actorID ∧
      ∃ claims, verifyJobLease signing lease.envelope keys lease.binding nodeID lease.revision now =
        some claims ∧ claims.expiresAt = lease.expiresAt.unix := by
  unfold verifiedJobLease at h
  split at h
  · cases h
  rename_i current found
  split_ifs at h with unfit
  simp only [not_or, not_not, Bool.not_eq_false] at unfit
  split at h
  · cases h
  rename_i claims verified
  split_ifs at h with expiry
  cases h
  exact ⟨found, unfit.1, unfit.2.2.1, unfit.2.2.2, claims, verified, expiry⟩

end Steps

section Runs

variable {l l' : Ledger Value}

/-- The invariant of the store that secured jobs rest on. -/
structure Sound (t : Table) : Prop where
  formed : Formed t
  bound : LeasesBound t

theorem sound_empty : Sound emptyLedger.table :=
  ⟨formed_empty, fun _ _ found => nomatch found⟩

theorem Sound.step (sound : Sound l.table) (op : Op κ) : Sound (op.apply signing l).table :=
  have moves := op.moves signing sound.formed
  ⟨moves.formed, moves.leasesBound sound.bound⟩

theorem Steps.sound (run : Steps signing l l') (sound : Sound l.table) : Sound l'.table :=
  run.keeps (P := fun l => Sound l.table) (fun _ op h => Sound.step h op) sound

theorem Steps.secured (run : Steps signing l l') (sound : Sound l.table) {id : String} {j : Job}
    (found : Bucket.jobs.find l.table id = some j) (secured : j.secured = true) :
    ∃ j', Bucket.jobs.find l'.table id = some j' ∧ SameJob j j' ∧ j'.secured = true ∧
      (j.state = .canceled → j'.state = .canceled) := by
  have all := run.keeps (P := fun l => Sound l.table ∧ ∃ j', Bucket.jobs.find l.table id = some j' ∧
    SameJob j j' ∧ j'.secured = true ∧ (j.state = .canceled → j'.state = .canceled)) ?_
    ⟨sound, j, found, SameJob.refl j, secured, fun was => was⟩
  · exact all.2
  rintro l op ⟨sound, j₁, found₁, same₁, secured₁, canceled₁⟩
  have moves := op.moves signing sound.formed
  obtain ⟨j₂, found₂, same₂, kept, canceled₂⟩ := moves.secured found₁ secured₁
  refine ⟨sound.step op, j₂, found₂, same₁.trans same₂, ?_, fun was => canceled₂ (canceled₁ was)⟩
  simp only [Job.secured, same₂.plan, same₂.requires, Bool.or_eq_true] at secured₁ ⊢
  rcases secured₁ with (plan | signed) | requires
  · exact .inl (.inl plan)
  · exact .inl (.inr (kept signed))
  · exact .inr requires

theorem Steps.idempotency (run : Steps signing l l') (sound : Sound l.table) {key : String}
    {v : IdempotencyRecord} (found : Bucket.idempotency.find l.table key = some v) :
    Bucket.idempotency.find l'.table key = some v := by
  have all := run.keeps (P := fun l => Sound l.table ∧ Bucket.idempotency.find l.table key = some v)
    (fun _ op h => ⟨h.1.step op, (op.moves signing h.1.formed).idempotency key v h.2⟩) ⟨sound, found⟩
  exact all.2

/-- In every reachable store: a job with a recorded lease comes into a claimed state only
by `ClaimNextSecuredJob`, for a lease that is recorded, unexpired and verifies at that
moment; from the moment a job is secured, its type, mount, paths, options, peer, grants,
plan, actor and credential never change, nor does the key it was created under; and
once canceled it stays canceled. -/
theorem secured_jobs_run_under_lease (reached : Steps signing emptyLedger l) (id : String) (j : Job)
    (found : Bucket.jobs.find l.table id = some j) :
    (∀ (op : Op κ) (a : JobAuthorization) (j' : Job),
      Bucket.jobAuthorizations.find l.table id = some a →
      Bucket.jobs.find (op.apply signing l).table id = some j' →
      j.state.claimed = false → j'.state.claimed = true →
      ∃ nodeID keys now claims, op = .claimNextSecuredJob nodeID keys now ∧
        verifyJobLease signing a.envelope keys a.binding nodeID a.revision now = some claims ∧
        claims.expiresAt = a.expiresAt.unix ∧ now.unix < claims.expiresAt) ∧
    (j.secured = true → ∀ l', Steps signing l l' → ∃ j', Bucket.jobs.find l'.table id = some j' ∧
      SameJob j j' ∧ (j.state = .canceled → j'.state = .canceled)) ∧
    (∀ key v, Bucket.idempotency.find l.table key = some v → ∀ l', Steps signing l l' →
      Bucket.idempotency.find l'.table key = some v) := by
  have sound := reached.sound sound_empty
  refine ⟨?_, ?_, fun key v held l' run => run.idempotency sound held⟩
  · intro op a j' lease found' idle claimed
    obtain ⟨j₀, found₀, bound⟩ := sound.bound id a lease
    cases found₀.symm.trans found
    rcases (op.moves signing sound.formed).job id with same | ⟨j₁, found₁, move⟩
    · rw [same, found] at found'
      cases found'
      rw [idle] at claimed
      cases claimed
    · cases found₁.symm.trans found'
      rw [found] at move
      obtain ⟨nodeID, keys, now, held, source, verified⟩ := move.claims bound idle claimed
      obtain ⟨stored, _, _, _, claims, accepted, expiry⟩ := verifiedJobLease_some verified
      rw [(sound.formed.job found).1, lease] at stored
      cases stored
      have current := (verifyJobLease_some accepted).1.current
      exact ⟨nodeID, keys, now, claims, source, accepted, expiry, current⟩
  · intro secured l' run
    obtain ⟨j', found', same, _, canceled⟩ := run.secured sound found secured
    exact ⟨j', found', same, canceled⟩

end Runs

section Sample

/- A hash that keeps all texts apart: it exchanges the separator with a letter that may
stand in an identifier. -/
def swapSeparator (c : Char) : Char :=
  if c = '\x00' then '~' else if c = '~' then '\x00' else c

def sampleJob : Job :=
  { id := "j", type := .copyLocal, state := .queued, mountID := "m", sourcePath := "a"
    destination := "b", maxAttempts := 3 }

/-- What a lease of that job must be bound to when its destination is `destination`. -/
def sampleBinding (destination : String) : Binding :=
  { actorID := "u", credentialID := "c", operation := "copy_local", sourceNodeID := "n"
    sourceMountID := "m", sourceRoot := "a", destinationNodeID := "n", destinationMountID := "m"
    destinationRoot := destination, planID := "j" }

def sampleHash (text : String) : String := String.ofList (text.toList.map swapSeparator)

def sampleClaims (destination : String) (revision : Nat) : Claims :=
  ⟨1, "k", { sampleBinding destination with
    requestID := "job-" ++ sampleHash (leaseText "j" revision) }, 100, 120, "context"⟩

/- Three envelopes and their claims; every signature counts as good. -/
def sampleSigning : Signing Unit where
  sha256 := sampleHash
  jobOptionsDigest := fun _ => ""
  decode := fun token =>
    if token = "b1" then some (sampleClaims "b" 1)
    else if token = "b2" then some (sampleClaims "b" 2)
    else if token = "d1" then some (sampleClaims "d" 1)
    else none
  signed := fun _ _ _ => true
  decodeContext := fun _ => true

def sampleTime : Time := Time.ofUnix 110

def createdSample : Ledger Value :=
  (Op.createJob sampleJob [] "" "").apply sampleSigning emptyLedger

def leasedSample : Ledger Value :=
  (Op.renewJobAuthorization "j" "n" "b1" (sampleBinding "b") () sampleTime).apply sampleSigning
    createdSample

/-- The job is started under its lease. -/
theorem sample_claimed_under_lease :
    ∃ nodeID keys now claims,
      (Op.claimNextSecuredJob "n" () sampleTime : Op Unit) = .claimNextSecuredJob nodeID keys now ∧
        verifyJobLease sampleSigning "b1" keys (sampleBinding "b") nodeID 1 now = some claims ∧
        claims.expiresAt = 120 ∧ now.unix < claims.expiresAt := by
  have reached : Steps sampleSigning emptyLedger leasedSample :=
    (Steps.one (.createJob sampleJob [] "" "") emptyLedger).trans
      (Steps.one (.renewJobAuthorization "j" "n" "b1" (sampleBinding "b") () sampleTime) createdSample)
  have found : Bucket.jobs.find leasedSample.table "j" = some (sampleJob.bind sampleTime) := by decide
  exact (secured_jobs_run_under_lease reached "j" _ found).1 (.claimNextSecuredJob "n" () sampleTime)
    ⟨"j", sampleBinding "b", 1, "b1", Time.ofUnix 120⟩ ((sampleJob.bind sampleTime).start sampleTime)
    (by decide) (by decide) (by decide) (by decide)

def changedSample : Ledger Value :=
  (Op.updateJob { sampleJob with destination := "d" }).apply sampleSigning createdSample

def leasedChangedSample : Ledger Value :=
  (Op.renewJobAuthorization "j" "n" "d1" (sampleBinding "d") () sampleTime).apply sampleSigning
    changedSample

/-- Before a job is secured, an update may still change what it is to do: this job was
created to copy to "b" and is then bound to a lease for copying to "d". -/
theorem unsecured_job_changes_before_lease :
    Steps sampleSigning emptyLedger createdSample ∧
      Steps sampleSigning createdSample leasedChangedSample ∧
      (Bucket.jobs.find createdSample.table "j").map Job.destination = some "b" ∧
      (Bucket.jobAuthorizations.find leasedChangedSample.table "j").isSome = true ∧
      (Bucket.jobs.find leasedChangedSample.table "j").map Job.destination = some "d" :=
  ⟨Steps.one (.createJob sampleJob [] "" "") emptyLedger,
    (Steps.one (.updateJob { sampleJob with destination := "d" }) createdSample).trans
      (Steps.one (.renewJobAuthorization "j" "n" "d1" (sampleBinding "d") () sampleTime) changedSample),
    by decide, by decide, by decide⟩

end Sample

end Jolt.Jobs
