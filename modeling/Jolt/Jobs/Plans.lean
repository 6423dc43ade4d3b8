import Jolt.Jobs.Secured

/-! Destructive plans over every run of the store. A stored job that carries a plan and
the plan that names this job belong to each other for good: no operation gives the
plan to another job, changes it or purges it. -/
namespace Jolt.Jobs
open Jolt.Base Jolt.State Transaction

variable {κ : Type} {signing : Signing κ}

/-- The plan of a stored job names the job and covers it. -/
structure Uses (t : Table) (id : String) (j : Job) (plan : DestructivePlan) : Prop where
  named : id ≠ ""
  stored : Bucket.destructivePlans.find t j.destructivePlanID = some plan
  names : plan.consumedJobID = id
  covers : plan.covers j
  actor : j.requiresSignedAuth = true → j.signedAuthActorID = plan.subjectID
  lease : ∀ a, Bucket.jobAuthorizations.find t id = some a → a.binding.actorID = plan.subjectID

def PlansUsed (t : Table) : Prop :=
  ∀ id j, Bucket.jobs.find t id = some j → j.destructivePlanID ≠ "" → ∃ plan, Uses t id j plan

theorem validSecuredJobUpdate_security {old next : Job}
    (valid : validSecuredJobUpdate old next = true) : next.security = old.security := by
  by_contra other
  rw [validSecuredJobUpdate, if_pos (Ne.symm other)] at valid
  cases valid

section Steps

variable {op : Op κ} {t t' : Table} {id : String} {j j' : Job}

theorem JobMove.plan (move : JobMove signing op t t' id (some j) j') :
    j'.destructivePlanID = j.destructivePlanID := by
  cases move with
  | update valid _ =>
    have security := validSecuredJobUpdate_security valid
    simp only [Job.security, JobSecurity.mk.injEq] at security
    exact security.1
  | claim | claimSecured | park | wake | recover => rfl
  | bind => exact (Job.bind_sameJob j _).plan

theorem Moves.used (moves : Moves signing op t t') {p : String} {plan : DestructivePlan}
    (found : Bucket.destructivePlans.find t p = some plan) (used : plan.consumedJobID ≠ "") :
    Bucket.destructivePlans.find t' p = some plan := by
  rcases moves.plan p with same | move
  · exact same.trans found
  rw [found] at move
  generalize Bucket.destructivePlans.find t' p = after at move
  cases move with
  | consume unused => exact absurd unused used
  | purge unused => exact absurd unused used

theorem DestructivePlan.covers_of_scope {plan : DestructivePlan} (covers : plan.covers j)
    (same : j'.scope = j.scope) : plan.covers j' := by
  simp only [Job.scope, JobScope.mk.injEq] at same
  obtain ⟨_, mount, source, destination, _⟩ := same
  exact ⟨mount.trans covers.1, fun other =>
    ⟨source.trans (covers.2 other).1, destination.trans (covers.2 other).2⟩⟩

theorem secured_of_plan (planned : j.destructivePlanID ≠ "") : j.secured = true := by
  simp [Job.secured, planned]

theorem Uses.move {plan : DestructivePlan} (uses : Uses t id j plan)
    (planned : j.destructivePlanID ≠ "") (moves : Moves signing op t t')
    (found : Bucket.jobs.find t id = some j) (same : SameJob j j') : Uses t' id j' plan := by
  refine ⟨uses.named, ?_, uses.names, DestructivePlan.covers_of_scope uses.covers same.scope, ?_, ?_⟩
  · rw [same.plan]
    exact moves.used uses.stored (by rw [uses.names]; exact uses.named)
  · rw [same.requires, same.actor]
    exact uses.actor
  intro a lease
  rcases moves.lease id with unchanged | ⟨a', recorded, move⟩
  · exact uses.lease a (unchanged ▸ lease)
  cases recorded.symm.trans lease
  cases move with
  | renew _ _ _ _ _ held matching _ _ _ _ =>
    cases held.symm.trans found
    rcases matching with none | ⟨plan', stored, _, subject⟩
    · exact absurd none planned
    · cases stored.symm.trans uses.stored
      exact subject.symm

theorem Moves.newUse (moves : Moves signing op t t') (bound : LeasesBound t)
    (absent : Bucket.jobs.find t id = none) (found : Bucket.jobs.find t' id = some j)
    (planned : j.destructivePlanID ≠ "") :
    ∃ plan, Uses t' id j plan ∧ op.subject = some (plan.subjectType, plan.subjectID) := by
  rcases moves.job id with same | ⟨j', found', move⟩
  · rw [same, absent] at found
    cases found
  cases found'.symm.trans found
  rw [absent] at move
  cases move with
  | create fresh unbound origin =>
    rcases origin with none | ⟨plan, key, hash, _, _, after, covers, subject, actor, named⟩
    · exact absurd none planned
    have sameID : j.id = id := (moves.formed.job found).1
    refine ⟨plan.usedBy j.id key hash, ⟨sameID ▸ named, after, sameID, covers, actor, ?_⟩, subject⟩
    -- no lease can be there before its job
    intro a lease
    rcases moves.lease id with unchanged | ⟨a', _, move⟩
    · rw [unchanged] at lease
      obtain ⟨_, earlier, _⟩ := bound id a lease
      rw [absent] at earlier
      cases earlier
    · cases move with
      | renew _ _ _ _ _ held _ _ _ _ _ =>
        rw [absent] at held
        cases held

theorem Moves.plansUsed (moves : Moves signing op t t') (bound : LeasesBound t)
    (used : PlansUsed t) : PlansUsed t' := by
  intro id j found planned
  cases earlier : Bucket.jobs.find t id with
  | none =>
    obtain ⟨plan, uses, _⟩ := moves.newUse bound earlier found planned
    exact ⟨plan, uses⟩
  | some j₀ =>
    rcases moves.job id with same | ⟨j', found', move⟩
    · rw [same] at found
      obtain ⟨plan, uses⟩ := used id j found planned
      exact ⟨plan, uses.move planned moves found (SameJob.refl j)⟩
    · cases found'.symm.trans found
      rw [earlier] at move
      have planned₀ : j₀.destructivePlanID ≠ "" := move.plan ▸ planned
      obtain ⟨plan, uses⟩ := used id j₀ earlier planned₀
      exact ⟨plan, uses.move planned₀ moves earlier (move.secured (secured_of_plan planned₀)).1⟩

end Steps

section Accepting

variable {l : Ledger Value} {plan : DestructivePlan} {a : Job × Bool}

theorem acceptDestructivePlan_used {q : PlanRequest} {job : Job}
    (found : Bucket.destructivePlans.find l.table q.id = some plan) (used : plan.consumedJobID ≠ "")
    (h : (transact l (acceptDestructivePlan signing l q job)).2 = .ok a) :
    Bucket.jobs.find l.table plan.consumedJobID = some a.1 ∧ a.2 = true := by
  rcases transact_cases l (acceptDestructivePlan signing l q job) with
    ⟨⟨e, failed⟩, _⟩ | ⟨rs, a', commits, answer, _⟩
  · rw [failed] at h
    cases h
  rw [answer] at h
  cases h
  unfold acceptDestructivePlan at commits
  simp only [commits_refuseIf_bind, commits_check_bind] at commits
  obtain ⟨_, plan', got, _, commits⟩ := commits
  cases (Bucket.get_ok.mp got).symm.trans found
  rw [if_pos used] at commits
  simp only [commits_refuseIf_bind, commits_check_bind, commits_pure] at commits
  obtain ⟨_, accepted, stored, _, rfl⟩ := commits
  exact ⟨Bucket.get_ok.mp stored, rfl⟩

theorem createPlannedMove_used {j : Job} {items : List JobItem}
    {actorID credentialID key hash : String} {b : MovePlanBinding}
    (found : Bucket.destructivePlans.find l.table b.planID = some plan)
    (used : plan.consumedJobID ≠ "")
    (h : (transact l (createPlannedMoveAwaitingAuthorization l j items actorID credentialID key hash
      b)).2 = .ok a) :
    a.2 = true ∧ a.1.destructivePlanID = b.planID ∧
      ∃ id, Bucket.jobs.find l.table id = some a.1 := by
  rcases transact_cases l (createPlannedMoveAwaitingAuthorization l j items actorID credentialID key
    hash b) with ⟨⟨e, failed⟩, _⟩ | ⟨rs, a', commits, answer, _⟩
  · rw [failed] at h
    cases h
  rw [answer] at h
  cases h
  unfold createPlannedMoveAwaitingAuthorization createAwaitingAuthorization at commits
  simp only [commits_refuseIf_bind] at commits
  obtain ⟨_, _, commits⟩ := commits
  split at commits
  · simp only [commits_refuseIf_bind, commits_check_bind, commits_pure, not_or, not_exists,
      not_and, not_not] at commits
    obtain ⟨_, stored, got, ⟨_, _, _, plans⟩, _, rfl⟩ := commits
    exact ⟨rfl, plans b rfl, _, Bucket.get_ok.mp got⟩
  · simp only [commits_refuseIf_bind, commits_note_bind] at commits
    obtain ⟨_, commits⟩ := commits
    obtain ⟨_, _, _, consumed, _, _⟩ := commits_bind.mp commits
    obtain ⟨plan', found', _, _, _, _, unused, _⟩ := consumeMovePlan_records consumed
    cases found'.symm.trans found
    exact absurd unused used
  · exact absurd commits commits_refuse

end Accepting

section Runs

variable {l l' : Ledger Value}

theorem Steps.plansUsed (run : Steps signing l l') (sound : Sound l.table)
    (used : PlansUsed l.table) : PlansUsed l'.table := by
  have all := run.keeps (P := fun l => Sound l.table ∧ PlansUsed l.table) ?_ ⟨sound, used⟩
  · exact all.2
  · rintro l op ⟨sound, used⟩
    exact ⟨sound.step op, (op.moves signing sound.formed).plansUsed sound.bound used⟩

theorem Steps.used (run : Steps signing l l') (sound : Sound l.table) {p : String}
    {plan : DestructivePlan} (found : Bucket.destructivePlans.find l.table p = some plan)
    (used : plan.consumedJobID ≠ "") : Bucket.destructivePlans.find l'.table p = some plan := by
  have all := run.keeps
    (P := fun l => Sound l.table ∧ Bucket.destructivePlans.find l.table p = some plan) ?_
    ⟨sound, found⟩
  · exact all.2
  · rintro l op ⟨sound, found⟩
    exact ⟨sound.step op, (op.moves signing sound.formed).used found used⟩

theorem PlansUsed.unique {t : Table} (used : PlansUsed t) {id id' : String} {j j' : Job}
    (found : Bucket.jobs.find t id = some j) (found' : Bucket.jobs.find t id' = some j')
    (planned : j.destructivePlanID ≠ "") (same : j'.destructivePlanID = j.destructivePlanID) :
    id' = id := by
  obtain ⟨plan, uses⟩ := used id j found planned
  obtain ⟨plan', uses'⟩ := used id' j' found' (same ▸ planned)
  have stored := uses'.stored
  rw [same, uses.stored] at stored
  cases stored
  exact uses'.names.symm.trans uses.names

/-- Destructive plans in every reachable store. A job that comes with a plan is made for
the plan's subject. From then on the plan is stored unchanged and names this job, which
keeps the plan's mount and, unless the plan is for a move between nodes, its paths; any
lease of the job is for the plan's subject; no other job ever carries the plan; and
accepting the plan again, or creating a move for it, answers this job or an error. -/
theorem destructive_plans_used_once (reached : Steps signing emptyLedger l) :
    (∀ (op : Op κ) (id : String) (j : Job), Bucket.jobs.find l.table id = none →
      Bucket.jobs.find (op.apply signing l).table id = some j → j.destructivePlanID ≠ "" →
      ∃ plan, Bucket.destructivePlans.find (op.apply signing l).table j.destructivePlanID = some plan ∧
        plan.consumedJobID = id ∧ op.subject = some (plan.subjectType, plan.subjectID)) ∧
    (∀ (id : String) (j : Job), Bucket.jobs.find l.table id = some j → j.destructivePlanID ≠ "" →
      ∃ plan, plan.consumedJobID = id ∧ ∀ l', Steps signing l l' →
        Bucket.destructivePlans.find l'.table j.destructivePlanID = some plan ∧
        (∃ j', Bucket.jobs.find l'.table id = some j' ∧
          j'.destructivePlanID = j.destructivePlanID ∧ j'.mountID = plan.mountID ∧
          (plan.operation ≠ .transferMove →
            j'.sourcePath = plan.source ∧ j'.destination = plan.destination) ∧
          (j'.requiresSignedAuth = true → j'.signedAuthActorID = plan.subjectID)) ∧
        (∀ a, Bucket.jobAuthorizations.find l'.table id = some a →
          a.binding.actorID = plan.subjectID) ∧
        (∀ id' j', Bucket.jobs.find l'.table id' = some j' →
          j'.destructivePlanID = j.destructivePlanID → id' = id) ∧
        (∀ (q : PlanRequest) (job : Job) (a : Job × Bool), q.id = j.destructivePlanID →
          (transact l' (acceptDestructivePlan signing l' q job)).2 = .ok a →
          Bucket.jobs.find l'.table id = some a.1 ∧ a.2 = true) ∧
        (∀ (new : Job) (items : List JobItem) (actorID credentialID key hash : String)
          (b : MovePlanBinding) (a : Job × Bool), b.planID = j.destructivePlanID →
          (transact l' (createPlannedMoveAwaitingAuthorization l' new items actorID credentialID key
            hash b)).2 = .ok a → Bucket.jobs.find l'.table id = some a.1 ∧ a.2 = true)) := by
  have sound := reached.sound sound_empty
  have used : PlansUsed l.table := reached.plansUsed sound_empty (fun _ _ found => nomatch found)
  constructor
  · intro op id j absent found planned
    obtain ⟨plan, uses, subject⟩ :=
      (op.moves signing sound.formed).newUse sound.bound absent found planned
    exact ⟨plan, uses.stored, uses.names, subject⟩
  · intro id j found planned
    obtain ⟨plan, uses⟩ := used id j found planned
    have named : plan.consumedJobID ≠ "" := uses.names ▸ uses.named
    refine ⟨plan, uses.names, fun l' run => ?_⟩
    have stored := run.used sound uses.stored named
    obtain ⟨j', found', same, _, _⟩ := run.secured sound found (secured_of_plan planned)
    have used' := run.plansUsed sound used
    have planned' : j'.destructivePlanID ≠ "" := same.plan ▸ planned
    obtain ⟨plan', uses'⟩ := used' id j' found' planned'
    have samePlan : plan' = plan := by
      have again := uses'.stored
      rw [same.plan, stored] at again
      exact (Option.some.inj again).symm
    subst samePlan
    refine ⟨stored, ⟨j', found', same.plan, uses'.covers.1, uses'.covers.2, uses'.actor⟩, uses'.lease,
      ?_, ?_, ?_⟩
    · exact fun id₁ j₁ found₁ same₁ => used'.unique found' found₁ planned' (same₁.trans same.plan.symm)
    · intro q job a asked answer
      rw [← asked] at stored
      rw [← uses.names]
      exact acceptDestructivePlan_used stored named answer
    · intro new items actorID credentialID key hash b a asked answer
      rw [← asked] at stored
      obtain ⟨again, carries, id₁, found₁⟩ := createPlannedMove_used stored named answer
      have sameID : id₁ = id := used'.unique found' found₁ planned'
        (carries.trans (asked.trans same.plan.symm))
      exact ⟨sameID ▸ found₁, again⟩

end Runs

section Sample

def sampleDigest : String :=
  "0123456789abcdef0123456789abcdef0123456789abcdef0123456789abcdef"

def samplePlan : DestructivePlan :=
  { id := "p", tokenHash := sampleDigest, subjectType := .user, subjectID := "u"
    operation := .delete, mountID := "m", source := "a", treeDigest := sampleDigest }

def sampleRequest : PlanRequest :=
  ⟨"p", .user, "u", sampleDigest, sampleDigest, false, "", "key", sampleDigest, sampleTime⟩

def sampleDelete : Job :=
  { id := "d", type := .delete, state := .queued, mountID := "m", sourcePath := "a"
    recursive := true, maxAttempts := 3 }

def plannedSample : Ledger Value :=
  (Op.createDestructivePlan samplePlan sampleTime).apply sampleSigning emptyLedger

def acceptedSample : Ledger Value :=
  (Op.acceptDestructivePlan sampleRequest sampleDelete).apply sampleSigning plannedSample

/-- The accepted plan survives a purge after its end. -/
theorem sample_plan_kept :
    ∃ plan, plan.consumedJobID = "d" ∧
      Bucket.destructivePlans.find ((Op.purgeExpiredDestructivePlans (sampleTime + 6 * Time.minute)).apply
        sampleSigning acceptedSample).table "p" = some plan := by
  have reached : Steps sampleSigning emptyLedger acceptedSample :=
    (Steps.one (.createDestructivePlan samplePlan sampleTime) emptyLedger).trans
      (Steps.one (.acceptDestructivePlan sampleRequest sampleDelete) plannedSample)
  have found : Bucket.jobs.find acceptedSample.table "d" =
      some (sampleDelete.confirmed samplePlan) := by decide
  obtain ⟨plan, names, always⟩ :=
    (destructive_plans_used_once reached).2 "d" _ found (by decide)
  exact ⟨plan, names, (always _ (Steps.one (.purgeExpiredDestructivePlans _) acceptedSample)).1⟩

def sampleMovePlan : DestructivePlan :=
  { id := "p", tokenHash := sampleDigest, subjectType := .user, subjectID := "u"
    operation := .transferMove, mountID := "m", treeDigest := sampleDigest }

def sampleMove : Job :=
  { id := "t", type := .transferMoveBatch, state := .queued, mountID := "m", destination := "dir"
    maxAttempts := 3 }

def sampleItem : JobItem :=
  { jobID := "t", ordinal := 0, relativePath := "a", sourcePath := "a", destinationPath := "dir/a"
    type := .file, action := .copy, state := .pending }

def movePlannedSample : Ledger Value :=
  (Op.createTransferMovePlan sampleMovePlan sampleTime).apply sampleSigning emptyLedger

def moveCreatedSample : Ledger Value :=
  (Op.createPlannedMoveAwaitingAuthorization sampleMove [sampleItem] "u" "c" "key" sampleDigest
    ⟨"p", .user, sampleDigest, sampleDigest, sampleTime⟩).apply sampleSigning movePlannedSample

/-- The plan of a move between nodes records no paths, while its job has a destination. -/
theorem transfer_move_plan_has_no_paths :
    Steps sampleSigning emptyLedger moveCreatedSample ∧
      (Bucket.jobs.find moveCreatedSample.table "t").map
        (fun j => (j.destructivePlanID, j.destination)) = some ("p", "dir") ∧
      (Bucket.destructivePlans.find moveCreatedSample.table "p").map
        (fun plan => (plan.consumedJobID, plan.destination)) = some ("t", "") :=
  ⟨(Steps.one (.createTransferMovePlan sampleMovePlan sampleTime) emptyLedger).trans
      (Steps.one (.createPlannedMoveAwaitingAuthorization sampleMove [sampleItem] "u" "c" "key"
        sampleDigest ⟨"p", .user, sampleDigest, sampleDigest, sampleTime⟩) movePlannedSample),
    by decide, by decide⟩

end Sample

end Jolt.Jobs
