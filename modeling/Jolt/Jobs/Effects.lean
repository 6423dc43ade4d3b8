import Jolt.Jobs.Moves

/-! What each operation of the job store writes. For every function one lemma lists its
records, or says of each of them why it is there; together they give one statement
about all operations. -/
namespace Jolt.Jobs
open Jolt.Base Jolt.State Transaction List

variable {κ : Type} {signing : Signing κ} {l : Ledger Value} {rs : List (Record Value)}

variable (signing) in
/-- Every record of a transaction is there for a reason the operation has. -/
def Justifies (op : Op κ) (t : Table) (rs : List (Record Value)) : Prop :=
  ∀ r ∈ rs, Justified signing op t (t.applyAll rs) r

section Creation

variable {hash key : String} {items : List JobItem} {j : Job} {now : Time} {plan : DestructivePlan}
  {u : Unit}

theorem putItems_bucket {jobID : String} {seen : List String}
    (h : (putItems jobID seen items).Commits rs u) : ∀ r ∈ rs, r.bucket = "items" := by
  induction items generalizing seen rs with
  | nil =>
    exact of_commits_pure h
  | cons item items ih =>
    simp only [putItems, putItem, commits_refuseIf_bind, commits_put_bind] at h
    obtain ⟨_, rest, follows, rfl⟩ := h
    intro r hr
    rcases mem_cons.mp hr with rfl | hr
    · rfl
    · exact ih follows r hr

theorem putNewJob_records (h : (putNewJob j items key hash).Commits rs u) :
    ∃ details, rs = Bucket.jobs.put j.id j.peerNodeID j.createdAt.order j :: details ∧
      ∀ r ∈ details, r.bucket = "items" ∨
        (key ≠ "" ∧ r = Bucket.idempotency.put key "" "" ⟨j.id, hash⟩) := by
  simp only [putNewJob, putJob, commits_put_bind] at h
  obtain ⟨details, h, rfl⟩ := h
  obtain ⟨itemRecords, _, keyRecords, placed, keyed, rfl⟩ := commits_bind.mp h
  refine ⟨_, rfl, ?_⟩
  intro r hr
  rcases mem_append.mp hr with hr | hr
  · exact .inl (putItems_bucket placed r hr)
  unfold putIdempotency at keyed
  split_ifs at keyed with empty
  · rw [(commits_pure.mp keyed).1] at hr
    exact absurd hr not_mem_nil
  · rw [commits_put.mp keyed, mem_singleton] at hr
    exact .inr ⟨empty, hr⟩

theorem claimsAuthorization_eq_false (h : j.claimsAuthorization = false) :
    j.destructivePlanID = "" ∧ j.signedAuthBound = false ∧ j.requiresSignedAuth = false ∧
      j.signedAuthActorID = "" ∧ j.signedAuthCredentialID = "" := by
  simpa [Job.claimsAuthorization, and_assoc] using h

theorem createJob_justified {a : Job × Bool}
    (h : (createJobWithItemsHashed l j items key hash).Commits rs a) :
    Justifies signing (.createJob j items key hash) l.table rs := by
  unfold createJobWithItemsHashed at h
  simp only [commits_refuseIf_bind] at h
  obtain ⟨plain, h⟩ := h
  obtain ⟨noPlan, unbound, _⟩ := claimsAuthorization_eq_false (Bool.eq_false_iff.mpr plain)
  split at h
  · simp only [commits_refuseIf_bind, commits_check_bind, commits_pure] at h
    obtain ⟨_, _, _, _, rfl, _⟩ := h
    exact fun r hr => absurd hr not_mem_nil
  · rename_i unknown
    simp only [commits_refuseIf_bind] at h
    obtain ⟨fresh, h⟩ := h
    obtain ⟨_, stored, _⟩ := commits_bind_pure.mp h
    obtain ⟨details, rfl, detail⟩ := putNewJob_records stored
    have absent : Bucket.jobs.holds l.table j.id = false := Bool.eq_false_iff.mpr fresh
    intro r hr
    rcases mem_cons.mp hr with rfl | hr
    · refine .job rfl rfl ?_
      rw [Bucket.find_of_absent absent]
      exact .create absent unbound (.inl noPlan)
    · rcases detail r hr with item | ⟨keyed, rfl⟩
      · exact .detail (.inl item)
      · rw [if_neg keyed] at unknown
        exact .idempotency rfl (.inl rfl) (Bucket.get_notFound.mp unknown)
  · exact absurd h commits_refuse

theorem find_used {t : Table} {p : DestructivePlan} {j : Job} {details : List (Record Value)}
    {group order group' order' : String}
    (quiet : ∀ r ∈ details, r.bucket ≠ "jobs" ∧ r.bucket ≠ "destructive_plans") :
    Bucket.destructivePlans.find (t.applyAll (Bucket.destructivePlans.put p.id group order p ::
        Bucket.jobs.put j.id group' order' j :: details)) p.id = some p ∧
      Bucket.jobs.find (t.applyAll (Bucket.destructivePlans.put p.id group order p ::
        Bucket.jobs.put j.id group' order' j :: details)) j.id = some j := by
  simp only [Index.applyAll_cons]
  rw [Bucket.find_applyAll_other (fun r hr => .inl (quiet r hr).2),
    Bucket.find_applyAll_other (fun r hr => .inl (quiet r hr).1),
    Bucket.find_put_other (by decide), Bucket.find_put, Bucket.find_put, if_pos rfl, if_pos rfl]
  exact ⟨rfl, rfl⟩

theorem used_justified {t : Table} {op : Op κ} {p : DestructivePlan} {details : List (Record Value)}
    {group order group' order' : String}
    (quiet : ∀ r ∈ details, r.bucket ≠ "jobs" ∧ r.bucket ≠ "destructive_plans")
    (kept : ∀ t', ∀ r ∈ details, Justified signing op t t' r)
    (found : Bucket.destructivePlans.find t p.id = some p) (unused : p.consumedJobID = "")
    (absent : Bucket.jobs.holds t j.id = false) (named : j.id ≠ "")
    (uses : j.destructivePlanID = p.id) (unbound : j.signedAuthBound = false) (covers : p.covers j)
    (subject : op.subject = some (p.subjectType, p.subjectID))
    (actor : j.requiresSignedAuth = true → j.signedAuthActorID = p.subjectID)
    {records : List (Record Value)} (all : records = Bucket.destructivePlans.put p.id group order
      (p.usedBy j.id key hash) :: Bucket.jobs.put j.id group' order' j :: details) :
    Justifies signing op t records := by
  obtain ⟨planAfter, jobAfter⟩ := @find_used t (p.usedBy j.id key hash) j details group order
    group' order' quiet
  have sameID : (p.usedBy j.id key hash).id = p.id := rfl
  rw [sameID, ← all] at planAfter jobAfter
  intro r hr
  rw [all] at hr
  rcases mem_cons.mp hr with rfl | hr
  · refine .plan rfl rfl ?_
    rw [found]
    exact .consume unused absent named jobAfter uses
  rcases mem_cons.mp hr with rfl | hr
  · refine .job rfl rfl ?_
    rw [Bucket.find_of_absent absent]
    refine .create absent unbound
      (.inr ⟨p, key, hash, ?_, unused, ?_, covers, subject, actor, named⟩)
    · rw [uses]
      exact found
    · rw [uses]
      exact planAfter
  · exact kept _ r hr

theorem consumeMovePlan_records {binding : MovePlanBinding} {actorID : String} {job job' : Job}
    (h : (consumeMovePlan l binding actorID job key hash).Commits rs job') :
    ∃ plan, Bucket.destructivePlans.find l.table binding.planID = some plan ∧
      plan.operation = .transferMove ∧ plan.subjectType = binding.subjectType ∧
      plan.subjectID = actorID ∧ plan.mountID = job.mountID ∧ plan.consumedJobID = "" ∧
      rs = [Bucket.destructivePlans.put plan.id plan.subjectID plan.createdAt.order
        (plan.usedBy job.id key hash)] ∧ job' = job.using plan.id := by
  unfold consumeMovePlan at h
  split at h
  · exact absurd h commits_refuse
  rename_i plan found
  simp only [commits_refuseIf_bind, commits_put_bind, commits_pure, not_or, not_not] at h
  obtain ⟨⟨operation, subjectType, subjectID, mount, unused, _⟩, _, ⟨rfl, rfl⟩, rfl⟩ := h
  exact ⟨plan, Bucket.get_ok.mp found, operation, subjectType, subjectID, mount, unused, rfl, rfl⟩

theorem createAwaiting_justified (formed : Formed l.table) {op : Op κ}
    {actorID credentialID : String} {plan : Option MovePlanBinding} {a : Job × Bool}
    (subject : ∀ binding ∈ plan, op.subject = some (binding.subjectType, actorID))
    (h : (createAwaitingAuthorization l j items actorID credentialID key hash plan).Commits rs a) :
    Justifies signing op l.table rs := by
  unfold createAwaitingAuthorization at h
  simp only [commits_refuseIf_bind, not_or, not_not] at h
  obtain ⟨⟨⟨validID, _⟩, _, _, _, plain⟩, h⟩ := h
  obtain ⟨noPlan, unbound, _⟩ := claimsAuthorization_eq_false (Bool.eq_false_iff.mpr plain)
  split at h
  · simp only [commits_refuseIf_bind, commits_check_bind, commits_pure] at h
    obtain ⟨_, _, _, _, rfl, _⟩ := h
    exact fun r hr => absurd hr not_mem_nil
  · rename_i unknown
    simp only [commits_refuseIf_bind, commits_note_bind] at h
    obtain ⟨fresh, h⟩ := h
    have absent : Bucket.jobs.holds l.table j.id = false := Bool.eq_false_iff.mpr fresh
    obtain ⟨planRecords, j', rest, used, following, rfl⟩ := commits_bind.mp h
    obtain ⟨_, stored, _⟩ := commits_bind_pure.mp following
    obtain ⟨details, rfl, detail⟩ := putNewJob_records stored
    have kept : ∀ t', ∀ r ∈ details, Justified signing op l.table t' r := by
      intro t' r hr
      rcases detail r hr with item | ⟨_, rfl⟩
      · exact .detail (.inl item)
      · exact .idempotency rfl (.inl rfl) (Bucket.get_notFound.mp unknown)
    have quiet : ∀ r ∈ details, r.bucket ≠ "jobs" ∧ r.bucket ≠ "destructive_plans" := by
      intro r hr
      rcases detail r hr with item | ⟨_, rfl⟩
      · rw [item]
        decide
      · simp
    cases plan with
    | none =>
      obtain ⟨rfl, rfl⟩ := commits_pure.mp used
      intro r hr
      rcases mem_cons.mp hr with rfl | hr
      · refine .job rfl rfl ?_
        rw [show (j.awaiting actorID credentialID).id = j.id from rfl, Bucket.find_of_absent absent]
        exact .create absent unbound (.inl noPlan)
      · exact kept _ r hr
    | some binding =>
      obtain ⟨plan, found, operation, subjectType, subjectID, mount, unused, rfl, rfl⟩ :=
        consumeMovePlan_records used
      have named : plan.id = binding.planID := formed.plan found
      rw [← named] at found
      exact used_justified (j := (j.using plan.id).awaiting actorID credentialID) quiet kept found
        unused absent (validKeyID_ne_empty validID) rfl unbound
        ⟨mount.symm, fun other => absurd operation other⟩
        (by rw [subject binding rfl, subjectType, subjectID]) (fun _ => subjectID.symm) rfl
  · exact absurd h commits_refuse

theorem acceptDestructivePlan_justified (formed : Formed l.table) {q : PlanRequest} {job : Job}
    {a : Job × Bool} (h : (acceptDestructivePlan signing l q job).Commits rs a) :
    Justifies signing (.acceptDestructivePlan q job) l.table rs := by
  unfold acceptDestructivePlan at h
  simp only [commits_refuseIf_bind, commits_check_bind, not_not] at h
  obtain ⟨_, plan, got, fits, h⟩ := h
  have found := Bucket.get_ok.mp got
  have named : plan.id = q.id := formed.plan found
  rw [← named] at found
  obtain ⟨subjectType, subjectID, _, mount, source, destination, _⟩ := fits
  split_ifs at h with used
  · simp only [commits_refuseIf_bind, commits_check_bind, commits_pure] at h
    obtain ⟨_, _, _, rfl, _⟩ := h
    exact fun r hr => absurd hr not_mem_nil
  · simp only [commits_refuseIf_bind, not_or, not_not] at h
    obtain ⟨⟨_, _, _, _, _, validID, _, plain⟩, fresh, h⟩ := h
    obtain ⟨_, unbound, unsigned, _⟩ := claimsAuthorization_eq_false (Bool.eq_false_iff.mpr plain)
    split at h
    · exact absurd h commits_refuse
    · rename_i unknown
      simp only [putJob, commits_put_bind, commits_pure] at h
      obtain ⟨_, ⟨_, ⟨_, ⟨rfl, _⟩, rfl⟩, rfl⟩, rfl⟩ := h
      refine used_justified (j := job.confirmed plan) ?_ ?_ found (not_not.mp used)
        (Bool.eq_false_iff.mpr fresh) (validKeyID_ne_empty validID) rfl unbound
        ⟨mount, fun _ => ⟨source, destination⟩⟩ (by rw [Op.subject, subjectType, subjectID])
        (fun signed => ?_) rfl
      · intro r hr
        rw [mem_singleton.mp hr]
        simp
      · intro t' r hr
        exact .idempotency (mem_singleton.mp hr) (.inr rfl) (Bucket.get_notFound.mp unknown)
      · exact absurd (unsigned.symm.trans signed) (by decide)
    · exact absurd h commits_refuse

theorem recordPlan_justified {op : Op κ} (unused : plan.consumedJobID = "")
    (h : (recordPlan l plan now).Commits rs u) :
    Justifies signing op l.table rs := by
  simp only [recordPlan, commits_refuseIf_bind, commits_note_bind, commits_put] at h
  obtain ⟨fresh, rfl⟩ := h
  have absent : Bucket.destructivePlans.holds l.table plan.id = false := Bool.eq_false_iff.mpr fresh
  intro r hr
  refine .plan (mem_singleton.mp hr) rfl ?_
  rw [Bucket.find_of_absent absent]
  exact .create absent unused

theorem DestructivePlan.fresh_unused (h : plan.fresh now = true) : plan.consumedJobID = "" := by
  simp only [DestructivePlan.fresh, Bool.and_eq_true, beq_iff_eq] at h
  exact h.1.1.2

theorem createDestructivePlan_justified (h : (createDestructivePlan l plan now).Commits rs u) :
    Justifies signing (.createDestructivePlan plan now) l.table rs := by
  simp only [createDestructivePlan, commits_refuseIf_bind, not_or, Bool.not_eq_false] at h
  obtain ⟨⟨fresh, _⟩, h⟩ := h
  obtain ⟨first, _, rest, checked, recorded, rfl⟩ := commits_bind.mp h
  have none : first = [] := by
    unfold checkPlan refuseIf at checked
    split at checked
    any_goals split_ifs at checked
    all_goals first | exact (commits_pure.mp checked).1 | exact absurd checked commits_refuse
  rw [none]
  exact recordPlan_justified (DestructivePlan.fresh_unused fresh) recorded

theorem createTransferMovePlan_justified (h : (createTransferMovePlan l plan now).Commits rs u) :
    Justifies signing (.createTransferMovePlan plan now) l.table rs := by
  simp only [createTransferMovePlan, commits_refuseIf_bind, not_or, Bool.not_eq_false] at h
  obtain ⟨⟨fresh, _⟩, recorded⟩ := h
  exact recordPlan_justified (DestructivePlan.fresh_unused fresh) recorded

theorem purgeFrom_justified {op : Op κ} {t t' : Table} {ids : List String} {removed n : Nat}
    (h : (purgeFrom t now removed ids).Commits rs n) :
    ∀ r ∈ rs, Justified signing op t t' r := by
  induction ids generalizing removed rs with
  | nil =>
    exact of_commits_pure h
  | cons id ids ih =>
    unfold purgeFrom at h
    split_ifs at h with full
    · exact of_commits_pure h
    obtain ⟨plan, got, h⟩ := commits_check_bind.mp h
    split_ifs at h with expired
    · obtain ⟨rest, follows, rfl⟩ := commits_put_bind.mp h
      intro r hr
      rcases mem_cons.mp hr with rfl | hr
      · refine .purge rfl ?_
        rw [Bucket.get_ok.mp got]
        exact .purge expired.1
      · exact ih follows r hr
    · exact ih h

theorem purge_justified {n : Nat} (h : (purgeExpiredDestructivePlans l now).Commits rs n) :
    Justifies signing (.purgeExpiredDestructivePlans now) l.table rs := by
  simp only [purgeExpiredDestructivePlans, commits_refuseIf_bind] at h
  exact purgeFrom_justified h.2

end Creation

section Scheduling

variable {now : Time} {u : Unit}

theorem updateJob_records {j : Job} (h : (updateJob l j).Commits rs u) :
    ∃ old, Bucket.jobs.find l.table j.id = some old ∧ validSecuredJobUpdate old j = true ∧
      rs = [Bucket.jobs.put j.id j.peerNodeID old.createdAt.order
        { j with createdAt := old.createdAt }] := by
  simp only [updateJob, putJob, commits_check_bind, commits_refuseIf_bind, commits_put,
    Bool.not_eq_false] at h
  obtain ⟨old, got, valid, rfl⟩ := h
  exact ⟨old, Bucket.get_ok.mp got, valid, rfl⟩

theorem updateJob_justified {j : Job} (h : (updateJob l j).Commits rs u) :
    Justifies signing (.updateJob j) l.table rs := by
  obtain ⟨old, found, valid, rfl⟩ := updateJob_records h
  intro r hr
  refine .job (mem_singleton.mp hr) rfl ?_
  rw [found]
  exact .update valid (.inl rfl)

theorem updateJobWithEvent_records {j : Job} {event : JobEvent}
    (h : (updateJobWithEvent l j event).Commits rs u) :
    ∃ old e, Bucket.jobs.find l.table j.id = some old ∧ validSecuredJobUpdate old j = true ∧
      rs = [Bucket.jobs.put j.id j.peerNodeID old.createdAt.order
        { j with createdAt := old.createdAt }, e] ∧ e.bucket = "events" := by
  simp only [updateJobWithEvent, putEvent, putJob, commits_check_bind, commits_refuseIf_bind,
    commits_put_bind, Bool.not_eq_false, not_not] at h
  obtain ⟨_, old, got, valid, rest, h, rfl⟩ := h
  obtain ⟨_, put, _⟩ := commits_bind_pure.mp h
  obtain ⟨_, done, rfl⟩ := commits_put_bind.mp put
  obtain ⟨rfl, _⟩ := commits_pure.mp done
  exact ⟨old, _, Bucket.get_ok.mp got, valid, rfl, rfl⟩

theorem updateJobWithEvent_justified {j : Job} {event : JobEvent}
    (h : (updateJobWithEvent l j event).Commits rs u) : Justifies signing (.updateJobWithEvent j event) l.table rs := by
  obtain ⟨old, e, found, valid, rfl, bucket⟩ := updateJobWithEvent_records h
  intro r hr
  rcases mem_cons.mp hr with rfl | hr
  · refine .job rfl rfl ?_
    rw [found]
    exact .update valid (.inr ⟨event, rfl⟩)
  · rw [mem_singleton.mp hr]
    exact .detail (.inr bucket)

theorem claimFrom_records {t : Table} {ids : List String} {a : Job}
    (h : (claimFrom t now ids).Commits rs a) :
    ∃ id j, Bucket.jobs.find t id = some j ∧ j.state = .queued ∧ j.secured = false ∧ j.due now ∧
      a = j.start now ∧ rs = [Bucket.jobs.put id j.peerNodeID j.createdAt.order (j.start now)] := by
  induction ids with
  | nil => exact absurd h commits_refuse
  | cons id ids ih =>
    obtain ⟨j, got, h⟩ := commits_check_bind.mp h
    split_ifs at h with skipped
    · exact ih h
    simp only [putJobAt, commits_put_bind, commits_pure] at h
    obtain ⟨_, ⟨rfl, rfl⟩, rfl⟩ := h
    simp only [not_or, not_not, Bool.not_eq_true] at skipped
    exact ⟨id, j, Bucket.get_ok.mp got, skipped.1, skipped.2.1, skipped.2.2, rfl, rfl⟩

theorem claimNextJob_justified (formed : Formed l.table) {a : Job}
    (h : (claimNextJob l now).Commits rs a) :
    Justifies signing (.claimNextJob now) l.table rs := by
  obtain ⟨id, j, found, queued, unsecured, _, _, rfl⟩ := claimFrom_records h
  intro r hr
  refine .job (mem_singleton.mp hr) (formed.job found).1 ?_
  rw [found]
  exact .claim queued unsecured rfl

/-- Every job the loop of `ClaimNextSecuredJob` writes was queued and executable; it is
started if its lease verifies, and put back if not. -/
theorem claimSecuredFrom_records {t : Table} {nodeID : String} {keys : κ} {ids : List String}
    {a : Option Job} (h : (claimSecuredFrom signing t nodeID keys now ids).Commits rs a) : ∀ r ∈ rs,
      ∃ id j, Bucket.jobs.find t id = some j ∧ j.state = .queued ∧ executableSecuredJob j = true ∧
        (r = Bucket.jobs.put id j.peerNodeID j.createdAt.order (j.park now) ∨
          (r = Bucket.jobs.put id j.peerNodeID j.createdAt.order (j.start now) ∧
            ∃ lease, verifiedJobLease signing t j nodeID keys now = some lease)) := by
  induction ids generalizing rs with
  | nil =>
    exact of_commits_pure h
  | cons id ids ih =>
    obtain ⟨j, got, h⟩ := commits_check_bind.mp h
    have found := Bucket.get_ok.mp got
    split_ifs at h with skipped lapsed
    · exact ih h
    · simp only [not_or, not_not, Bool.not_eq_false] at skipped
      obtain ⟨rest, follows, rfl⟩ := commits_put_bind.mp h
      intro r hr
      rcases mem_cons.mp hr with rfl | hr
      · exact ⟨id, j, found, skipped.1, skipped.2.1, .inl rfl⟩
      · exact ih follows r hr
    · simp only [not_or, not_not, Bool.not_eq_false] at skipped
      simp only [putJobAt, commits_put_bind, commits_pure] at h
      obtain ⟨_, ⟨rfl, _⟩, rfl⟩ := h
      intro r hr
      exact ⟨id, j, found, skipped.1, skipped.2.1,
        .inr ⟨mem_singleton.mp hr, Option.ne_none_iff_exists'.mp lapsed⟩⟩

theorem claimNextSecuredJob_justified (formed : Formed l.table) {nodeID : String} {keys : κ}
    {a : Option Job} (h : (claimNextSecuredJob signing l nodeID keys now).Commits rs a) : Justifies signing (.claimNextSecuredJob nodeID keys now) l.table rs := by
  simp only [claimNextSecuredJob, commits_refuseIf_bind] at h
  intro r hr
  obtain ⟨id, j, found, queued, executable, rfl | ⟨rfl, lease, verified⟩⟩ :=
    claimSecuredFrom_records h.2 r hr
  · refine .job rfl (formed.job found).1 ?_
    rw [found]
    exact .park queued executable
  · refine .job rfl (formed.job found).1 ?_
    rw [found]
    exact .claimSecured queued executable verified rfl

theorem changeFrom_records (formed : Formed l.table) {states : List JobState} {isMatch : Job → Bool}
    {recovery : Bool} {ids : List String} {a : List Job}
    (h : (changeFrom l.table now states isMatch recovery ids).Commits rs a) : ∀ r ∈ rs,
      ∃ id j, Bucket.jobs.find l.table id = some j ∧ j.state ∈ states ∧
        r = Bucket.jobs.put id (j.change now recovery).peerNodeID
          (j.change now recovery).createdAt.order (j.change now recovery) := by
  induction ids generalizing rs a with
  | nil =>
    exact of_commits_pure h
  | cons id ids ih =>
    unfold changeFrom at h
    dsimp only at h
    split_ifs at h with other
    · exact ih h
    obtain ⟨j, got, h⟩ := commits_check_bind.mp h
    have found := Bucket.get_ok.mp got
    split_ifs at h with skipped
    · exact ih h
    obtain ⟨rest, follows, rfl⟩ := commits_put_bind.mp h
    obtain ⟨_, changed, _⟩ := commits_bind_pure.mp follows
    intro r hr
    rcases mem_cons.mp hr with rfl | hr
    · obtain ⟨_, record, held, text⟩ := formed.job found
      simp only [not_forall, not_not] at other
      obtain ⟨known, listed, same⟩ := other
      rw [held, Option.map_some, Option.getD_some, text] at same
      rw [JobState.text_injective same] at listed
      exact ⟨id, j, found, listed, rfl⟩
    · exact ih changed r hr

theorem recoverRunningJobs_justified (formed : Formed l.table) {a : List Job}
    (h : (recoverRunningJobs l now).Commits rs a) :
    Justifies signing (.recoverRunningJobs now) l.table rs := by
  intro r hr
  obtain ⟨id, j, found, listed, rfl⟩ := changeFrom_records formed h r hr
  refine .job rfl (formed.job found).1 ?_
  rw [found]
  exact .recover listed rfl

theorem wake_justified (formed : Formed l.table) {op : Op κ} {states : List JobState}
    {isMatch : Job → Bool} {a : List Job}
    (waiting : ∀ s ∈ states, s = JobState.waitingPeer ∨ s = .waitingMount)
    (h : (changeJobs l now states isMatch false).Commits rs a) :
    Justifies signing op l.table rs := by
  intro r hr
  obtain ⟨id, j, found, listed, rfl⟩ := changeFrom_records formed h r hr
  refine .job rfl (formed.job found).1 ?_
  rw [found]
  exact .wake (waiting _ listed)

theorem replaceJobItems_justified {id : String} {items : List JobItem}
    (h : (replaceJobItems l id items).Commits rs u) :
    Justifies signing (.replaceJobItems id items) l.table rs := by
  simp only [replaceJobItems, commits_check_bind, commits_refuseIf_bind] at h
  obtain ⟨_, _, _, h⟩ := h
  obtain ⟨first, _, rest, removed, placed, rfl⟩ := commits_bind.mp h
  have cleared : ∀ {keys first}, (removeItems keys).Commits first () →
      ∀ r ∈ first, r.bucket = "items" := by
    intro keys
    induction keys with
    | nil =>
      intro first removed
      exact of_commits_pure removed
    | cons key keys ih =>
      intro first removed
      obtain ⟨rest, follows, rfl⟩ := commits_put_bind.mp removed
      intro r hr
      rcases mem_cons.mp hr with rfl | hr
      · rfl
      · exact ih follows r hr
  intro r hr
  rcases mem_append.mp hr with hr | hr
  · exact .detail (.inl (cleared removed r hr))
  · exact .detail (.inl (putItems_bucket placed r hr))

theorem updateJobItem_justified {item : JobItem} (h : (updateJobItem l item).Commits rs u) :
    Justifies signing (.updateJobItem item) l.table rs := by
  simp only [updateJobItem, putItem, commits_check_bind, commits_refuseIf_bind, commits_put] at h
  obtain ⟨_, _, _, _, rfl⟩ := h
  intro r hr
  rw [mem_singleton.mp hr]
  exact .detail (.inl rfl)

theorem recordJobEvent_justified {event e : JobEvent} (h : (recordJobEvent l event).Commits rs e) :
    Justifies signing (.recordJobEvent event) l.table rs := by
  simp only [recordJobEvent, putEvent, commits_refuseIf_bind, commits_put_bind, commits_pure] at h
  obtain ⟨_, _, ⟨rfl, _⟩, rfl⟩ := h
  intro r hr
  rw [mem_singleton.mp hr]
  exact .detail (.inr rfl)

end Scheduling

section Renewal

variable {jobID nodeID envelope : String} {expected : Binding} {keys : κ} {now : Time}
variable {a : JobAuthorization}

theorem recordLease_records {job : Job} {revision : Nat} (h : (renewJobAuthorization.recordLease
      signing nodeID envelope expected keys now job revision).Commits rs a) :
    ∃ claims, verifyJobLease signing envelope keys expected nodeID revision now = some claims ∧
      a = ⟨job.id, expected, revision, envelope, Time.ofUnix claims.expiresAt⟩ ∧
      rs = Bucket.jobAuthorizations.put job.id "" now.order a ::
        (if job.state = .running then []
        else [Bucket.jobs.put (job.bind now).id (job.bind now).peerNodeID
          (job.bind now).createdAt.order (job.bind now)]) := by
  unfold renewJobAuthorization.recordLease at h
  split at h
  · exact absurd h commits_refuse
  rename_i claims verified
  simp only [commits_note_bind, commits_put_bind] at h
  obtain ⟨rest, h, rfl⟩ := h
  split_ifs at h with running
  · obtain ⟨rfl, rfl⟩ := commits_pure.mp h
    exact ⟨claims, verified, rfl, by rw [if_pos running]⟩
  simp only [putJob, commits_put_bind, commits_pure] at h
  obtain ⟨_, ⟨rfl, rfl⟩, rfl⟩ := h
  exact ⟨claims, verified, rfl, by rw [if_neg running]⟩

theorem renewJobAuthorization_records
    (h : (renewJobAuthorization signing l jobID nodeID envelope expected keys now).Commits rs a) :
    ∃ job, Bucket.jobs.find l.table jobID = some job ∧ job.renewable = true ∧
      jobAuthorizationMatches signing job expected nodeID = true ∧
      planMatches l.table job expected.actorID ∧
      ((rs = [] ∧ Bucket.jobAuthorizations.find l.table job.id = some a ∧ a.envelope = envelope ∧
          ∃ claims, verifyJobLease signing envelope keys expected nodeID a.revision now = some claims ∧
            a.binding = expected) ∨
        (job.signedAuthBound = (Bucket.jobAuthorizations.find l.table job.id).isSome ∧
          (∀ old ∈ Bucket.jobAuthorizations.find l.table job.id,
            old.binding = expected ∧ old.envelope ≠ envelope) ∧
          (renewJobAuthorization.recordLease signing nodeID envelope expected keys now job
            (((Bucket.jobAuthorizations.find l.table job.id).map JobAuthorization.revision).getD 0 +
              1)).Commits rs a)) := by
  unfold renewJobAuthorization at h
  simp only [commits_refuseIf_bind, commits_check_bind, not_not, Bool.not_eq_false] at h
  obtain ⟨_, job, got, renewable, matching, planned, h⟩ := h
  refine ⟨job, Bucket.get_ok.mp got, renewable, matching, planned, ?_⟩
  split at h
  · rename_i old held
    have found := Bucket.get_ok.mp held
    simp only [commits_refuseIf_bind, not_or, not_not, Bool.not_eq_false] at h
    obtain ⟨⟨bound, _, _, same⟩, h⟩ := h
    split_ifs at h with again
    · left
      split at h
      · exact absurd h commits_refuse
      rename_i claims verified
      simp only [commits_refuseIf_bind, commits_pure] at h
      obtain ⟨_, rfl, rfl⟩ := h
      exact ⟨rfl, found, again, claims, verified, same⟩
    · right
      rw [found]
      refine ⟨bound, ?_, h⟩
      rintro _ ⟨⟩
      exact ⟨same, again⟩
  · rename_i absent
    simp only [commits_refuseIf_bind, Bool.not_eq_true] at h
    have none := Bucket.find_of_absent (Bucket.get_notFound.mp absent)
    right
    rw [none]
    exact ⟨h.1, by simp, h.2⟩
  · exact absurd h commits_refuse

theorem jobAuthorizationMatches_planID {job : Job}
    (h : jobAuthorizationMatches signing job expected nodeID = true) : expected.planID = job.id := by
  unfold jobAuthorizationMatches at h
  split_ifs at h with actor options other
  exact not_not.mp (not_or.mp other).1

theorem Job.bind_keeps (job : Job) (now : Time) :
    (job.bind now).id = job.id ∧ (job.bind now).signedAuthBound = true := by
  unfold Job.bind
  dsimp only
  split_ifs <;> exact ⟨rfl, rfl⟩

theorem Job.renewable_running {job : Job} (h : job.renewable = true) (running : job.state = .running) :
    job.signedAuthBound = true := by
  simp only [Job.renewable, running, executableSecuredJob, Bool.and_eq_true] at h
  exact h.1

theorem renew_justified (formed : Formed l.table) {op : Op κ}
    (offers : op.offers = some (jobID, envelope))
    (h : (renewJobAuthorization signing l jobID nodeID envelope expected keys now).Commits rs a) :
    Justifies signing op l.table rs := by
  obtain ⟨job, found, renewable, matching, planned, ⟨rfl, _⟩ | ⟨_, follows, recorded⟩⟩ :=
    renewJobAuthorization_records h
  · exact fun r hr => absurd hr not_mem_nil
  obtain ⟨claims, verified, rfl, rfl⟩ := recordLease_records recorded
  have named : job.id = jobID := (formed.job found).1
  subst named
  have planID := jobAuthorizationMatches_planID matching
  by_cases running : job.state = .running
  · rw [if_pos running]
    have after : ∀ lease, Bucket.jobs.find (l.table.applyAll
        [Bucket.jobAuthorizations.put job.id "" now.order lease]) job.id = some job :=
      fun lease => (Bucket.find_put_other (by decide) _ _ _ _).trans found
    intro r hr
    exact .lease (mem_singleton.mp hr) rfl (.renew rfl follows verified rfl planID found planned
      matching (after _) (Job.renewable_running renewable running) offers)
  · rw [if_neg running]
    have after : ∀ lease, Bucket.jobs.find (l.table.applyAll
        [Bucket.jobAuthorizations.put job.id "" now.order lease,
          Bucket.jobs.put (job.bind now).id (job.bind now).peerNodeID
            (job.bind now).createdAt.order (job.bind now)]) job.id = some (job.bind now) := by
      intro lease
      simp only [Index.applyAll_cons, Index.applyAll_nil, Bucket.find_put, (Job.bind_keeps job now).1,
        if_true]
    intro r hr
    rcases mem_cons.mp hr with rfl | hr
    · exact .lease rfl rfl (.renew rfl follows verified rfl planID found planned matching (after _)
        (Job.bind_keeps job now).2 offers)
    refine .job (mem_singleton.mp hr) rfl ?_
    rw [(Job.bind_keeps job now).1, found]
    exact .bind renewable running ⟨envelope, offers⟩

theorem register_justified (formed : Formed l.table)
    (h : (registerSignedJobAuthorization signing l jobID nodeID envelope keys now).Commits rs a) :
    Justifies signing (.registerSignedJobAuthorization jobID nodeID envelope keys now) l.table rs := by
  unfold registerSignedJobAuthorization at h
  split at h
  · exact absurd h commits_refuse
  · simp only [commits_refuseIf_bind] at h
    exact renew_justified formed rfl h.2

end Renewal

section Every

variable (signing)

theorem transact_cases {α : Type} (l : Ledger Value) (m : Tx α) :
    ((∃ e, (transact l m).2 = .error e) ∧ (transact l m).1.table = l.table) ∨
      ∃ records a, m.Commits records a ∧ (transact l m).2 = .ok a ∧
        (transact l m).1.table = l.table.applyAll records := by
  have table := l.update_table (Tx.body m)
  unfold transact Commits
  cases outcome : m.outcome with
  | error e =>
    refine .inl ⟨⟨e, rfl⟩, ?_⟩
    have refused : (l.update (Tx.body m)).2 = .error e.text := by
      simp [Ledger.update, Tx.body, outcome]
    rw [table, refused]
    rfl
  | ok a =>
    cases answer : (l.update (Tx.body m)).2 with
    | error text =>
      refine .inl ⟨⟨_, rfl⟩, ?_⟩
      rw [table, answer]
      rfl
    | ok u =>
      refine .inr ⟨m.records, a, ⟨rfl, rfl⟩, rfl, ?_⟩
      rw [table, answer]
      simp [Tx.body, outcome, Except.toOption]

theorem Op.justified (op : Op κ) {l : Ledger Value} (formed : Formed l.table) :
    (op.apply signing l).table = l.table ∨ ∃ rs, (op.apply signing l).table = l.table.applyAll rs ∧
      Justifies signing op l.table rs := by
  have general : ∀ {α : Type} (m : Tx α), (∀ {rs a}, m.Commits rs a →
      Justifies signing op l.table rs) →
      (transact l m).1.table = l.table ∨ ∃ rs, (transact l m).1.table = l.table.applyAll rs ∧
        Justifies signing op l.table rs := by
    intro α m justified
    rcases transact_cases l m with ⟨_, same⟩ | ⟨rs, a, commits, _, table⟩
    · exact .inl same
    · exact .inr ⟨rs, table, justified commits⟩
  cases op with
  | createJob j items key hash => exact general _ createJob_justified
  | createJobAwaitingAuthorization j actorID credentialID key hash =>
    apply general
    intro rs a h
    simp only [Jobs.createJobAwaitingAuthorization, commits_refuseIf_bind] at h
    exact createAwaiting_justified formed (fun _ impossible => by cases impossible) h.2
  | createPlannedJobAwaitingAuthorization j items actorID credentialID key hash =>
    apply general
    intro rs a h
    simp only [Jobs.createPlannedJobAwaitingAuthorization, commits_refuseIf_bind] at h
    exact createAwaiting_justified formed (fun _ impossible => by cases impossible) h.2
  | createPlannedMoveAwaitingAuthorization j items actorID credentialID key hash plan =>
    apply general
    intro rs a h
    simp only [Jobs.createPlannedMoveAwaitingAuthorization, commits_refuseIf_bind] at h
    refine createAwaiting_justified formed ?_ h.2
    rintro _ ⟨⟩
    rfl
  | updateJob j => exact general _ updateJob_justified
  | updateJobWithEvent j event => exact general _ updateJobWithEvent_justified
  | claimNextJob now => exact general _ (claimNextJob_justified formed)
  | claimNextSecuredJob nodeID keys now => exact general _ (claimNextSecuredJob_justified formed)
  | recoverRunningJobs now => exact general _ (recoverRunningJobs_justified formed)
  | wakeWaitingPeerJobs id now =>
    exact general _ (wake_justified formed (fun s hs => .inl (mem_singleton.mp hs)))
  | wakeWaitingMountJobs id now =>
    exact general _ (wake_justified formed (fun s hs => .inr (mem_singleton.mp hs)))
  | replaceJobItems id items => exact general _ replaceJobItems_justified
  | updateJobItem item => exact general _ updateJobItem_justified
  | recordJobEvent event => exact general _ recordJobEvent_justified
  | createDestructivePlan plan now => exact general _ createDestructivePlan_justified
  | createTransferMovePlan plan now => exact general _ createTransferMovePlan_justified
  | purgeExpiredDestructivePlans now => exact general _ purge_justified
  | acceptDestructivePlan r job => exact general _ (acceptDestructivePlan_justified formed)
  | renewJobAuthorization jobID nodeID envelope expected keys now =>
    exact general _ (renew_justified formed rfl)
  | registerSignedJobAuthorization jobID nodeID envelope keys now =>
    exact general _ (register_justified formed)

end Every

section Pointwise

variable {op : Op κ} {t t' : Table} {r : Record Value}

section

variable (h : Justified signing op t t' r)
include h

theorem Justified.fits (live : r.delete = false) :
    Record.fits r := by
  cases h with
  | job record named _ =>
    rw [record]
    exact job_fits named
  | plan record named _ =>
    rw [record]
    exact plan_fits named
  | purge record _ =>
    rw [record] at live
    cases live
  | lease record named _ =>
    rw [record]
    exact authorization_fits named
  | idempotency record bucket _ =>
    rw [record]
    rcases bucket with rfl | rfl <;>
      exact Record.fits_of_bucket (by simp) (by simp) (by simp)
  | detail bucket =>
    rcases bucket with bucket | bucket <;>
      exact Record.fits_of_bucket (by rw [bucket]; decide) (by rw [bucket]; decide)
        (by rw [bucket]; decide)

/- In each of the next three lemmas the bucket rules out every reason but one. -/

theorem Justified.ofJob (bucket : r.bucket = "jobs") :
    ∃ j, (if r.delete then none else r.data.bind Bucket.jobs.unwrap) = some j ∧
      JobMove signing op t t' r.key (Bucket.jobs.find t r.key) j := by
  cases h with
  | job record named move =>
    subst record
    exact ⟨_, rfl, move⟩
  | plan record | purge record | lease record =>
    subst record
    simp at bucket
  | idempotency record other =>
    subst record
    rcases other with rfl | rfl <;> simp at bucket
  | detail other =>
    rw [bucket] at other
    exact absurd other (by decide)

theorem Justified.ofPlan (bucket : r.bucket = "destructive_plans") :
    PlanMove t t' r.key (Bucket.destructivePlans.find t r.key)
      (if r.delete then none else r.data.bind Bucket.destructivePlans.unwrap) := by
  cases h with
  | plan record named move =>
    subst record
    exact move
  | purge record move =>
    subst record
    exact move
  | job record | lease record =>
    subst record
    simp at bucket
  | idempotency record other =>
    subst record
    rcases other with rfl | rfl <;> simp at bucket
  | detail other =>
    rw [bucket] at other
    exact absurd other (by decide)

theorem Justified.ofLease (bucket : r.bucket = "job_authorizations") :
    ∃ a, (if r.delete then none else r.data.bind Bucket.jobAuthorizations.unwrap) = some a ∧
      LeaseMove signing op t t' r.key (Bucket.jobAuthorizations.find t r.key) a := by
  cases h with
  | lease record named move =>
    subst record
    exact ⟨_, rfl, move⟩
  | job record | plan record | purge record =>
    subst record
    simp at bucket
  | idempotency record other =>
    subst record
    rcases other with rfl | rfl <;> simp at bucket
  | detail other =>
    rw [bucket] at other
    exact absurd other (by decide)

theorem Justified.ofIdempotency (bucket : r.bucket = "idempotency") :
    Bucket.idempotency.holds t r.key = false := by
  cases h with
  | idempotency record other absent =>
    subst record
    rcases other with rfl | rfl
    · exact absent
    · simp at bucket
  | job record | plan record | purge record | lease record =>
    subst record
    simp at bucket
  | detail other =>
    rw [bucket] at other
    exact absurd other (by decide)

end

variable (signing op t t') in
/-- One step of the store, seen from each of its records. -/
structure Moves : Prop where
  formed : Formed t'
  job : ∀ id, Bucket.jobs.find t' id = Bucket.jobs.find t id ∨
    ∃ j, Bucket.jobs.find t' id = some j ∧
      JobMove signing op t t' id (Bucket.jobs.find t id) j
  plan : ∀ id, Bucket.destructivePlans.find t' id = Bucket.destructivePlans.find t id ∨
    PlanMove t t' id (Bucket.destructivePlans.find t id) (Bucket.destructivePlans.find t' id)
  lease : ∀ id, Bucket.jobAuthorizations.find t' id = Bucket.jobAuthorizations.find t id ∨
    ∃ a, Bucket.jobAuthorizations.find t' id = some a ∧
      LeaseMove signing op t t' id (Bucket.jobAuthorizations.find t id) a
  idempotency : ∀ key v, Bucket.idempotency.find t key = some v →
    Bucket.idempotency.find t' key = some v

variable (signing) in
theorem Op.moves (op : Op κ) {l : Ledger Value} (formed : Formed l.table) :
    Moves signing op l.table (op.apply signing l).table := by
  rcases op.justified signing formed with same | ⟨rs, table, justified⟩
  · rw [same]
    exact ⟨formed, fun _ => .inl rfl, fun _ => .inl rfl, fun _ => .inl rfl, fun _ _ h => h⟩
  rw [table]
  refine ⟨formed.applyAll (fun r hr => (justified r hr).fits), ?_, ?_, ?_, ?_⟩
  · intro id
    rcases Bucket.find_applyAll_cases Bucket.jobs l.table id rs with same | ⟨r, hr, hb, rfl, found⟩
    · exact .inl same
    · obtain ⟨j, data, move⟩ := (justified r hr).ofJob hb
      exact .inr ⟨j, found.trans data, move⟩
  · intro id
    rcases Bucket.find_applyAll_cases Bucket.destructivePlans l.table id rs with same | ⟨r, hr, hb, rfl, found⟩
    · exact .inl same
    · rw [found]
      exact .inr ((justified r hr).ofPlan hb)
  · intro id
    rcases Bucket.find_applyAll_cases Bucket.jobAuthorizations l.table id rs with same | ⟨r, hr, hb, rfl, found⟩
    · exact .inl same
    · obtain ⟨a, data, move⟩ := (justified r hr).ofLease hb
      exact .inr ⟨a, found.trans data, move⟩
  · intro key v stored
    rcases Bucket.find_applyAll_cases Bucket.idempotency l.table key rs with same | ⟨r, hr, hb, rfl, _⟩
    · exact same.trans stored
    have absent := (justified r hr).ofIdempotency hb
    rw [Bucket.find_of_absent absent] at stored
    cases stored

end Pointwise

end Jolt.Jobs
