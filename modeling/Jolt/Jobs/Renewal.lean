import Jolt.Jobs.Secured

/-! Lease renewal over every run of the store. The recorded revision of a job's lease
only grows, by one for each new envelope; an envelope is a lease of one revision only,
so once a later revision is recorded it is refused for good. -/
namespace Jolt.Jobs
open Jolt.Base Jolt.State Transaction List

variable {κ : Type} {signing : Signing κ}

structure Renewal (κ : Type) where
  jobID : String
  nodeID : String
  envelope : String
  expected : Binding
  keys : κ
  now : Time

variable (signing) in
def Renewal.run (r : Renewal κ) (l : Ledger Value) :
    Ledger Value × Except Failure JobAuthorization :=
  transact l (renewJobAuthorization signing l r.jobID r.nodeID r.envelope r.expected r.keys r.now)

def Renewal.op (r : Renewal κ) : Op κ :=
  .renewJobAuthorization r.jobID r.nodeID r.envelope r.expected r.keys r.now

theorem Renewal.run_step (r : Renewal κ) (l : Ledger Value) :
    Steps signing l (r.run signing l).1 := Steps.one r.op l

def currentLease (l : Ledger Value) (id : String) : Option JobAuthorization :=
  Bucket.jobAuthorizations.find l.table id

def revision (l : Ledger Value) (id : String) : Nat :=
  ((currentLease l id).map JobAuthorization.revision).getD 0

theorem checkRecords_plain {ix : Table} {records : List (Record Value)}
    {seen : List (String × String)}
    (plain : ∀ r ∈ records, r.bucket ≠ "" ∧ r.key ≠ "" ∧ historyBucket r.bucket = false) :
    checkRecords ix seen records = .ok () := by
  induction records with
  | nil => rfl
  | cons r records ih =>
    obtain ⟨bucket, key, current⟩ := plain r mem_cons_self
    rw [checkRecords, if_neg (not_or.mpr ⟨bucket, key⟩), if_neg (by simp [current])]
    exact ih (fun r' hr => plain r' (mem_cons_of_mem r hr))

theorem transact_ok {α : Type} {l : Ledger Value} {m : Tx α} {records : List (Record Value)} {a : α}
    (commits : m.Commits records a)
    (plain : ∀ r ∈ records, r.bucket ≠ "" ∧ r.key ≠ "" ∧ historyBucket r.bucket = false) :
    (transact l m).2 = .ok a := by
  obtain ⟨collected, ended⟩ := commits
  have answer : (l.update (Tx.body m)).2 = .ok () := by
    unfold Ledger.update Tx.body
    simp only [ended, collected]
    cases records with
    | nil => rfl
    | cons r rest => simp only [checkRecords_plain plain]
  simp only [transact, ended, answer]

theorem transact_unchanged {α : Type} {l : Ledger Value} {m : Tx α} (traceless : m.Traceless)
    (idle : m.records = [] ∨ ∃ e, m.outcome = .error e) : (transact l m).1 = l := by
  have silent := traceless idle
  unfold transact Ledger.update Tx.body
  rcases idle with empty | ⟨e, failed⟩
  · cases ended : m.outcome with
    | error e =>
      simp only [silent]
      rfl
    | ok a =>
      simp only [silent, empty]
      rfl
  · simp only [failed, silent]
    rfl

section Attempts

variable {l : Ledger Value} {r : Renewal κ}

theorem recordLease_traceless {job : Job} {revision : Nat} :
    (renewJobAuthorization.recordLease signing r.nodeID r.envelope r.expected r.keys r.now job
      revision).Traceless := by
  unfold renewJobAuthorization.recordLease
  split
  · exact traceless_refuse _
  split_ifs
  · exact traceless_of_records rfl (cons_ne_nil _ _)
  · exact traceless_of_records rfl (cons_ne_nil _ _)

theorem renew_traceless : (renewJobAuthorization signing l r.jobID r.nodeID r.envelope r.expected
    r.keys r.now).Traceless := by
  apply traceless_refuseIf_bind
  refine traceless_check_bind fun job _ => ?_
  apply traceless_refuseIf_bind
  apply traceless_refuseIf_bind
  apply traceless_refuseIf_bind
  split
  · apply traceless_refuseIf_bind
    split_ifs
    · split
      · exact traceless_refuse _
      · exact traceless_refuseIf_bind (traceless_pure _)
    · exact recordLease_traceless
  · exact traceless_refuseIf_bind recordLease_traceless
  · exact traceless_refuse _

theorem renew_plain (formed : Formed l.table) {rs : List (Record Value)} {a : JobAuthorization}
    (h : (renewJobAuthorization signing l r.jobID r.nodeID r.envelope r.expected r.keys
      r.now).Commits rs a) :
    ∀ x ∈ rs, x.bucket ≠ "" ∧ x.key ≠ "" ∧ historyBucket x.bucket = false := by
  have named : r.jobID ≠ "" := by
    simp only [renewJobAuthorization, commits_refuseIf_bind, not_or, not_not] at h
    exact validKeyID_ne_empty h.1.1
  obtain ⟨job, found, _, _, _, ⟨rfl, _⟩ | ⟨_, _, recorded⟩⟩ := renewJobAuthorization_records h
  · exact fun x hx => absurd hx not_mem_nil
  obtain ⟨_, _, _, rfl⟩ := recordLease_records recorded
  rw [← (formed.job found).1] at named
  intro x hx
  rcases mem_cons.mp hx with rfl | hx
  · exact ⟨by simp, named, rfl⟩
  split_ifs at hx
  · exact absurd hx not_mem_nil
  · rw [mem_singleton.mp hx]
    exact ⟨by simp, fun empty => named ((Job.bind_keeps job r.now).1.symm.trans empty), rfl⟩

theorem Renewal.rejected (formed : Formed l.table) {e : Failure}
    (h : (r.run signing l).2 = .error e) : (r.run signing l).1 = l := by
  apply transact_unchanged renew_traceless
  right
  cases ended : (renewJobAuthorization signing l r.jobID r.nodeID r.envelope r.expected r.keys
      r.now).outcome with
  | error e => exact ⟨e, rfl⟩
  | ok a =>
    have commits : (renewJobAuthorization signing l r.jobID r.nodeID r.envelope r.expected r.keys
      r.now).Commits _ a := ⟨rfl, ended⟩
    have answer := transact_ok (l := l) commits (renew_plain formed commits)
    rw [Renewal.run, answer] at h
    cases h

variable (signing l r) in
/-- The two ways in which an attempt is accepted with the lease `a`. -/
inductive Accepts (a : JobAuthorization) : Prop where
  | again (current : currentLease l r.jobID = some a) (unchanged : (r.run signing l).1 = l)
  | next (fresh : ∀ o ∈ currentLease l r.jobID, o.envelope ≠ r.envelope)
      (revision : a.revision = revision l r.jobID + 1)
      (recorded : currentLease (r.run signing l).1 r.jobID = some a)

theorem Renewal.accepted (formed : Formed l.table) {a : JobAuthorization}
    (h : (r.run signing l).2 = .ok a) :
    a.envelope = r.envelope ∧ Accepts signing l r a ∧ r.expected.planID = r.jobID ∧
      ∃ claims, verifyJobLease signing r.envelope r.keys r.expected r.nodeID a.revision r.now =
        some claims := by
  rcases transact_cases l (renewJobAuthorization signing l r.jobID r.nodeID r.envelope r.expected
    r.keys r.now) with ⟨⟨e, failed⟩, _⟩ | ⟨rs, a', commits, answer, table⟩
  · rw [Renewal.run, failed] at h
    cases h
  rw [Renewal.run, answer] at h
  cases h
  obtain ⟨job, found, renewable, matching, _, same | ⟨_, follows, recorded⟩⟩ :=
    renewJobAuthorization_records commits
  all_goals
    have named : job.id = r.jobID := (formed.job found).1
    have planID := (jobAuthorizationMatches_planID matching).trans named
  · obtain ⟨rfl, current, envelope, claims, verified, _⟩ := same
    rw [named] at current
    exact ⟨envelope, .again current (transact_unchanged renew_traceless (.inl commits.1)), planID,
      claims, verified⟩
  · obtain ⟨claims, verified, rfl, rfl⟩ := recordLease_records recorded
    refine ⟨rfl, .next ?_ ?_ ?_, planID, claims, verified⟩
    · rw [named] at follows
      exact fun o held => (follows o held).2
    · rw [← named]
      rfl
    rw [currentLease, Renewal.run, table, Index.applyAll_cons, Bucket.find_applyAll_other,
      Bucket.find_put, if_pos named.symm]
    intro x hx
    split_ifs at hx
    · exact absurd hx not_mem_nil
    · rw [mem_singleton.mp hx]
      exact .inl (by simp)

theorem Moves.revision {op : Op κ} {l' : Ledger Value}
    (moves : Moves signing op l.table l'.table) (id : String) :
    revision l' id = revision l id ∨
      (revision l' id = revision l id + 1 ∧ ∃ envelope, op.offers = some (id, envelope)) := by
  rcases moves.lease id with same | ⟨a, found, move⟩
  · left
    rw [Jobs.revision, Jobs.revision, currentLease, currentLease, same]
  right
  cases move with
  | renew number _ _ _ _ _ _ _ _ _ source =>
    refine ⟨?_, a.envelope, source⟩
    rw [Jobs.revision, currentLease, found]
    exact number

theorem Accepts.revision_le {a : JobAuthorization} (h : Accepts signing l r a) :
    revision l r.jobID ≤ a.revision := by
  cases h with
  | again current _ =>
    rw [revision, current]
    exact le_refl _
  | next _ number _ =>
    rw [number]
    exact Nat.le_succ _

/-- Lease renewal in every reachable store. Any operation keeps the revision of a job's
lease or raises it by one; an accepted envelope that is not the recorded one raises it
by one and is recorded; delivering the recorded envelope again changes nothing, nor does a
rejected attempt; and once a later revision is recorded, no attempt with an envelope
that was accepted before is accepted again. -/
theorem renewal_increases_without_replay (separates : signing.Separates)
    (reached : Steps signing emptyLedger l) (r : Renewal κ) :
    (∀ (op : Op κ) (id : String), revision (op.apply signing l) id = revision l id ∨
      (revision (op.apply signing l) id = revision l id + 1 ∧
        ∃ envelope, op.offers = some (id, envelope))) ∧
    (∀ a, (r.run signing l).2 = .ok a →
      (∀ o ∈ currentLease l r.jobID, o.envelope ≠ r.envelope) →
      revision (r.run signing l).1 r.jobID = revision l r.jobID + 1 ∧
        currentLease (r.run signing l).1 r.jobID = some a ∧ a.envelope = r.envelope) ∧
    (∀ o ∈ currentLease l r.jobID, o.envelope = r.envelope → (r.run signing l).1 = l) ∧
    (∀ e, (r.run signing l).2 = .error e → (r.run signing l).1 = l) ∧
    (∀ a, (r.run signing l).2 = .ok a → ∀ l₁, Steps signing (r.run signing l).1 l₁ →
      a.revision < revision l₁ r.jobID → ∀ again : Renewal κ, again.jobID = r.jobID →
      again.envelope = r.envelope → ∃ e, (again.run signing l₁).2 = .error e) := by
  have sound := reached.sound sound_empty
  refine ⟨fun op id => (op.moves signing sound.formed).revision id, ?_, ?_,
    fun e h => Renewal.rejected sound.formed h, ?_⟩
  · intro a h fresh
    obtain ⟨envelope, accepts, _, _⟩ := Renewal.accepted sound.formed h
    cases accepts with
    | again current _ => exact absurd envelope (fresh a current)
    | next _ number recorded =>
      refine ⟨?_, recorded, envelope⟩
      rw [revision, recorded]
      exact number
  · intro o current same
    cases answer : (r.run signing l).2 with
    | error e => exact Renewal.rejected sound.formed answer
    | ok a =>
      obtain ⟨_, accepts, _, _⟩ := Renewal.accepted sound.formed answer
      cases accepts with
      | again _ unchanged => exact unchanged
      | next fresh _ _ => exact absurd same (fresh o current)
  · intro a h l₁ run later again sameJob sameEnvelope
    have sound₁ := run.sound ((r.run_step l).sound sound)
    cases answer : (again.run signing l₁).2 with
    | error e => exact ⟨e, rfl⟩
    | ok a' =>
      obtain ⟨_, _, planID, claims, verified⟩ := Renewal.accepted sound.formed h
      obtain ⟨_, accepts, planID', claims', verified'⟩ := Renewal.accepted sound₁.formed answer
      rw [sameEnvelope] at verified'
      have same := verifyJobLease_revision separates (planID.trans (planID'.trans sameJob).symm)
        verified verified'
      have grown := accepts.revision_le
      rw [sameJob] at grown
      omega

end Attempts

section Sample

theorem sampleSigning_separates : sampleSigning.Separates := by
  have involutive : Function.Involutive swapSeparator := by
    intro c
    by_cases separator : c = '\x00'
    · rw [separator]
      rfl
    by_cases letter : c = '~'
    · rw [letter]
      rfl
    · simp only [swapSeparator, if_neg separator, if_neg letter]
  intro jobID r jobID' r' same
  have letters := String.ofList_injective same
  exact String.toList_inj.mp (map_injective_iff.mpr involutive.injective letters)

def firstRenewal : Renewal Unit := ⟨"j", "n", "b1", sampleBinding "b", (), sampleTime⟩

def secondRenewal : Renewal Unit := ⟨"j", "n", "b2", sampleBinding "b", (), sampleTime⟩

/-- After the second lease of the job is recorded, its first envelope is refused. -/
theorem first_envelope_refused :
    ∃ e, (firstRenewal.run sampleSigning
      (secondRenewal.run sampleSigning (firstRenewal.run sampleSigning createdSample).1).1).2 =
        .error e := by
  have all := renewal_increases_without_replay sampleSigning_separates
    (Steps.one (.createJob sampleJob [] "" "") emptyLedger) firstRenewal
  exact all.2.2.2.2 ⟨"j", sampleBinding "b", 1, "b1", Time.ofUnix 120⟩ (by decide) _
    (secondRenewal.run_step _) (by decide) firstRenewal rfl rfl

end Sample

end Jolt.Jobs
