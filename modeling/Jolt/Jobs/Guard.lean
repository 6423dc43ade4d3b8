import Jolt.Base.Runs
import Jolt.Jobs.Secured

/-! The guard of a job that runs under a lease: it looks at the stored lease with every tick and when
the lease it has accepted expires. Time passes only up to what is due, and a check takes none. -/
namespace Jolt.Jobs
open Jolt.Base Jolt.State

section Machine

variable {κ : Type} (signing : Signing κ)

def validateJobAuthorization (t : Table) (jobID nodeID : String) (keys : κ) (now : Time) :
    Option JobAuthorization :=
  if ¬validKeyID jobID ∨ ¬validKeyID nodeID ∨ now.isZero then none
  else
    match Bucket.jobs.find t jobID with
    | none => none
    | some job =>
      if job.state = .queued ∨ job.state = .running ∨ job.state = .waitingValidation then
        verifiedJobLease signing t job nodeID keys now
      else none

/-- What a guard is started with: the keys are those of the moment. -/
structure Watch (κ : Type) where
  jobID : String
  nodeID : String
  keySnapshot : κ
  interval : Int

structure Guard where
  current : JobAuthorization
  policy : String
  ticked : Time
  deriving DecidableEq

structure Guarded (κ : Type) where
  table : Table
  keys : κ
  now : Time
  guard : Option Guard

inductive GuardEvent (κ : Type) where
  | write (table : Table)
  | rotate (keys : κ)
  | pass (until_ : Time)
  | tick
  | timer

variable (w : Watch κ)

/-- `guardJobAuthorization` up to the start of its loop. -/
def guardJobAuthorization (t : Table) (now : Time) : Option Guard :=
  if w.interval ≤ 0 ∨ Time.second < w.interval then none
  else
    match validateJobAuthorization signing t w.jobID w.nodeID w.keySnapshot now with
    | none => none
    | some current =>
      match verifyJobLease signing current.envelope w.keySnapshot current.binding w.nodeID
          current.revision now with
      | none => none
      | some claims => some ⟨current, claims.context, now⟩

def Guard.recheck (g : Guard) (t : Table) (now : Time) : Option Guard :=
  match validateJobAuthorization signing t w.jobID w.nodeID w.keySnapshot now with
  | none => none
  | some next =>
    if next.revision < g.current.revision ∨ next.binding ≠ g.current.binding ∨
        next.revision = g.current.revision ∧ next.envelope ≠ g.current.envelope then none
    else if next.revision ≠ g.current.revision then
      match verifyJobLease signing next.envelope w.keySnapshot next.binding w.nodeID next.revision
          now with
      | none => none
      | some claims => if claims.context ≠ g.policy then none else some { g with current := next }
    else if now < g.current.expiresAt then some g
    else none

def Guarded.next (s : Guarded κ) : GuardEvent κ → Option (Guarded κ × Option Unit)
  | .write table => some ({ s with table := table }, none)
  | .rotate keys => some ({ s with keys := keys }, none)
  | .pass until_ =>
    if s.now ≤ until_ ∧ ∀ g ∈ s.guard, until_ ≤ g.ticked + w.interval ∧
        until_ ≤ g.current.expiresAt then
      some ({ s with now := until_ }, none)
    else none
  | .tick =>
    match s.guard with
    | none => none
    | some g =>
      some ({ s with guard := Guard.recheck signing w { g with ticked := s.now } s.table s.now },
        none)
  | .timer =>
    match s.guard with
    | none => none
    | some g =>
      if g.current.expiresAt ≤ s.now then
        some ({ s with guard := g.recheck signing w s.table s.now }, none)
      else none

end Machine

section Invariant

variable {κ : Type} {signing : Signing κ} {w : Watch κ} {s t u : Guarded κ} {g h : Guard}
  {table : Table} {now : Time} {keys : κ} {origin : String}

def Signing.context (signing : Signing κ) (envelope : String) : Option String :=
  (signing.decode envelope).map Claims.context

theorem validate_some {a : JobAuthorization}
    (valid : validateJobAuthorization signing table w.jobID w.nodeID keys now = some a) :
    now < a.expiresAt ∧ ∃ claims, verifyJobLease signing a.envelope keys a.binding w.nodeID
      a.revision now = some claims ∧ signing.context a.envelope = some claims.context := by
  unfold validateJobAuthorization at valid
  split_ifs at valid
  split at valid
  · cases valid
  split_ifs at valid
  obtain ⟨_, _, _, _, claims, verified, expiry⟩ := verifiedJobLease_some valid
  have accepted := (verifyJobLease_some verified).1
  have current := accepted.current
  rw [expiry] at current
  refine ⟨?_, claims, verified, by rw [Signing.context, accepted.decoded]; rfl⟩
  by_contra late
  have later := Int.ediv_le_ediv (c := Time.second) (by decide) (not_lt.mp late)
  unfold Time.unix at current
  omega

structure Guard.Sound (signing : Signing κ) (w : Watch κ) (origin : String) (now : Time)
    (g : Guard) : Prop where
  ticked : g.ticked ≤ now
  due : now ≤ g.ticked + w.interval
  unexpired : now ≤ g.current.expiresAt
  policy : signing.context g.current.envelope = some g.policy
  same : g.policy = origin

variable (signing w) in
/-- The stored lease does not verify, or no longer is what the guard has accepted. -/
def Guarded.Fails (s : Guarded κ) (keys : κ) (g : Guard) : Prop :=
  ∀ next, validateJobAuthorization signing s.table w.jobID w.nodeID keys s.now = some next →
    next.binding ≠ g.current.binding ∨ next.revision < g.current.revision ∨
      signing.context next.envelope ≠ some g.policy

theorem Guard.recheck_some (known : signing.context g.current.envelope = some g.policy)
    (rechecked : g.recheck signing w table now = some h) :
    h.ticked = g.ticked ∧ h.policy = g.policy ∧ now < h.current.expiresAt ∧
      signing.context h.current.envelope = some g.policy ∧
      ∃ next, validateJobAuthorization signing table w.jobID w.nodeID w.keySnapshot now = some next ∧
        next.binding = g.current.binding ∧ g.current.revision ≤ next.revision ∧
        signing.context next.envelope = some g.policy ∧
        (next.revision ≤ g.current.revision → now < g.current.expiresAt) := by
  unfold Guard.recheck at rechecked
  split at rechecked
  · cases rechecked
  rename_i next valid
  split_ifs at rechecked with refused newer unexpired
  · split at rechecked
    · cases rechecked
    rename_i claims verified
    split_ifs at rechecked with same
    cases rechecked
    obtain ⟨fresh, claims', verified', context⟩ := validate_some valid
    cases verified.symm.trans verified'
    simp only [not_or, not_lt, not_not] at refused same
    rw [same] at context
    refine ⟨rfl, rfl, fresh, context, next, valid, refused.2.1, refused.1, context, fun old => ?_⟩
    exact absurd (le_antisymm old refused.1) newer
  · cases rechecked
    simp only [not_or, not_lt, not_not, not_and] at refused newer
    have envelope := refused.2.2 newer
    exact ⟨rfl, rfl, unexpired, known, next, valid, refused.2.1, refused.1, envelope ▸ known,
      fun _ => unexpired⟩

theorem Guard.recheck_fails (known : signing.context g.current.envelope = some g.policy)
    (fails : s.Fails signing w w.keySnapshot g) (same : h.current = g.current)
    (policy : h.policy = g.policy) : h.recheck signing w s.table s.now = none := by
  by_contra going
  obtain ⟨after, rechecked⟩ := Option.ne_none_iff_exists'.mp going
  rw [← same, ← policy] at known
  obtain ⟨_, _, _, _, next, valid, binding, revision, context, _⟩ := recheck_some known rechecked
  rw [same] at binding revision
  rw [policy] at context
  rcases fails next valid with other | back | changed
  · exact other binding
  · omega
  · exact changed context

theorem Guarded.next_sound {event : GuardEvent κ} {a : Option Unit}
    (positive : 0 < w.interval) (moved : s.next signing w event = some (t, a))
    (sound : ∀ g ∈ s.guard, g.Sound signing w origin s.now) :
    ∀ g ∈ t.guard, g.Sound signing w origin t.now := by
  cases event with
  | write table | rotate keys =>
    cases moved
    exact sound
  | pass until_ =>
    simp only [Guarded.next] at moved
    split_ifs at moved with due
    cases moved
    intro g live
    have known := sound g live
    obtain ⟨tick, expiry⟩ := due.2 g live
    exact ⟨known.ticked.trans due.1, tick, expiry, known.policy, known.same⟩
  | tick =>
    simp only [Guarded.next] at moved
    split at moved
    · cases moved
    rename_i g live
    cases moved
    intro h rechecked
    have known := sound g live
    obtain ⟨ticked, policy', fresh, context, _⟩ :=
      Guard.recheck_some (g := { g with ticked := s.now }) known.policy rechecked
    refine ⟨ticked.le, ?_, fresh.le, policy' ▸ context, policy'.trans known.same⟩
    rw [ticked]
    exact Int.le_add_of_nonneg_right positive.le
  | timer =>
    simp only [Guarded.next] at moved
    split at moved
    · cases moved
    rename_i g live
    split_ifs at moved
    cases moved
    intro h rechecked
    have known := sound g live
    obtain ⟨ticked, policy', fresh, context, _⟩ := Guard.recheck_some known.policy rechecked
    exact ⟨ticked ▸ known.ticked, ticked ▸ known.due, fresh.le, policy' ▸ context,
      policy'.trans known.same⟩

theorem guardJobAuthorization_sound (started : guardJobAuthorization signing w table now = some g) :
    0 < w.interval ∧ g.Sound signing w g.policy now := by
  unfold guardJobAuthorization at started
  split_ifs at started with bounds
  split at started
  · cases started
  rename_i current valid
  split at started
  · cases started
  rename_i claims verified
  cases started
  obtain ⟨fresh, claims', verified', context⟩ := validate_some valid
  cases verified.symm.trans verified'
  have positive : 0 < w.interval := not_le.mp fun none => bounds (.inl none)
  exact ⟨positive, le_refl _, Int.le_add_of_nonneg_right positive.le, fresh.le, context, rfl⟩

variable (signing w) in
/-- The keys that were withdrawn since the guard was started make no difference to the stored lease,
and a lease that has failed is not put right again before the guard looks at it. -/
def Watch.Steady (s : Guarded κ) (event : GuardEvent κ) (t : Guarded κ) : Prop :=
  ∀ g ∈ s.guard, (s.Fails signing w s.keys g → s.Fails signing w w.keySnapshot g) ∧
    (s.Fails signing w w.keySnapshot g → t.Fails signing w w.keySnapshot g ∨
      event = .tick ∨ event = .timer)

/-- A guard whose lease has failed lives on till its next tick at most. -/
structure Guarded.Doomed (signing : Signing κ) (w : Watch κ) (origin : String) (since : Time)
    (s : Guarded κ) (g : Guard) : Prop where
  sound : g.Sound signing w origin s.now
  fails : s.Fails signing w w.keySnapshot g
  ticked : g.ticked ≤ since

theorem Guarded.Doomed.next {event : GuardEvent κ} {a : Option Unit} {since : Time}
    (positive : 0 < w.interval) (moved : s.next signing w event = some (t, a))
    (steady : w.Steady signing s event t)
    (doomed : ∀ g ∈ s.guard, s.Doomed signing w origin since g) :
    ∀ g ∈ t.guard, t.Doomed signing w origin since g := by
  have sound := Guarded.next_sound positive moved fun g live => (doomed g live).sound
  -- a check ends the guard, any other step leaves it as it is
  have waits (same : t.guard = s.guard) (plain : event ≠ .tick ∧ event ≠ .timer) :
      ∀ g ∈ t.guard, t.Doomed signing w origin since g := by
    intro g live
    have before := doomed g (same ▸ live)
    rcases (steady g (same ▸ live)).2 before.fails with fails | tick | timer
    · exact ⟨sound g live, fails, before.ticked⟩
    · exact absurd tick plain.1
    · exact absurd timer plain.2
  cases event with
  | write table | rotate keys =>
    cases moved
    exact waits rfl (by simp)
  | pass until_ =>
    simp only [Guarded.next] at moved
    split_ifs at moved
    cases moved
    exact waits rfl (by simp)
  | tick =>
    simp only [Guarded.next] at moved
    split at moved
    · cases moved
    rename_i g live
    cases moved
    have before := doomed g live
    rw [Guard.recheck_fails (h := { g with ticked := s.now }) before.sound.policy before.fails
      rfl rfl]
    nofun
  | timer =>
    simp only [Guarded.next] at moved
    split at moved
    · cases moved
    rename_i g live
    split_ifs at moved
    cases moved
    have before := doomed g live
    rw [Guard.recheck_fails before.sound.policy before.fails rfl rfl]
    nofun

/-- While a guard lives it has the policy context it was started with, and no lease it has accepted
has expired; a lease that expires without a newer one ends it; and from the moment the stored lease
fails it lives for one interval at most, in every run that is steady from there. -/
theorem guard_stops_in_time (started : guardJobAuthorization signing w table now = some h)
    (run : Run (Guarded.next signing w) (fun _ _ _ => True) ⟨table, keys, now, some h⟩ t)
    (live : t.guard = some g) :
    (g.policy = h.policy ∧ signing.context h.current.envelope = some h.policy ∧
      signing.context g.current.envelope = some h.policy) ∧
    t.now ≤ g.current.expiresAt ∧
    (t.now = g.current.expiresAt →
      (∀ next, validateJobAuthorization signing t.table w.jobID w.nodeID w.keySnapshot t.now =
        some next → next.revision ≤ g.current.revision) →
      ∃ u, t.next signing w .timer = some (u, none) ∧ u.guard = none) ∧
    (t.Fails signing w t.keys g → ∀ u g', Run (Guarded.next signing w) (w.Steady signing) t u →
      u.guard = some g' → u.now ≤ t.now + w.interval) := by
  obtain ⟨positive, first⟩ := guardJobAuthorization_sound started
  have sound := run.keeps (P := fun s => ∀ g ∈ s.guard, g.Sound signing w h.policy s.now)
    (fun _ _ _ _ moved _ before => Guarded.next_sound positive moved before)
    (by rintro _ ⟨⟩; exact first) g live
  refine ⟨⟨sound.same, first.policy, sound.same ▸ sound.policy⟩, sound.unexpired, ?_, ?_⟩
  · intro expired old
    refine ⟨{ t with guard := g.recheck signing w t.table t.now },
      by simp [Guarded.next, live, expired.ge], ?_⟩
    by_contra going
    obtain ⟨after, rechecked⟩ := Option.ne_none_iff_exists'.mp going
    obtain ⟨_, _, _, _, next, valid, _, _, _, renewed⟩ :=
      Guard.recheck_some sound.policy rechecked
    exact absurd expired (renewed (old next valid)).ne
  · intro fails u g' steady alive
    rcases steady.head with rfl | ⟨event, v, a, moved, met, rest⟩
    · exact Int.le_add_of_nonneg_right positive.le
    have doomed : ∀ g ∈ t.guard, t.Doomed signing w h.policy t.now g := by
      intro g₁ live₁
      cases live.symm.trans live₁
      exact ⟨sound, (met g live).1 fails, sound.ticked⟩
    have ended := rest.keeps (P := fun s => ∀ g ∈ s.guard, s.Doomed signing w h.policy t.now g)
      (fun _ _ _ _ moved met before => Guarded.Doomed.next positive moved met before)
      (Guarded.Doomed.next positive moved met doomed) g' alive
    exact ended.sound.due.trans (Int.add_le_add_right ended.ticked _)

def keyedSigning : Signing Bool where
  sha256 := sampleSigning.sha256
  jobOptionsDigest := sampleSigning.jobOptionsDigest
  decode := sampleSigning.decode
  signed := fun keys _ _ => keys
  decodeContext := sampleSigning.decodeContext

def sampleWatch : Watch Bool := ⟨"j", "n", true, Time.second / 4⟩

def sampleLease : JobAuthorization := ⟨"j", sampleBinding "b", 1, "b1", Time.ofUnix 120⟩

def sampleGuard : Guard := ⟨sampleLease, "context", sampleTime⟩

def sampleGuarded (keys : Bool) : Guarded Bool := ⟨leasedSample.table, keys, sampleTime, sampleGuard⟩

theorem sample_guard_started :
    guardJobAuthorization keyedSigning sampleWatch leasedSample.table sampleTime =
      some sampleGuard := by
  decide +kernel

/-- The lease is revoked, and the guard ends with the next tick. -/
theorem sample_guard_stops :
    guardJobAuthorization keyedSigning sampleWatch leasedSample.table sampleTime =
        some sampleGuard ∧
      ∀ u g, Run (Guarded.next keyedSigning sampleWatch) (sampleWatch.Steady keyedSigning)
        { sampleGuarded true with table := Index.empty } u → u.guard = some g →
          u.now ≤ sampleTime + Time.second / 4 := by
  have run : Run (Guarded.next keyedSigning sampleWatch) (fun _ _ _ => True) (sampleGuarded true)
      { sampleGuarded true with table := Index.empty } :=
    .step .refl (by rfl : (sampleGuarded true).next _ _ (.write Index.empty) = _) trivial
  exact ⟨sample_guard_started, (guard_stops_in_time sample_guard_started run rfl).2.2.2 nofun⟩

abbrev sampleWatched : Option (Guarded Bool) :=
  replay (Guarded.next keyedSigning sampleWatch) (fun _ _ _ => true) (sampleGuarded false)
    [.pass (sampleTime + Time.second / 4), .tick, .pass (sampleTime + Time.second / 2), .tick]

/-- The key of the lease is withdrawn, and the guard outlives it by two intervals. -/
theorem guard_outlives_key :
    guardJobAuthorization keyedSigning sampleWatch leasedSample.table sampleTime =
        some sampleGuard ∧
      Run (Guarded.next keyedSigning sampleWatch) (fun _ _ _ => True) (sampleGuarded true)
        (sampleGuarded false) ∧
      (sampleGuarded false).Fails keyedSigning sampleWatch false sampleGuard ∧
      ∃ u, Run (Guarded.next keyedSigning sampleWatch) (fun _ _ _ => True) (sampleGuarded false) u ∧
        u.guard.isSome = true ∧ u.now = sampleTime + 2 * sampleWatch.interval := by
  refine ⟨sample_guard_started, .step .refl (by rfl : (sampleGuarded true).next _ _ (.rotate false) =
    some (sampleGuarded false, none)) trivial, ?_, sampleWatched.getD (sampleGuarded false), ?_, ?_⟩
  · intro next valid
    have none : validateJobAuthorization keyedSigning leasedSample.table "j" "n" false sampleTime =
        Option.none := by decide +kernel
    cases none.symm.trans valid
  · exact Run.of_possible (fun _ _ _ _ => trivial) (by decide +kernel) _
  · decide +kernel

end Invariant

end Jolt.Jobs
