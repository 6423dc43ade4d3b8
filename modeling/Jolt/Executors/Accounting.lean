import Jolt.Executors.Workers
import Jolt.Jobs.Turns

/-! The counters of a job that ends: from the end of an operation on, and over whole runs of the
service with its pauses, restarts and retries. -/
namespace Jolt.Executors
open Jolt.Base Jolt.Jobs

section Closing

variable {s t : System} {e : Execution}

theorem Lists.owe (lists : Lists s.items e) (owes : Bool) :
    Lists s.items { e with owes := owes } := by
  refine ⟨lists.length, lists.bound, fun i item kept here found => ?_, lists.within, lists.nodup⟩
  obtain ⟨stored, type, same, staged, queued, visited⟩ := lists.placed i item kept here found
  exact ⟨stored, type, same, staged, queued, visited⟩

theorem Working.report (executing : Executing s e) (w : Working s.job s.items e)
    (stored : ∀ x ∈ s.items, Stored s.job.type x) (moved : s.reports e = some t) :
    ∃ after, Steps s e t after := by
  unfold System.reports at moved
  split_ifs at moved with guard
  rw [Bool.and_eq_true] at guard
  dsimp only at moved
  cases moved
  have active : Active (reported s.job e.job.bytesTotal e.counters).state :=
    (reported_state _ _ _).symm ▸ executing.active
  split
  · exact ⟨_, rfl, reported_type _ _ _, active, rfl, rfl, stored, .inl ⟨_, rfl⟩⟩
  refine ⟨_, rfl, reported_type _ _ _, active, rfl, rfl, stored, .inr ⟨guard.1, ?_⟩⟩
  obtain ⟨files, bytes, troubles, serial, idle⟩ := w.tallies
  refine ⟨w.lists.owe false, ⟨files, bytes, troubles, serial, idle⟩, w.locks, ?_⟩
  exact fun _ running => .inl (reported_files running)

theorem Lists.idle (lists : Lists s.items e) (drained : e.drained = true) (i : Nat) :
    e.stage i = none := by
  simp only [Execution.drained, Bool.and_eq_true, beq_iff_eq] at drained
  by_contra staged
  have bound := lists.within i (.inl staged)
  have member : i ∈ (List.range e.memory.length).filter fun i => (e.stage i).isSome :=
    List.mem_filter.mpr ⟨List.mem_range.mpr bound, Option.isSome_iff_ne_none.mpr staged⟩
  rw [List.eq_nil_of_length_eq_zero drained.2] at member
  cases member

theorem Execution.outcome_calm (tallies : Tallies e)
    (well : e.outcome = some none ∨ e.outcome = none) : ¬e.troubled := by
  have quiet {o : Option OperationError} (well : some o = some none ∨ some o = none) : o = none :=
    well.elim Option.some.inj nofun
  cases mode : e.mode with
  | serial =>
    simp only [Execution.outcome, mode] at well
    have calm := copyWarning_none (quiet well)
    have whole := tallies.serial mode
    simpa [Execution.troubled, mode, Mode.troubles, whole] using calm
  | parallel =>
    simp only [Execution.outcome, mode] at well
    split_ifs at well with none
    · exact (tallies.idle mode none).1
    cases failure : e.failure with
    | some err =>
      rw [failure] at well
      cases quiet well
    | none =>
      rw [failure] at well
      have calm := copyWarning_none (quiet well)
      simpa [Execution.troubled, mode, Mode.troubles, failure] using calm
  | remote =>
    simp only [Execution.outcome, mode] at well
    cases failure : e.failure with
    | some err =>
      rw [failure] at well
      cases quiet well
    | none =>
      rw [failure] at well
      cases warned : pullWarning e.counters.warnings e.job.sourcesOmitted with
      | some err =>
        rw [warned] at well
        cases quiet well
      | none =>
        have calm := pullWarning_none warned
        simpa [Execution.troubled, mode, Mode.troubles, failure] using calm

theorem Lists.finished (lists : Lists s.items e) (drained : e.drained = true)
    (calm : ¬e.troubled) {i : Nat} {item : JobItem} (here : e.memory[i]? = some item) :
    finished item = true := by
  obtain ⟨kept, found, placed⟩ := lists.kept here
  have bound := inside here
  have idle := lists.idle drained i
  simp only [Execution.drained, Bool.and_eq_true, beq_iff_eq, List.isEmpty_iff] at drained
  obtain ⟨⟨⟨_, whole⟩, empty⟩, _⟩ := drained
  have free : i ∉ e.queue := by simp [empty]
  exact (placed.visited (whole ▸ bound) idle free).resolve_right calm

theorem Working.closes (executing : Executing s e) (w : Working s.job s.items e)
    (drained : e.drained = true) (calm : ¬e.troubled) :
    e.counters.files = total isFile s.items ∧ e.counters.bytes = total fileBytes s.items := by
  have places {f g : JobItem → Int} (same : ∀ (i : Nat) (item kept : JobItem),
      e.memory[i]? = some item → Placed e i item kept → finished item = true →
        kept.bytesCompleted = item.bytesCompleted → f item = g kept) :
      total f e.memory = total g s.items := by
    apply total_places w.lists.length.symm
    intro i item kept here found
    have placed := w.lists.placed i item kept here found
    apply same i item kept here placed (w.lists.finished drained calm here)
    refine (placed.same fun snapshot final storing => ?_).1
    rw [w.lists.idle drained i] at storing
    cases storing
  constructor
  · rw [w.tallies.files]
    apply places
    intro i item kept here placed done _
    simp [finishedFile, isFile, done, placed.type]
  · rw [w.tallies.bytes]
    apply places
    intro i item kept here placed done bytes
    cases mode : e.mode with
    | serial =>
      have copies : e.job.type = .copyLocal := by
        by_contra other
        rw [executing.mode.mpr other] at mode
        cases mode
      have zero := placed.stored.2 copies
      simp only [finished, Bool.or_eq_true, beq_iff_eq] at done
      rcases done with completed | skipped
      · simp [Mode.weight, fileBytes, completed, placed.type, bytes]
      by_cases file : item.type = .file
      · simp [Mode.weight, fileBytes, skipped, placed.type, bytes, zero file skipped]
      · simp [Mode.weight, fileBytes, placed.type, file]
    | parallel => simp [Mode.weight, fileBytes, placed.type, bytes]
    | remote => simp [Mode.weight, fileBytes, placed.type, bytes]

theorem Working.reported (w : Working s.job s.items e) (drained : e.drained = true)
    (calm : ¬e.troubled) (loops : e.mode ≠ .serial) (running : s.job.state = .running) :
    s.job.filesCompleted = e.counters.files := by
  have idle := w.lists.idle drained
  simp only [Execution.drained, Bool.and_eq_true, beq_iff_eq, List.isEmpty_iff,
    Bool.not_eq_true'] at drained
  obtain ⟨⟨⟨⟨_, silent⟩, whole⟩, empty⟩, _⟩ := drained
  apply (w.reports loops running).resolve_right
  rintro (troubled | owes | queue | ⟨i, stage, present, _⟩ | ⟨i, item, later, here, _⟩)
  · exact calm troubled
  · rw [silent] at owes
    cases owes
  · exact queue empty
  · rw [idle i] at present
    cases present
  · have bound := inside here
    omega

section

variable (sound : Sound s) (running : s.execution = some e)
include sound running

theorem Sound.returns (job : Job) (after : Execution) (state : Active job.state)
    (type : job.type = s.job.type) (same : after.job = e.job) (mode : after.mode = e.mode)
    (ended : after.working = false) (closed : after.result = some none ∨ after.result = none →
      after.counters.bytes = total fileBytes s.items ∧ (job.state = .running → job.filesCompleted =
      total isFile s.items)) :
    Sound { s with job := job, execution := some after } := by
  have executing := sound.executing e running
  constructor
  · intro item member
    have stored := sound.items item member
    rwa [← type] at stored
  · intro completed
    rw [show job.state = .completed from completed] at state
    rcases state with state | state | state <;> cases state
  · intro found present
    cases present
    constructor
    · exact state
    · rw [same]
      exact executing.type.trans type.symm
    · rw [same]
      exact executing.started
    · rw [mode, same]
      exact executing.mode
    · intro working
      rw [ended] at working
      cases working
    · intro done
      obtain ⟨bytes, files⟩ := closed (done.imp_right And.left)
      exact ⟨bytes, files⟩

theorem Sound.close (drained : e.drained = true) : Sound (s.close e) := by
  have executing := sound.executing e running
  have open_ : e.working = true := by
    simp only [Execution.drained, Bool.and_eq_true] at drained
    exact drained.1.1.1.1
  have w := executing.working open_
  obtain ⟨job, closes, state, type, counted⟩ : ∃ job, s.close e =
      { s with
        job := job
        execution := some (e.outcome.elim { e with closing := .finalizing } e.ends) } ∧
      job.state = s.job.state ∧ job.type = s.job.type ∧
      (¬e.troubled → job.state = .running → job.filesCompleted = e.counters.files) := by
    unfold System.close
    by_cases serial : e.mode = .serial
    · refine ⟨reported s.job e.job.bytesTotal e.counters, ?_, reported_state _ _ _,
        reported_type _ _ _, fun _ => reported_files⟩
      rw [if_pos serial]
      cases e.outcome <;> rfl
    · refine ⟨s.job, ?_, rfl, rfl, fun calm => w.reported drained calm serial⟩
      rw [if_neg serial]
      cases e.outcome <;> rfl
  have whole (well : e.outcome = some none ∨ e.outcome = none) :
      e.counters.bytes = total fileBytes s.items ∧
        (job.state = .running → job.filesCompleted = total isFile s.items) := by
    have calm := Execution.outcome_calm w.tallies well
    obtain ⟨files, bytes⟩ := w.closes executing drained calm
    exact ⟨bytes, fun running => (counted calm running).trans files⟩
  have active : Active job.state := state ▸ executing.active
  rw [closes]
  cases outcome : e.outcome with
  | none =>
    refine sound.returns running job _ active type rfl rfl (by simp [Execution.working]) fun _ => ?_
    exact whole (.inr outcome)
  | some err =>
    refine sound.returns running job _ active type rfl rfl rfl fun well => ?_
    obtain rfl : err = none := well.elim Option.some.inj fun other => by cases other
    exact whole (.inl outcome)

theorem Sound.finalize {err : Option OperationError} (moved : s.finalizes e err = some t)
    (counted : err = none → e.job.filesCompleted = total isFile s.items) : Sound t := by
  have executing := sound.executing e running
  unfold System.finalizes at moved
  split_ifs at moved with guard
  have whole := executing.closed (.inr ⟨guard.2, by rw [guard.1]; nofun⟩)
  cases err with
  | some err =>
    cases moved
    refine sound.returns running s.job _ executing.active rfl rfl rfl rfl ?_
    rintro (well | well) <;> cases well
  | none =>
    cases moved
    refine sound.returns running _ _ (.inl executing.started) executing.type rfl rfl
      (by simp [Execution.working]) fun _ => ?_
    exact ⟨whole.bytes, fun _ => counted rfl⟩

end

theorem Sound.cleaned (err : Option OperationError) (sound : Sound s)
    (running : s.execution = some e) (cleaning : e.closing = .cleaning) (going : e.result = none) :
    Sound (s.keep (e.ends err)) := by
  have executing := sound.executing e running
  have whole := executing.closed (.inr ⟨going, by rw [cleaning]; nofun⟩)
  refine sound.returns running s.job _ executing.active rfl rfl rfl rfl fun _ => ?_
  exact ⟨whole.bytes, whole.files⟩

end Closing

section Service

variable {job after : Job} {now : Time} {s t : System}
variable {items : List JobItem}

/-- What a call makes of a job: none of them completes it, and a job that is being executed is
only asked to stop. -/
structure Called (job after : Job) : Prop where
  type : after.type = job.type
  open_ : after.state ≠ .completed
  stops : Active job.state → after.state = .pauseRequested ∨ after.state = .cancelRequested

theorem called_of_write {c : Call} {verdict : Verdict} (applied : Verdict.job verdict = some after)
    (write : ∀ {j' : Job}, verdict = .write j' → Rewrites c job j')
    (steers : ∀ id report, c ≠ .progress id report) : Called job after := by
  cases verdict with
  | write j' =>
    cases applied
    obtain ⟨_, type, _, turned⟩ := write rfl
    refine ⟨type, ?_, ?_⟩ <;> generalize job.state = read, after.state = state at turned ⊢
    · rintro rfl
      cases turned with
      | overridden next => simp at next
    · rintro (rfl | rfl | rfl) <;> cases turned <;> simp_all
  | _ => cases applied

theorem Control.apply_called {call : Control} (applied : call.apply job now = some after) :
    Called job after := by
  cases call with
  | pause => exact called_of_write applied (fun verdict => pause_write verdict "") nofun
  | cancel => exact called_of_write applied (fun verdict => cancel_write verdict "") nofun
  | resume => exact called_of_write applied (fun verdict => resume_write verdict "") nofun
  | retry => exact called_of_write applied (fun verdict => retry_write verdict "") nofun
  | wake =>
    simp only [Control.apply] at applied
    split_ifs at applied with waiting
    cases applied
    refine ⟨rfl, nofun, fun active => ?_⟩
    rcases waiting with state | state <;> simp [Active, state] at active
  | claim =>
    simp only [Control.apply] at applied
    split_ifs at applied with queued
    cases applied
    exact ⟨rfl, nofun, fun active => by simp [Active, queued.1] at active⟩

theorem interrupted_spec (job : Job) (now : Time) :
    (interrupted job now).type = job.type ∧
      ((interrupted job now).state = .completed → interrupted job now = job) := by
  cases state : job.state <;> simp [interrupted, state, Job.recover]

theorem finishFailed_spec {stopping : Bool} {err : OperationError} {bytes : Int} {event : String}
    (ended : finishFailed stopping job err bytes now = some (after, event)) :
    after.type = job.type ∧ after.state ≠ .completed := by
  unfold finishFailed at ended
  split_ifs at ended <;> cases ended <;> exact ⟨rfl, nofun⟩

theorem finish_spec {stopping : Bool} {err : Option OperationError} {bytes : Int} {event : String}
    (ended : Jobs.finish stopping job err bytes now = some (after, event)) :
    after.type = job.type ∧ (after.state = .completed →
      job.state ≠ .pauseRequested ∧ job.state ≠ .cancelRequested ∧ err = none ∧
        after.filesCompleted = job.filesCompleted ∧ after.bytesCompleted = bytes ∧
        after.bytesTotal = bytes) := by
  unfold Jobs.finish at ended
  dsimp only at ended
  split at ended
  · cases ended
    exact ⟨rfl, nofun⟩
  · cases ended
    exact ⟨rfl, nofun⟩
  rename_i pausing canceling
  cases err with
  | none =>
    cases ended
    exact ⟨rfl, fun _ => ⟨pausing, canceling, rfl, rfl, rfl, rfl⟩⟩
  | some err =>
    obtain ⟨type, open_⟩ := finishFailed_spec ended
    exact ⟨type, fun completed => absurd completed open_⟩

theorem Sound.control (sound : Sound s) (called : Called s.job after) :
    Sound { s with job := after } := by
  constructor
  · intro item member
    have stored := sound.items item member
    rwa [← called.type] at stored
  · exact fun completed => absurd completed called.open_
  · intro e running
    have executing := sound.executing e running
    have stops := called.stops executing.active
    -- a job that is asked to stop takes no report any more
    have halted : after.state ≠ .running := by
      rcases stops with state | state <;> rw [state] <;> nofun
    constructor
    · exact .inr stops
    · exact executing.type.trans called.type.symm
    · exact executing.started
    · exact executing.mode
    · intro open_
      obtain ⟨lists, tallies, locks, _⟩ := executing.working open_
      exact ⟨lists, tallies, locks, fun _ running => absurd running halted⟩
    · intro ended
      exact ⟨(executing.closed ended).bytes, fun running => absurd running halted⟩

theorem Sound.rest (type : after.type = s.job.type)
    (stored : ∀ item ∈ items, Stored s.job.type item)
    (completed : after.state = .completed → Accounted ⟨after, items, none⟩) :
    Sound ⟨after, items, none⟩ := by
  constructor
  · intro item member
    have ready := stored item member
    rwa [← type] at ready
  · exact completed
  · intro e running
    cases running

theorem overrideItems_stored {type : JobType} {ordinal : Int} {following : Bool}
    {action : ItemAction} {free : String → String} (stored : ∀ item ∈ items, Stored type item)
    (allowed : overridable ordinal following action items = true) :
    ∀ item ∈ overrideItems ordinal following action free items, Stored type item := by
  intro out member
  obtain ⟨item, old, rfl⟩ := List.mem_map.mp member
  split
  · rename_i touched
    simp only [overridable, Bool.and_eq_true, List.all_eq_true] at allowed
    have rule := (allowed.2 item old).2
    refine ⟨?_, nofun⟩
    have actions := allowed.1.1
    cases action <;> simp_all [fits]
  · exact stored item old

theorem planned_stored {type : JobType} (new : items.all planned = true) :
    ∀ item ∈ items, Stored type item := by
  intro item member
  have fresh := List.all_eq_true.mp new item member
  simp only [planned, Bool.and_eq_true, beq_iff_eq] at fresh
  refine ⟨fresh.2, fun _ _ skipped => ?_⟩
  rw [fresh.1.1] at skipped
  cases skipped

theorem Sound.finish {e : Execution} {mountLost stopping : Bool} (sound : Sound s)
    (running : s.execution = some e) (moved : s.finishes e mountLost stopping now = some t) :
    Sound t := by
  have executing := sound.executing e running
  unfold System.finishes at moved
  split at moved
  · cases moved
  rename_i err result
  dsimp only at moved
  obtain ⟨⟨after, event⟩, ended, rfl⟩ := Option.map_eq_some_iff.mp moved
  obtain ⟨type, whole⟩ := finish_spec ended
  apply Sound.rest type sound.items
  intro completed
  obtain ⟨pausing, canceling, none, files, bytes, bytesTotal⟩ := whole completed
  obtain rfl : err = .none := by
    cases err with
    | none => rfl
    | some err => cases mountLost <;> cases none
  have state : s.job.state = .running :=
    (executing.active.resolve_right fun stops => stops.elim pausing canceling)
  have closed := executing.closed (.inl result)
  constructor
  · exact files.trans (closed.files state)
  · exact bytes.trans closed.bytes
  · exact bytesTotal.trans closed.bytes

def Silent (mode : Mode) (items : List JobItem) : Prop :=
  match mode with
  | .serial => False
  | .parallel => ∀ item ∈ items, item.type = .file → finished item = true
  | .remote => ∀ item ∈ items, finished item = true

theorem Silent.files {mode : Mode} (silent : Silent mode items) :
    total finishedFile items = total isFile items := by
  apply total_congr
  intro item member
  by_cases file : item.type = .file
  · have done : finished item = true := by
      cases mode with
      | serial => exact silent.elim
      | parallel => exact silent item member file
      | remote => exact silent item member
    simp [finishedFile, isFile, file, done]
  · simp [finishedFile, isFile, file]

theorem exists_open {mode : Mode} (loops : mode ≠ .serial) (noisy : ¬Silent mode items) :
    ∃ (i : Nat) (item : JobItem), items[i]? = some item ∧ finished item = false ∧
      (mode = .remote ∨ item.type = .file) := by
  cases mode with
  | serial => exact absurd rfl loops
  | parallel =>
    simp only [Silent, not_forall, Bool.not_eq_true] at noisy
    obtain ⟨item, member, file, open_⟩ := noisy
    obtain ⟨i, here⟩ := List.getElem?_of_mem member
    exact ⟨i, item, here, open_, .inr file⟩
  | remote =>
    simp only [Silent, not_forall, Bool.not_eq_true] at noisy
    obtain ⟨item, member, open_⟩ := noisy
    obtain ⟨i, here⟩ := List.getElem?_of_mem member
    exact ⟨i, item, here, open_, .inl rfl⟩

theorem Working.start {mode : Mode} (stored : ∀ item ∈ items, Stored job.type item)
    (counted : Silent mode items → job.filesCompleted = total isFile items) :
    Working job items (.start mode job items) := by
  have calm : ¬(Execution.start mode job items).troubled := by
    cases mode <;> simp [Execution.troubled, Execution.start, Mode.troubles]
  constructor
  · refine ⟨rfl, Nat.zero_le _, ?_, ?_, List.nodup_nil⟩
    · intro i item kept here found
      obtain rfl : item = kept := Option.some.inj (here.symm.trans found)
      exact ⟨stored item (List.mem_of_getElem? here), rfl, fun _ => ⟨rfl, rfl⟩, nofun, nofun, nofun⟩
    · rintro i (staged | queued)
      · exact absurd rfl staged
      · cases queued
  · refine ⟨rfl, rfl, ?_, fun _ => rfl, fun _ _ => ⟨calm, rfl, fun _ => rfl⟩⟩
    cases mode <;> exact le_rfl
  · nofun
  · intro loops _
    by_cases silent : Silent mode items
    · exact .inl ((counted silent).trans silent.files.symm)
    · obtain ⟨i, item, here, open_, kind⟩ := exists_open loops silent
      exact .inr (.inr (.inr (.inr (.inr ⟨i, item, Nat.zero_le _, here, open_, kind⟩))))

theorem modeOf_remote (job : Job) (items : List JobItem) :
    modeOf job items = .remote ↔ job.type ≠ .copyLocal := by
  unfold modeOf
  split
  · rename_i copies
    split <;> simp [copies]
  · rename_i other
    simpa using other

theorem Sound.begin (sound : Sound s) (running : s.job.state = .running)
    (counted : Silent (modeOf s.job s.items) s.items →
      s.job.filesCompleted = total isFile s.items) :
    Sound (s.keep (.start (modeOf s.job s.items) s.job s.items)) := by
  constructor
  · exact sound.items
  · intro completed
    rw [show s.job.state = .completed from completed] at running
    cases running
  · intro e begun
    cases begun
    constructor
    · exact .inl running
    · rfl
    · exact running
    · exact modeOf_remote _ _
    · exact fun _ => .start sound.items counted
    · rintro (ended | ⟨_, closing⟩)
      · cases ended
      · exact absurd rfl closing

end Service

section Runs

variable {e : Execution}

/-- The steps under which a job that completes has counted everything: an operation that finds
nothing left to report begins with the right count, the serial loop skips no file of which bytes
are recorded, no report of a pull tells fewer files than the job already does, and the end of a
move does not write an older count back. -/
def Steady (s : System) (event : Event) : Prop :=
  match event with
  | .begin => Silent (modeOf s.job s.items) s.items → s.job.filesCompleted = total isFile s.items
  | .visit a => ∀ e ∈ s.execution, ∀ item ∈ e.memory[e.next]?,
      Skips e item a → item.bytesCompleted = 0
  | .persist i => ∀ e ∈ s.execution, ∀ stage ∈ e.stage i, ∀ snapshot ∈ stage.snapshot,
      e.mode = .remote → s.job.filesCompleted ≤ snapshot.files
  | .finalize none => ∀ e ∈ s.execution, e.job.filesCompleted = total isFile s.items
  | _ => True

variable {s t : System}

section

variable (sound : Sound s) (running : s.execution = some e)
include sound running

theorem Sound.executes (steps : ∃ after, Steps s e t after) : Sound t := by
  obtain ⟨after, steps⟩ := steps
  exact sound.step running steps

theorem Sound.visits {a : Answers} (moved : s.visits e a = some t)
    (zero : ∀ item, e.memory[e.next]? = some item → Skips e item a → item.bytesCompleted = 0) :
    Sound t := by
  have executing := sound.executing e running
  unfold System.visits at moved
  split at moved
  · cases moved
  rename_i item here
  split_ifs at moved with guard
  simp only [Bool.and_eq_true] at guard
  cases moved
  have w := executing.working guard.1.1.1
  obtain ⟨_, _, placed⟩ := w.lists.kept here
  apply sound.executes running
  apply w.visit executing sound.items guard.1.1.1 here
  exact Execution.visit_spec placed.stored.1 guard.1.2 (zero item here)

theorem Sound.takes {a : Answers} (moved : s.takes e a = some t) : Sound t := by
  have executing := sound.executing e running
  unfold System.takes at moved
  split at moved
  · cases moved
  rename_i i queue head
  split at moved
  · cases moved
  rename_i item here
  split_ifs at moved with guard
  simp only [Bool.and_eq_true, bne_iff_ne] at guard
  cases moved
  have w := executing.working guard.1.1.1.1.1
  apply sound.executes running
  exact w.take executing sound.items guard.1.1.1.1.1 guard.1.1.2 head here

end

theorem Execution.free_lock (free : e.free = true) (parallel : e.mode = .parallel) :
    e.lock = none := by
  simpa [Execution.free, parallel] using free

section

variable (sound : Sound s) (running : s.execution = some e)
include sound running

theorem Sound.arrives {i : Nat} {bytes : Int} (moved : s.arrives e i bytes = some t) : Sound t := by
  have executing := sound.executing e running
  unfold System.arrives at moved
  split at moved
  · rename_i item staged here
    split_ifs at moved with guard
    rw [Bool.and_eq_true] at guard
    cases moved
    apply sound.executes running
    exact (executing.working guard.1).arrive executing sound.items guard.1
      (Execution.free_lock guard.2) staged here
  · cases moved

theorem Sound.copies {i : Nat} {a : Answers} (moved : s.copies e i a = some t) : Sound t := by
  have executing := sound.executing e running
  unfold System.copies at moved
  split at moved
  · rename_i item staged here
    split_ifs at moved with guard
    rw [Bool.and_eq_true] at guard
    cases moved
    apply sound.executes running
    refine (executing.working guard.1).copied executing sound.items guard.1 ?_ staged here
    intro answer copied
    apply Execution.free_lock
    simpa [copied] using guard.2
  · cases moved

theorem Sound.stores {i : Nat} (moved : s.stores e i = some t) : Sound t := by
  have executing := sound.executing e running
  unfold System.stores at moved
  split at moved
  · rename_i snapshot final item staged here
    split_ifs at moved with open_
    cases moved
    apply sound.executes running
    exact (executing.working open_).store executing sound.items open_ staged here
  · cases moved

theorem Sound.persists {i : Nat} (moved : s.persists e i = some t) (latest : ∀ snapshot final,
      e.stage i = some (.reporting snapshot final) → e.mode = .remote → s.job.filesCompleted ≤
      snapshot.files) : Sound t := by
  have executing := sound.executing e running
  unfold System.persists at moved
  split at moved
  · rename_i snapshot final staged
    split_ifs at moved with open_
    cases moved
    apply sound.executes running
    exact (executing.working open_).persist executing sound.items open_ staged
      (latest snapshot final staged)
  · cases moved

theorem Sound.reports (moved : s.reports e = some t) : Sound t := by
  have executing := sound.executing e running
  have open_ : e.working = true := by
    unfold System.reports at moved
    split_ifs at moved with guard
    exact (Bool.and_eq_true _ _ ▸ guard).1
  apply sound.executes running
  exact (executing.working open_).report executing sound.items moved

end

theorem Sound.restart (sound : Sound s) (now : Time) :
    Sound { s with job := interrupted s.job now, execution := none } := by
  obtain ⟨type, same⟩ := interrupted_spec s.job now
  apply Sound.rest type sound.items
  intro completed
  have kept := same completed
  rw [kept] at completed
  obtain ⟨files, bytes, bytesTotal⟩ := sound.completed completed
  rw [kept]
  exact ⟨files, bytes, bytesTotal⟩

theorem Sound.next {event : Event} (sound : Sound s) (steady : Steady s event)
    (moved : s.next event = some t) : Sound t := by
  cases event with
  | control call now =>
    obtain ⟨after, applied, rfl⟩ := Option.map_eq_some_iff.mp moved
    exact sound.control (Control.apply_called applied)
  | override ordinal following action free now =>
    simp only [System.next] at moved
    split_ifs at moved with guard
    rw [Bool.and_eq_true, Option.isNone_iff_eq_none] at guard
    obtain ⟨after, applied, rfl⟩ := Option.map_eq_some_iff.mp moved
    rw [guard.1]
    have called := called_of_write applied
      (fun verdict => @Call.verdict_write (.overrideItem "" _) _ _ now verdict) nofun
    apply Sound.rest called.type (overrideItems_stored sound.items guard.2)
    exact fun completed => absurd completed called.open_
  | restart now =>
    cases moved
    exact sound.restart now
  | plan items bytesTotal filesTotal omitted =>
    simp only [System.next] at moved
    split_ifs at moved with guard
    simp only [plannable, Bool.and_eq_true, beq_iff_eq, Option.isNone_iff_eq_none] at guard
    cases moved
    rw [guard.1.1.1.1]
    refine Sound.rest (s := s) rfl (planned_stored guard.2) ?_
    intro completed
    rw [show s.job.state = .completed from completed] at guard
    cases guard.1.1.1.2
  | planLost items now =>
    simp only [System.next] at moved
    split_ifs at moved with guard
    simp only [plannable, Bool.and_eq_true, beq_iff_eq, Option.isNone_iff_eq_none] at guard
    cases moved
    rw [guard.1.1.1.1]
    obtain ⟨type, same⟩ := interrupted_spec s.job now
    apply Sound.rest type (planned_stored guard.2)
    intro completed
    rw [same completed] at completed
    rw [completed] at guard
    cases guard.1.1.1.2
  | begin =>
    simp only [System.next] at moved
    split_ifs at moved with guard
    simp only [Bool.and_eq_true, beq_iff_eq] at guard
    cases moved
    exact sound.begin guard.1.2 steady
  | visit a =>
    obtain ⟨e, running, step⟩ := Option.bind_eq_some_iff.mp moved
    exact sound.visits running step (steady e running)
  | report =>
    obtain ⟨e, running, step⟩ := Option.bind_eq_some_iff.mp moved
    exact sound.reports running step
  | interrupt err =>
    obtain ⟨e, running, step⟩ := Option.bind_eq_some_iff.mp moved
    have executing := sound.executing e running
    split_ifs at step with guard
    cases step
    apply sound.executes running
    exact Steps.keep executing rfl rfl rfl rfl sound.items (.inl ⟨err, rfl⟩)
  | take a =>
    obtain ⟨e, running, step⟩ := Option.bind_eq_some_iff.mp moved
    exact sound.takes running step
  | arrive i bytes =>
    obtain ⟨e, running, step⟩ := Option.bind_eq_some_iff.mp moved
    exact sound.arrives running step
  | copied i a =>
    obtain ⟨e, running, step⟩ := Option.bind_eq_some_iff.mp moved
    exact sound.copies running step
  | store i =>
    obtain ⟨e, running, step⟩ := Option.bind_eq_some_iff.mp moved
    exact sound.stores running step
  | persist i =>
    obtain ⟨e, running, step⟩ := Option.bind_eq_some_iff.mp moved
    exact sound.persists running step fun _ _ staged => steady e running _ staged _ rfl
  | close =>
    obtain ⟨e, running, step⟩ := Option.bind_eq_some_iff.mp moved
    split_ifs at step with drained
    cases step
    exact sound.close running drained
  | finalize err =>
    obtain ⟨e, running, step⟩ := Option.bind_eq_some_iff.mp moved
    apply sound.finalize running step
    rintro rfl
    exact steady e running
  | cleaned err =>
    obtain ⟨e, running, step⟩ := Option.bind_eq_some_iff.mp moved
    split_ifs at step with guard
    cases step
    exact sound.cleaned err running guard.1 guard.2
  | finish mountLost stopping now =>
    obtain ⟨e, running, step⟩ := Option.bind_eq_some_iff.mp moved
    exact sound.finish running step

def System.step (s : System) (event : Event) : Option (System × Option Unit) :=
  (s.next event).map (·, none)

/-- A job with its plan, or without one yet, before anything was done. -/
structure Fresh (s : System) : Prop where
  type : s.job.type ∈ [.copyLocal, .transferPullDirectory, .transferPullBatch, .transferMoveBatch]
  state : s.job.state ≠ .completed
  items : s.items.all planned = true
  idle : s.execution = none

theorem Fresh.sound (fresh : Fresh s) : Sound s where
  items := planned_stored fresh.items
  completed := fun completed => absurd completed fresh.state
  executing := fun e running => by rw [fresh.idle] at running; cases running

/-- Through pauses, restarts and retries, and whatever the order in which the workers and their
reports take turns, a job that completes has counted all files of its plan and their bytes. -/
theorem completed_counts_all (fresh : Fresh s)
    (run : Run System.step (fun s event _ => Steady s event) s t)
    (completed : t.job.state = .completed) :
    t.job.filesCompleted = total isFile t.items ∧
      t.job.bytesCompleted = total fileBytes t.items ∧
      t.job.bytesTotal = total fileBytes t.items := by
  have sound : Sound t := by
    apply run.keeps _ fresh.sound
    intro s event u answer moved steady sound
    obtain ⟨v, stepped, same⟩ := Option.map_eq_some_iff.mp moved
    cases same
    exact sound.next steady stepped
  obtain ⟨files, bytes, bytesTotal⟩ := sound.completed completed
  exact ⟨files, bytes, bytesTotal⟩

/-- While an operation goes on, a file it has passed waits once in the queue, is with a worker, or
is finished and counted, unless something failed. -/
theorem no_file_lost (fresh : Fresh s) (run : Run System.step (fun s event _ => Steady s event) s t)
    {e : Execution} (running : t.execution = some e) (goes : e.working = true) :
    e.queue.Nodup ∧ e.counters.files = total finishedFile e.memory ∧
      ∀ i : Nat, ∀ item ∈ e.memory[i]?, i < e.next →
        (i ∈ e.queue → e.stage i = none ∧ finished item = false) ∧
          (i ∉ e.queue → e.stage i = none → finished item = true ∨ e.troubled) := by
  have sound : Sound t := by
    apply run.keeps _ fresh.sound
    intro s event u answer moved steady sound
    obtain ⟨v, stepped, same⟩ := Option.map_eq_some_iff.mp moved
    cases same
    exact sound.next steady stepped
  have w := (sound.executing e running).working goes
  refine ⟨w.lists.nodup, w.tallies.files, fun i item here before => ?_⟩
  obtain ⟨_, _, placed⟩ := w.lists.kept here
  refine ⟨fun waits => ⟨?_, (placed.queued waits).2.2⟩, fun out idle => placed.visited before idle out⟩
  exact Option.eq_none_iff_forall_ne_some.mpr fun stage staged =>
    (placed.staged stage staged).2.2.1 waits

instance (mode : Mode) (items : List JobItem) : Decidable (Silent mode items) :=
  match mode with
  | .serial => inferInstanceAs (Decidable False)
  | .parallel =>
    inferInstanceAs (Decidable (∀ item ∈ items, item.type = .file → finished item = true))
  | .remote => inferInstanceAs (Decidable (∀ item ∈ items, finished item = true))

instance (e : Execution) (item : JobItem) (a : Answers) : Decidable (Skips e item a) :=
  inferInstanceAs (Decidable (e.mode = .serial ∧ finished item = false ∧ item.type = .file ∧
    if item.state = .failed then a.skips = true else item.action = .skip))

instance (s : System) (event : Event) : Decidable (Steady s event) :=
  match event with
  | .begin => inferInstanceAs (Decidable (Silent (modeOf s.job s.items) s.items →
      s.job.filesCompleted = total isFile s.items))
  | .visit a => inferInstanceAs (Decidable (∀ e ∈ s.execution, ∀ item ∈ e.memory[e.next]?,
      Skips e item a → item.bytesCompleted = 0))
  | .persist i => inferInstanceAs (Decidable (∀ e ∈ s.execution, ∀ stage ∈ e.stage i,
      ∀ snapshot ∈ stage.snapshot, e.mode = .remote → s.job.filesCompleted ≤ snapshot.files))
  | .finalize none => inferInstanceAs (Decidable (∀ e ∈ s.execution,
      e.job.filesCompleted = total isFile s.items))
  | .finalize (some _) | .control _ _ | .override _ _ _ _ _ | .restart _ | .plan _ _ _ _
  | .planLost _ _ | .report | .interrupt _ | .take _ | .arrive _ _ | .copied _ _ | .store _
  | .close | .cleaned _ | .finish _ _ _ => inferInstanceAs (Decidable True)

def sampleFile (ordinal : Int) (size : Int) : JobItem where
  ordinal := ordinal
  relativePath := toString ordinal
  sourcePath := "from/" ++ toString ordinal
  destinationPath := "to/" ++ toString ordinal
  type := .file
  size := size
  action := .copy

def sampleSystem (type : JobType) : System where
  job := { id := "j", type := type, state := .queued, maxParallelFiles := 2, maxAttempts := 3 }
  items := [sampleFile 1 5, sampleFile 2 7]

def sampleAnswers (written : Int) : Answers where
  replan := .ok (.copy, "", "")
  denied := none
  createDirectory := none
  metadata := .ok ⟨written, 0⟩
  checksum := .ok ""
  copied := .ok (written, "")
  refreshed := .ok ⟨written, 0⟩
  refreshedChecksum := .ok ""

def samplePull : List Event :=
  [.control .claim 1, .begin, .visit (sampleAnswers 5), .visit (sampleAnswers 7),
    .take (sampleAnswers 5), .take (sampleAnswers 7), .copied 0 (sampleAnswers 5),
    .copied 1 (sampleAnswers 7)]

def sampleReport (i : Nat) : List Event := [.store i, .persist i]

/-- The node stops before the report of the second file, and copies it again. -/
def sampleEvents : List Event :=
  samplePull ++ sampleReport 0 ++
    [.restart 2, .control .resume 3, .control .claim 4, .begin, .visit (sampleAnswers 5),
      .visit (sampleAnswers 7), .take (sampleAnswers 7), .arrive 1 3, .store 1, .persist 1,
      .copied 1 (sampleAnswers 7)] ++ sampleReport 1 ++ [.close, .finish false false 5]

abbrev steadily (s : System) (event : Event) (_ : System) : Bool := decide (Steady s event)

abbrev sampleEnd : System :=
  (replay System.step steadily (sampleSystem .transferPullBatch) sampleEvents).getD
    (sampleSystem .transferPullBatch)

theorem sample_pull_counts :
    sampleEnd.job.state = .completed ∧ sampleEnd.job.filesCompleted = 2 ∧
      sampleEnd.job.filesCompleted = total isFile sampleEnd.items ∧
      sampleEnd.job.bytesCompleted = total fileBytes sampleEnd.items ∧
      sampleEnd.job.bytesTotal = total fileBytes sampleEnd.items := by
  have run : Run System.step (fun s event _ => Steady s event)
      (sampleSystem .transferPullBatch) sampleEnd :=
    Run.of_possible (fun _ _ _ checked => of_decide_eq_true checked) (by decide +kernel) _
  have fresh : Fresh (sampleSystem .transferPullBatch) := ⟨by decide, by decide, by decide, rfl⟩
  have completed : sampleEnd.job.state = .completed := by decide +kernel
  exact ⟨completed, by decide +kernel, completed_counts_all fresh run completed⟩

abbrev sampleBusy : System :=
  (replay System.step steadily (sampleSystem .transferPullBatch) samplePull).getD sampleEnd

theorem sample_files_kept : ∃ e, sampleBusy.execution = some e ∧ e.queue.Nodup ∧
    e.counters.files = total finishedFile e.memory := by
  have run : Run System.step (fun s event _ => Steady s event) _ sampleBusy :=
    Run.of_possible (fun _ _ _ checked => of_decide_eq_true checked) (by decide +kernel) _
  have busy : sampleBusy.execution.any Execution.working = true := by decide +kernel
  obtain ⟨e, running, goes⟩ := Option.any_eq_true .. |>.mp busy
  have kept := no_file_lost ⟨by decide, by decide, by decide, rfl⟩ run running goes
  exact ⟨e, running, kept.1, kept.2.1⟩

def sampleMove : List Event :=
  samplePull ++ sampleReport 0 ++ sampleReport 1 ++
    [.close, .finalize none, .cleaned none, .finish false false 2]

def sampleOvertaken : List Event :=
  samplePull ++ [.store 0, .store 1, .persist 1, .persist 0, .close, .finish false false 2]

abbrev anyhow (_ : System) (_ : Event) (_ : System) : Bool := true

abbrev sampleOutcome (type : JobType) (events : List Event) : System :=
  (replay System.step anyhow (sampleSystem type) events).getD (sampleSystem type)

/-- A move ends with the count it began with, and a pull with that of the report that came
last. -/
theorem completed_with_older_count :
    Fresh (sampleSystem .transferMoveBatch) ∧ Fresh (sampleSystem .transferPullBatch) ∧
      (∃ t, Run System.step (fun _ _ _ => True) (sampleSystem .transferMoveBatch) t ∧
        t.job.state = .completed ∧ t.job.filesCompleted = 0 ∧ total isFile t.items = 2) ∧
      ∃ t, Run System.step (fun _ _ _ => True) (sampleSystem .transferPullBatch) t ∧
        t.job.state = .completed ∧ t.job.filesCompleted = 1 ∧ total isFile t.items = 2 := by
  have fresh {type : JobType} (kind : type ∈ [.copyLocal, .transferPullDirectory,
      .transferPullBatch, .transferMoveBatch]) : Fresh (sampleSystem type) :=
    ⟨kind, nofun, rfl, rfl⟩
  refine ⟨fresh (by decide), fresh (by decide), ?_, ?_⟩
  · refine ⟨sampleOutcome .transferMoveBatch sampleMove, ?_, by decide +kernel⟩
    exact Run.of_possible (fun _ _ _ _ => trivial) (by decide +kernel) _
  · refine ⟨sampleOutcome .transferPullBatch sampleOvertaken, ?_, by decide +kernel⟩
    exact Run.of_possible (fun _ _ _ _ => trivial) (by decide +kernel) _

end Runs

end Jolt.Executors
