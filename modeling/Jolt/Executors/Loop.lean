import Jolt.Executors.Progress

/-! The main loop of an executor keeps what holds while an operation runs, item by item. -/
namespace Jolt.Executors
open Jolt.Jobs

section Places

variable {after : Execution} {i : Nat} {out kept : JobItem}

section

variable (stored : Stored after.job.type out) (type : kept.type = out.type)
include stored type

theorem Placed.idle (same : kept.bytesCompleted = out.bytesCompleted ∧ finished kept = finished out)
    (stage : after.stage i = none) (queue : i ∉ after.queue)
    (visited : finished out = true ∨ after.troubled) : Placed after i out kept := by
  constructor
  · exact stored
  · exact type
  · exact fun _ => same
  · intro found present
    rw [stage] at present
    cases present
  · exact fun queued => absurd queued queue
  · exact fun _ _ _ => visited

theorem Placed.busy {stage : Stage} (file : out.type = .file) (early : i < after.next)
    (staged : after.stage i = some stage) (queue : i ∉ after.queue)
    (final : finished out = stage.final) (same : (∀ snapshot last, stage ≠ .storing snapshot last) →
      kept.bytesCompleted = out.bytesCompleted ∧ finished kept = finished out) :
    Placed after i out kept := by
  constructor
  · exact stored
  · exact type
  · intro kept
    apply same
    rintro snapshot last rfl
    exact kept snapshot last staged
  · intro found present
    rw [staged] at present
    cases present
    exact ⟨file, early, queue, final⟩
  · exact fun queued => absurd queued queue
  · intro _ none _
    rw [staged] at none
    cases none

theorem Placed.waiting (file : out.type = .file) (early : i < after.next)
    (stage : after.stage i = none) (queue : i ∈ after.queue) (open_ : finished out = false)
    (same : kept.bytesCompleted = out.bytesCompleted ∧ finished kept = finished out) :
    Placed after i out kept := by
  constructor
  · exact stored
  · exact type
  · exact fun _ => same
  · intro found present
    rw [stage] at present
    cases present
  · exact fun _ => ⟨file, early, open_⟩
  · exact fun _ _ free => absurd queue free

end

end Places

section Steps

variable {s t : System} {e after : Execution} {item : JobItem} {a : Answers} {i : Nat}

structure Steps (s : System) (e : Execution) (t : System) (after : Execution) : Prop where
  execution : t.execution = some after
  type : t.job.type = s.job.type
  active : Active t.job.state
  job : after.job = e.job
  mode : after.mode = e.mode
  items : ∀ item ∈ t.items, Stored s.job.type item
  goes : (∃ err, after.result = some (some err)) ∨ after.working = true ∧ Working t.job t.items after

theorem Sound.step (sound : Sound s) (running : s.execution = some e)
    (steps : Steps s e t after) : Sound t := by
  have executing := sound.executing e running
  constructor
  · rw [steps.type]
    exact steps.items
  · intro completed
    have state := steps.active
    rw [completed] at state
    rcases state with state | state | state <;> cases state
  · intro found present
    rw [steps.execution] at present
    cases present
    constructor
    · exact steps.active
    · rw [steps.job, steps.type]
      exact executing.type
    · rw [steps.job]
      exact executing.started
    · rw [steps.mode, steps.job]
      exact executing.mode
    · intro open_
      rcases steps.goes with ⟨err, failed⟩ | ⟨_, working⟩
      · simp [Execution.working, failed] at open_
      · exact working
    · intro ended
      rcases steps.goes with ⟨err, failed⟩ | ⟨open_, _⟩
      · simp [failed] at ended
      simp only [Execution.working, Bool.and_eq_true, Option.isNone_iff_eq_none,
        beq_iff_eq] at open_
      simp [open_] at ended

theorem Steps.keep {t : System} {after : Execution} (executing : Executing s e)
    (execution : t.execution = some after) (job : t.job = s.job) (same : after.job = e.job)
    (mode : after.mode = e.mode) (items : ∀ x ∈ t.items, Stored s.job.type x)
    (goes : (∃ err, after.result = some (some err)) ∨
      after.working = true ∧ Working s.job t.items after) :
    ∃ after, Steps s e t after := by
  refine ⟨after, execution, by rw [job], ?_, same, mode, items, ?_⟩
  · rw [job]
    exact executing.active
  · rw [job]
    exact goes

theorem stored_set {type : JobType} {items : List JobItem} (stored : ∀ x ∈ items, Stored type x)
    {out : JobItem} (new : Stored type out) (i : Nat) : ∀ x ∈ items.set i out, Stored type x := by
  intro x member
  rcases List.mem_or_eq_of_mem_set member with old | rfl
  · exact stored x old
  · exact new

end Steps

section Loop

variable {s : System} {e : Execution} {item out : JobItem} {d : Counters} {owes : Bool}
  {a : Answers}

def Execution.advance (e : Execution) (out : JobItem) (d : Counters) (owes : Bool) : Execution :=
  { e with
    next := e.next + 1, memory := e.memory.set e.next out, counters := d, owes := owes }

theorem advance_troubled (moves : Moves e.mode item out e.counters d) (troubled : e.troubled) :
    (e.advance out d owes).troubled :=
  troubled.imp_right fun positive => lt_of_lt_of_le positive moves.troubles

theorem advance_elsewhere : Elsewhere e (e.advance out d owes) e.next :=
  .moves_on rfl rfl (fun _ _ => rfl) fun _ _ => Iff.rfl

theorem advance_apart (moves : Moves e.mode item out e.counters d) :
    Apart e (e.advance out d owes) e.next :=
  ⟨advance_elsewhere, advance_troubled moves⟩

theorem inside {items : List JobItem} {i : Nat} {item : JobItem} (here : items[i]? = some item) :
    i < items.length :=
  (List.getElem?_eq_some_iff.mp here).1

theorem Lists.advance (lists : Lists s.items e) (mode : e.mode = .remote ↔ e.job.type ≠ .copyLocal)
    (here : e.memory[e.next]? = some item) (moves : Moves e.mode item out e.counters d)
    (ends : finished out = true ∨ (e.advance out d owes).troubled) :
    Lists (s.items.set e.next out) (e.advance out d owes) := by
  obtain ⟨stage, queue⟩ := lists.fresh here
  apply lists.change (advance_apart moves) here rfl
  · exact inside here
  · exact lists.nodup
  · exact .idle (moves.stored mode) rfl ⟨rfl, rfl⟩ stage queue ends

theorem Tallies.advance (tallies : Tallies e) (here : e.memory[e.next]? = some item)
    (moves : Moves e.mode item out e.counters d) (quiet : e.mode = .parallel → d = e.counters) :
    Tallies (e.advance out d owes) := by
  obtain ⟨files, bytes⟩ := moves.totals here tallies.files tallies.bytes
  constructor
  · exact files
  · exact bytes
  · exact tallies.troubles.trans moves.troubles
  · exact tallies.serial
  · intro parallel none
    obtain ⟨calm, rest⟩ := tallies.idle parallel none
    refine ⟨?_, rest⟩
    rw [quiet parallel]
    exact calm

theorem Locks.advance (locks : Locks e) (before : finished item = false)
    (moves : Moves e.mode item out e.counters d) (quiet : e.mode = .parallel → d = e.counters) :
    Locks (e.advance out d owes) := by
  intro i stage snapshot staged told
  obtain ⟨least, locked⟩ := locks i stage snapshot staged told
  refine ⟨least.trans (moves.files_mono before), fun parallel => ?_⟩
  obtain ⟨lock, same⟩ := locked parallel
  refine ⟨lock, ?_⟩
  rw [same]
  exact (congrArg Counters.files (quiet parallel)).symm

end Loop

section Visits

variable {s : System} {e : Execution} {item : JobItem} {a : Answers}

theorem Execution.visit_finished (done : finished item = true) : e.visit item a = .pass := by
  cases mode : e.mode <;> simp [Execution.visit, mode, serialVisit, localScan, remoteVisit, done]

theorem Execution.promised.advance {out : JobItem} (promised : e.promised)
    (here : e.memory[e.next]? = some item)
    (plain : finished item = true ∨ e.mode = .parallel ∧ item.type ≠ .file) :
    (e.advance out e.counters e.owes).promised := by
  rcases promised with troubled | owes | queue | staged | ⟨i, other, later, found, open_, kind⟩
  · exact .inl troubled
  · exact .inr (.inl owes)
  · exact .inr (.inr (.inl queue))
  · exact .inr (.inr (.inr (.inl staged)))
  · have apart : i ≠ e.next := by
      rintro rfl
      rw [here] at found
      cases found
      rcases plain with done | ⟨parallel, type⟩
      · rw [done] at open_
        cases open_
      rcases kind with remote | file
      · rw [parallel] at remote
        cases remote
      · exact type file
    refine .inr (.inr (.inr (.inr ⟨i, other, ?_, ?_, open_, kind⟩)))
    · change e.next + 1 ≤ i
      omega
    · exact (List.getElem?_set_ne (Ne.symm apart)).trans found

section

variable (w : Working s.job s.items e)
include w

theorem Working.pass (here : e.memory[e.next]? = some item) (done : finished item = true) :
    Working s.job s.items { e with next := e.next + 1 } := by
  obtain ⟨stage, queue⟩ := w.lists.fresh here
  obtain ⟨kept, found, placed⟩ := w.lists.kept here
  have apart : Apart e { e with next := e.next + 1 } e.next :=
    ⟨.moves_on rfl rfl (fun _ _ => rfl) fun _ _ => Iff.rfl, id⟩
  constructor
  · apply w.lists.change_memory apart here found (set_same here).symm
    · exact inside here
    · exact w.lists.nodup
    refine .idle placed.stored placed.type (placed.same ?_) stage queue (.inl done)
    intro snapshot final storing
    rw [stage] at storing
    cases storing
  · exact ⟨w.tallies.files, w.tallies.bytes, w.tallies.troubles, w.tallies.serial, w.tallies.idle⟩
  · exact w.locks
  · intro loops running
    refine (w.reports loops running).imp_right fun promised => ?_
    have moved : (e.advance item e.counters e.owes).promised := promised.advance here (.inl done)
    rwa [Execution.advance, set_same here] at moved

section

variable (mode : e.mode = .remote ↔ e.job.type ≠ .copyLocal) (here : e.memory[e.next]? = some item)
include mode here

theorem Working.settle {out : JobItem} {d : Counters} {owes : Bool} (before : finished item = false)
    (moves : Moves e.mode item out e.counters d)
    (ends : finished out = true ∨ e.mode.troubles e.counters < e.mode.troubles d)
    (quiet : e.mode = .parallel → d = e.counters) (reports : Reports s.job (e.advance out d owes)) :
    Working s.job (s.items.set e.next out) (e.advance out d owes) := by
  constructor
  · apply w.lists.advance mode here moves
    exact ends.imp_right fun more => .inr (lt_of_le_of_lt w.tallies.troubles more)
  · exact w.tallies.advance here moves quiet
  · exact w.locks.advance before moves quiet
  · exact reports

theorem Working.enqueue {out : JobItem} (before : finished item = false)
    (moves : Moves e.mode item out e.counters e.counters) (file : out.type = .file)
    (open_ : finished out = false) (bytes : out.bytesCompleted = item.bytesCompleted) :
    Working s.job s.items { e.advance out e.counters e.owes with
      queue := e.queue ++ [e.next], pendingFiles := e.pendingFiles + 1 } := by
  obtain ⟨stage, queue⟩ := w.lists.fresh here
  obtain ⟨kept, found, placed⟩ := w.lists.kept here
  have same := placed.same fun snapshot final storing => by
    rw [stage] at storing
    cases storing
  have counted : Tallies (e.advance out e.counters e.owes) :=
    w.tallies.advance here moves fun _ => rfl
  constructor
  · apply w.lists.change_memory (i := e.next) ?_ here found rfl
    · exact inside here
    · rw [List.nodup_append]
      refine ⟨w.lists.nodup, List.nodup_singleton _, ?_⟩
      intro i member j last
      rw [List.mem_singleton] at last
      rintro rfl
      exact queue (last ▸ member)
    · apply Placed.waiting
      · exact moves.stored mode
      · rw [placed.type, moves.type]
      · exact file
      · exact Nat.lt_succ_self _
      · exact stage
      · exact List.mem_append_right _ (List.mem_singleton_self _)
      · exact open_
      · rw [bytes, open_, same.1, same.2]
        exact ⟨rfl, before⟩
    · refine ⟨.moves_on rfl rfl (fun _ _ => rfl) fun j other => ?_, id⟩
      simp [other]
  · exact ⟨counted.files, counted.bytes, counted.troubles, counted.serial, nofun⟩
  · exact w.locks
  · exact fun _ _ => .inr (.inr (.inr (.inl (by simp))))

theorem Working.copy {out : JobItem} (serial : e.mode = .serial)
    (moves : Moves e.mode item out e.counters e.counters) (file : out.type = .file)
    (open_ : finished out = false) :
    Working s.job (s.items.set e.next out)
      ((e.advance out e.counters e.owes).setStage e.next (some .copying)) := by
  obtain ⟨_, queue⟩ := w.lists.fresh here
  have counted : Tallies (e.advance out e.counters e.owes) :=
    w.tallies.advance here moves fun _ => rfl
  constructor
  · apply w.lists.change (i := e.next) ?_ here rfl
    · exact inside here
    · exact w.lists.nodup
    · apply Placed.busy
      · exact moves.stored mode
      · rfl
      · exact file
      · exact Nat.lt_succ_self _
      · exact setStage_here _ _ _
      · exact queue
      · exact open_
      · exact fun _ => ⟨rfl, rfl⟩
    · exact ⟨.moves_on rfl rfl (fun j other => setStage_other other _ _) fun _ _ => Iff.rfl, id⟩
  · refine ⟨counted.files, counted.bytes, counted.troubles, counted.serial, fun parallel => ?_⟩
    rw [show e.mode = .parallel from parallel] at serial
    cases serial
  · intro i stage snapshot staged told
    by_cases same : i = e.next
    · rw [same, setStage_here] at staged
      cases staged
      cases told
    · rw [setStage_other same] at staged
      exact w.locks i stage snapshot staged told
  · exact fun loops => absurd serial loops

end

end

theorem Working.visit (executing : Executing s e) (w : Working s.job s.items e)
    (stored : ∀ x ∈ s.items, Stored s.job.type x) (open_ : e.working = true)
    (here : e.memory[e.next]? = some item)
    (spec : VisitSpec e.mode item e.counters (e.visit item a)) :
    ∃ after, Steps s e (s.visit e item a) after := by
  have mode := executing.mode
  have type := executing.type
  have new {out : JobItem} (ready : Stored e.job.type out) :
      ∀ x ∈ s.items.set e.next out, Stored s.job.type x :=
    stored_set stored (type ▸ ready) e.next
  have before : e.visit item a ≠ .pass → finished item = false := by
    intro acts
    by_contra done
    exact acts (Execution.visit_finished (Bool.eq_true_of_not_eq_false done))
  unfold System.visit
  dsimp only
  change VisitSpec _ _ _ (({ e with next := e.next + 1 } : Execution).visit item a) at spec
  change ({ e with next := e.next + 1 } : Execution).visit item a ≠ .pass → _ at before
  revert before spec
  generalize ({ e with next := e.next + 1 } : Execution).visit item a = v
  intro spec before
  cases v with
  | pass => exact Steps.keep executing rfl rfl rfl rfl stored (.inr ⟨open_, w.pass here spec⟩)
  | settle out d =>
    obtain ⟨loops, moves, ends⟩ := spec
    refine Steps.keep executing rfl rfl rfl rfl (new (moves.stored mode)) (.inr ⟨open_, ?_⟩)
    apply w.settle mode here (before nofun) moves ends (fun parallel => absurd parallel loops)
    exact fun _ _ => .inr (.inr (.inl rfl))
  | note out d =>
    obtain ⟨moves, ends⟩ := spec
    refine Steps.keep executing rfl rfl rfl rfl (new (moves.stored mode)) (.inr ⟨open_, ?_⟩)
    rcases ends with ⟨parallel, done, plain, rfl⟩ | ⟨loops, more⟩
    · apply w.settle mode here (before nofun) moves (.inl done) fun _ => rfl
      intro loops running
      refine (w.reports loops running).imp_right fun promised => ?_
      exact promised.advance here (.inr ⟨parallel, plain⟩)
    · apply w.settle mode here (before nofun) moves (.inr more) fun parallel => absurd parallel loops
      exact fun _ _ => .inr (.inl (.inr (lt_of_le_of_lt w.tallies.troubles more)))
  | enqueue out =>
    obtain ⟨_, moves, file, after, bytes⟩ := spec
    refine Steps.keep executing rfl rfl rfl rfl stored (.inr ⟨open_, ?_⟩)
    exact w.enqueue mode here (before nofun) moves file after bytes
  | copy out =>
    obtain ⟨serial, moves, file, after⟩ := spec
    refine Steps.keep executing rfl rfl rfl rfl (new (moves.stored mode)) (.inr ⟨open_, ?_⟩)
    exact w.copy mode here serial moves file after
  | stop stopped d err =>
    cases stopped with
    | none => exact Steps.keep executing rfl rfl rfl rfl stored (.inl ⟨_, rfl⟩)
    | some out =>
      obtain ⟨fit, state⟩ := spec out rfl
      have ready : Stored e.job.type out := ⟨fit, fun _ _ skipped => absurd skipped state⟩
      exact Steps.keep executing rfl rfl rfl rfl (new ready) (.inl ⟨_, rfl⟩)

end Visits

end Jolt.Executors
