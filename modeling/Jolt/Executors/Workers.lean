import Jolt.Executors.Loop

/-! The workers of an executor keep what holds while an operation runs: what they change is one
place, and their reports are on their way in between. -/
namespace Jolt.Executors
open Jolt.Jobs

section Workers

variable {s : System} {e : Execution} {item out : JobItem} {a : Answers} {i : Nat}

def Execution.work (e : Execution) (i : Nat) (queue : List Nat) (out : JobItem) (d : Counters)
    (lock : Option Nat) (failure : Option OperationError) (stage : Option Stage) : Execution :=
  { e with
    queue := queue, memory := e.memory.set i out, counters := d, lock := lock
    failure := failure }.setStage i stage

variable {queue : List Nat} {d : Counters} {lock : Option Nat} {failure : Option OperationError}
  {stage : Option Stage} {kept : JobItem} {job : Job} {items : List JobItem}

theorem work_elsewhere (queues : ∀ j, j ≠ i → (j ∈ queue ↔ j ∈ e.queue)) :
    Elsewhere e (e.work i queue out d lock failure stage) i where
  job := rfl
  stage _ other := setStage_other other _ _
  queue := queues
  next _ _ := Iff.rfl

theorem work_apart (moves : Moves e.mode item out e.counters d)
    (fails : e.failure ≠ none → failure ≠ none)
    (queues : ∀ j, j ≠ i → (j ∈ queue ↔ j ∈ e.queue)) :
    Apart e (e.work i queue out d lock failure stage) i where
  toElsewhere := work_elsewhere queues
  troubled := fun troubled =>
    troubled.imp fails fun positive => lt_of_lt_of_le positive moves.troubles

theorem Working.work {later : Job} (w : Working job items e) (here : e.memory[i]? = some item)
    (moves : Moves e.mode item out e.counters d) (grows : e.counters.files ≤ d.files)
    (queues : e.queue = queue ∨ e.queue = i :: queue)
    (fails : e.failure ≠ none → failure ≠ none) (serial : e.mode = .serial → failure = none)
    (busy : e.stage i ≠ none ∨ e.queue ≠ [])
    (told : ∀ now snapshot, stage = some now → now.snapshot = some snapshot →
      snapshot.files ≤ d.files ∧ (e.mode = .parallel → lock = some i ∧ snapshot.files = d.files))
    (locked : e.mode = .parallel →
      e.lock = none ∨ e.lock = some i ∨ lock = e.lock ∧ d.files = e.counters.files)
    (placed : Placed (e.work i queue out d lock failure stage) i out kept)
    (reports : Reports later (e.work i queue out d lock failure stage)) :
    Working later (items.set i kept) (e.work i queue out d lock failure stage) := by
  have nodup := w.lists.nodup
  constructor
  · apply w.lists.change (work_apart moves fails ?_) here rfl w.lists.bound ?_ placed
    · intro j other
      rcases queues with same | head
      · rw [same]
      · rw [head, List.mem_cons, or_iff_right other]
    · rcases queues with same | head
      · exact same ▸ nodup
      · rw [head] at nodup
        exact nodup.of_cons
  · obtain ⟨files, bytes⟩ := moves.totals here w.tallies.files w.tallies.bytes
    constructor
    · exact files
    · exact bytes
    · exact w.tallies.troubles.trans moves.troubles
    · exact serial
    · intro parallel none
      obtain ⟨_, empty, idle⟩ := w.tallies.idle parallel none
      rcases busy with staged | queued
      · exact absurd (idle i) staged
      · exact absurd empty queued
  · intro j now snapshot staged tells
    by_cases same : j = i
    · subst same
      rw [Execution.work, setStage_here] at staged
      exact told now snapshot staged tells
    · rw [Execution.work, setStage_other same] at staged
      obtain ⟨least, equal⟩ := w.locks j now snapshot staged tells
      refine ⟨least.trans grows, fun parallel => ?_⟩
      obtain ⟨holds, equal⟩ := equal parallel
      rcases locked parallel with free | mine | ⟨keeps, counts⟩
      · rw [free] at holds
        cases holds
      · rw [mine] at holds
        cases holds
        exact absurd rfl same
      · exact ⟨keeps.trans holds, equal.trans counts.symm⟩
  · exact reports

theorem reports_of_stage {now : Stage} (open_ : now.final = false ∨
    ∃ snapshot, now.snapshot = some snapshot ∧ snapshot.files = d.files) :
    Reports job (e.work i queue out d lock failure (some now)) :=
  fun _ _ => .inr (.inr (.inr (.inr (.inl ⟨i, now, setStage_here _ _ _, open_⟩))))

theorem work_of_stage (same : e.stage i = stage) :
    e.work i queue out d lock failure stage =
      { e with
        queue := queue, memory := e.memory.set i out, counters := d, lock := lock
        failure := failure } := by
  have stages : (fun j => if j = i then stage else e.stage j) = e.stage := by
    funext j
    split
    · rename_i here
      rw [here, same]
    · rfl
  simp only [Execution.work, Execution.setStage, stages]

theorem Working.notes (w : Working job items e)
    (mode : e.mode = .remote ↔ e.job.type ≠ .copyLocal) (here : e.memory[i]? = some item)
    (before : finished item = false) (moves : Moves e.mode item out e.counters d)
    (open_ : finished out = false) (more : e.mode.troubles e.counters < e.mode.troubles d)
    (queues : e.queue = queue ∨ e.queue = i :: queue) (free : i ∉ queue)
    (busy : e.stage i ≠ none ∨ e.queue ≠ []) :
    Working job (items.set i out) (e.work i queue out d e.lock e.failure none) := by
  have troubled : (e.work i queue out d e.lock e.failure none).troubled :=
    .inr (lt_of_le_of_lt w.tallies.troubles more)
  have files := moves.files_same before open_
  apply w.work here moves files.ge queues id w.tallies.serial busy
  · nofun
  · exact fun _ => .inr (.inr ⟨rfl, files⟩)
  · exact .idle (moves.stored mode) rfl ⟨rfl, rfl⟩ (setStage_here _ _ _) free (.inr troubled)
  · exact fun _ _ => .inr (.inl troubled)

theorem Working.fails (err : OperationError) (w : Working job items e)
    (mode : e.mode = .remote ↔ e.job.type ≠ .copyLocal) (here : e.memory[i]? = some item)
    (moves : Moves e.mode item out e.counters d) (files : d.files = e.counters.files)
    (loops : e.mode ≠ .serial) (queues : e.queue = queue ∨ e.queue = i :: queue)
    (free : i ∉ queue) (busy : e.stage i ≠ none ∨ e.queue ≠ []) (type : kept.type = out.type)
    (same : kept.bytesCompleted = out.bytesCompleted ∧ finished kept = finished out) :
    Working job (items.set i kept)
      (e.work i queue out d e.lock (some (e.failure.getD err)) none) := by
  have troubled : (e.work i queue out d e.lock (some (e.failure.getD err)) none).troubled :=
    .inl (Option.some_ne_none _)
  apply w.work here moves files.ge queues (fun _ => Option.some_ne_none _)
    (fun serial => absurd serial loops) busy
  · nofun
  · exact fun _ => .inr (.inr ⟨rfl, files⟩)
  · exact .idle (moves.stored mode) type same (setStage_here _ _ _) free (.inr troubled)
  · exact fun _ _ => .inr (.inl troubled)

theorem Working.take {rest : List Nat} (executing : Executing s e)
    (w : Working s.job s.items e) (stored : ∀ x ∈ s.items, Stored s.job.type x)
    (open_ : e.working = true) (loops : e.mode ≠ .serial) (queue : e.queue = i :: rest)
    (here : e.memory[i]? = some item) : ∃ after, Steps s e (s.take e i rest item a) after := by
  have mode := executing.mode
  obtain ⟨kept, found, placed⟩ := w.lists.kept here
  have queued : i ∈ e.queue := queue ▸ List.mem_cons_self
  obtain ⟨file, early, before⟩ := placed.queued queued
  have free : i ∉ rest := by
    have nodup := w.lists.nodup
    rw [queue, List.nodup_cons] at nodup
    exact nodup.1
  have idle : e.stage i = none := by
    by_contra staged
    obtain ⟨stage, present⟩ := Option.ne_none_iff_exists'.mp staged
    exact (placed.staged stage present).2.2.1 queued
  have same := placed.same fun snapshot final storing => by
    rw [idle] at storing
    cases storing
  have busy : e.stage i ≠ none ∨ e.queue ≠ [] := .inr (queue ▸ List.cons_ne_nil _ _)
  have new {out : JobItem} {d : Counters} (moves : Moves e.mode item out e.counters d) :
      ∀ x ∈ s.items.set i out, Stored s.job.type x :=
    stored_set stored (executing.type ▸ moves.stored mode) i
  have spec : WorkSpec e.mode item e.counters (e.begins item a) :=
    Execution.begins_spec loops before placed.stored.1
  have unsettled {out d} : e.begins item a ≠ .settle out d := Execution.begins_unsettled
  unfold System.take
  dsimp only
  change WorkSpec _ _ _ (({ e with queue := rest } : Execution).begins item a) at spec
  change ∀ {out d}, ({ e with queue := rest } : Execution).begins item a ≠ _ at unsettled
  revert spec unsettled
  generalize ({ e with queue := rest } : Execution).begins item a = v
  intro spec unsettled
  cases v with
  | pass => exact spec.elim
  | enqueue out => exact spec.elim
  | settle out d => exact absurd rfl unsettled
  | copy out =>
    obtain ⟨moves, open_'⟩ := spec
    refine Steps.keep executing rfl rfl rfl rfl (new moves) (.inr ⟨open_, ?_⟩)
    apply w.work here moves le_rfl (.inr queue) id w.tallies.serial busy
    · intro now snapshot staged told
      cases staged
      cases told
    · exact fun _ => .inr (.inr ⟨rfl, rfl⟩)
    · apply Placed.busy
      · exact moves.stored mode
      · rfl
      · exact moves.type.trans file
      · exact early
      · exact setStage_here _ _ _
      · exact free
      · exact open_'
      · exact fun _ => ⟨rfl, rfl⟩
    · exact reports_of_stage (.inl rfl)
  | note out d =>
    obtain ⟨moves, open_', more⟩ := spec
    refine Steps.keep executing rfl rfl rfl rfl (new moves) (.inr ⟨open_, ?_⟩)
    have noted := w.notes mode here before moves open_' more (.inr queue) free busy
    rwa [work_of_stage idle] at noted
  | stop stopped d err =>
    obtain ⟨files, bytes, troubles, moves⟩ := spec
    cases stopped with
    | none =>
      refine Steps.keep executing rfl rfl rfl rfl stored (.inr ⟨open_, ?_⟩)
      have stays := Moves.stay placed.stored mode files bytes troubles
      have failed := w.fails err.toOperationError mode here stays files loops (.inr queue)
        free busy placed.type same
      rwa [work_of_stage idle, set_same found, set_same here] at failed
    | some out =>
      refine Steps.keep executing rfl rfl rfl rfl (new (moves out rfl)) (.inr ⟨open_, ?_⟩)
      have failed := w.fails err.toOperationError mode here (moves out rfl) files loops
        (.inr queue) free busy rfl ⟨rfl, rfl⟩
      rwa [work_of_stage idle] at failed

theorem arrive_work (i : Nat) (bytes : Int) (stored : Stored e.job.type item) (file : item.type = .file)
    (before : finished item = false) :
    ∃ d snapshot, d.files = e.counters.files ∧ snapshot.files = d.files ∧
      Moves e.mode item { item with bytesCompleted := bytes } e.counters d ∧
      e.arrive i item bytes = e.work i e.queue { item with bytesCompleted := bytes } d
        (if e.mode = .parallel then some i else e.lock) e.failure
        (some (.storing snapshot false)) := by
  have open_ : finished { item with bytesCompleted := bytes } = false := before
  have other : item.state ≠ .completed ∧ item.state ≠ .skipped := by
    simpa [finished] using before
  refine ⟨_, _, ?_, ?_, ?_, rfl⟩
  · cases e.mode <;> rfl
  · cases e.mode <;> rfl
  constructor
  · rfl
  · exact stored.1
  · rw [finishedFile_of_not before, finishedFile_of_not open_]
    cases e.mode <;> simp
  · cases e.mode <;> simp [Mode.weight, fileBytes, file, other]
  · cases e.mode <;> exact le_rfl
  · exact fun _ _ skipped => absurd skipped other.2

section

variable (executing : Executing s e) (w : Working s.job s.items e)
  (stored : ∀ x ∈ s.items, Stored s.job.type x) (open_ : e.working = true)
include executing w stored open_

theorem Working.arrive {bytes : Int} (free : e.mode = .parallel → e.lock = none)
    (staged : e.stage i = some .copying) (here : e.memory[i]? = some item) :
    ∃ after, Steps s e (s.keep (e.arrive i item bytes)) after := by
  obtain ⟨kept, found, placed⟩ := w.lists.kept here
  obtain ⟨file, early, idle, before⟩ := placed.staged _ staged
  obtain ⟨d, snapshot, files, told, moves, arrived⟩ :=
    arrive_work i bytes placed.stored file before
  refine Steps.keep executing rfl rfl rfl rfl stored (.inr ⟨open_, ?_⟩)
  rw [arrived]
  change Working s.job s.items _
  rw [← set_same found]
  apply w.work here moves files.ge (.inl rfl) id w.tallies.serial
  · exact .inl (staged ▸ Option.some_ne_none _)
  · intro now other same tells
    cases same
    cases tells
    exact ⟨told.le, fun parallel => ⟨if_pos parallel, told⟩⟩
  · exact fun parallel => .inl (free parallel)
  · apply Placed.busy
    · exact moves.stored executing.mode
    · exact placed.type
    · exact file
    · exact early
    · exact setStage_here _ _ _
    · exact idle
    · exact before
    · exact fun never => absurd rfl (never snapshot false)
  · exact reports_of_stage (.inl rfl)

theorem Working.copied (free : ∀ answer, a.copied = .ok answer → e.mode = .parallel → e.lock = none)
    (staged : e.stage i = some .copying) (here : e.memory[i]? = some item) :
    ∃ after, Steps s e (s.copied e i item a) after := by
  have mode := executing.mode
  obtain ⟨kept, found, placed⟩ := w.lists.kept here
  obtain ⟨file, early, idle, before⟩ := placed.staged _ staged
  have same := placed.same fun snapshot final storing => by
    rw [staged] at storing
    cases storing
  have busy : e.stage i ≠ none ∨ e.queue ≠ [] := .inl (staged ▸ Option.some_ne_none _)
  have new {out : JobItem} {d : Counters} (moves : Moves e.mode item out e.counters d) :
      ∀ x ∈ s.items.set i out, Stored s.job.type x :=
    stored_set stored (executing.type ▸ moves.stored mode) i
  have spec : WorkSpec e.mode item e.counters (e.copied item a) :=
    Execution.copied_spec file before placed.stored.1
  unfold System.copied
  dsimp only
  cases v : e.copied item a with
  | pass =>
    rw [v] at spec
    exact spec.elim
  | enqueue out =>
    rw [v] at spec
    exact spec.elim
  | copy out => exact Steps.keep executing rfl rfl rfl rfl stored (.inr ⟨open_, w⟩)
  | settle out d =>
    rw [v] at spec
    obtain ⟨moves, done⟩ := spec
    obtain ⟨answer, answered⟩ := Execution.copied_of_settle v
    refine Steps.keep executing rfl rfl rfl rfl stored (.inr ⟨open_, ?_⟩)
    change Working s.job s.items _
    rw [← set_same found]
    apply w.work here moves (moves.files_mono before) (.inl rfl) id w.tallies.serial busy
    · intro now snapshot present tells
      cases present
      cases tells
      exact ⟨le_rfl, fun parallel => ⟨if_pos parallel, rfl⟩⟩
    · exact fun parallel => .inl (free answer answered parallel)
    · apply Placed.busy
      · exact moves.stored mode
      · rw [placed.type, moves.type]
      · exact moves.type.trans file
      · exact early
      · exact setStage_here _ _ _
      · exact idle
      · exact done
      · exact fun never => absurd rfl (never d true)
    · exact reports_of_stage (.inr ⟨d, rfl, rfl⟩)
  | note out d =>
    rw [v] at spec
    obtain ⟨moves, after, more⟩ := spec
    refine Steps.keep executing rfl rfl rfl rfl (new moves) (.inr ⟨open_, ?_⟩)
    exact w.notes mode here before moves after more (.inl rfl) idle busy
  | stop stopped d err =>
    rw [v] at spec
    obtain ⟨files, bytes, troubles, moves⟩ := spec
    cases stopped with
    | none =>
      dsimp only
      split
      · exact Steps.keep executing rfl rfl rfl rfl stored (.inl ⟨_, rfl⟩)
      rename_i loops
      refine Steps.keep executing rfl rfl rfl rfl stored (.inr ⟨open_, ?_⟩)
      have stays := Moves.stay placed.stored mode files bytes troubles
      have failed := w.fails err.toOperationError mode here stays files loops (.inl rfl) idle busy
        placed.type same
      rwa [set_same found, Execution.work, set_same here] at failed
    | some out =>
      dsimp only
      split
      · exact Steps.keep executing rfl rfl rfl rfl (new (moves out rfl)) (.inl ⟨_, rfl⟩)
      rename_i loops
      refine Steps.keep executing rfl rfl rfl rfl (new (moves out rfl)) (.inr ⟨open_, ?_⟩)
      exact w.fails err.toOperationError mode here (moves out rfl) files loops (.inl rfl) idle busy
        rfl ⟨rfl, rfl⟩

end

theorem Execution.promised.restage {before now : Stage} (promised : e.promised)
    (staged : e.stage i = some before) (final : now.final = before.final)
    (told : now.snapshot = before.snapshot) : (e.setStage i (some now)).promised := by
  rcases promised with troubled | owes | queue | ⟨j, stage, present, tells⟩ | later
  · exact .inl troubled
  · exact .inr (.inl owes)
  · exact .inr (.inr (.inl queue))
  · refine .inr (.inr (.inr (.inl ?_)))
    by_cases same : j = i
    · subst same
      rw [staged] at present
      cases present
      rw [← final, ← told] at tells
      exact ⟨j, now, setStage_here _ _ _, tells⟩
    · exact ⟨j, stage, (setStage_other same _ _).trans present, tells⟩
  · exact .inr (.inr (.inr (.inr later)))

theorem Working.store {snapshot : Counters} {final : Bool} (executing : Executing s e)
    (w : Working s.job s.items e) (stored : ∀ x ∈ s.items, Stored s.job.type x)
    (open_ : e.working = true) (staged : e.stage i = some (.storing snapshot final))
    (here : e.memory[i]? = some item) :
    ∃ after, Steps s e ((s.store i item).keep
      (e.setStage i (some (.reporting snapshot final)))) after := by
  have mode := executing.mode
  obtain ⟨kept, found, placed⟩ := w.lists.kept here
  obtain ⟨file, early, idle, last⟩ := placed.staged _ staged
  have new := stored_set stored (executing.type ▸ placed.stored) i
  refine Steps.keep executing rfl rfl rfl rfl new (.inr ⟨open_, ?_⟩)
  have stays : Moves e.mode item item e.counters e.counters :=
    .stay placed.stored mode rfl rfl le_rfl
  have worked : Working s.job (s.items.set i item) (e.work i e.queue item e.counters e.lock
      e.failure (some (.reporting snapshot final))) := by
    apply w.work here stays le_rfl (.inl rfl) id w.tallies.serial
    · exact .inl (staged ▸ Option.some_ne_none _)
    · intro now other present tells
      cases present
      exact w.locks i _ other staged tells
    · exact fun _ => .inr (.inr ⟨rfl, rfl⟩)
    · apply Placed.busy
      · exact placed.stored
      · rfl
      · exact file
      · exact early
      · exact setStage_here _ _ _
      · exact idle
      · exact last
      · exact fun _ => ⟨rfl, rfl⟩
    · intro loops running
      refine (w.reports loops running).imp_right fun promised => ?_
      have moved : (e.setStage i (some (.reporting snapshot final))).promised :=
        promised.restage staged rfl rfl
      rwa [Execution.work, set_same here]
  rwa [Execution.work, set_same here] at worked

theorem reported_type (job : Job) (bytesTotal : Int) (c : Counters) :
    (reported job bytesTotal c).type = job.type := by
  unfold reported
  split <;> rfl

theorem reported_state (job : Job) (bytesTotal : Int) (c : Counters) :
    (reported job bytesTotal c).state = job.state := by
  unfold reported
  split <;> rfl

theorem reported_files {bytesTotal : Int} {c : Counters}
    (running : (reported job bytesTotal c).state = .running) :
    (reported job bytesTotal c).filesCompleted = c.files := by
  rw [reported_state] at running
  simp [reported, running]

theorem reports_persisted {bytesTotal : Int} {snapshot : Counters} (w : Working job items e)
    (here : e.memory[i]? = some item) (staged : e.stage i = some (.reporting snapshot true))
    (latest : e.mode = .remote → job.filesCompleted ≤ snapshot.files)
    (fails : e.failure ≠ none → failure ≠ none) :
    Reports (reported job bytesTotal snapshot)
      (e.work i e.queue item e.counters lock failure none) := by
  intro loops running
  rw [reported_files running]
  rw [reported_state] at running
  obtain ⟨least, locked⟩ := w.locks i _ snapshot staged rfl
  cases mode : e.mode with
  | serial => exact absurd mode loops
  | parallel => exact .inl (locked mode).2
  | remote =>
    rcases w.reports loops running with equal | promised
    · have atLeast := latest mode
      rw [equal] at atLeast
      exact .inl (le_antisymm least atLeast)
    · rcases promised with troubled | owes | queue | ⟨j, stage, present, tells⟩ | later
      · exact .inr (.inl (troubled.imp_left fails))
      · exact .inr (.inr (.inl owes))
      · exact .inr (.inr (.inr (.inl queue)))
      · by_cases same : j = i
        · subst same
          rw [staged] at present
          cases present
          rcases tells with open_ | ⟨_, told, equal⟩
          · cases open_
          · cases told
            exact .inl equal
        · refine .inr (.inr (.inr (.inr (.inl ?_))))
          exact ⟨j, stage, (setStage_other same _ _).trans present, tells⟩
      · refine .inr (.inr (.inr (.inr (.inr ?_))))
        rwa [Execution.work, set_same here]

theorem Working.persist {snapshot : Counters} {final : Bool} (executing : Executing s e)
    (w : Working s.job s.items e) (stored : ∀ x ∈ s.items, Stored s.job.type x)
    (open_ : e.working = true) (staged : e.stage i = some (.reporting snapshot final))
    (latest : e.mode = .remote → s.job.filesCompleted ≤ snapshot.files) :
    ∃ after, Steps s e (s.persist e i snapshot final) after := by
  have mode := executing.mode
  obtain ⟨item, here⟩ : ∃ item, e.memory[i]? = some item :=
    ⟨_, List.getElem?_eq_getElem (w.lists.within i (.inl (staged ▸ Option.some_ne_none _)))⟩
  obtain ⟨kept, found, placed⟩ := w.lists.kept here
  obtain ⟨file, early, idle, last⟩ := placed.staged _ staged
  have same := placed.same fun snapshot final storing => by
    rw [staged] at storing
    cases storing
  have stays : Moves e.mode item item e.counters e.counters :=
    .stay placed.stored mode rfl rfl le_rfl
  have worked (failure : Option OperationError) (fails : e.failure ≠ none → failure ≠ none)
      (serial : e.mode = .serial → failure = none) (total : Int) :
      Working (reported s.job total snapshot) s.items (e.work i e.queue item e.counters
        (if e.lock = some i then none else e.lock) failure
        (if final then none else some .copying)) := by
    rw [← set_same found]
    apply w.work here stays le_rfl (.inl rfl) fails serial
    · exact .inl (staged ▸ Option.some_ne_none _)
    · intro now other present tells
      cases final with
      | true => cases present
      | false =>
        cases present
        cases tells
    · exact fun parallel => .inr (.inl ((w.locks i _ snapshot staged rfl).2 parallel).1)
    · cases final with
      | true =>
        exact .idle placed.stored placed.type same (setStage_here _ _ _) idle (.inl last)
      | false =>
        exact .busy placed.stored placed.type file early (setStage_here _ _ _) idle last
          fun _ => same
    · cases final with
      | true => exact reports_persisted w here staged latest fails
      | false => exact reports_of_stage (.inl rfl)
  have active : Active (reported s.job e.job.bytesTotal snapshot).state :=
    (reported_state _ _ _).symm ▸ executing.active
  by_cases refused : e.mode = .remote ∧ s.job.state ≠ .running ∧ final = true
  · have fails := worked (some (e.failure.getD contextCanceled)) (fun _ => Option.some_ne_none _)
      (fun serial => by rw [serial] at refused; cases refused.1) e.job.bytesTotal
    simp only [Execution.work, set_same here, Execution.setStage] at fails
    simp only [System.persist, Execution.setStage, if_pos refused]
    exact ⟨_, rfl, reported_type _ _ _, active, rfl, rfl, stored, .inr ⟨open_, fails⟩⟩
  · have goes := worked e.failure id w.tallies.serial e.job.bytesTotal
    simp only [Execution.work, set_same here, Execution.setStage] at goes
    simp only [System.persist, Execution.setStage, if_neg refused]
    exact ⟨_, rfl, reported_type _ _ _, active, rfl, rfl, stored, .inr ⟨open_, goes⟩⟩

end Workers

end Jolt.Executors
