import Jolt.Executors.Effects

/-! What holds while an operation runs: its items and those of the store agree but for the
reports on their way, its counters are those of its items, and the job's count of files is the
operation's or a report is still to come. -/
namespace Jolt.Executors
open Jolt.Jobs List

section Totals

theorem set_same {α : Type} {l : List α} {i : Nat} {x : α} (here : l[i]? = some x) :
    l.set i x = l := by
  obtain ⟨bound, rfl⟩ := List.getElem?_eq_some_iff.mp here
  exact set_getElem_self bound

theorem total_set (f : JobItem → Int) {items : List JobItem} {i : Nat} {item : JobItem}
    (here : items[i]? = some item) (out : JobItem) :
    total f (items.set i out) = total f items + (f out - f item) := by
  induction items generalizing i with
  | nil => cases here
  | cons first rest ih =>
    cases i with
    | zero =>
      obtain rfl : first = item := by simpa using here
      simp only [total, set_cons_zero, map_cons, sum_cons]
      omega
    | succ i =>
      have tail := ih (show rest[i]? = some item by simpa using here)
      simp only [total, set_cons_succ, map_cons, sum_cons] at tail ⊢
      omega

theorem total_congr {f g : JobItem → Int} {items : List JobItem}
    (same : ∀ item ∈ items, f item = g item) : total f items = total g items := by
  simp only [total, map_congr_left same]

theorem total_places {f g : JobItem → Int} {items others : List JobItem}
    (length : items.length = others.length)
    (same : ∀ (i : Nat) (a b : JobItem), items[i]? = some a → others[i]? = some b → f a = g b) :
    total f items = total g others := by
  unfold total
  congr 1
  apply ext_getElem
  · simpa using length
  intro i left right
  simp only [length_map] at left right
  rw [getElem_map, getElem_map]
  exact same i _ _ (getElem?_eq_getElem left) (getElem?_eq_getElem right)

end Totals

section Invariant

def Stage.final : Stage → Bool
  | .copying => false
  | .storing _ final | .reporting _ final => final

def Stage.snapshot : Stage → Option Counters
  | .copying => none
  | .storing snapshot _ | .reporting snapshot _ => some snapshot

def Execution.troubled (e : Execution) : Prop :=
  e.failure ≠ none ∨ 0 < e.mode.troubles e.counters

def Stored (type : JobType) (item : JobItem) : Prop :=
  fits item.type item.action = true ∧
    (type = .copyLocal → item.type = .file → item.state = .skipped → item.bytesCompleted = 0)

/-- What is known of a place of the list: the executor's item and the stored one. -/
structure Placed (e : Execution) (i : Nat) (item kept : JobItem) : Prop where
  stored : Stored e.job.type item
  type : kept.type = item.type
  same : (∀ snapshot final, e.stage i ≠ some (.storing snapshot final)) →
    kept.bytesCompleted = item.bytesCompleted ∧ finished kept = finished item
  staged : ∀ stage, e.stage i = some stage →
    item.type = .file ∧ i < e.next ∧ i ∉ e.queue ∧ finished item = stage.final
  queued : i ∈ e.queue → item.type = .file ∧ i < e.next ∧ finished item = false
  visited : i < e.next → e.stage i = none → i ∉ e.queue → finished item = true ∨ e.troubled

structure Lists (items : List JobItem) (e : Execution) : Prop where
  length : items.length = e.memory.length
  bound : e.next ≤ e.memory.length
  placed : ∀ (i : Nat) (item kept : JobItem), e.memory[i]? = some item → items[i]? = some kept →
    Placed e i item kept
  within : ∀ i, e.stage i ≠ none ∨ i ∈ e.queue → i < e.memory.length
  nodup : e.queue.Nodup

structure Tallies (e : Execution) : Prop where
  files : e.counters.files = total finishedFile e.memory
  bytes : e.counters.bytes = total e.mode.weight e.memory
  troubles : 0 ≤ e.mode.troubles e.counters
  serial : e.mode = .serial → e.failure = none
  idle : e.mode = .parallel → e.pendingFiles = 0 →
    ¬e.troubled ∧ e.queue = [] ∧ ∀ i, e.stage i = none

/-- A report never tells more files than there are, and a local copy's lock keeps the counters
as they were reported. -/
def Locks (e : Execution) : Prop :=
  ∀ i stage snapshot, e.stage i = some stage → stage.snapshot = some snapshot →
    snapshot.files ≤ e.counters.files ∧
      (e.mode = .parallel → e.lock = some i ∧ snapshot.files = e.counters.files)

/-- A report of the present count of files is still to come, or the operation does not end
well. -/
def Execution.promised (e : Execution) : Prop :=
  e.troubled ∨ e.owes = true ∨ e.queue ≠ [] ∨
    (∃ i stage, e.stage i = some stage ∧ (stage.final = false ∨
      ∃ snapshot, stage.snapshot = some snapshot ∧ snapshot.files = e.counters.files)) ∨
    ∃ i item, e.next ≤ i ∧ e.memory[i]? = some item ∧ finished item = false ∧
      (e.mode = .remote ∨ item.type = .file)

def Reports (job : Job) (e : Execution) : Prop :=
  e.mode ≠ .serial → job.state = .running →
    job.filesCompleted = e.counters.files ∨ e.promised

structure Working (job : Job) (items : List JobItem) (e : Execution) : Prop where
  lists : Lists items e
  tallies : Tallies e
  locks : Locks e
  reports : Reports job e

structure Closed (s : System) (e : Execution) : Prop where
  bytes : e.counters.bytes = total fileBytes s.items
  files : s.job.state = .running → s.job.filesCompleted = total isFile s.items

def Active (state : JobState) : Prop :=
  state = .running ∨ state = .pauseRequested ∨ state = .cancelRequested

structure Executing (s : System) (e : Execution) : Prop where
  active : Active s.job.state
  type : e.job.type = s.job.type
  started : e.job.state = .running
  mode : e.mode = .remote ↔ e.job.type ≠ .copyLocal
  working : e.working = true → Working s.job s.items e
  closed : e.result = some none ∨ e.result = none ∧ e.closing ≠ .open → Closed s e

structure Accounted (s : System) : Prop where
  files : s.job.filesCompleted = total isFile s.items
  bytes : s.job.bytesCompleted = total fileBytes s.items
  bytesTotal : s.job.bytesTotal = total fileBytes s.items

structure Sound (s : System) : Prop where
  items : ∀ item ∈ s.items, Stored s.job.type item
  completed : s.job.state = .completed → Accounted s
  executing : ∀ e, s.execution = some e → Executing s e

end Invariant

section Places

@[simp] theorem setStage_here (e : Execution) (i : Nat) (stage : Option Stage) :
    (e.setStage i stage).stage i = stage :=
  if_pos rfl

theorem setStage_other {i j : Nat} (other : j ≠ i) (e : Execution) (stage : Option Stage) :
    (e.setStage i stage).stage j = e.stage j :=
  if_neg other

variable {e after : Execution} {items : List JobItem} {i : Nat}

structure Elsewhere (e after : Execution) (i : Nat) : Prop where
  job : after.job = e.job
  stage : ∀ j, j ≠ i → after.stage j = e.stage j
  queue : ∀ j, j ≠ i → (j ∈ after.queue ↔ j ∈ e.queue)
  next : ∀ j, j ≠ i → (j < after.next ↔ j < e.next)

theorem Elsewhere.moves_on (job : after.job = e.job) (next : after.next = e.next + 1)
    (stage : ∀ j, j ≠ e.next → after.stage j = e.stage j)
    (queue : ∀ j, j ≠ e.next → (j ∈ after.queue ↔ j ∈ e.queue)) : Elsewhere e after e.next := by
  refine ⟨job, stage, queue, fun j other => ?_⟩
  rw [next]
  omega

structure Apart (e after : Execution) (i : Nat) : Prop extends Elsewhere e after i where
  troubled : e.troubled → after.troubled

theorem Placed.apart {j : Nat} {item kept : JobItem} (apart : Apart e after i) (other : j ≠ i)
    (placed : Placed e j item kept) : Placed after j item kept := by
  obtain ⟨stored, type, same, staged, queued, visited⟩ := placed
  have stage := apart.stage j other
  have queue := apart.queue j other
  have next := apart.next j other
  constructor
  · rw [apart.job]
    exact stored
  · exact type
  · rw [stage]
    exact same
  · rw [stage, queue, next]
    exact staged
  · rw [queue, next]
    exact queued
  · rw [stage, queue, next]
    exact fun early idle free => (visited early idle free).imp_right apart.troubled

theorem Lists.change {item out kept : JobItem} (lists : Lists items e) (apart : Apart e after i)
    (here : e.memory[i]? = some item) (memory : after.memory = e.memory.set i out)
    (bound : after.next ≤ e.memory.length) (nodup : after.queue.Nodup)
    (placed : Placed after i out kept) : Lists (items.set i kept) after := by
  obtain ⟨inside, _⟩ := List.getElem?_eq_some_iff.mp here
  constructor
  · rw [memory, length_set, length_set]
    exact lists.length
  · rw [memory, length_set]
    exact bound
  · intro j item' kept' found foundKept
    rw [memory] at found
    by_cases same : j = i
    · subst same
      rw [getElem?_set_self inside] at found
      rw [getElem?_set_self (lists.length ▸ inside)] at foundKept
      cases found
      cases foundKept
      exact placed
    · rw [getElem?_set_ne (Ne.symm same)] at found foundKept
      exact (lists.placed j _ _ found foundKept).apart apart same
  · intro j
    rw [memory, length_set]
    by_cases same : j = i
    · exact fun _ => same ▸ inside
    · rw [apart.stage j same, apart.queue j same]
      exact lists.within j
  · exact nodup

theorem Lists.change_memory {item out kept : JobItem} (lists : Lists items e)
    (apart : Apart e after i) (here : e.memory[i]? = some item) (stored : items[i]? = some kept)
    (memory : after.memory = e.memory.set i out) (bound : after.next ≤ e.memory.length)
    (nodup : after.queue.Nodup) (placed : Placed after i out kept) : Lists items after := by
  have changed := lists.change apart here memory bound nodup placed
  rwa [set_same stored] at changed

theorem Lists.kept {item : JobItem} (lists : Lists items e) (here : e.memory[i]? = some item) :
    ∃ kept, items[i]? = some kept ∧ Placed e i item kept := by
  obtain ⟨inside, _⟩ := List.getElem?_eq_some_iff.mp here
  have found := getElem?_eq_getElem (lists.length ▸ inside : i < items.length)
  exact ⟨_, found, lists.placed i item _ here found⟩

theorem Lists.fresh {item : JobItem} (lists : Lists items e)
    (here : e.memory[e.next]? = some item) : e.stage e.next = none ∧ e.next ∉ e.queue := by
  obtain ⟨_, _, placed⟩ := lists.kept here
  constructor
  · by_contra busy
    obtain ⟨stage, staged⟩ := Option.ne_none_iff_exists'.mp busy
    exact absurd (placed.staged stage staged).2.1 (lt_irrefl _)
  · exact fun queued => absurd (placed.queued queued).2.1 (lt_irrefl _)

end Places

section Counters

variable {mode : Mode} {item out : JobItem} {c d : Counters}

theorem Moves.files_mono (moves : Moves mode item out c d) (before : finished item = false) :
    c.files ≤ d.files := by
  have sum := moves.files
  rw [finishedFile_of_not before] at sum
  have positive : 0 ≤ finishedFile out := by
    unfold finishedFile
    split <;> omega
  omega

theorem Moves.files_same (moves : Moves mode item out c d) (before : finished item = false)
    (after : finished out = false) : d.files = c.files := by
  have sum := moves.files
  rw [finishedFile_of_not before, finishedFile_of_not after] at sum
  omega

theorem Moves.stored {e : Execution} (moves : Moves e.mode item out c d)
    (mode : e.mode = .remote ↔ e.job.type ≠ .copyLocal) : Stored e.job.type out :=
  ⟨moves.fit, fun copies => moves.skipped fun remote => mode.mp remote copies⟩

theorem Moves.stay {e : Execution} (stored : Stored e.job.type item)
    (mode : e.mode = .remote ↔ e.job.type ≠ .copyLocal) (files : d.files = c.files)
    (bytes : d.bytes = c.bytes) (troubles : e.mode.troubles c ≤ e.mode.troubles d) :
    Moves e.mode item item c d where
  type := rfl
  fit := stored.1
  files := by omega
  bytes := by omega
  troubles := troubles
  skipped := fun loops => stored.2 (not_ne_iff.mp (mt mode.mpr loops))

theorem Moves.totals {memory : List JobItem} {i : Nat} (moves : Moves mode item out c d)
    (here : memory[i]? = some item) (files : c.files = total finishedFile memory)
    (bytes : c.bytes = total mode.weight memory) :
    d.files = total finishedFile (memory.set i out) ∧
      d.bytes = total mode.weight (memory.set i out) := by
  rw [total_set _ here, total_set _ here, ← files, ← bytes]
  exact ⟨moves.files, moves.bytes⟩

end Counters

end Jolt.Executors
