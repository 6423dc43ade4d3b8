import Jolt.Executors.Machine

/-! What a decision about an item does to the item and to the counters: the counters move with
the item, and an item that is not finished leaves a trace in them. -/
namespace Jolt.Executors
open Jolt.Jobs

def Mode.troubles (mode : Mode) (c : Counters) : Int :=
  match mode with
  | .parallel => c.failed
  | _ => c.warnings

structure Moves (mode : Mode) (item out : JobItem) (c d : Counters) : Prop where
  type : out.type = item.type
  fit : fits out.type out.action = true
  files : d.files = c.files + (finishedFile out - finishedFile item)
  bytes : d.bytes = c.bytes + (mode.weight out - mode.weight item)
  troubles : mode.troubles c ≤ mode.troubles d
  skipped : mode ≠ .remote → out.type = .file → out.state = .skipped → out.bytesCompleted = 0

def Answers.skips (a : Answers) : Bool :=
  match a.replan with
  | .ok (action, _, _) => action == .skip
  | .error _ => false

def Skips (e : Execution) (item : JobItem) (a : Answers) : Prop :=
  e.mode = .serial ∧ finished item = false ∧ item.type = .file ∧
    if item.state = .failed then a.skips = true else item.action = .skip

def VisitSpec (mode : Mode) (item : JobItem) (c : Counters) : Visit → Prop
  | .pass => finished item = true
  | .settle out d => mode ≠ .parallel ∧ Moves mode item out c d ∧
      (finished out = true ∨ mode.troubles c < mode.troubles d)
  | .note out d => Moves mode item out c d ∧
      (mode = .parallel ∧ finished out = true ∧ item.type ≠ .file ∧ d = c ∨
        mode ≠ .parallel ∧ mode.troubles c < mode.troubles d)
  | .enqueue out => mode ≠ .serial ∧ Moves mode item out c c ∧ out.type = .file ∧
      finished out = false ∧ out.bytesCompleted = item.bytesCompleted
  | .copy out => mode = .serial ∧ Moves mode item out c c ∧ out.type = .file ∧ finished out = false
  | .stop stored _ _ => ∀ out ∈ stored, fits out.type out.action = true ∧ out.state ≠ .skipped

/-- What the decision of a worker comes to, about a file that is not finished. -/
def WorkSpec (mode : Mode) (item : JobItem) (c : Counters) : Visit → Prop
  | .settle out d => Moves mode item out c d ∧ finished out = true
  | .note out d => Moves mode item out c d ∧ finished out = false ∧
      mode.troubles c < mode.troubles d
  | .copy out => Moves mode item out c c ∧ finished out = false
  | .stop stored d _ => d.files = c.files ∧ d.bytes = c.bytes ∧
      mode.troubles c ≤ mode.troubles d ∧ ∀ out ∈ stored, Moves mode item out c d
  | _ => False

section Visits

variable {job : Job} {c : Counters} {item : JobItem} {a : Answers}
variable {mode : Mode}

theorem finishedFile_of_not {item : JobItem} (open_ : finished item = false) :
    finishedFile item = 0 := by
  simp [finishedFile, open_]

theorem Moves.unfinished {item out : JobItem} {c d : Counters} (before : finished item = false)
    (after : finished out = false) (type : out.type = item.type)
    (fit : fits out.type out.action = true) (same : out.bytesCompleted = item.bytesCompleted)
    (files : d.files = c.files) (bytes : d.bytes = c.bytes)
    (troubles : mode.troubles c ≤ mode.troubles d) :
    Moves mode item out c d := by
  have weight : mode.weight out = mode.weight item := by
    cases mode with
    | serial =>
      simp only [finished, Bool.or_eq_false_iff, beq_eq_false_iff_ne] at before after
      simp [Mode.weight, before.1, after.1]
    | parallel => simp [Mode.weight, fileBytes, type, same]
    | remote => simp [Mode.weight, fileBytes, type, same]
  constructor
  · exact type
  · exact fit
  · rw [finishedFile_of_not before, finishedFile_of_not after, files]
    omega
  · rw [weight, bytes]
    omega
  · exact troubles
  · intro _ _ skipped
    simp [finished, skipped] at after

theorem Moves.plain {item out : JobItem} {c : Counters} (plain : item.type ≠ .file)
    (type : out.type = item.type) (fit : fits out.type out.action = true) :
    Moves mode item out c c := by
  have other : out.type ≠ .file := type ▸ plain
  constructor
  · exact type
  · exact fit
  · simp [finishedFile, plain, other]
  · cases mode <;> simp [Mode.weight, fileBytes, plain, other]
  · exact le_refl _
  · exact fun _ file => absurd file other

theorem Counters.warn_troubles (loops : mode ≠ .parallel) (c : Counters) (item : JobItem) :
    mode.troubles c < mode.troubles (c.warn item) := by
  cases mode with
  | parallel => exact absurd rfl loops
  | serial => exact Int.lt_succ _
  | remote => exact Int.lt_succ _

theorem Moves.warn {item : JobItem} {c : Counters} {text : String} (loops : mode ≠ .parallel)
    (before : finished item = false) (fit : fits item.type item.action = true) :
    Moves mode item { item with state := .failed, error := text } c (c.warn item) :=
  .unfinished before (by simp [finished]) rfl fit rfl rfl rfl
    (Counters.warn_troubles loops c item).le

theorem Moves.skip {item : JobItem} {c : Counters} (before : finished item = false)
    (fit : fits item.type item.action = true)
    (zero : mode ≠ .remote → item.type = .file → item.bytesCompleted = 0)
    (loops : mode ≠ .parallel) :
    Moves mode item { item with state := .skipped } c
      (if item.type = .file then { c with files := c.files + 1 } else c) := by
  by_cases file : item.type = .file
  · rw [if_pos file]
    constructor
    · rfl
    · exact fit
    · rw [finishedFile_of_not before]
      simp [finishedFile, file, finished]
    · simp only [finished, Bool.or_eq_false_iff, beq_eq_false_iff_ne] at before
      cases mode with
      | serial => simp [Mode.weight, before.1]
      | parallel => exact absurd rfl loops
      | remote => simp [Mode.weight, fileBytes]
    · cases mode <;> exact le_refl _
    · exact fun here _ _ => zero here file
  · rw [if_neg file]
    exact .plain file rfl fit

theorem actOn_spec {created : Option FileError} {transfer : Visit} {unknown : String}
    (loops : mode ≠ .parallel) (before : finished item = false)
    (fit : fits item.type item.action = true)
    (zero : mode ≠ .remote → item.type = .file → item.action = .skip → item.bytesCompleted = 0)
    (transferred : item.type = .file → VisitSpec mode item c transfer) :
    VisitSpec mode item c (actOn job c item created transfer unknown) := by
  have warns := Counters.warn_troubles loops c item
  unfold actOn
  split
  · rename_i action
    exact ⟨loops, .skip before fit (fun here file => zero here file action) loops, .inl (by simp [finished])⟩
  · split_ifs
    · intro out same
      cases same
      exact ⟨fit, nofun⟩
    · exact ⟨loops, .warn loops before fit, .inr warns⟩
  · exact ⟨loops, .warn loops before fit, .inr warns⟩
  · rename_i action
    have plain : item.type ≠ .file := by simpa [fits, action] using fit
    exact ⟨loops, .plain plain rfl fit, .inl (by simp [finished])⟩
  · rename_i action
    have plain : item.type ≠ .file := by simpa [fits, action] using fit
    split
    · intro out same
      cases same
      exact ⟨fit, nofun⟩
    · exact ⟨loops, .plain plain rfl fit, .inl (by simp [finished])⟩
  · rename_i action
    exact transferred (by simpa [fits, action] using fit)
  · rename_i action
    exact transferred (by simpa [fits, action] using fit)
  · rename_i action
    exact transferred (by simpa [fits, action] using fit)
  · exact fun out same => by cases same

theorem serialTransfer_spec (before : finished item = false)
    (fit : fits item.type item.action = true) (file : item.type = .file) :
    VisitSpec .serial item c (serialTransfer job c item a) := by
  have more : Mode.serial.troubles c < Mode.serial.troubles
      { c with warnings := c.warnings + 1, failed := c.failed + 1 } := Int.lt_succ _
  have copies (size : Int) (modifiedAt : Time) (checksum : String) :
      VisitSpec .serial item c (.copy { item with
        size := size, modifiedAt := modifiedAt, checksum := checksum, state := .running }) := by
    refine ⟨rfl, ?_, file, by simp [finished]⟩
    exact Moves.unfinished before (by simp [finished]) rfl fit rfl rfl rfl (le_refl _)
  unfold serialTransfer
  split
  · intro out same
    cases same
    exact ⟨fit, nofun⟩
  · rename_i current _
    dsimp only
    split_ifs
    · split
      · exact fun out same => by cases same
      intro out same
      cases same
      exact ⟨fit, nofun⟩
    · intro out same
      cases same
      exact ⟨fit, nofun⟩
    · refine ⟨?_, .inr ⟨nofun, more⟩⟩
      exact Moves.unfinished before (by simp [finished]) rfl fit rfl rfl rfl more.le
    · split
      · exact fun out same => by cases same
      · exact copies _ _ _
    · exact copies _ _ _
    · split
      · exact fun out same => by cases same
      · exact copies _ _ _
    · exact copies _ _ _

/-- The texts of an item, its action and its attempts say nothing to the counters. -/
structure Alike (near item : JobItem) : Prop where
  type : near.type = item.type
  state : near.state = item.state
  bytes : near.bytesCompleted = item.bytesCompleted

theorem Moves.of_alike {item near out : JobItem} {c d : Counters} (alike : Alike near item)
    (moves : Moves mode near out c d) : Moves mode item out c d := by
  obtain ⟨type, state, bytes⟩ := alike
  have files : finishedFile near = finishedFile item := by
    simp [finishedFile, finished, type, state]
  have weight : mode.weight near = mode.weight item := by
    cases mode <;> simp only [Mode.weight, fileBytes, type, state, bytes]
  obtain ⟨kind, fit, sum, weighs, troubles, skipped⟩ := moves
  exact ⟨kind.trans type, fit, files ▸ sum, weight ▸ weighs, troubles, skipped⟩

theorem VisitSpec.of_alike {item : JobItem} {c : Counters} {v : Visit} (near : JobItem)
    (alike : Alike near item) (spec : VisitSpec mode near c v) :
    VisitSpec mode item c v := by
  cases v with
  | pass =>
    have done : finished near = true := spec
    simpa only [VisitSpec, finished, alike.state] using done
  | settle out d => exact ⟨spec.1, spec.2.1.of_alike alike, spec.2.2⟩
  | note out d =>
    refine ⟨spec.1.of_alike alike, ?_⟩
    rw [← alike.type]
    exact spec.2
  | enqueue out =>
    obtain ⟨loops, moves, file, open_, bytes⟩ := spec
    exact ⟨loops, moves.of_alike alike, file, open_, bytes.trans alike.bytes⟩
  | copy out => exact ⟨spec.1, spec.2.1.of_alike alike, spec.2.2⟩
  | stop stored d err => exact spec

section

variable (fit : fits item.type item.action = true)
include fit

theorem serialVisit_spec (proper : a.proper item = true) (zero : finished item = false → item.type =
      .file → (if item.state = .failed then a.skips = true else item.action = .skip) →
      item.bytesCompleted = 0) :
    VisitSpec .serial item c (serialVisit job c item a) := by
  unfold serialVisit
  cases before : finished item with
  | true => exact before
  | false =>
    have acts (near : JobItem) (alike : Alike near item)
        (fit : fits near.type near.action = true)
        (zero : near.type = .file → near.action = .skip → near.bytesCompleted = 0) :
        VisitSpec .serial item c (actOn job c near a.createDirectory (serialTransfer job c near a)
          "invalid job request: unsupported plan action") := by
      have open_ : finished near = false := by simpa only [finished, alike.state] using before
      apply VisitSpec.of_alike near alike
      exact actOn_spec nofun open_ fit (fun _ => zero) (serialTransfer_spec open_ fit)
    simp only [Bool.false_eq_true, if_false]
    split_ifs with failed
    · split
      · exact fun out same => by cases same
      rename_i action destination checksum replanned
      have chosen : fits item.type action = true := by
        simpa [Answers.proper, replanned, show item.state = .failed from failed] using proper
      apply acts
      · exact ⟨rfl, rfl, rfl⟩
      · exact chosen
      intro file skip
      obtain rfl : action = .skip := skip
      apply zero before file
      rw [if_pos (show item.state = .failed from failed)]
      simp [Answers.skips, replanned]
    · apply acts
      · exact ⟨rfl, rfl, rfl⟩
      · exact fit
      intro file skip
      apply zero before file
      rw [if_neg (show item.state ≠ .failed from failed)]
      exact skip

theorem localScan_spec :
    VisitSpec .parallel item c (localScan job c item a) := by
  unfold localScan
  cases before : finished item with
  | true => exact before
  | false =>
    simp only [Bool.false_eq_true, if_false]
    split_ifs with file
    · refine ⟨nofun, ?_, file, before, rfl⟩
      exact Moves.unfinished before before rfl fit rfl rfl rfl (le_refl _)
    split
    · intro out same
      cases same
      exact ⟨fit, nofun⟩
    · exact ⟨.plain file rfl fit, .inl ⟨rfl, by simp [finished], file, rfl⟩⟩

theorem remoteVisit_spec :
    VisitSpec .remote item c (remoteVisit job c item a) := by
  unfold remoteVisit
  cases before : finished item with
  | true => exact before
  | false =>
    simp only [Bool.false_eq_true, if_false]
    split
    · refine ⟨?_, .inr ⟨nofun, Int.lt_succ _⟩⟩
      exact Moves.unfinished before (by simp [finished]) rfl fit rfl rfl rfl (Int.lt_succ _).le
    have alike : Alike (again item) item := ⟨rfl, rfl, rfl⟩
    apply VisitSpec.of_alike (again item) alike
    refine actOn_spec nofun before fit (fun other => absurd rfl other) fun file => ?_
    refine ⟨nofun, ?_, file, before, rfl⟩
    exact Moves.unfinished before before rfl fit rfl rfl rfl (le_refl _)

theorem Execution.visit_spec {e : Execution} (proper : a.proper item = true)
    (zero : Skips e item a → item.bytesCompleted = 0) :
    VisitSpec e.mode item e.counters (e.visit item a) := by
  unfold Execution.visit
  split
  · rename_i mode
    rw [mode]
    exact serialVisit_spec fit proper fun before file skip => zero ⟨mode, before, file, skip⟩
  · rename_i mode
    rw [mode]
    exact localScan_spec fit
  · rename_i mode
    rw [mode]
    exact remoteVisit_spec fit

end

end Visits

section Work

variable {job : Job} {c : Counters} {item : JobItem} {a : Answers}
variable {d : Counters} {e : Execution} {out : JobItem}

theorem workerTransfer_spec (before : finished item = false)
    (fit : fits item.type item.action = true) :
    WorkSpec .parallel item c (workerTransfer job c item a) := by
  have keeps (out : JobItem) (after : finished out = false) (type : out.type = item.type)
      (action : out.action = item.action) (bytes : out.bytesCompleted = item.bytesCompleted) :
      Moves .parallel item out c c :=
    .unfinished before after type (by rw [type, action]; exact fit) bytes rfl rfl (le_refl _)
  have stops (out : JobItem) (err : FileError) (after : finished out = false)
      (type : out.type = item.type) (action : out.action = item.action)
      (bytes : out.bytesCompleted = item.bytesCompleted) : WorkSpec .parallel item c (.stop (some out) c err) :=
    ⟨rfl, rfl, le_refl _, fun _ same => by cases same; exact keeps out after type action bytes⟩
  have quits (err : FileError) : WorkSpec .parallel item c (.stop none c err) :=
    ⟨rfl, rfl, le_refl _, fun _ same => by cases same⟩
  have more : Mode.parallel.troubles c < Mode.parallel.troubles
      { c with failed := c.failed + 1 } := Int.lt_succ _
  have copies (size : Int) (modifiedAt : Time) (checksum : String) :
      WorkSpec .parallel item c (.copy { item with
        size := size, modifiedAt := modifiedAt, checksum := checksum, state := .running }) :=
    ⟨keeps _ (by simp [finished]) rfl rfl rfl, by simp [finished]⟩
  unfold workerTransfer
  split
  · exact stops _ _ (by simp [finished]) rfl rfl rfl
  dsimp only
  split_ifs
  · split
    · exact stops _ _ (by simp [finished]) rfl rfl rfl
    · exact stops _ _ (by simp [finished]) rfl rfl rfl
  · exact stops _ _ (by simp [finished]) rfl rfl rfl
  · refine ⟨?_, by simp [finished], more⟩
    exact Moves.unfinished before (by simp [finished]) rfl fit rfl rfl rfl more.le
  · split
    · exact quits _
    · exact copies _ _ _
  · exact copies _ _ _
  · split
    · exact quits _
    · exact copies _ _ _
  · exact copies _ _ _

theorem Execution.begins_spec (loops : e.mode ≠ .serial) (before : finished item = false)
    (fit : fits item.type item.action = true) :
    WorkSpec e.mode item e.counters (e.begins item a) := by
  unfold Execution.begins
  cases mode : e.mode with
  | serial => exact absurd mode loops
  | parallel => exact workerTransfer_spec before fit
  | remote =>
    refine ⟨?_, by simp [finished]⟩
    exact Moves.unfinished before (by simp [finished]) rfl fit rfl rfl rfl (le_refl _)

theorem WorkSpec.stop {mode : Mode} {err : FileError} (before : finished item = false)
    (after : finished out = false) (type : out.type = item.type)
    (fit : fits out.type out.action = true) (bytes : out.bytesCompleted = item.bytesCompleted)
    (files : d.files = c.files) (sum : d.bytes = c.bytes)
    (troubles : mode.troubles c ≤ mode.troubles d) :
    WorkSpec mode item c (.stop (some out) d err) :=
  ⟨files, sum, troubles, fun _ same => by
    cases same
    exact .unfinished before after type fit bytes files sum troubles⟩

theorem WorkSpec.quit {mode : Mode} {err : FileError} : WorkSpec mode item c (.stop none c err) :=
  ⟨rfl, rfl, le_refl _, fun _ same => by cases same⟩

section

variable (file : item.type = .file) (before : finished item = false)
include file before

theorem WorkSpec.settle {mode : Mode} (type : out.type = item.type)
    (fit : fits out.type out.action = true) (state : out.state = .completed)
    (files : d.files = c.files + 1)
    (bytes : d.bytes = c.bytes + (mode.weight out - mode.weight item))
    (troubles : mode.troubles c ≤ mode.troubles d) :
    WorkSpec mode item c (.settle out d) := by
  refine ⟨⟨type, fit, ?_, bytes, troubles, ?_⟩, by simp [finished, state]⟩
  · rw [finishedFile_of_not before, files]
    simp [finishedFile, finished, type, file, state]
  intro _ _ skipped
  rw [state] at skipped
  cases skipped

section

variable (fit : fits item.type item.action = true)
include fit

theorem serialCopied_spec :
    WorkSpec .serial item c (serialCopied job c item a) := by
  have more : Mode.serial.troubles c < Mode.serial.troubles
      { c with warnings := c.warnings + 1, failed := c.failed + 1 } := Int.lt_succ _
  unfold serialCopied
  split
  · refine WorkSpec.settle file before rfl fit rfl rfl ?_ (le_refl _)
    simp only [finished, Bool.or_eq_false_iff, beq_eq_false_iff_ne] at before
    simp [Mode.weight, completed, file, before.1]
  · split_ifs
    · split
      · exact .quit
      split
      · exact .quit
      · exact .stop before (by simp [finished]) rfl fit rfl rfl rfl (le_refl _)
    · exact ⟨.unfinished before (by simp [finished]) rfl fit rfl rfl rfl more.le, by simp [finished], more⟩
    · exact .stop before (by simp [finished]) rfl fit rfl rfl rfl (le_refl _)
    · exact .stop before (by simp [finished]) rfl fit rfl rfl rfl (le_refl _)

theorem workerCopied_spec :
    WorkSpec .parallel item c (workerCopied job c item a) := by
  unfold workerCopied
  split
  · refine WorkSpec.settle file before rfl fit rfl rfl ?_ (le_refl _)
    simp [Mode.weight, fileBytes, completed, file]
  split_ifs
  · exact .stop before (by simp [finished]) rfl fit rfl rfl rfl (le_refl _)
  · exact .stop before (by simp [finished]) rfl fit rfl rfl rfl (le_refl _)

theorem remoteCopied_spec :
    WorkSpec .remote item c (remoteCopied c item a) := by
  unfold remoteCopied
  split
  · refine WorkSpec.settle file before rfl fit rfl rfl ?_ (le_refl _)
    simp [Mode.weight, fileBytes, file]
  split_ifs
  · exact .stop before (by simp [finished]) rfl fit rfl rfl rfl (le_refl _)
  · exact .stop before (by simp [finished]) rfl fit rfl rfl rfl (le_refl _)

theorem Execution.copied_spec :
    WorkSpec e.mode item e.counters (e.copied item a) := by
  unfold Execution.copied
  cases mode : e.mode with
  | serial => exact serialCopied_spec file before fit
  | parallel => exact workerCopied_spec file before fit
  | remote => exact remoteCopied_spec file before fit

end

end

theorem Execution.begins_unsettled :
    e.begins item a ≠ .settle out d := by
  intro settled
  unfold Execution.begins at settled
  split at settled
  · cases settled
  unfold workerTransfer at settled
  dsimp only at settled
  repeat' split at settled
  all_goals cases settled

theorem Execution.copied_of_settle (settled : e.copied item a = .settle out d) :
    ∃ answer, a.copied = .ok answer := by
  cases copied : a.copied with
  | ok answer => exact ⟨answer, rfl⟩
  | error err =>
    unfold Execution.copied serialCopied workerCopied remoteCopied at settled
    simp only [copied] at settled
    repeat' split at settled
    all_goals cases settled

end Work

section Warnings

theorem copyWarning_none {failed omitted : Int} (quiet : copyWarning failed omitted = none) :
    failed ≤ 0 := by
  unfold copyWarning at quiet
  split_ifs at quiet
  omega

theorem pullWarning_none {warnings omitted : Int} (quiet : pullWarning warnings omitted = none) :
    warnings ≤ 0 := by
  unfold pullWarning at quiet
  split_ifs at quiet
  · exact copyWarning_none quiet
  · omega

end Warnings

end Jolt.Executors
