import Jolt.Base.RangedCopy
import Jolt.Transfers.Resumption

/-! A remote file copied by attempts that fetch several ranges at a time. Up to its requests an
attempt is that of a single stream; then the receiver gives the partial file its full length
and fills it batch by batch. The stored checkpoint only moves when a batch is complete. -/
namespace Jolt.Transfers
open Jolt.Base Jolt.Jobs

section Model

inductive RangeStage where
  | receiving (copy : RangedCopy)
  | received (completed : Int)

/-- The receiver of the ranges, with the checkpoint it goes on from. -/
structure RangeReceiver where
  job : Job
  expectedChecksum : String
  etag : String
  accepted : Int
  stage : RangeStage

structure RangeDownload where
  base : Download
  receiver : Option RangeReceiver

inductive RangeEvent where
  | pull (event : PullEvent)
  | receive
  | openBatch
  | spawn
  | fetch (worker : Nat) (valid : Except OperationError Unit)
  | write (worker count : Nat)
  | finish (worker : Nat)
  | closeBatch (report : Except OperationError (Progress × Time))
  | validate (valid : Except OperationError Unit)
  | publish (renamed : Except OperationError Unit)
  | fail (written : Int) (err : OperationError)
  | stop

def PullEvent.before : PullEvent → Bool
  | .disk _ | .others _ | .turn _ | .begin | .stop | .enter _ | .inspect _ => true
  | _ => false

def PullEvent.beside : PullEvent → Bool
  | .others _ | .turn _ => true
  | _ => false

def invalidRanges : OperationError := { text := "invalid request: invalid remote range transfer" }

def tooParallel : OperationError :=
  { text := "invalid request: remote range parallelism exceeds 16" }

def wholeChunk (chunkSize : Int64) : Int :=
  if chunkSize.toInt ≤ 0 then 16777216 else chunkSize.toInt

variable (source : Source) (chunkSize : Int64) (s : RangeDownload)

def RangeDownload.leave (base : Download) (outcome : Outcome) : RangeDownload × Option Outcome :=
  (⟨{ base with attempt := none }, none⟩, some outcome)

def RangeDownload.reach (r : RangeReceiver) (stage : RangeStage) : RangeDownload × Option Outcome :=
  ({ s with receiver := some { r with stage := stage } }, none)

/-- The receiver up to its loop; the metadata are those of the request before. -/
def RangeDownload.receive (job : Job) (checkpoint : Int) (expected : String) :
    RangeDownload × Option Outcome :=
  let metadata := openRemote source job 0 (-1) true job.verifyChecksum
  let size := metadata.size.getD (-1)
  if size < 0 ∨ checkpoint < 0 ∨ size < checkpoint then
    RangeDownload.leave s.base (.failed 0 invalidRanges)
  else if 16 < job.maxParallelChunks then RangeDownload.leave s.base (.failed 0 tooParallel)
  else if job.overwrite = false ∧ s.base.destination.isSome then
    RangeDownload.leave s.base (.failed 0 destinationConflict)
  else
    let found := s.base.partialFile.getD []
    let accepted := resumePoint found checkpoint
    (⟨{ s.base with
        partialFile := some (resize 0 (found.take accepted.toNat) size.toNat), attempt := none },
      some ⟨job, expected, metadata.etag, accepted, .receiving
        { size := size, chunk := wholeChunk chunkSize, parallel := job.maxParallelChunks
          completed := accepted }⟩⟩, none)

def contentRange (start stop : Int) : Option (Int × Int) :=
  let range := if 0 < start ∨ 0 ≤ stop then some (start, if 0 ≤ stop then some stop else none)
    else none
  (requestedRange range source.content.length).map fun (first, last, _) => (first, last)

def fetches (r : RangeReceiver) (size : Int) (w : Worker) : Bool :=
  let response := openRemote source (tagged r.job r.etag) w.start (w.stop - 1) false false
  response.status == 206 && response.size == some size && response.etag == r.etag &&
    contentRange source w.start (w.stop - 1) == some (w.start, w.stop - 1) &&
    response.finalETag == r.etag

/-- A batch is complete and synced, and its end is stored as the checkpoint. -/
def RangeDownload.closeBatch (r : RangeReceiver) (copy : RangedCopy)
    (report : Except OperationError (Progress × Time)) : RangeDownload × Option Outcome :=
  match report with
  | .error err => RangeDownload.leave s.base (.failed copy.completed err)
  | .ok (report, now) =>
    match progress s.base.job
      { report with bytesCompleted := copy.completed, bytesTotal := copy.size } now with
    | .write stored =>
      RangeDownload.reach { s with base := { s.base with job := stored } } r (.receiving copy)
    | .keep => s.reach r (.receiving copy)
    | .refuse text =>
      RangeDownload.leave s.base (.failed copy.completed { text := text, canceled := true })

def RangeDownload.validate (r : RangeReceiver) (completed : Int)
    (valid : Except OperationError Unit) : RangeDownload × Option Outcome :=
  if r.expectedChecksum ≠ "" ∧
      source.sha256 (s.base.partialFile.getD []) ≠ r.expectedChecksum then
    RangeDownload.leave s.base (.failed completed checksumMismatch)
  else
    match valid with
    | .error err => RangeDownload.leave s.base (.failed completed err)
    | .ok () => s.reach r (.received completed)

def RangeDownload.loop (r : RangeReceiver) (copy : RangedCopy) :
    RangeEvent → Option (RangeDownload × Option Outcome)
  | .openBatch => copy.openBatch.map fun copy => s.reach r (.receiving copy)
  | .spawn => (copy.spawn false).map fun copy => s.reach r (.receiving copy)
  | .fetch worker valid =>
    match copy.worker worker, valid with
    | none, _ => none
    | some _, .error err => some (RangeDownload.leave s.base (.failed copy.completed err))
    | some w, .ok () =>
      if fetches source r copy.size w then
        (copy.supply worker).map fun copy => s.reach r (.receiving copy)
      else some (RangeDownload.leave s.base (.failed copy.completed sourceChanged))
  | .write worker count =>
    (copy.write source.content (s.base.partialFile.getD []) worker count).map fun (file, copy) =>
      RangeDownload.reach { s with base := { s.base with partialFile := some file } } r
        (.receiving copy)
  | .finish worker => (copy.finish worker).map fun copy => s.reach r (.receiving copy)
  | .closeBatch report => copy.closeBatch.map fun copy => s.closeBatch r copy report
  | .validate valid =>
    if copy.completed < copy.size ∨ copy.batch.isSome then none
    else some (s.validate source r copy.completed valid)
  | .fail written err => some (RangeDownload.leave s.base (.failed written err))
  | _ => none

def RangeDownload.next (s : RangeDownload) (e : RangeEvent) :
    Option (RangeDownload × Option Outcome) :=
  match s.receiver, e with
  | none, .pull e =>
    if e.before then
      (s.base.next source chunkSize.toInt e).map fun (base, outcome) => (⟨base, none⟩, outcome)
    else none
  | none, .receive =>
    match s.base.attempt with
    | some ⟨job, .inspected checkpoint expected⟩ =>
      if 1 < job.maxParallelChunks then some (s.receive source chunkSize job checkpoint expected)
      else none
    | _ => none
  | none, _ => none
  | some r, .pull e =>
    if e.beside then
      (s.base.next source chunkSize.toInt e).map fun (base, outcome) => (⟨base, some r⟩, outcome)
    else none
  | some _, .stop => some (⟨s.base, none⟩, none)
  | some r, .publish renamed =>
    match r.stage with
    | .received completed =>
      let (base, outcome) := s.base.publish r.job completed renamed
      some (⟨base, none⟩, outcome)
    | .receiving _ => none
  | some r, e =>
    match r.stage with
    | .receiving copy => s.loop source r copy e
    | .received _ => none

end Model

section Answers

variable {source : Source} {job : Job}

theorem openRemote_size (head checksum : Bool) (start stop : Int) :
    (openRemote source job start stop head checksum).size = none ∨
      (openRemote source job start stop head checksum).size =
        some (source.content.length : Int) := by
  unfold openRemote Source.serve
  dsimp only
  split
  · exact .inl rfl
  split
  · exact .inr rfl
  split
  · exact .inr rfl
  · exact .inr rfl

end Answers

section Invariant

variable {source : Source} {chunkSize : Int64} {s s' : RangeDownload}
variable {copy : RangedCopy} {e : RangeEvent} {file : Bytes} {outcome : Option Outcome}
  {r : RangeReceiver}

def RangeReceiver.Fills (source : Source) (file : Bytes) (r : RangeReceiver) : Prop :=
  match r.stage with
  | .receiving copy => Copying source.content file r.accepted copy
  | .received _ => file = source.content

def Filled (source : Source) (s : RangeDownload) : Prop :=
  match s.receiver with
  | none => Sound source s.base
  | some r => s.base.attempt = none ∧
      ∃ file, s.base.partialFile = some file ∧ r.Fills source file

def RangeDownload.caughtUp (s : RangeDownload) : Bool :=
  match s.receiver with
  | some ⟨_, _, _, _, .receiving copy⟩ => decide (s.base.job.bytesCompleted ≤ copy.completed)
  | _ => true

def RangeDownload.settles (s : RangeDownload) (_ : RangeEvent) (s' : RangeDownload) : Bool :=
  s'.receiver.isSome || s.caughtUp

theorem Filled.leave {base : Download} (sound : Sound source base) :
    Filled source ⟨{ base with attempt := none }, none⟩ :=
  ⟨sound.kept, fun _ under => by cases under⟩

theorem Sound.of_copying {base : Download} {accepted : Int}
    (copying : Copying source.content file accepted copy) (stored : base.partialFile = some file)
    (settled : base.job.bytesCompleted ≤ copy.completed) (none : base.attempt = none) :
    Sound source base := by
  refine ⟨?_, fun a under => by rw [none] at under; cases under⟩
  have agrees : AgreesOn source.content file 0 base.job.bytesCompleted.toNat := by
    by_cases negative : base.job.bytesCompleted < 0
    · intro i _ before
      omega
    · exact copying.agrees (by omega)
  rw [stored, Option.getD_some, take_of_agreesOn agrees]
  exact List.take_prefix _ _

theorem wholeChunk_range : 0 < wholeChunk chunkSize ∧ wholeChunk chunkSize < 2 ^ 63 := by
  have bound := chunkSize.toInt_lt
  unfold wholeChunk
  split_ifs <;> omega

theorem resumePoint_range {found : Bytes} {checkpoint : Int} (proper : 0 ≤ checkpoint) :
    0 ≤ resumePoint found checkpoint ∧ resumePoint found checkpoint ≤ checkpoint ∧
      resumePoint found checkpoint ≤ found.length := by
  unfold resumePoint
  split_ifs <;> omega

theorem resumePoint_agrees {found content : Bytes} {stored checkpoint : Int}
    (kept : found.take stored.toNat <+: content) (proper : 0 ≤ checkpoint)
    (origin : checkpoint = 0 ∨ checkpoint = stored) :
    AgreesOn content found 0 (resumePoint found checkpoint) := by
  unfold resumePoint
  split_ifs with gone
  · intro i _ before
    omega
  rcases origin with rfl | rfl
  · intro i _ before
    omega
  rw [List.prefix_iff_eq_take, List.length_take_of_le (by omega)] at kept
  intro i from_ before
  exact agreesOn_of_take kept i from_ (by omega)

theorem Filled.receive {job : Job} {checkpoint : Int} {expected : String}
    (short : (source.content.length : Int) < 2 ^ 63) (sound : Sound source s.base)
    (under : s.base.attempt = some ⟨job, .inspected checkpoint expected⟩) :
    Filled source (s.receive source chunkSize job checkpoint expected).1 ∧ ∀ written bytes,
      (s.receive source chunkSize job checkpoint expected).2 ≠ some (.published written bytes) := by
  obtain ⟨_, origin⟩ := sound.attempt _ under
  unfold RangeDownload.receive
  dsimp only
  split_ifs with invalid
  · exact ⟨.leave sound, nofun⟩
  · exact ⟨.leave sound, nofun⟩
  · exact ⟨.leave sound, nofun⟩
  · refine ⟨⟨rfl, _, rfl, ?_⟩, nofun⟩
    have size : (openRemote source job 0 (-1) true job.verifyChecksum).size = none ∨ _ :=
      openRemote_size true job.verifyChecksum 0 (-1)
    rcases size with none | named
    · simp [none] at invalid
    simp only [named, Option.getD_some] at invalid ⊢
    have proper : 0 ≤ checkpoint := by omega
    have agrees := resumePoint_agrees sound.kept proper origin
    generalize s.base.partialFile.getD [] = found at *
    obtain ⟨low, upto, inside⟩ : 0 ≤ resumePoint found checkpoint ∧ _ := resumePoint_range proper
    generalize resumePoint found checkpoint = accepted at *
    apply Copying.start_at (c := ⟨source.content.length, wholeChunk chunkSize,
      job.maxParallelChunks, accepted, none, []⟩)
    · rfl
    · rw [length_resize, Int.toNat_natCast]
    · exact short
    · exact wholeChunk_range
    · rfl
    · exact ⟨low, by simp only; omega⟩
    · rfl
    · refine AgreesOn.resize (fun i from_ before => ?_) ?_ ?_
      · simp only at before
        rw [List.getElem?_take_of_lt (by omega)]
        exact agrees i from_ before
      · simp only
        omega
      · simp only [List.length_take]
        omega

section

variable (idle : s.base.attempt = none) (stored : s.base.partialFile = some file)
include idle stored

theorem Filled.reach {stage : RangeStage}
    (fills : RangeReceiver.Fills source file { r with stage := stage }) :
    Filled source (s.reach r stage).1 :=
  ⟨idle, file, stored, fills⟩

theorem Filled.closeBatch (report : Except OperationError (Progress × Time))
    (copying : Copying source.content file r.accepted copy) :
    (((s.closeBatch r copy report).1.receiver = none → Sound source s.base) →
      Filled source (s.closeBatch r copy report).1) ∧
      ∀ written bytes, (s.closeBatch r copy report).2 ≠ some (.published written bytes) := by
  unfold RangeDownload.closeBatch
  split
  · exact ⟨fun settled => .leave (settled rfl), nofun⟩
  split
  · exact ⟨fun _ => ⟨idle, file, stored, copying⟩, nofun⟩
  · exact ⟨fun _ => ⟨idle, file, stored, copying⟩, nofun⟩
  · exact ⟨fun settled => .leave (settled rfl), nofun⟩

theorem Filled.loop (copying : Copying source.content file r.accepted copy)
    (moved : s.loop source r copy e = some (s', outcome)) :
    ((s'.receiver = none → Sound source s.base) → Filled source s') ∧
      ∀ written bytes, outcome ≠ some (.published written bytes) := by
  cases e with
  | openBatch =>
    simp only [RangeDownload.loop, Option.map_eq_some_iff] at moved
    obtain ⟨copy', opened, moved⟩ := moved
    cases moved
    exact ⟨fun _ => .reach idle stored (copying.openBatch opened), nofun⟩
  | spawn =>
    simp only [RangeDownload.loop, Option.map_eq_some_iff] at moved
    obtain ⟨copy', spawned, moved⟩ := moved
    cases moved
    exact ⟨fun _ => .reach idle stored (copying.spawn spawned), nofun⟩
  | fetch worker valid =>
    simp only [RangeDownload.loop] at moved
    split at moved
    · cases moved
    · cases moved
      exact ⟨fun settled => .leave (settled rfl), nofun⟩
    split_ifs at moved with fetched
    · simp only [Option.map_eq_some_iff] at moved
      obtain ⟨copy', supplied, moved⟩ := moved
      cases moved
      exact ⟨fun _ => .reach idle stored (copying.supply supplied), nofun⟩
    · cases moved
      exact ⟨fun settled => .leave (settled rfl), nofun⟩
  | write worker count =>
    simp only [RangeDownload.loop, Option.map_eq_some_iff, stored, Option.getD_some] at moved
    obtain ⟨⟨file', copy'⟩, wrote, moved⟩ := moved
    cases moved
    exact ⟨fun _ => ⟨idle, file', rfl, copying.write wrote⟩, nofun⟩
  | finish worker =>
    simp only [RangeDownload.loop, Option.map_eq_some_iff] at moved
    obtain ⟨copy', finished, moved⟩ := moved
    cases moved
    exact ⟨fun _ => .reach idle stored (copying.finish finished), nofun⟩
  | closeBatch report =>
    simp only [RangeDownload.loop, Option.map_eq_some_iff] at moved
    obtain ⟨copy', closed, moved⟩ := moved
    have filled := Filled.closeBatch idle stored report (copying.closeBatch closed)
    rw [moved] at filled
    exact filled
  | validate valid =>
    simp only [RangeDownload.loop] at moved
    split_ifs at moved with more
    simp only [not_or, not_lt] at more
    obtain ⟨whole, _⟩ := copying.done more.1
    have found : s.base.partialFile.getD [] = source.content := by
      rw [stored, Option.getD_some, whole]
    have sound : Sound source s.base := Sound.idle found List.prefix_rfl idle
    unfold RangeDownload.validate at moved
    split_ifs at moved
    · cases moved
      exact ⟨fun _ => .leave sound, nofun⟩
    split at moved <;> cases moved
    · exact ⟨fun _ => .leave sound, nofun⟩
    · exact ⟨fun _ => .reach idle stored whole, nofun⟩
  | fail written err =>
    cases moved
    exact ⟨fun settled => .leave (settled rfl), nofun⟩
  | pull event => cases moved
  | receive => cases moved
  | publish renamed => cases moved
  | stop => cases moved

end

theorem RangeDownload.settles_sound (under : s.receiver = some r)
    (loops : r.stage = .receiving copy) (idle : s.base.attempt = none)
    (stored : s.base.partialFile = some file)
    (copying : Copying source.content file r.accepted copy) (settled : s.settles e s' = true)
    (ended : s'.receiver = none) : Sound source s.base := by
  obtain ⟨job, expected, etag, accepted, stage⟩ := r
  obtain rfl : stage = .receiving copy := loops
  simp only [RangeDownload.settles, RangeDownload.caughtUp, ended, under, Option.isSome_none,
    Bool.false_or, decide_eq_true_eq] at settled
  exact Sound.of_copying copying stored settled idle

theorem Filled.stopped (under : s.receiver = some r) (idle : s.base.attempt = none)
    (stored : s.base.partialFile = some file) (fills : r.Fills source file)
    (settled : s.settles e ⟨s.base, none⟩ = true) : Filled source ⟨s.base, none⟩ := by
  cases loops : r.stage with
  | receiving copy =>
    simp only [RangeReceiver.Fills, loops] at fills
    have sound : Sound source s.base :=
      RangeDownload.settles_sound under loops idle stored fills settled rfl
    exact sound
  | received completed =>
    simp only [RangeReceiver.Fills, loops] at fills
    exact Sound.idle (by rw [stored, Option.getD_some, fills]) List.prefix_rfl idle

theorem Download.next_beside {base base' : Download} {size : Int} {e : PullEvent}
    (beside : e.beside = true) (moved : base.next source size e = some (base', outcome)) :
    base'.partialFile = base.partialFile ∧ base'.attempt = base.attempt ∧ outcome = none := by
  cases e with
  | others entry =>
    cases moved
    exact ⟨rfl, rfl, rfl⟩
  | turn state =>
    cases moved
    exact ⟨rfl, rfl, rfl⟩
  | _ => cases beside

theorem Filled.next (short : (source.content.length : Int) < 2 ^ 63) (filled : Filled source s)
    (moved : s.next source chunkSize e = some (s', outcome)) :
    (s.settles e s' = true → Filled source s') ∧ ∀ written bytes,
      outcome = some (.published written bytes) → s'.base.destination = some (.file source.content) := by
  cases under : s.receiver with
  | none =>
    simp only [Filled, under] at filled
    cases e with
    | pull e =>
      simp only [RangeDownload.next, under] at moved
      split_ifs at moved with before
      simp only [Option.map_eq_some_iff] at moved
      obtain ⟨⟨base', outcome'⟩, stepped, moved⟩ := moved
      cases moved
      have covered : s.base.covers e = true := by
        cases e with
        | receive => cases before
        | _ => rfl
      have goes := filled.next stepped covered
      exact ⟨fun _ => goes.sound, goes.published⟩
    | receive =>
      simp only [RangeDownload.next, under] at moved
      split at moved
      · rename_i job checkpoint expected attempt
        split_ifs at moved
        have received : Filled source (s.receive source chunkSize job checkpoint expected).1 ∧ _ :=
          Filled.receive short filled attempt
        rw [Option.some.inj moved] at received
        exact ⟨fun _ => received.1, fun written bytes answer =>
          absurd answer (received.2 written bytes)⟩
      · cases moved
    | _ =>
      simp only [RangeDownload.next, under] at moved
      cases moved
  | some r =>
    simp only [Filled, under] at filled
    obtain ⟨idle, file, stored, fills⟩ := filled
    cases e with
    | pull e =>
      simp only [RangeDownload.next, under] at moved
      split_ifs at moved with beside
      simp only [Option.map_eq_some_iff] at moved
      obtain ⟨⟨base', outcome'⟩, stepped, moved⟩ := moved
      cases moved
      obtain ⟨kept, still, silent⟩ := Download.next_beside beside stepped
      exact ⟨fun _ => ⟨still.trans idle, file, kept.trans stored, fills⟩, by simp [silent]⟩
    | stop =>
      simp only [RangeDownload.next, under] at moved
      cases moved
      exact ⟨Filled.stopped under idle stored fills, nofun⟩
    | publish renamed =>
      simp only [RangeDownload.next, under] at moved
      split at moved
      · rename_i completed loops
        cases moved
        simp only [RangeReceiver.Fills, loops] at fills
        rw [fills] at stored
        have sound : Sound source s.base :=
          Sound.idle (congrArg (·.getD []) stored) List.prefix_rfl idle
        have goes : Goes source (s.base.publish r.job completed renamed) :=
          sound.publish stored completed renamed
        exact ⟨fun _ => goes.sound, goes.published⟩
      · cases moved
    | _ =>
      simp only [RangeDownload.next, under] at moved
      split at moved
      · rename_i copy loops
        simp only [RangeReceiver.Fills, loops] at fills
        obtain ⟨filled, silent⟩ := Filled.loop idle stored fills moved
        exact ⟨fun settled => filled (RangeDownload.settles_sound under loops idle stored fills
          settled), fun written bytes answer => absurd answer (silent written bytes)⟩
      · cases moved

end Invariant

section Publication

variable {source : Source} {chunkSize : Int64} {s s' : RangeDownload} {written : Int} {bytes : Bytes}

/-- A copy in ranges publishes the bytes of the source, if every attempt that is given up has
come as far as the checkpoint that is stored. -/
theorem ranged_copy_publishes_source {job : Job} {partialFile : Option Bytes}
    {destination : Option Entry} {e : RangeEvent}
    (short : (source.content.length : Int) < 2 ^ 63)
    (run : Run (RangeDownload.next source chunkSize) (fun s e s' => s.settles e s' = true)
      ⟨Download.created job partialFile destination, none⟩ s)
    (moved : s.next source chunkSize e = some (s', some (.published written bytes))) :
    s'.base.destination = some (.file source.content) := by
  have start : Filled source ⟨Download.created job partialFile destination, none⟩ :=
    Sound.created partialFile destination
  have filled := run.keeps (fun _ _ _ _ moved settled filled =>
    (Filled.next short filled moved).1 settled) start
  exact (filled.next short moved).2 written bytes rfl

end Publication

section Sample

def rangedSource : Source where
  content := [1, 2, 3, 4]
  etag := "t"
  sha256 _ := "sha"

def rangedPull : RangeDownload :=
  ⟨.created
    { id := "t", type := .transferPull, state := .running, destination := "d/a"
      maxParallelChunks := 2 } none none, none⟩

def rangedOpening : List RangeEvent :=
  [.pull .begin, .pull (.enter true), .pull (.inspect (.ok ())), .receive]

def rangedBatch : List RangeEvent :=
  [.openBatch, .spawn, .spawn, .fetch 0 (.ok ()), .fetch 1 (.ok ()), .write 1 1, .finish 1,
    .write 0 1, .finish 0, .closeBatch (.ok (⟨0, 0, 0, none, "", none⟩, Time.ofUnix 110))]

def rangedResumption : List RangeEvent :=
  rangedOpening ++ rangedBatch ++ [.stop] ++ rangedOpening ++ rangedBatch ++ [.validate (.ok ())]

def rangedResumed : RangeDownload :=
  (replay (RangeDownload.next rangedSource 1) RangeDownload.settles rangedPull
    rangedResumption).getD rangedPull

/-- Broken off after a batch and resumed behind it. -/
theorem sample_ranges_publish :
    ∃ s', rangedResumed.next rangedSource 1 (.publish (.ok ())) =
        some (s', some (.published 4 [1, 2, 3, 4])) ∧
      s'.base.destination = some (.file rangedSource.content) := by
  have run : Run (RangeDownload.next rangedSource 1) (fun s e s' => s.settles e s' = true)
      rangedPull rangedResumed :=
    Run.of_possible (fun _ _ _ settles => settles) (by decide +kernel) _
  obtain ⟨s', moved⟩ : ∃ s', rangedResumed.next rangedSource 1 (.publish (.ok ())) =
      some (s', some (.published 4 [1, 2, 3, 4])) := ⟨_, rfl⟩
  exact ⟨s', moved, ranged_copy_publishes_source (by decide) run moved⟩

/-- The partial file is lost after the first batch. The next attempt gives the new one its
full length and is cut off; the attempt after it takes the zeros for the first batch. -/
def rangedLoss : List RangeEvent :=
  rangedOpening ++ rangedBatch ++ [.stop, .pull (.disk none)] ++ rangedOpening ++ [.stop] ++
    rangedOpening ++ rangedBatch ++ [.validate (.ok ())]

def rangedZeros : RangeDownload :=
  (replay (RangeDownload.next rangedSource 1) (fun _ _ _ => true) rangedPull rangedLoss).getD
    rangedPull

def rangedOutcome (s : RangeDownload) : Option (Int × Bytes) :=
  match s.next rangedSource 1 (.publish (.ok ())) with
  | some (_, some (.published written bytes)) => some (written, bytes)
  | _ => none

theorem ranged_copy_publishes_zeros :
    Run (RangeDownload.next rangedSource 1) (fun _ _ _ => True) rangedPull rangedZeros ∧
    rangedOutcome rangedZeros = some (4, [0, 0, 3, 4]) ∧
    rangedSource.content = [1, 2, 3, 4] := by
  refine ⟨Run.of_possible (fun _ _ _ _ => trivial) (by decide +kernel) _, ?_, rfl⟩
  decide +kernel

end Sample

end Jolt.Transfers
