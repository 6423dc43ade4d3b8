import Jolt.Transfers.Receive

/-! A copy that is resumed publishes the bytes of the source, as long as no attempt finds
the partial file shorter than the checkpoint it starts from. The invariant is that what
has been kept is a beginning of the source's bytes and that an open stream goes on where
the partial file ends. -/
namespace Jolt.Transfers
open Jolt.Base Jolt.Jobs List

variable {source : Source} {chunkSize : Int} {s s' : Download} {job : Job}

section Cases

/-- What an attempt may have made of the stored job before its stream is open. -/
def Tags (job stored stored' : Job) : Prop :=
  stored' = stored ∨ ∃ etag, stored' = tagged job etag

structure Quit (s : Download) (job : Job) (p : Download × Option Outcome) : Prop where
  attempt : p.1.attempt = none
  partialFile : p.1.partialFile = s.partialFile
  destination : p.1.destination = s.destination
  stored : Tags job s.job p.1.job
  silent : ∀ written bytes, p.2 ≠ some (.published written bytes)

theorem Download.fail_quit (written : Int) (err : OperationError) :
    Quit s job (s.fail written err) :=
  ⟨rfl, rfl, rfl, .inl rfl, nofun⟩

theorem Download.leave_quit : Quit s job s.leave := ⟨rfl, rfl, rfl, .inl rfl, nofun⟩

theorem Download.enter_cases (cleaned : Bool) :
    Quit s job (s.enter job cleaned) ∨ ∃ kept checkpoint,
      s.enter job cleaned = { s with partialFile := kept }.reach job (.admitted checkpoint) ∧
      (kept = none ∨ kept = s.partialFile) ∧ (checkpoint = 0 ∨ checkpoint = job.bytesCompleted) := by
  unfold Download.enter
  split_ifs
  · exact .inl Download.leave_quit
  · exact .inr ⟨none, 0, rfl, .inl rfl, .inl rfl⟩
  · exact .inr ⟨s.partialFile, 0, rfl, .inr rfl, .inl rfl⟩
  · exact .inr ⟨s.partialFile, job.bytesCompleted, rfl, .inr rfl, .inr rfl⟩

theorem Download.tag_ok {etag : String} {stored : Except OperationError Unit} {job' : Job}
    (tags : s.tag job etag stored = .ok (s', job')) :
    ∃ etag', job' = tagged job etag' ∧
      ∃ stored', s' = { s with job := stored' } ∧ Tags job s.job stored' := by
  unfold Download.tag at tags
  split_ifs at tags
  · split at tags
    · cases tags
      exact ⟨etag, rfl, _, rfl, .inr ⟨etag, rfl⟩⟩
    · cases tags
  · cases tags
    exact ⟨job.sourceETag, rfl, s.job, rfl, .inl rfl⟩

theorem Download.compare_cases (source : Source) (checkpoint : Int) (expected : String) :
    Quit s job (s.compare source job checkpoint expected) ∨
      s.compare source job checkpoint expected = s.reach job (.inspected checkpoint expected) := by
  unfold Download.compare
  split_ifs
  · split
    · exact .inr rfl
    · exact .inl (Download.fail_quit _ _)
    split_ifs
    · exact .inl Download.leave_quit
    · exact .inr rfl
  · exact .inr rfl

theorem Download.inspect_cases (checkpoint : Int) (stored : Except OperationError Unit) :
    Quit s job (s.inspect source job checkpoint stored) ∨ ∃ etag stored' expected,
      s.inspect source job checkpoint stored = { s with job := stored' }.reach
        (tagged job etag) (.inspected checkpoint expected) ∧
      Tags job s.job stored' := by
  unfold Download.inspect
  dsimp only
  split_ifs
  · exact .inr ⟨job.sourceETag, s.job, "", rfl, .inl rfl⟩
  · exact .inl (Download.fail_quit _ _)
  · exact .inl (Download.fail_quit _ _)
  · split
    · exact .inl (Download.fail_quit _ _)
    split_ifs
    · exact .inl (Download.fail_quit _ _)
    split
    · exact .inl (Download.fail_quit _ _)
    rename_i stores
    obtain ⟨etag, rfl, stored', rfl, tags⟩ := Download.tag_ok stores
    rcases Download.compare_cases source checkpoint _ with quit | reached
    · refine .inl ⟨quit.attempt, quit.partialFile, quit.destination, ?_, quit.silent⟩
      rcases quit.stored with same | ⟨etag', same⟩
      · rw [same]
        exact tags
      · exact .inr ⟨etag', same⟩
    · exact .inr ⟨etag, stored', _, reached, tags⟩

theorem Source.serve_content {request : Request} {response : Response}
    (answered : source.serve request = response) (get : request.head = false)
    (status : response.status = 200 ∨ response.status = 206) :
    ∃ start last, requestedRange request.range source.content.length =
        some (start, last, response.status) ∧
      response.size = some (source.content.length : Int) ∧ response.etag = source.etag ∧
      response.finalETag = source.etag ∧
      response.body = (source.content.drop start.toNat).take (last - start + 1).toNat := by
  subst answered
  unfold Source.serve at status ⊢
  dsimp only at status ⊢
  by_cases matched : request.ifMatch ≠ "" ∧ request.ifMatch ≠ source.etag
  · rw [if_pos matched] at status
    rcases status with status | status <;> cases status
  have body : ¬ request.head = true := by simp [get]
  rw [if_neg matched, if_neg body] at status ⊢
  cases range : requestedRange request.range source.content.length with
  | none =>
    rw [range] at status
    rcases status with status | status <;> cases status
  | some bounds =>
    obtain ⟨start, last, code⟩ := bounds
    exact ⟨start, last, rfl, rfl, rfl, rfl, rfl⟩

theorem openRemote_content {checkpoint : Int} {response : Response}
    (answered : openRemote source job checkpoint (-1) false false = response)
    (status : response.status = expectedStatus checkpoint) :
    response.size = some (source.content.length : Int) ∧ response.etag = source.etag ∧
      response.finalETag = source.etag ∧ response.body = source.content.drop checkpoint.toNat := by
  have carries : response.status = 200 ∨ response.status = 206 := by
    rw [status, expectedStatus]
    split_ifs
    · exact .inr rfl
    · exact .inl rfl
  obtain ⟨start, last, range, size, etag, finalETag, body⟩ :=
    Source.serve_content answered rfl carries
  refine ⟨size, etag, finalETag, body.trans ?_⟩
  by_cases positive : 0 < checkpoint
  · simp only [positive, true_or, and_self, if_true, requestedRange] at range
    split_ifs at range with outside bounded
    · cases bounded
    obtain ⟨rfl, rfl, _⟩ := Prod.mk.inj (Option.some.inj range) |>.imp_right Prod.mk.inj
    apply take_of_length_le
    rw [length_drop]
    omega
  · have unbounded : ¬ (0 : Int) ≤ -1 := by decide
    simp only [positive, unbounded, or_self, and_false, if_false, requestedRange] at range
    obtain ⟨rfl, rfl, _⟩ := Prod.mk.inj (Option.some.inj range) |>.imp_right Prod.mk.inj
    have first : checkpoint.toNat = 0 := by omega
    rw [first, Int.toNat_zero, drop_zero]
    apply take_of_length_le
    omega

theorem Download.request_cases (checkpoint : Int) (expected : String)
    (stored : Except OperationError Unit) :
    Quit s job (s.request source job checkpoint expected stored) ∨ ∃ etag stored' response,
      s.request source job checkpoint expected stored = { s with job := stored' }.reach
        (tagged job etag) (.opened checkpoint expected response) ∧
      Tags job s.job stored' ∧ response.size = some (source.content.length : Int) ∧
      response.etag = source.etag ∧ response.finalETag = source.etag ∧
      response.body = source.content.drop checkpoint.toNat := by
  unfold Download.request
  dsimp only
  split
  · exact .inl (Download.fail_quit _ _)
  split
  · exact .inl (Download.fail_quit _ _)
  rename_i status
  have content := openRemote_content rfl (not_not.mp status)
  split
  · exact .inl (Download.fail_quit _ _)
  split
  · exact .inl (Download.fail_quit _ _)
  split
  · exact .inl (Download.fail_quit _ _)
  split
  · exact .inl (Download.fail_quit _ _)
  rename_i stores
  obtain ⟨etag, rfl, stored', rfl, tags⟩ := Download.tag_ok stores
  exact .inr ⟨etag, stored', _, rfl, tags, content⟩

end Cases

section Soundness

def Along (source : Source) (s : Download) (a : PullAttempt) : Prop :=
  match a.stage with
  | .started => a.job.bytesCompleted = s.job.bytesCompleted
  | .admitted checkpoint | .inspected checkpoint _ =>
    a.job.bytesCompleted = s.job.bytesCompleted ∧
      (checkpoint = 0 ∨ checkpoint = s.job.bytesCompleted)
  | .opened checkpoint _ response =>
    (checkpoint = 0 ∨ checkpoint = s.job.bytesCompleted) ∧
      response.size = some (source.content.length : Int) ∧
      response.body = source.content.drop checkpoint.toNat
  | .receiving r =>
    r.expectedSize = source.content.length ∧ ∃ file, s.partialFile = some file ∧
      r.completed = file.length ∧ file ++ r.input = source.content
  | .received _ => s.partialFile = some source.content

/-- What has been kept up to the checkpoint is a beginning of the source. -/
structure Sound (source : Source) (s : Download) : Prop where
  kept : (s.partialFile.getD []).take s.job.bytesCompleted.toNat <+: source.content
  attempt : ∀ a, s.attempt = some a → Along source s a

/-- When the receiver opens the partial file, it is as long as the checkpoint the stream
was opened at. -/
def Download.covers (s : Download) : PullEvent → Bool
  | .receive =>
    match s.attempt with
    | some ⟨_, .opened checkpoint _ _⟩ => decide (checkpoint ≤ (s.partialFile.getD []).length)
    | _ => true
  | _ => true

/-- What a step leaves: the checkpoint is sound, and what was published is the source. -/
structure Goes (source : Source) (p : Download × Option Outcome) : Prop where
  sound : Sound source p.1
  published : ∀ written bytes, p.2 = some (.published written bytes) →
    p.1.destination = some (.file source.content)

theorem Tags.bytesCompleted {job stored stored' : Job} (tags : Tags job stored stored')
    (same : job.bytesCompleted = stored.bytesCompleted) :
    stored'.bytesCompleted = stored.bytesCompleted := by
  rcases tags with rfl | ⟨etag, rfl⟩
  · rfl
  · exact same

theorem Sound.idle {file : Bytes} (stored : s.partialFile.getD [] = file)
    (start : file <+: source.content) (none : s.attempt = none) : Sound source s := by
  refine ⟨?_, fun a some => ?_⟩
  · rw [stored]
    exact (List.take_prefix _ _).trans start
  · rw [none] at some
    cases some

section

variable (sound : Sound source s)
include sound

theorem Sound.quit (same : job.bytesCompleted = s.job.bytesCompleted)
    {p : Download × Option Outcome} (quit : Quit s job p) : Goes source p := by
  refine ⟨⟨?_, fun a some => ?_⟩, fun written bytes answer => ?_⟩
  · rw [quit.partialFile, quit.stored.bytesCompleted same]
    exact sound.kept
  · rw [quit.attempt] at some
    cases some
  · exact absurd answer (quit.silent written bytes)

theorem Sound.disk {found : Option Bytes} (closed : (s.attempt.all fun a => !a.stage.holds) = true)
    (may : s.mayFind found = true) :
    Sound source { s with partialFile := found } := by
  refine ⟨(List.isPrefixOf_iff_prefix.mp may).trans sound.kept, fun a under => ?_⟩
  have along := sound.attempt a under
  have shut : a.stage.holds = false := by
    have here : s.attempt = some a := under
    rw [here] at closed
    simpa using closed
  obtain ⟨job, stage⟩ := a
  cases stage with
  | receiving r => cases shut
  | received n => cases shut
  | started => exact along
  | admitted => exact along
  | inspected => exact along
  | opened => exact along

section

variable (same : job.bytesCompleted = s.job.bytesCompleted)
include same

theorem Sound.enter (cleaned : Bool) :
    Goes source (s.enter job cleaned) := by
  rcases Download.enter_cases cleaned with quit | ⟨kept, checkpoint, entered, left, origin⟩
  · exact sound.quit same quit
  rw [entered]
  refine ⟨⟨?_, fun a some => ?_⟩, nofun⟩
  · rcases left with rfl | rfl
    · simp [Download.reach]
    · exact sound.kept
  · cases some
    exact ⟨same, origin.imp_right (·.trans same)⟩

theorem Sound.inspect {checkpoint : Int}
    (origin : checkpoint = 0 ∨ checkpoint = s.job.bytesCompleted)
    (stored : Except OperationError Unit) :
    Goes source (s.inspect source job checkpoint stored) := by
  rcases Download.inspect_cases checkpoint stored with quit | ⟨etag, stored', _, reached, tags⟩
  · exact sound.quit same quit
  have completed := tags.bytesCompleted same
  rw [reached]
  refine ⟨⟨?_, fun a some => ?_⟩, nofun⟩
  · simp only [Download.reach, completed]
    exact sound.kept
  · cases some
    exact ⟨same.trans completed.symm, origin.imp_right (·.trans completed.symm)⟩

theorem Sound.request {checkpoint : Int}
    (origin : checkpoint = 0 ∨ checkpoint = s.job.bytesCompleted) (expected : String)
    (stored : Except OperationError Unit) :
    Goes source (s.request source job checkpoint expected stored) := by
  rcases Download.request_cases checkpoint expected stored with
    quit | ⟨etag, stored', _, reached, tags, size, _, _, body⟩
  · exact sound.quit same quit
  have completed := tags.bytesCompleted same
  rw [reached]
  refine ⟨⟨?_, fun a some => ?_⟩, nofun⟩
  · simp only [Download.reach, completed]
    exact sound.kept
  · cases some
    exact ⟨origin.imp_right (·.trans completed.symm), size, body⟩

end

end

theorem take_append_of_prefix {found content : Bytes} {n : Nat}
    (kept : found.take n <+: content) (long : n ≤ found.length) :
    found.take n ++ content.drop n = content := by
  have length : (found.take n).length = n := length_take_of_le long
  have start : found.take n = content.take n := by
    rw [prefix_iff_eq_take, length] at kept
    exact kept
  rw [start]
  exact take_append_drop n content

theorem Sound.receive (sound : Sound source s) {checkpoint : Int} {response : Response}
    (origin : checkpoint = 0 ∨ checkpoint = s.job.bytesCompleted)
    (size : response.size = some (source.content.length : Int))
    (body : response.body = source.content.drop checkpoint.toNat) (expected : String)
    (covered : checkpoint ≤ (s.partialFile.getD []).length) :
    Goes source (s.receive job checkpoint expected response) := by
  unfold Download.receive
  dsimp only
  split_ifs with invalid
  · exact sound.quit rfl (Download.fail_quit _ _)
  · exact sound.quit rfl (Download.fail_quit _ _)
  have point : resumePoint (s.partialFile.getD []) checkpoint = checkpoint :=
    if_neg (by omega)
  have long : checkpoint.toNat ≤ (s.partialFile.getD []).length := by omega
  have start : (s.partialFile.getD []).take checkpoint.toNat <+: source.content := by
    rcases origin with rfl | rfl
    · exact nil_prefix
    · exact sound.kept
  have whole := take_append_of_prefix start long
  rw [point]
  refine ⟨⟨(List.take_prefix _ _).trans start, fun a some => ?_⟩, nofun⟩
  cases some
  refine ⟨by simp only [size, Option.getD_some], _, rfl, ?_, ?_⟩
  · simp only [length_take_of_le long]
    omega
  · simp only [body]
    exact whole

theorem Sound.chunk {r : Reception} (under : Along source s ⟨job, .receiving r⟩) (count : Nat)
    (copyErr : Option OperationError) (report : Except OperationError (Progress × Time)) :
    Goes source (s.chunk chunkSize job r count copyErr report) := by
  obtain ⟨size, file, stored, completed, whole⟩ := under
  have arrives : piece chunkSize r count <+: r.input := take_prefix _ _
  obtain ⟨rest, input⟩ := arrives
  have written : (s.write r (piece chunkSize r count)).partialFile =
      some (file ++ piece chunkSize r count) := by
    simp only [Download.write, stored, Option.getD_some, completed, Int.toNat_natCast, writeAt_end]
  have advanced : r.input.drop (piece chunkSize r count).length = rest := by
    rw [← input, drop_left]
  have longer : (file ++ piece chunkSize r count) ++ rest = source.content := by
    rw [append_assoc, input, whole]
  have start : file ++ piece chunkSize r count <+: source.content := ⟨rest, longer⟩
  have going : ∀ stored : Job, Goes source
      ({ s.write r (piece chunkSize r count) with job := stored }.reach job
        (.receiving (r.advance (piece chunkSize r count)))) := by
    intro stored
    refine ⟨⟨?_, fun a some => ?_⟩, nofun⟩
    · simp only [Download.reach, written, Option.getD_some]
      exact (List.take_prefix _ _).trans start
    cases some
    refine ⟨size, _, written, ?_, ?_⟩
    · simp [Reception.advance, completed]
    · simp only [Reception.advance, advanced]
      exact longer
  have broken : ∀ n err, Goes source ((s.write r (piece chunkSize r count)).fail n err) := by
    intro n err
    have kept : ((s.write r (piece chunkSize r count)).fail n err).1.partialFile.getD [] =
        file ++ piece chunkSize r count := by
      simp only [Download.fail, written, Option.getD_some]
    exact ⟨Sound.idle kept start rfl, nofun⟩
  unfold Download.chunk
  dsimp only
  split
  · exact broken _ _
  split
  · exact broken _ _
  split
  · exact broken _ _
  split
  · exact going _
  · exact going _
  · exact broken _ _

theorem Sound.validate (sound : Sound source s) {r : Reception}
    (under : Along source s ⟨job, .receiving r⟩) (done : ¬ r.completed < r.expectedSize)
    (valid : Except OperationError Unit) : Goes source (s.validate source job r valid) := by
  obtain ⟨size, file, stored, completed, whole⟩ := under
  have lengths := congrArg List.length whole
  rw [length_append] at lengths
  have empty : r.input = [] := eq_nil_of_length_eq_zero (by omega)
  rw [empty, append_nil] at whole
  unfold Download.validate
  split_ifs
  · exact sound.quit rfl (Download.fail_quit _ _)
  · exact sound.quit rfl (Download.fail_quit _ _)
  · exact sound.quit rfl (Download.fail_quit _ _)
  · split
    · exact sound.quit rfl (Download.fail_quit _ _)
    refine ⟨⟨sound.kept, fun a some => ?_⟩, nofun⟩
    cases some
    exact stored.trans (congrArg some whole)

theorem Sound.publish (sound : Sound source s) (whole : s.partialFile = some source.content)
    (completed : Int) (renamed : Except OperationError Unit) :
    Goes source (s.publish job completed renamed) := by
  unfold Download.publish
  split
  · exact sound.quit rfl (Download.fail_quit _ _)
  split
  · exact sound.quit rfl (Download.fail_quit _ _)
  · refine ⟨Sound.idle rfl nil_prefix rfl, fun _ _ _ => ?_⟩
    simp only [whole, Option.getD_some]

theorem Goes.answer {p q : Download × Option Outcome} (goes : Goes source p)
    (moved : some p = some q) : Goes source q := by
  cases moved
  exact goes

theorem Sound.next (sound : Sound source s) {e : PullEvent} {outcome : Option Outcome}
    (moved : s.next source chunkSize e = some (s', outcome)) (covered : s.covers e = true) :
    Goes source (s', outcome) := by
  cases e with
  | disk found =>
    simp only [Download.next] at moved
    split_ifs at moved with may
    cases moved
    obtain ⟨closed, finds⟩ := Bool.and_eq_true_iff.mp may
    exact ⟨sound.disk closed finds, nofun⟩
  | others entry =>
    cases moved
    exact ⟨⟨sound.kept, sound.attempt⟩, nofun⟩
  | turn state =>
    cases moved
    exact ⟨⟨sound.kept, sound.attempt⟩, nofun⟩
  | begin =>
    simp only [Download.next] at moved
    split at moved
    · cases moved
      refine ⟨⟨sound.kept, fun a some => ?_⟩, nofun⟩
      cases some
      exact rfl
    · cases moved
  | stop =>
    cases moved
    exact ⟨⟨sound.kept, fun _ some => by cases some⟩, nofun⟩
  | enter cleaned =>
    simp only [Download.next] at moved
    split at moved
    · rename_i under
      exact (sound.enter (sound.attempt _ under) cleaned).answer moved
    · cases moved
  | inspect stored =>
    simp only [Download.next] at moved
    split at moved
    · rename_i under
      obtain ⟨same, origin⟩ := sound.attempt _ under
      exact (sound.inspect same origin stored).answer moved
    · cases moved
  | request stored =>
    simp only [Download.next] at moved
    split at moved
    · rename_i expected under
      split_ifs at moved
      obtain ⟨same, origin⟩ := sound.attempt _ under
      exact (sound.request same origin expected stored).answer moved
    · cases moved
  | receive =>
    simp only [Download.next] at moved
    split at moved
    · rename_i expected response under
      obtain ⟨origin, size, body⟩ := sound.attempt _ under
      simp only [Download.covers, under, decide_eq_true_eq] at covered
      exact (sound.receive origin size body expected covered).answer moved
    · cases moved
  | chunk count copyErr report =>
    simp only [Download.next] at moved
    split at moved
    · rename_i under
      split_ifs at moved
      exact (Sound.chunk (sound.attempt _ under) count copyErr report).answer moved
    · cases moved
  | validate valid =>
    simp only [Download.next] at moved
    split at moved
    · rename_i under
      split_ifs at moved with more
      exact (sound.validate (sound.attempt _ under) more valid).answer moved
    · cases moved
  | publish renamed =>
    simp only [Download.next] at moved
    split at moved
    · rename_i completed under
      exact (sound.publish (sound.attempt _ under) completed renamed).answer moved
    · cases moved

end Soundness

section Publication

theorem Download.covers_of_published {e : PullEvent} {written : Int} {bytes : Bytes}
    (moved : s.next source chunkSize e = some (s', some (.published written bytes))) :
    s.covers e = true := by
  cases e with
  | receive =>
    simp only [Download.next] at moved
    split at moved
    · unfold Download.receive at moved
      dsimp only at moved
      split_ifs at moved <;> cases moved
    · cases moved
  | _ => rfl

def Download.created (job : Job) (partialFile : Option Bytes) (destination : Option Entry) :
    Download :=
  ⟨{ job with bytesCompleted := 0 }, partialFile, destination, none⟩

theorem Sound.created (partialFile : Option Bytes) (destination : Option Entry) :
    Sound source (Download.created job partialFile destination) :=
  ⟨List.nil_prefix, fun _ some => by cases some⟩

/-- A copy whose attempts all find the partial file as long as their checkpoint publishes
the bytes of the source. -/
theorem resumed_copy_publishes_source {partialFile : Option Bytes} {destination : Option Entry}
    {e : PullEvent} {written : Int} {bytes : Bytes}
    (run : Run (Download.next source chunkSize) (fun s e _ => s.covers e = true)
      (Download.created job partialFile destination) s)
    (moved : s.next source chunkSize e = some (s', some (.published written bytes))) :
    s'.destination = some (.file source.content) := by
  have sound := run.keeps (fun s e u a moved covered sound => (Sound.next sound moved covered).sound)
    (Sound.created partialFile destination)
  exact (sound.next moved (Download.covers_of_published moved)).published written bytes rfl

/-- What lies below the checkpoint is always a beginning of the source. -/
theorem checkpoint_stays_true {partialFile : Option Bytes} {destination : Option Entry}
    (run : Run (Download.next source chunkSize) (fun s e _ => s.covers e = true)
      (Download.created job partialFile destination) s) :
    (s.partialFile.getD []).take s.job.bytesCompleted.toNat <+: source.content :=
  (run.keeps (fun _ _ _ _ moved covered sound => (Sound.next sound moved covered).sound)
    (Sound.created partialFile destination)).kept

end Publication

section Sample

def sampleSource : Source where
  content := [1, 2, 3]
  etag := "t"
  sha256 _ := "sha"

def samplePull : Download :=
  .created { id := "t", type := .transferPull, state := .running, destination := "d/a" } none none

def sampleOpening : List PullEvent :=
  [.begin, .enter true, .inspect (.ok ()), .request (.ok ()), .receive]

def sampleChunk : PullEvent := .chunk 1 none (.ok (⟨0, 0, 0, none, "", none⟩, Time.ofUnix 110))

def sampleResumption : List PullEvent :=
  sampleOpening ++ [sampleChunk, .stop] ++ sampleOpening ++
    [sampleChunk, sampleChunk, .validate (.ok ())]

def sampleResumed : Download :=
  (replay (Download.next sampleSource 1) (fun s e _ => s.covers e) samplePull
    sampleResumption).getD samplePull

def sampleOutcome (s : Download) : Option (Int × Bytes) :=
  match s.next sampleSource 1 (.publish (.ok ())) with
  | some (_, some (.published written bytes)) => some (written, bytes)
  | _ => none

/-- Broken off after a byte and resumed behind it. -/
theorem sample_resumed_publishes :
    ∃ s', sampleResumed.next sampleSource 1 (.publish (.ok ())) =
        some (s', some (.published 3 [1, 2, 3])) ∧
      s'.destination = some (.file sampleSource.content) := by
  have run : Run (Download.next sampleSource 1) (fun s e _ => s.covers e = true) samplePull
      sampleResumed :=
    Run.of_possible (fun _ _ _ covers => covers) (by decide +kernel) _
  obtain ⟨s', moved⟩ : ∃ s', sampleResumed.next sampleSource 1 (.publish (.ok ())) =
      some (s', some (.published 3 [1, 2, 3])) := ⟨_, rfl⟩
  exact ⟨s', moved, resumed_copy_publishes_source run moved⟩

theorem sample_checkpoint_true : (sampleResumed.partialFile.getD []).take
    sampleResumed.job.bytesCompleted.toNat <+: sampleSource.content := by
  have run : Run (Download.next sampleSource 1) (fun s e _ => s.covers e = true) samplePull
      sampleResumed := Run.of_possible (fun _ _ _ covers => covers) (by decide +kernel) _
  exact checkpoint_stays_true run

/-- The partial file is lost after the first byte. The next attempt asks for the rest and
writes it to the start of the new partial file, and one more attempt completes it. -/
def sampleLoss : List PullEvent :=
  sampleOpening ++ [sampleChunk, .stop, .disk none] ++
    sampleOpening ++ [sampleChunk, sampleChunk, sampleChunk] ++
    sampleOpening ++ [sampleChunk, .validate (.ok ())]

def sampleMixed : Download :=
  (replay (Download.next sampleSource 1) (fun _ _ _ => true) samplePull sampleLoss).getD samplePull

theorem resumed_copy_publishes_other_bytes :
    Run (Download.next sampleSource 1) (fun _ _ _ => True) samplePull sampleMixed ∧
    sampleOutcome sampleMixed = some (3, [2, 3, 3]) ∧ sampleSource.content = [1, 2, 3] := by
  refine ⟨Run.of_possible (fun _ _ _ _ => trivial) (by decide +kernel) _, ?_, rfl⟩
  decide +kernel

end Sample

end Jolt.Transfers
