import Jolt.Base.RangedCopy
import Jolt.Transfers.Batch

/-! A local file copied by attempts that may break off anywhere, one chunk after another or
in ranges at a time. What has been copied is kept in a partial file beside the destination;
an attempt trusts as much of it as its checkpoint says and the source confirms. -/
namespace Jolt.Copies
open Jolt.Base
open Jolt.Transfers (Bytes Entry)

section Model

/-- The source, which does not change, and the hash, which is taken to be injective. -/
structure LocalSource where
  content : Bytes
  sha256 : Bytes → String
  injective : Function.Injective sha256
  small : (content.length : Int) < 2 ^ 63

def LocalSource.size (source : LocalSource) : Int := source.content.length

structure CopyRequest where
  overwrite : Bool
  checkpoint : Int
  chunkSize : Int64
  maxParallel : Int
  expectedChecksum : String
  allowSourceChange : Bool
  filtered : Bool

def CopyRequest.chunk (r : CopyRequest) : Int :=
  if r.chunkSize.toInt ≤ 0 then 16777216 else r.chunkSize.toInt

inductive CopyStage where
  | serial (completed : Int) (copied : List (Int × Int))
  | ranged (copy : RangedCopy)
  | hashed (completed : Int) (copied : List (Int × Int)) (checksum : String)

structure CopyAttempt where
  request : CopyRequest
  accepted : Int
  stage : CopyStage

structure LocalCopy where
  partialFile : Option Bytes
  destination : Option Entry
  attempt : Option CopyAttempt

inductive CopyOutcome where
  | failed (completed : Int)
  | published (completed : Int) (checksum : String) (accepted : Int) (copied : List (Int × Int))

inductive CopyEvent where
  | disk (found : Option Bytes)
  | others (entry : Option Entry)
  | begin (request : CopyRequest)
  | chunk (count : Nat) (failed : Bool)
  | openBatch
  | spawn
  | write (worker count : Nat)
  | finish (worker : Nat)
  | closeBatch
  | verify
  | publish (rejected renamed : Bool)
  | stop

variable (source : LocalSource)

/-- `matchingPrefix` -/
def matchingPrefix (found : Bytes) (size : Nat) : Bool :=
  source.sha256 (source.content.take size) == source.sha256 (found.take size)

def accept (found : Bytes) (checkpoint : Int) : Int × Bytes :=
  let checkpoint :=
    if checkpoint < 0 ∨ source.size < checkpoint ∨ found.length < checkpoint then 0 else checkpoint
  let kept := found.take checkpoint.toNat
  if 0 < checkpoint ∧ matchingPrefix source kept checkpoint.toNat = false then (0, [])
  else (checkpoint, kept)

def LocalCopy.begin (s : LocalCopy) (r : CopyRequest) : LocalCopy × Option CopyOutcome :=
  if r.overwrite = false ∧ s.destination.isSome then (s, some (.failed 0))
  else
    let (accepted, kept) := accept source (s.partialFile.getD []) r.checkpoint
    if r.maxParallel ≤ 1 then
      ({ s with partialFile := some kept, attempt := some ⟨r, accepted, .serial accepted []⟩ }, none)
    else
      ({ s with
          partialFile := some (resize 0 kept source.content.length)
          attempt := some ⟨r, accepted, .ranged
            { size := source.size, chunk := r.chunk, parallel := min r.maxParallel 16
              completed := accepted }⟩ }, none)

def LocalCopy.chunk (s : LocalCopy) (a : CopyAttempt) (completed : Int) (copied : List (Int × Int))
    (count : Nat) (failed : Bool) : LocalCopy × Option CopyOutcome :=
  let remaining := min a.request.chunk (source.size - completed)
  let piece := stretch source.content completed.toNat (min count remaining.toNat)
  let file := writeAt (s.partialFile.getD []) completed.toNat piece
  let after := completed + piece.length
  if failed ∨ (piece.length : Int) ≠ remaining then
    ({ s with partialFile := some file, attempt := none }, some (.failed after))
  else
    ({ s with
        partialFile := some file
        attempt := some { a with stage := .serial after (copied ++ [(completed, after)]) } }, none)

def LocalCopy.verify (s : LocalCopy) (a : CopyAttempt) (completed : Int)
    (copied : List (Int × Int)) : LocalCopy × Option CopyOutcome :=
  let checksum := source.sha256 (s.partialFile.getD [])
  if a.request.allowSourceChange = false ∧ a.request.expectedChecksum ≠ "" ∧
      checksum ≠ a.request.expectedChecksum then
    ({ s with attempt := none }, some (.failed completed))
  else ({ s with attempt := some { a with stage := .hashed completed copied checksum } }, none)

/-- A directory in the way of a file that overwrites is removed, unless the copy is filtered or
the directory protected. -/
def cleared (r : CopyRequest) (rejected : Bool) (destination : Option Entry) :
    Option (Option Entry) :=
  if r.overwrite ∧ destination = some .directory then
    if r.filtered ∨ rejected then none else some none
  else some destination

def LocalCopy.publish (s : LocalCopy) (a : CopyAttempt) (completed : Int)
    (copied : List (Int × Int)) (checksum : String) (rejected renamed : Bool) :
    LocalCopy × Option CopyOutcome :=
  match cleared a.request rejected s.destination with
  | none => ({ s with attempt := none }, some (.failed completed))
  | some destination =>
    if renamed = false ∨ a.request.overwrite = false ∧ destination.isSome then
      ({ s with destination := destination, attempt := none }, some (.failed completed))
    else
      ({ partialFile := none
         destination := some (.file (s.partialFile.getD []))
         attempt := none }, some (.published completed checksum a.accepted copied))

def LocalCopy.reach (s : LocalCopy) (a : CopyAttempt) (copy : RangedCopy) :
    LocalCopy × Option CopyOutcome :=
  ({ s with attempt := some { a with stage := .ranged copy } }, none)

def LocalCopy.next (s : LocalCopy) : CopyEvent → Option (LocalCopy × Option CopyOutcome)
  | .disk found => if s.attempt.isSome then none else some ({ s with partialFile := found }, none)
  | .others entry => some ({ s with destination := entry }, none)
  | .begin request => if s.attempt.isSome then none else some (s.begin source request)
  | .stop => some ({ s with attempt := none }, none)
  | .chunk count failed =>
    match s.attempt with
    | some ⟨r, accepted, .serial completed copied⟩ =>
      if completed < source.size then
        some (s.chunk source ⟨r, accepted, .serial completed copied⟩ completed copied count failed)
      else none
    | _ => none
  | .openBatch =>
    match s.attempt with
    | some ⟨r, accepted, .ranged copy⟩ =>
      copy.openBatch.map (s.reach ⟨r, accepted, .ranged copy⟩)
    | _ => none
  | .spawn =>
    match s.attempt with
    | some ⟨r, accepted, .ranged copy⟩ =>
      (copy.spawn true).map (s.reach ⟨r, accepted, .ranged copy⟩)
    | _ => none
  | .write worker count =>
    match s.attempt with
    | some ⟨r, accepted, .ranged copy⟩ =>
      (copy.write source.content (s.partialFile.getD []) worker count).map fun (file, copy) =>
        { s with partialFile := some file }.reach ⟨r, accepted, .ranged copy⟩ copy
    | _ => none
  | .finish worker =>
    match s.attempt with
    | some ⟨r, accepted, .ranged copy⟩ =>
      (copy.finish worker).map (s.reach ⟨r, accepted, .ranged copy⟩)
    | _ => none
  | .closeBatch =>
    match s.attempt with
    | some ⟨r, accepted, .ranged copy⟩ =>
      copy.closeBatch.map (s.reach ⟨r, accepted, .ranged copy⟩)
    | _ => none
  | .verify =>
    match s.attempt with
    | some ⟨r, accepted, .serial completed copied⟩ =>
      if completed < source.size then none
      else some (s.verify source ⟨r, accepted, .serial completed copied⟩ completed copied)
    | some ⟨r, accepted, .ranged copy⟩ =>
      if copy.completed < copy.size ∨ copy.batch.isSome then none
      else some (s.verify source ⟨r, accepted, .ranged copy⟩ copy.completed copy.copied)
    | _ => none
  | .publish rejected renamed =>
    match s.attempt with
    | some ⟨r, accepted, .hashed completed copied checksum⟩ =>
      some (s.publish ⟨r, accepted, .hashed completed copied checksum⟩ completed copied checksum
        rejected renamed)
    | _ => none

end Model

section Soundness

variable {source : LocalSource} {s s' : LocalCopy} {a : CopyAttempt}

theorem accept_spec {found kept : Bytes} {checkpoint accepted : Int}
    (result : accept source found checkpoint = (accepted, kept)) :
    0 ≤ accepted ∧ accepted ≤ source.size ∧ kept = source.content.take accepted.toNat := by
  have size : 0 ≤ source.size := Int.natCast_nonneg _
  simp only [accept] at result
  generalize checked : (if checkpoint < 0 ∨ source.size < checkpoint ∨ found.length < checkpoint
    then 0 else checkpoint) = point at result
  have range : 0 ≤ point ∧ point ≤ source.size := by
    rw [← checked]
    split_ifs <;> omega
  split_ifs at result with differs
  · cases result
    exact ⟨Int.le_refl 0, size, rfl⟩
  cases result
  refine ⟨range.1, range.2, ?_⟩
  by_cases none : accepted = 0
  · simp [none]
  have same : matchingPrefix source (found.take accepted.toNat) accepted.toNat = true := by
    simpa [show 0 < accepted by omega] using differs
  simp only [matchingPrefix, beq_iff_eq, List.take_take, Nat.min_self] at same
  exact (source.injective same).symm

def Along (source : LocalSource) (s : LocalCopy) (a : CopyAttempt) : Prop :=
  match a.stage with
  | .serial completed copied => ∃ file, s.partialFile = some file ∧ file <+: source.content ∧
      completed = file.length ∧ Tiles a.accepted copied completed
  | .ranged copy => ∃ file, s.partialFile = some file ∧
      Copying source.content file a.accepted copy
  | .hashed _ copied checksum => s.partialFile = some source.content ∧
      checksum = source.sha256 source.content ∧ Tiles a.accepted copied source.size

def Sound (source : LocalSource) (s : LocalCopy) : Prop := ∀ a ∈ s.attempt, Along source s a

theorem Sound.idle (none : s.attempt = none) : Sound source s := by
  simp [Sound, none]

theorem CopyRequest.chunk_range (r : CopyRequest) : 0 < r.chunk ∧ r.chunk < 2 ^ 63 := by
  have high := r.chunkSize.toInt_lt
  unfold CopyRequest.chunk
  split_ifs <;> omega

theorem Sound.begin (source : LocalSource) (r : CopyRequest) (idle : s.attempt = none) :
    Sound source (s.begin source r).1 := by
  cases result : accept source (s.partialFile.getD []) r.checkpoint with
  | mk accepted kept =>
    obtain ⟨low, high, rfl⟩ := accept_spec result
    have length : ((source.content.take accepted.toNat).length : Int) = accepted := by
      rw [List.length_take]
      unfold LocalSource.size at high
      omega
    simp only [LocalCopy.begin, result]
    split_ifs
    · exact .idle idle
    · rintro a ⟨⟩
      exact ⟨_, rfl, List.take_prefix _ _, length.symm, rfl⟩
    rintro a ⟨⟩
    have start : AgreesOn source.content (source.content.take accepted.toNat) 0
        (accepted.toNat : Nat) := agreesOn_of_take (by rw [List.take_take, Nat.min_self])
    have here : ((accepted.toNat : Nat) : Int) = accepted := by omega
    rw [here] at start
    refine ⟨_, rfl, ?_⟩
    apply Copying.start_at (c := ⟨source.size, r.chunk, min r.maxParallel 16, accepted, none, []⟩)
    · rfl
    · exact length_resize
    · exact source.small
    · exact r.chunk_range
    · rfl
    · exact ⟨low, high⟩
    · rfl
    · exact start.resize high (Int.le_of_eq length.symm)

theorem Sound.chunk {completed : Int} {copied : List (Int × Int)} (count : Nat) (failed : Bool)
    (along : Along source s ⟨a.request, a.accepted, .serial completed copied⟩)
    (more : completed < source.size) :
    Sound source (s.chunk source a completed copied count failed).1 := by
  obtain ⟨file, stored, start, rfl, tiles⟩ := along
  have chunk := a.request.chunk_range
  simp only [LocalCopy.chunk, stored, Option.getD_some, Int.toNat_natCast, writeAt_end]
  generalize min count _ = size
  have longer := prefix_append_stretch start size
  generalize stretch source.content file.length size = piece at longer
  split_ifs with broken
  · exact .idle rfl
  simp only [not_or, ne_eq, not_not] at broken
  rintro _ ⟨⟩
  exact ⟨_, rfl, longer, by simp, tiles.concat (by omega)⟩

theorem Sound.verify (completed : Int) {copied : List (Int × Int)}
    (whole : s.partialFile = some source.content) (tiles : Tiles a.accepted copied source.size) :
    Sound source (s.verify source a completed copied).1 := by
  simp only [LocalCopy.verify, whole, Option.getD_some]
  split_ifs
  · exact .idle rfl
  · rintro _ ⟨⟩
    exact ⟨rfl, rfl, tiles⟩

theorem LocalCopy.publish_idle (s : LocalCopy) (a : CopyAttempt) (completed : Int)
    (copied : List (Int × Int)) (checksum : String) (rejected renamed : Bool) :
    (s.publish a completed copied checksum rejected renamed).1.attempt = none := by
  simp only [LocalCopy.publish]
  split
  · rfl
  · split_ifs <;> rfl

theorem Sound.ranged {r : CopyRequest} {accepted : Int} {copy : RangedCopy} {step : Option RangedCopy}
    (sound : Sound source s) (running : s.attempt = some ⟨r, accepted, .ranged copy⟩)
    (keeps : ∀ file copy', Copying source.content file accepted copy → step = some copy' →
      Copying source.content file accepted copy')
    {outcome : Option CopyOutcome}
    (moved : step.map (s.reach ⟨r, accepted, .ranged copy⟩) = some (s', outcome)) :
    Sound source s' := by
  obtain ⟨copy', stepped, same⟩ := Option.map_eq_some_iff.mp moved
  cases same
  obtain ⟨file, stored, copying⟩ := sound _ running
  rintro _ ⟨⟩
  exact ⟨file, stored, keeps file copy' copying stepped⟩

theorem Sound.next {e : CopyEvent} {outcome : Option CopyOutcome} (sound : Sound source s)
    (moved : s.next source e = some (s', outcome)) : Sound source s' := by
  cases e with
  | disk found =>
    simp only [LocalCopy.next] at moved
    split_ifs at moved with running
    cases moved
    simp only [Option.isSome_iff_ne_none, ne_eq, not_not] at running
    exact .idle running
  | others entry =>
    cases moved
    exact sound
  | begin request =>
    simp only [LocalCopy.next] at moved
    split_ifs at moved with running
    simp only [Option.isSome_iff_ne_none, ne_eq, not_not] at running
    have started := Sound.begin source request running
    rw [Option.some.inj moved] at started
    exact started
  | stop =>
    cases moved
    exact .idle rfl
  | chunk count failed =>
    simp only [LocalCopy.next] at moved
    split at moved
    · rename_i r accepted completed copied running
      split_ifs at moved with more
      have chunked := Sound.chunk (a := ⟨r, accepted, .serial completed copied⟩) count failed
        (sound _ running) more
      rw [Option.some.inj moved] at chunked
      exact chunked
    · cases moved
  | openBatch =>
    simp only [LocalCopy.next] at moved
    split at moved
    · rename_i r accepted copy running
      exact sound.ranged running (fun _ _ => Copying.openBatch) moved
    · cases moved
  | spawn =>
    simp only [LocalCopy.next] at moved
    split at moved
    · rename_i r accepted copy running
      exact sound.ranged running (fun _ _ => Copying.spawn) moved
    · cases moved
  | write worker count =>
    simp only [LocalCopy.next] at moved
    split at moved
    · rename_i r accepted copy running
      obtain ⟨⟨file', copy'⟩, wrote, same⟩ := Option.map_eq_some_iff.mp moved
      cases same
      obtain ⟨file, stored, copying⟩ := sound _ running
      rw [stored, Option.getD_some] at wrote
      rintro _ ⟨⟩
      exact ⟨file', rfl, copying.write wrote⟩
    · cases moved
  | finish worker =>
    simp only [LocalCopy.next] at moved
    split at moved
    · rename_i r accepted copy running
      exact sound.ranged running (fun _ _ => Copying.finish) moved
    · cases moved
  | closeBatch =>
    simp only [LocalCopy.next] at moved
    split at moved
    · rename_i r accepted copy running
      exact sound.ranged running (fun _ _ => Copying.closeBatch) moved
    · cases moved
  | verify =>
    simp only [LocalCopy.next] at moved
    split at moved
    · rename_i r accepted completed copied running
      split_ifs at moved with more
      obtain ⟨file, stored, start, rfl, tiles⟩ := sound _ running
      have whole : file = source.content :=
        start.eq_of_length_le (by unfold LocalSource.size at more; omega)
      rw [whole] at stored tiles moved
      have verified := Sound.verify (a := ⟨r, accepted, .serial source.content.length copied⟩)
        source.content.length stored tiles
      rw [Option.some.inj moved] at verified
      exact verified
    · rename_i r accepted copy running
      split_ifs at moved with more
      simp only [not_or, Int.not_lt] at more
      obtain ⟨file, stored, copying⟩ := sound _ running
      obtain ⟨rfl, tiles⟩ := copying.done more.1
      have verified := Sound.verify (a := ⟨r, accepted, .ranged copy⟩) copy.completed stored tiles
      rw [Option.some.inj moved] at verified
      exact verified
    · cases moved
  | publish rejected renamed =>
    simp only [LocalCopy.next] at moved
    split at moved
    · rename_i r accepted completed copied checksum running
      have idle := s.publish_idle ⟨r, accepted, .hashed completed copied checksum⟩ completed copied
        checksum rejected renamed
      rw [Option.some.inj moved] at idle
      exact .idle idle
    · cases moved

theorem LocalCopy.next_published {e : CopyEvent} {completed accepted : Int} {checksum : String}
    {copied : List (Int × Int)}
    (moved : s.next source e = some (s', some (.published completed checksum accepted copied))) :
    ∃ r, s.attempt = some ⟨r, accepted, .hashed completed copied checksum⟩ ∧
      s'.destination = some (.file (s.partialFile.getD [])) := by
  cases e with
  | publish rejected renamed =>
    simp only [LocalCopy.next] at moved
    split at moved
    · rename_i r accepted' completed' copied' checksum' running
      simp only [LocalCopy.publish] at moved
      split at moved
      · cases moved
      split_ifs at moved
      · cases moved
      · cases moved
        exact ⟨r, running, rfl⟩
    · cases moved
  | begin request =>
    simp only [LocalCopy.next, LocalCopy.begin] at moved
    grind
  | chunk count failed =>
    simp only [LocalCopy.next, LocalCopy.chunk] at moved
    grind
  | verify =>
    simp only [LocalCopy.next, LocalCopy.verify] at moved
    grind
  | _ =>
    simp only [LocalCopy.next, LocalCopy.reach] at moved
    grind [Option.map_eq_some_iff, LocalCopy.reach]

end Soundness

section Statement

variable {source : LocalSource} {s₀ s s' : LocalCopy}

/-- Whatever lies in the partial file and wherever attempts break off, one that succeeds has
published the source and returns its digest, and the ranges it copied tile what its checkpoint
had left. -/
theorem resumable_copy_publishes_source {e : CopyEvent} {completed accepted : Int}
    {checksum : String} {copied : List (Int × Int)} (idle : s₀.attempt = none)
    (run : Run (LocalCopy.next source) (fun _ _ _ => True) s₀ s)
    (moved : s.next source e = some (s', some (.published completed checksum accepted copied))) :
    s'.destination = some (.file source.content) ∧
      checksum = source.sha256 source.content ∧
      (copied.Pairwise fun r t => r.2 ≤ t.1) ∧
      (∀ r ∈ copied, accepted ≤ r.1 ∧ r.1 < r.2 ∧ r.2 ≤ source.size) ∧
      ∀ x, accepted ≤ x → x < source.size → ∃ r ∈ copied, r.1 ≤ x ∧ x < r.2 := by
  have sound : Sound source s := run.keeps (fun _ _ _ _ moved _ sound => sound.next moved)
    (.idle idle)
  obtain ⟨r, running, placed⟩ := LocalCopy.next_published moved
  obtain ⟨stored, digest, tiles⟩ := sound _ running
  rw [stored, Option.getD_some] at placed
  exact ⟨placed, digest, tiles.disjoint, tiles.inside, fun x => tiles.cover⟩

def writtenOut (bytes : Bytes) : String := String.ofList (bytes.map fun b => Char.ofNat b.toNat)

theorem writtenOut_injective : Function.Injective writtenOut := by
  intro a b same
  have chars := String.ofList_injective same
  refine List.map_injective_iff.mpr (fun x y equal => ?_) chars
  have back (x : UInt8) : (Char.ofNat x.toNat).toNat = x.toNat := by
    have small := x.toNat_lt
    have valid : x.toNat.isValidChar := .inl (by omega)
    simp [Char.ofNat, valid, Char.ofNatAux, Char.toNat]
  exact UInt8.toNat_inj.mp (by rw [← back x, ← back y, equal])

def sampleSource : LocalSource where
  content := [1, 2, 3]
  sha256 := writtenOut
  injective := writtenOut_injective
  small := by decide

def sampleRequest (checkpoint maxParallel : Int) : CopyRequest where
  overwrite := false
  checkpoint := checkpoint
  chunkSize := 2
  maxParallel := maxParallel
  expectedChecksum := ""
  allowSourceChange := false
  filtered := false

/-- Two workers start on a longer partial file, one byte is written, and a serial attempt goes
on behind it. -/
def sampleEvents : List CopyEvent :=
  [.begin (sampleRequest 0 2), .openBatch, .spawn, .spawn, .write 0 1, .stop,
    .begin (sampleRequest 1 1), .chunk 2 false, .verify]

def sampleCopied : LocalCopy :=
  (replay (LocalCopy.next sampleSource) (fun _ _ _ => true) ⟨some [7, 7, 7, 7], none, none⟩
    sampleEvents).getD ⟨none, none, none⟩

theorem sample_copy_publishes_source :
    ∃ s', sampleCopied.next sampleSource (.publish false true) =
        some (s', some (.published 3 (writtenOut [1, 2, 3]) 1 [(1, 3)])) ∧
      s'.destination = some (.file [1, 2, 3]) := by
  have run : Run (LocalCopy.next sampleSource) (fun _ _ _ => True)
      ⟨some [7, 7, 7, 7], none, none⟩ sampleCopied :=
    Run.of_possible (fun _ _ _ _ => trivial) (by decide +kernel) _
  obtain ⟨s', moved⟩ : ∃ s', sampleCopied.next sampleSource (.publish false true) =
      some (s', some (.published 3 (writtenOut [1, 2, 3]) 1 [(1, 3)])) := ⟨_, rfl⟩
  exact ⟨s', moved, (resumable_copy_publishes_source rfl run moved).1⟩

end Statement

end Jolt.Copies
