import Jolt.Base.Ranges
import Jolt.Transfers.Batch

/-! One remote file copied by attempts that may break off anywhere: the peer that serves
the file, `executePullFile` up to its request, and the receiver, which keeps what has
arrived in a partial file beside the destination. Between two attempts the partial file
may have lost its end, or be gone. The stored job carries the checkpoint from one attempt
to the next. -/
namespace Jolt.Transfers
open Jolt.Base Jolt.Jobs

section Peer

/-- The file as the peer has it; neither its bytes nor its entity tag change. -/
structure Source where
  content : Bytes
  etag : String
  sha256 : Bytes → String

structure Request where
  head : Bool
  ifMatch : String
  range : Option (Int × Option Int)
  checksum : Bool

structure Response where
  status : Nat
  etag : String := ""
  size : Option Int := none
  checksum : String := ""
  body : Bytes := []
  finalETag : String := ""

def requestedRange (range : Option (Int × Option Int)) (size : Int) : Option (Int × Int × Nat) :=
  match range with
  | none => some (0, size - 1, 200)
  | some (start, last) =>
    if start < 0 ∨ size ≤ start then none
    else
      match last with
      | none => some (start, size - 1, 206)
      | some last => if last < start ∨ size ≤ last then none else some (start, last, 206)

def Source.serve (source : Source) (request : Request) : Response :=
  let size : Int := source.content.length
  if request.ifMatch ≠ "" ∧ request.ifMatch ≠ source.etag then { status := 412 }
  else
    let found : Response :=
      { status := 200, etag := source.etag, size := some size
        checksum := if request.checksum then source.sha256 source.content else "" }
    if request.head then found
    else
      match requestedRange request.range size with
      | none => { found with status := 416 }
      | some (start, last, status) =>
        { found with
          status := status, finalETag := source.etag
          body := (source.content.drop start.toNat).take (last - start + 1).toNat }

def openRemote (source : Source) (job : Job) (rangeStart rangeEnd : Int) (head checksum : Bool) :
    Response :=
  let range := if head = false ∧ (0 < rangeStart ∨ 0 ≤ rangeEnd) then
      some (rangeStart, if 0 ≤ rangeEnd then some rangeEnd else none)
    else none
  source.serve ⟨head, job.sourceETag, range, checksum⟩

end Peer

section Attempts

structure Reception where
  expectedChecksum : String
  expectedSize : Int
  completed : Int
  input : Bytes
  etag : String
  finalETag : String

inductive PullStage where
  | started
  | admitted (checkpoint : Int)
  | inspected (checkpoint : Int) (expectedChecksum : String)
  | opened (checkpoint : Int) (expectedChecksum : String) (response : Response)
  | receiving (r : Reception)
  | received (completed : Int)

structure PullAttempt where
  job : Job
  stage : PullStage

/-- The stored job, the two files, and the attempt that is under way. -/
structure Download where
  job : Job
  partialFile : Option Bytes
  destination : Option Entry
  attempt : Option PullAttempt

/-- How an attempt ends: with an error, with the file that was there, or with a new one. -/
inductive Outcome where
  | failed (written : Int) (err : OperationError)
  | left
  | published (written : Int) (bytes : Bytes)

inductive PullEvent where
  | disk (found : Option Bytes)
  | others (entry : Option Entry)
  | turn (state : JobState)
  | begin
  | stop
  | enter (cleaned : Bool)
  | inspect (stored : Except OperationError Unit)
  | request (stored : Except OperationError Unit)
  | receive
  | chunk (count : Nat) (copyErr : Option OperationError)
      (report : Except OperationError (Progress × Time))
  | validate (valid : Except OperationError Unit)
  | publish (renamed : Except OperationError Unit)

variable (s : Download)

def Download.fail (written : Int) (err : OperationError) : Download × Option Outcome :=
  ({ s with attempt := none }, some (.failed written err))

def Download.leave : Download × Option Outcome := ({ s with attempt := none }, some .left)

def Download.reach (job : Job) (stage : PullStage) : Download × Option Outcome :=
  ({ s with attempt := some ⟨job, stage⟩ }, none)

def invalidSize : OperationError := { text := "invalid transfer: remote file size is invalid" }

def invalidCheckpoint : OperationError :=
  { text := "invalid request: invalid remote size or checkpoint" }

def unexpectedEOF : OperationError := { text := "unexpected EOF" }

def exceededSize : OperationError :=
  { text := "invalid request: remote stream exceeded the declared size" }

def checksumMismatch : OperationError :=
  { text := "source changed during copy: remote checksum mismatch" }

def untagged (job : Job) : Bool := decide (0 < job.bytesCompleted) && job.sourceETag == ""

def Download.enter (job : Job) (cleaned : Bool) : Download × Option Outcome :=
  if job.conflictPolicy = .skip ∧ s.destination.isSome then s.leave
  else if untagged job then
    { s with partialFile := if cleaned then none else s.partialFile }.reach job (.admitted 0)
  else s.reach job (.admitted job.bytesCompleted)

def tagged (job : Job) (etag : String) : Job := { job with sourceETag := etag }

/-- The first entity tag is stored with the job, over whatever the store has by then. -/
def Download.tag (job : Job) (etag : String) (stored : Except OperationError Unit) :
    Except OperationError (Download × Job) :=
  if job.sourceETag = "" then
    match stored with
    | .ok () => .ok ({ s with job := tagged job etag }, tagged job etag)
    | .error err => .error err
  else .ok (s, job)

/-- Under the checksum policy an equal file at the destination ends the attempt. -/
def Download.compare (source : Source) (job : Job) (checkpoint : Int) (expected : String) :
    Download × Option Outcome :=
  if job.conflictPolicy = .checksum then
    match s.destination with
    | none => s.reach job (.inspected checkpoint expected)
    | some .directory => s.fail checkpoint { text := "invalid request: path is not a file" }
    | some (.file bytes) =>
      if source.sha256 bytes = expected then s.leave
      else s.reach job (.inspected checkpoint expected)
  else s.reach job (.inspected checkpoint expected)

def Download.inspect (source : Source) (job : Job) (checkpoint : Int)
    (stored : Except OperationError Unit) : Download × Option Outcome :=
  if job.verifyChecksum = false ∧ job.maxParallelChunks ≤ 1 then
    s.reach job (.inspected checkpoint "")
  else
    let response := openRemote source job 0 (-1) true job.verifyChecksum
    if response.status = 412 then s.fail checkpoint sourceChanged
    else if response.status ≠ 200 then
      s.fail checkpoint { text := "remote metadata returned HTTP " ++ toString response.status }
    else
      match response.size with
      | none => s.fail checkpoint sourceChanged
      | some total =>
        if total < 0 ∨ total < checkpoint ∨ response.etag = "" ∨
            (job.verifyChecksum = true ∧ response.checksum = "") ∨
            (job.sourceETag ≠ "" ∧ response.etag ≠ job.sourceETag) then
          s.fail checkpoint sourceChanged
        else
          match s.tag job response.etag stored with
          | .error err => s.fail checkpoint err
          | .ok (s, job) => s.compare source job checkpoint response.checksum

def expectedStatus (checkpoint : Int) : Nat := if 0 < checkpoint then 206 else 200

def Download.request (source : Source) (job : Job) (checkpoint : Int) (expected : String)
    (stored : Except OperationError Unit) : Download × Option Outcome :=
  let response := openRemote source job checkpoint (-1) false false
  if response.status = 412 then s.fail checkpoint sourceChanged
  else if response.status ≠ expectedStatus checkpoint then
    s.fail checkpoint { text := "remote transfer returned HTTP " ++ toString response.status }
  else
    match response.size with
    | none => s.fail checkpoint invalidSize
    | some total =>
      if total < 0 ∨ total < checkpoint then s.fail checkpoint invalidSize
      else if response.etag = "" ∨ (job.sourceETag ≠ "" ∧ response.etag ≠ job.sourceETag) then
        s.fail checkpoint sourceChanged
      else
        match s.tag job response.etag stored with
        | .error err => s.fail checkpoint err
        | .ok (s, job) => s.reach job (.opened checkpoint expected response)

end Attempts

section Receiver

variable (source : Source) (chunkSize : Int) (s : Download) (job : Job)

def resumePoint (found : Bytes) (checkpoint : Int) : Int :=
  if (found.length : Int) < checkpoint then 0 else checkpoint

def Download.receive (checkpoint : Int) (expected : String) (response : Response) :
    Download × Option Outcome :=
  let size := response.size.getD (-1)
  if size < 0 ∨ checkpoint < 0 ∨ size < checkpoint then s.fail 0 invalidCheckpoint
  else if job.overwrite = false ∧ s.destination.isSome then s.fail 0 destinationConflict
  else
    let found := s.partialFile.getD []
    let checkpoint := resumePoint found checkpoint
    { s with partialFile := some (found.take checkpoint.toNat) }.reach job (.receiving
      { expectedChecksum := expected, expectedSize := size, completed := checkpoint
        input := response.body, etag := response.etag, finalETag := response.finalETag })

def remaining (r : Reception) : Int :=
  min (if chunkSize ≤ 0 then 16777216 else chunkSize) (r.expectedSize - r.completed)

def piece (r : Reception) (count : Nat) : Bytes :=
  r.input.take (min count (remaining chunkSize r).toNat)

def Reception.advance (r : Reception) (arrived : Bytes) : Reception :=
  { r with completed := r.completed + arrived.length, input := r.input.drop arrived.length }

def Download.write (r : Reception) (arrived : Bytes) : Download :=
  { s with partialFile := some (writeAt (s.partialFile.getD []) r.completed.toNat arrived) }

/-- One round of the loop: a chunk is copied and synced, and the checkpoint is stored. -/
def Download.chunk (r : Reception) (count : Nat) (copyErr : Option OperationError)
    (report : Except OperationError (Progress × Time)) : Download × Option Outcome :=
  let arrived := piece chunkSize r count
  let s := s.write r arrived
  let r' := r.advance arrived
  match copyErr, report with
  | some err, _ => s.fail r'.completed err
  | none, report =>
    if (arrived.length : Int) ≠ remaining chunkSize r then s.fail r'.completed unexpectedEOF
    else
      match report with
      | .error err => s.fail r'.completed err
      | .ok (report, now) =>
        match progress s.job
          { report with bytesCompleted := r'.completed, bytesTotal := r.expectedSize } now with
        | .write stored => { s with job := stored }.reach job (.receiving r')
        | .keep => s.reach job (.receiving r')
        | .refuse text => s.fail r'.completed { text := text, canceled := true }

def Download.validate (r : Reception) (valid : Except OperationError Unit) :
    Download × Option Outcome :=
  if r.input ≠ [] then s.fail r.completed exceededSize
  else if r.expectedChecksum ≠ "" ∧
      source.sha256 (s.partialFile.getD []) ≠ r.expectedChecksum then
    s.fail r.completed checksumMismatch
  else if r.finalETag = "" ∨ r.finalETag ≠ r.etag then s.fail r.completed sourceChanged
  else
    match valid with
    | .error err => s.fail r.completed err
    | .ok () => s.reach job (.received r.completed)

def Download.conflicts : Bool :=
  if job.overwrite then s.destination == some .directory else s.destination.isSome

def Download.publish (completed : Int) (renamed : Except OperationError Unit) :
    Download × Option Outcome :=
  if s.conflicts job then s.fail completed destinationConflict
  else
    match renamed with
    | .error err => s.fail completed err
    | .ok () =>
      let bytes := s.partialFile.getD []
      ({ s with partialFile := none, destination := some (.file bytes), attempt := none },
        some (.published completed bytes))

def PullStage.holds : PullStage → Bool
  | .receiving _ | .received _ => true
  | _ => false

/-- A partial file that may be found after another one: below the stored checkpoint it can
only be shorter. -/
def Download.mayFind (found : Option Bytes) : Bool :=
  ((found.getD []).take s.job.bytesCompleted.toNat).isPrefixOf
    ((s.partialFile.getD []).take s.job.bytesCompleted.toNat)

def Download.next (s : Download) : PullEvent → Option (Download × Option Outcome)
  | .disk found =>
    if (s.attempt.all fun a => !a.stage.holds) && s.mayFind found then
      some ({ s with partialFile := found }, none)
    else none
  | .others entry => some ({ s with destination := entry }, none)
  | .turn state => some ({ s with job := { s.job with state := state } }, none)
  | .begin =>
    match s.attempt with
    | none => some (s.reach s.job .started)
    | some _ => none
  | .stop => some ({ s with attempt := none }, none)
  | .enter cleaned =>
    match s.attempt with
    | some ⟨job, .started⟩ => some (s.enter job cleaned)
    | _ => none
  | .inspect stored =>
    match s.attempt with
    | some ⟨job, .admitted checkpoint⟩ => some (s.inspect source job checkpoint stored)
    | _ => none
  | .request stored =>
    match s.attempt with
    | some ⟨job, .inspected checkpoint expected⟩ =>
      -- with more than one chunk at a time the ranges are fetched by another receiver
      if job.maxParallelChunks ≤ 1 then some (s.request source job checkpoint expected stored)
      else none
    | _ => none
  | .receive =>
    match s.attempt with
    | some ⟨job, .opened checkpoint expected response⟩ =>
      some (s.receive job checkpoint expected response)
    | _ => none
  | .chunk count copyErr report =>
    match s.attempt with
    | some ⟨job, .receiving r⟩ =>
      if r.completed < r.expectedSize then some (s.chunk chunkSize job r count copyErr report)
      else none
    | _ => none
  | .validate valid =>
    match s.attempt with
    | some ⟨job, .receiving r⟩ =>
      if r.completed < r.expectedSize then none else some (s.validate source job r valid)
    | _ => none
  | .publish renamed =>
    match s.attempt with
    | some ⟨job, .received completed⟩ => some (s.publish job completed renamed)
    | _ => none

end Receiver

end Jolt.Transfers
