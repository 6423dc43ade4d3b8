import Jolt.Access.Planning

/-! Plans of a copy inside one mount, with and without the filter of a signed request. Every
entry of the source's manifest goes below the destination; what stands there already decides
the action. -/
namespace Jolt.Plans
open Jolt.Base Jolt.Access Jolt.Access.Transfer
open Jolt.Jobs (ItemAction)

inductive ConflictPolicy where
  | skip | overwrite | rename | fail | ask | checksum
  deriving DecidableEq

def normalizeConflictPolicy (strings : Strings) (policy : Text) : Except PlanError ConflictPolicy :=
  let policy := strings.toLower (trimSpace policy)
  if policy = [] then .ok .fail
  else if policy = ascii "skip" then .ok .skip
  else if policy = ascii "overwrite" then .ok .overwrite
  else if policy = ascii "rename" then .ok .rename
  else if policy = ascii "fail" then .ok .fail
  else if policy = ascii "ask" then .ok .ask
  else if policy = ascii "checksum" then .ok .checksum
  else .error (.invalid
    "conflict_policy must be skip, overwrite, rename, fail, ask, or checksum")

def ConflictPolicy.text : ConflictPolicy → Text
  | .skip => ascii "skip"
  | .overwrite => ascii "overwrite"
  | .rename => ascii "rename"
  | .fail => ascii "fail"
  | .ask => ascii "ask"
  | .checksum => ascii "checksum"

/-- `strings.TrimPrefix(path, "./")` -/
def withoutDotSlash (path : Text) : Text :=
  if [dot, slash].isPrefixOf path then path.drop 2 else path

/-- `strings.TrimSuffix(path, "/")` -/
def withoutEndSlash (path : Text) : Text :=
  if [slash].isSuffixOf path then path.dropLast else path

def joinLocal (base relative : Text) : Text :=
  if relative = [] ∨ relative = [dot] then withoutDotSlash (clean letters base)
  else if base = [] ∨ base = [dot] then withoutDotSlash (clean letters relative)
  else withoutDotSlash (joinPaths base relative)

def firstFree (free : Text → Except PlanError Bool) (destination : Text) :
    Nat → Nat → Except PlanError Text
  | 0, _ => .error (.invalid "could not find an available conflict name")
  | left + 1, index =>
    let candidate := numbered destination index
    match free candidate with
    | .error err => .error err
    | .ok true => .ok candidate
    | .ok false => firstFree free destination left (index + 1)

/-- The action for an item, its destination and its checksum, from what stands at the
destination, the free name there and the checksums of source and destination. -/
def actionFor (policy : ConflictPolicy) (item : Item) (existing : Option EntryType)
    (unique : Except PlanError Text) (sums : Except PlanError (Text × Text)) :
    Except PlanError (ItemAction × Text × Text) :=
  match existing with
  | none =>
    if item.type = .directory then .ok (.create, item.destinationPath, [])
    else .ok (.copy, item.destinationPath, item.checksum)
  | some existing =>
    if item.type = .directory then
      .ok (if existing = .directory then .merge else .conflict, item.destinationPath, [])
    else if existing ≠ .file then .ok (.conflict, item.destinationPath, item.checksum)
    else
      match policy with
      | .skip => .ok (.skip, item.destinationPath, item.checksum)
      | .overwrite => .ok (.overwrite, item.destinationPath, item.checksum)
      | .rename => unique.map fun renamed => (.rename, renamed, item.checksum)
      | .checksum => sums.map fun (source, destination) =>
          (if source = destination then .skip else .overwrite, item.destinationPath, source)
      | .fail | .ask => .ok (.conflict, item.destinationPath, item.checksum)

structure LocalFiles where
  metadata : Text → Except PlanError (Option (EntryType × Int))
  manifest : Text → Except PlanError (List Transfer.FileEntry)
  isHiddenPath : Text → Except PlanError Bool
  checksum : Text → Except PlanError Text

def LocalFiles.sums (files : LocalFiles) (source destination : Text) :
    Except PlanError (Text × Text) := do
  let source ← files.checksum source
  let destination ← files.checksum destination
  .ok (source, destination)

def LocalFiles.free (files : LocalFiles) (candidate : Text) : Except PlanError Bool :=
  match files.isHiddenPath candidate with
  | .error err => .error err
  | .ok true => .ok false
  | .ok false => (files.metadata candidate).map Option.isNone

def LocalFiles.uniqueDestination (files : LocalFiles) (destination : Text) :
    Except PlanError Text :=
  firstFree files.free destination 10000 1

def LocalFiles.planAction (files : LocalFiles) (policy : ConflictPolicy) (item : Item) :
    Except PlanError (ItemAction × Text × Text) :=
  match files.isHiddenPath item.destinationPath with
  | .error err => .error err
  | .ok true => .error .hiddenName
  | .ok false =>
    match files.metadata item.destinationPath with
    | .error err => .error err
    | .ok existing => actionFor policy item (existing.map Prod.fst)
        (files.uniqueDestination item.destinationPath)
        (files.sums item.sourcePath item.destinationPath)

/-- The file service behind the filter of a signed request. What stands at a path is looked at
once the mount, the hidden names and the filter do not refuse it. -/
structure FilteredFiles where
  metadataFiltered : Text → Except PlanError (EntryType × Int)
  manifestFiltered : Text → Except PlanError (List Transfer.FileEntry × Nat)
  refuses : Text → EntryType → Option PlanError
  stands : Text → Except PlanError (Option EntryType)
  checksumFiltered : Text → Except PlanError Text

def FilteredFiles.inspectCopyDestinationFiltered (files : FilteredFiles) (relative : Text)
    (kind : EntryType) : Except PlanError (Option EntryType) :=
  if kind = .other ∨ relative = [] ∨ relative = [dot] ∨ isRooted letters relative = true ∨
      clean letters relative ≠ relative ∨ containsAny relative [backslash, 0] = true
  then .error .invalidRequest
  else
    match files.refuses relative kind with
    | some err => .error err
    | none => files.stands relative

def FilteredFiles.sums (files : FilteredFiles) (source destination : Text) :
    Except PlanError (Text × Text) := do
  let source ← files.checksumFiltered source
  let destination ← files.checksumFiltered destination
  .ok (source, destination)

def FilteredFiles.free (files : FilteredFiles) (candidate : Text) : Except PlanError Bool :=
  (files.inspectCopyDestinationFiltered candidate .file).map Option.isNone

def FilteredFiles.uniqueDestination (files : FilteredFiles) (destination : Text) :
    Except PlanError Text :=
  firstFree files.free destination 10000 1

def FilteredFiles.planActionFiltered (files : FilteredFiles) (policy : ConflictPolicy)
    (item : Item) : Except PlanError (ItemAction × Text × Text) :=
  match files.inspectCopyDestinationFiltered item.destinationPath item.type with
  | .error err => .error err
  | .ok existing => actionFor policy item existing
      (files.uniqueDestination item.destinationPath)
      (files.sums item.sourcePath item.destinationPath)

/-- What stays fixed while the entries of a copy are planned. -/
structure LocalPlanner where
  source : Text
  destination : Text
  act : Item → Except PlanError (ItemAction × Text × Text)
  sum : Text → Except PlanError Text
  checksums : Bool

def LocalPlanner.item (p : LocalPlanner) (entry : Transfer.FileEntry) (ordinal : Nat) : Item where
  ordinal := ordinal
  relativePath := entry.path
  sourcePath := joinLocal p.source entry.path
  destinationPath := joinLocal p.destination entry.path
  type := entry.type
  size := entry.size
  modifiedAt := entry.modifiedAt
  checksum := []

def LocalPlanner.decide (p : LocalPlanner) (blocked : Bool) (item : Item) : Except PlanError Item :=
  if blocked then .ok { item with action := .conflict }
  else (p.act item).map fun (action, destination, checksum) =>
    { item with action := action, destinationPath := destination, checksum := checksum }

def LocalPlanner.summed (p : LocalPlanner) (item : Item) : Except PlanError Item :=
  if item.type = .file ∧ p.checksums = true ∧ item.checksum = [] then
    (p.sum item.sourcePath).map fun checksum => { item with checksum := checksum }
  else .ok item

def LocalPlanner.entry (p : LocalPlanner) (s : Planning) (entry : Transfer.FileEntry) :
    Except PlanError Planning := do
  let item ← p.decide (hasBlockedParent entry.path s.blocked) (p.item entry s.plan.items.length)
  let item ← p.summed item
  .ok (s.add entry item)

def LocalPlanner.plan (p : LocalPlanner) (policy : ConflictPolicy) (entries : List Transfer.FileEntry) :
    Except PlanError CopyPlan :=
  (entries.foldlM p.entry { plan := { sourcePath := p.source, destinationPath := p.destination,
                                      conflictPolicy := policy.text } }).map Planning.plan

def rooted (kind : EntryType) (modifiedAt : Int) (manifest : List Transfer.FileEntry) :
    List Transfer.FileEntry :=
  if kind = .directory then ⟨[dot], .directory, 0, modifiedAt, []⟩ :: manifest else manifest

def planCopy (strings : Strings) (files : LocalFiles) (source destination conflictPolicy : Text)
    (verifyChecksum : Bool) : Except PlanError CopyPlan := do
  let policy ← normalizeConflictPolicy strings conflictPolicy
  match ← files.metadata source with
  | none => .error .notFound
  | some (kind, modifiedAt) =>
    let manifest ← files.manifest source
    LocalPlanner.plan
      ⟨source, destination, files.planAction policy, files.checksum,
        policy == .checksum || verifyChecksum⟩
      policy (rooted kind modifiedAt manifest)

def planCopyFiltered (strings : Strings) (files : FilteredFiles)
    (source destination conflictPolicy : Text) (verifyChecksum : Bool) :
    Except PlanError (CopyPlan × Nat) := do
  if source = [] ∨ destination = [] ∨ isRooted letters source = true ∨
      isRooted letters destination = true ∨ clean letters source ≠ source ∨
      clean letters destination ≠ destination ∨
      containsAny (source ++ destination) [backslash, 0] = true then .error (.invalid "")
  let policy ← normalizeConflictPolicy strings conflictPolicy
  let (kind, modifiedAt) ← files.metadataFiltered source
  if source = destination ∨ kind = .directory ∧ (source = [dot] ∨
      (withoutEndSlash source ++ [slash]).isPrefixOf destination = true) then .error (.invalid "")
  let (manifest, omitted) ← files.manifestFiltered source
  let plan ← LocalPlanner.plan
    ⟨source, destination, files.planActionFiltered policy, files.checksumFiltered,
      verifyChecksum || policy == .checksum⟩
    policy (rooted kind modifiedAt manifest)
  .ok (plan, omitted)

end Jolt.Plans
