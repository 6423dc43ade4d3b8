import Jolt.Access.EntryFilter
import Jolt.Access.Selections
import Jolt.Jobs.Entities

/-! Plans of a pull from another node. The destination node takes the manifest its peer
answers with, puts every entry below the requested destination, keeps to its own grant and
decides what to do about what is there already. -/
namespace Jolt.Access.Transfer
open Jolt.Base
open Jolt.Jobs (ItemAction CleanupState)

section Texts

def joinRelative (base relative : Text) : Text :=
  if relative = [] ∨ relative = [dot] then cleanRelative base
  else if base = [] ∨ base = [dot] then cleanRelative relative
  else cleanRelative (joinPaths base relative)

/-- The directories above a path, from the nearest on; every one is shorter than the last. -/
def parentsWithin : Nat → Text → List Text
  | 0, _ => []
  | fuel + 1, current =>
    if current = [dot] ∨ current = [slash] then []
    else current :: parentsWithin fuel (dirPath current)

def hasBlockedParent (relative : Text) (blocked : List Text) : Bool :=
  (parentsWithin (relative.length + 1) (dirPath relative)).any blocked.contains ||
    blocked.contains [dot]

/-- `path.Ext` -/
def extension (path : Text) : Text :=
  let last := path.reverse.takeWhile (· ≠ slash)
  if dot ∈ last then dot :: (last.takeWhile (· ≠ dot)).reverse else []

def numbered (path : Text) (index : Nat) : Text :=
  let suffix := extension path
  path.take (path.length - suffix.length) ++ ascii (" (" ++ toString index ++ ")") ++ suffix

end Texts

section Grants

inductive PlanError where
  | invalid (text : String)
  | traversal
  | forbidden
  | notFound
  | hiddenName
  | filteredHidden
  | invalidRequest
  | failed (text : String)
  deriving DecidableEq

variable (strings : Strings)

def hidden (patterns : List Text) (name : Text) : Bool :=
  patterns.any fun pattern =>
    strings.pathMatch (strings.toLower pattern) (strings.toLower name) != some false

def validPatterns (patterns : List Text) : Bool :=
  patterns.length ≤ 64 && patterns.all fun pattern =>
    pattern != [] && !(pattern.any fun b => ([slash, backslash, 0] : Text).contains b) &&
      (strings.pathMatch (strings.toLower pattern) (ascii "test")).isSome

def validateGrantDestination (grant : TransferGrant) (destination : Text) : Option PlanError :=
  if isRooted letters destination || destination.contains backslash then some .traversal
  else
    let resolved := cleanRelative destination
    let base := cleanRelative grant.path
    if leadsUp resolved || base != [dot] && resolved != base &&
        !(base ++ [slash]).isPrefixOf resolved then some .traversal
    else if (resolved.splitOn slash).any fun component =>
        component != [dot] && hidden strings grant.exclude component then some .forbidden
    else none

def withinGrantWithExclusions (grant : TransferGrant) (relative : Text) : Except PlanError Text :=
  match withinGrant grant.path relative with
  | .error _ => .error .traversal
  | .ok resolved =>
    match validateGrantDestination strings grant resolved with
    | some err => .error err
    | none => .ok resolved

def normalizePolicy (value : Text) : Text :=
  let value := strings.toLower (trimSpace value)
  if value = [] then ascii "fail" else value

def receivable (grant : TransferGrant) (peerNodeID policy : Text) : Bool :=
  grant.enabled && grant.peerNodeID == peerNodeID &&
    (grant.direction == ascii "receive" || grant.direction == ascii "send_receive") &&
    grant.write && validPatterns strings grant.exclude &&
    grant.conflictPolicies.contains (normalizePolicy strings policy)

def receiveDestination (stored : Option TransferGrant) (peerNodeID relative policy : Text) :
    Except PlanError (TransferGrant × Text) :=
  match stored with
  | none => .error .forbidden
  | some grant =>
    if receivable strings grant peerNodeID policy = false then .error .forbidden
    else
      match withinGrantWithExclusions strings grant relative with
      | .error err => .error err
      | .ok destination => .ok (grant, destination)

end Grants

section Items

structure FileEntry where
  path : Text
  type : EntryType
  size : Int
  modifiedAt : Int
  checksum : Text
  deriving DecidableEq

structure Item where
  ordinal : Nat := 0
  relativePath : Text := []
  sourcePath : Text
  destinationPath : Text
  type : EntryType
  size : Int
  modifiedAt : Int
  checksum : Text
  sourceRoot : Bool := false
  sourceCleanupState : CleanupState := .none
  action : ItemAction := .other ""
  deriving DecidableEq

structure CopyPlan where
  sourcePath : Text := []
  destinationPath : Text
  conflictPolicy : Text
  items : List Item := []
  filesTotal : Nat := 0
  bytesTotal : Int := 0
  copyCount : Nat := 0
  renameCount : Nat := 0
  skipCount : Nat := 0
  conflictCount : Nat := 0
  deriving DecidableEq

def CopyPlan.add (plan : CopyPlan) (item : Item) : CopyPlan :=
  let plan := { plan with items := plan.items ++ [item] }
  if item.type = .file then
    let plan := { plan with filesTotal := plan.filesTotal + 1 }
    match item.action with
    | .copy | .overwrite =>
      { plan with copyCount := plan.copyCount + 1, bytesTotal := plan.bytesTotal + item.size }
    | .rename =>
      { plan with renameCount := plan.renameCount + 1, bytesTotal := plan.bytesTotal + item.size }
    | .skip => { plan with skipCount := plan.skipCount + 1 }
    | .conflict => { plan with conflictCount := plan.conflictCount + 1 }
    | _ => plan
  else plan

/-- The filters of a signed pull, and the root of the source's grant in its mount. -/
structure TransferAccess where
  destination : AccessFilter
  source : AccessFilter
  sourceRoot : Text

def TransferAccess.sourceMountPath (access : TransferAccess) (grantRelative : Text) : Text :=
  let cleaned := clean letters grantRelative
  let relative := if [dot, slash].isPrefixOf cleaned then cleaned.drop 2 else cleaned
  if access.sourceRoot = [] ∨ access.sourceRoot = [dot] then relative
  else if relative = [dot] ∨ relative = [] then access.sourceRoot
  else access.sourceRoot ++ slash :: relative

/-- What the node's file service answers about the destination mount. -/
structure Files where
  isHiddenPath : Text → Except PlanError Bool
  metadata : Text → Except PlanError (Option EntryType)
  checksum : Text → Except PlanError Text
  inspect : AccessFilter → Text → EntryType → Option PlanError

def Files.inspectCopyDestinationFiltered (files : Files) (relative : Text) (kind : EntryType)
    (filter : AccessFilter) : Option PlanError :=
  if kind = .other ∨ relative = [] ∨ relative = [dot] ∨ isRooted letters relative = true ∨
      clean letters relative ≠ relative ∨ containsAny relative [backslash, 0] = true
  then some .invalidRequest
  else files.inspect filter relative kind

def Files.checkDestinationAccess (files : Files) (item : Item) (access : TransferAccess) :
    Option PlanError :=
  match item.action with
  | .copy | .overwrite | .rename | .create =>
    files.inspectCopyDestinationFiltered item.destinationPath item.type access.destination
  | _ => none

end Items

section Planner

structure Planner where
  lib : Library
  strings : Strings
  files : Files
  grant : TransferGrant
  policy : Text
  sourcePath : Text
  destinationPath : Text

variable (p : Planner)

def Planner.uniqueFrom (destination : Text) : Nat → Nat → Except PlanError Text
  | 0, _ => .error (.invalid "no conflict-free destination name is available")
  | left + 1, index =>
    let candidate := numbered destination index
    match validateGrantDestination p.strings p.grant candidate with
    | some .forbidden => uniqueFrom destination left (index + 1)
    | some err => .error err
    | none =>
      match p.files.isHiddenPath candidate with
      | .error err => .error err
      | .ok true => uniqueFrom destination left (index + 1)
      | .ok false =>
        match p.files.metadata candidate with
        | .error err => .error err
        | .ok none => .ok candidate
        | .ok (some _) => uniqueFrom destination left (index + 1)

def Planner.uniqueDestination (destination : Text) : Except PlanError Text :=
  p.uniqueFrom destination 10000 1

def Planner.fileAction (item : Item) : Except PlanError (ItemAction × Text) :=
  if p.policy = ascii "skip" then .ok (.skip, item.destinationPath)
  else if p.policy = ascii "overwrite" then .ok (.overwrite, item.destinationPath)
  else if p.policy = ascii "rename" then
    match p.uniqueDestination item.destinationPath with
    | .error err => .error err
    | .ok destination => .ok (.rename, destination)
  else if p.policy = ascii "checksum" then
    if item.checksum = [] then .error (.invalid "checksum policy requires remote checksums")
    else
      match p.files.checksum item.destinationPath with
      | .error err => .error err
      | .ok localChecksum =>
        .ok (if localChecksum = item.checksum then .skip else .overwrite, item.destinationPath)
  else .ok (.conflict, item.destinationPath)

def Planner.planRemoteAction (item : Item) : Except PlanError (ItemAction × Text) :=
  match p.files.isHiddenPath item.destinationPath with
  | .error err => .error err
  | .ok true => .error .hiddenName
  | .ok false =>
    match p.files.metadata item.destinationPath with
    | .error err => .error err
    | .ok none =>
      .ok (if item.type = .directory then .create else .copy, item.destinationPath)
    | .ok (some existing) =>
      if item.type = .directory then
        .ok (if existing = .directory then .merge else .conflict, item.destinationPath)
      else if existing ≠ .file then .ok (.conflict, item.destinationPath)
      else p.fileAction item

def Planner.item (entry : FileEntry) : Item where
  sourcePath := joinRelative p.sourcePath entry.path
  destinationPath := joinRelative p.destinationPath entry.path
  type := entry.type
  size := entry.size
  modifiedAt := entry.modifiedAt
  checksum := entry.checksum

/-- The plan so far, the directories in conflict and those the filter leaves out. -/
structure Planning where
  plan : CopyPlan
  blocked : List Text := []
  omittedDirectories : List Text := []
  omitted : Nat := 0

def Planning.add (s : Planning) (entry : FileEntry) (item : Item) : Planning :=
  { s with
    plan := s.plan.add item
    blocked := if item.type = .directory ∧ item.action = .conflict then entry.path :: s.blocked
      else s.blocked }

/-- The action for an item inside the grant; below a directory in conflict there is none. -/
def Planner.act (access : Option TransferAccess) (blocked : Bool) (item : Item) :
    Except PlanError Item :=
  if blocked then .ok { item with action := .conflict }
  else
    match p.planRemoteAction item with
    | .error err => .error err
    | .ok (action, destination) =>
      let item := { item with action := action, destinationPath := destination }
      match access.bind (p.files.checkDestinationAccess item) with
      | some err => .error err
      | none => .ok item

def Planner.directoryEntry (s : Planning) (entry : FileEntry) : Except PlanError Planning :=
  if leadsUp entry.path then .error (.invalid "remote manifest contains an invalid path")
  else if entry.type = .other then
    .error (.invalid "remote manifest contains an invalid item type")
  else if entry.size < 0 then .error (.invalid "remote manifest contains an invalid item size")
  else
    let item := { p.item entry with ordinal := s.plan.items.length, relativePath := entry.path }
    match validateGrantDestination p.strings p.grant item.destinationPath with
    | some .forbidden => .ok s
    | some err => .error err
    | none =>
      match p.act none (hasBlockedParent entry.path s.blocked) item with
      | .error err => .error err
      | .ok item => .ok (s.add entry item)

/-- What the filter of a signed pull makes of an entry: nothing, where it may be pulled. -/
def Planner.leaveOut (access : TransferAccess) (s : Planning) (entry : FileEntry) :
    Option (Except PlanError Planning) :=
  -- what is below a directory left out is not judged, and not counted again
  if hasBlockedParent entry.path s.omittedDirectories then some (.ok s)
  else if access.source.allowsListedEntry p.lib
      (access.sourceMountPath (joinRelative p.sourcePath entry.path)) entry.type then none
  else if entry.path = [dot] then some (.error .filteredHidden)
  else some (.ok { s with
    omitted := s.omitted + 1
    omittedDirectories := if entry.type = .directory then entry.path :: s.omittedDirectories
      else s.omittedDirectories })

def Planner.batchEntry (operation : Operation) (access : Option TransferAccess) (s : Planning)
    (entry : FileEntry) : Except PlanError Planning :=
  if leadsUp entry.path ∨ entry.type = .other ∨ entry.size < 0 then
    .error (.invalid "remote manifest contains an invalid item")
  else
    match access.bind fun access => p.leaveOut access s entry with
    | some done => done
    | none =>
      let item := p.item entry
      match validateGrantDestination p.strings p.grant item.destinationPath with
      | some .forbidden => if operation = .copy then .ok s else .error .forbidden
      | some err => .error err
      | none =>
        match p.act access (hasBlockedParent entry.path s.blocked) item with
        | .error err => .error err
        | .ok item => .ok (s.add entry item)

def Planner.start : Planning where
  plan := { sourcePath := p.sourcePath, destinationPath := p.destinationPath,
            conflictPolicy := p.policy }

def Planner.planDirectory (entries : List FileEntry) : Except PlanError CopyPlan :=
  match entries.foldlM p.directoryEntry p.start with
  | .error err => .error err
  | .ok s => .ok { s.plan with sourcePath := cleanRelative p.sourcePath }

def Planner.planBatchRoot (operation : Operation) (access : Option TransferAccess)
    (entries : List FileEntry) : Except PlanError (CopyPlan × Nat) :=
  match entries.foldlM (p.batchEntry operation access) p.start with
  | .error err => .error err
  | .ok s => .ok (s.plan, s.omitted)

end Planner

section Planned

variable {p : Planner}
variable {access : Option TransferAccess} {entries : List FileEntry} {entry : FileEntry}
  {item : Item}

theorem Planner.uniqueFrom_ok {destination found : Text} {left index : Nat}
    (free : p.uniqueFrom destination left index = .ok found) :
    (∃ i, found = numbered destination i) ∧
      validateGrantDestination p.strings p.grant found = none := by
  induction left generalizing index with
  | zero => cases free
  | succ left ih =>
    simp only [uniqueFrom] at free
    split at free
    · exact ih free
    · cases free
    rename_i valid
    split at free
    · cases free
    · exact ih free
    split at free
    · cases free
    · cases free
      exact ⟨⟨index, rfl⟩, valid⟩
    · exact ih free

def fetches : ItemAction → Bool
  | .copy | .overwrite | .rename => true
  | _ => false

theorem Planner.planRemoteAction_ok {action : ItemAction} {path : Text} (typed : item.type ≠ .other)
    (decided : p.planRemoteAction item = .ok (action, path)) :
    (fetches action = true → item.type = .file) ∧
      (action ≠ .rename ∧ path = item.destinationPath ∨
        action = .rename ∧ p.uniqueDestination item.destinationPath = .ok path) := by
  have file (other : item.type ≠ .directory) : item.type = .file := by
    cases kind : item.type with
    | file => rfl
    | directory => exact absurd kind other
    | other => exact absurd kind typed
  simp only [planRemoteAction] at decided
  split at decided
  · cases decided
  · cases decided
  split at decided
  · cases decided
  · cases decided
    split_ifs with directory
    · exact ⟨nofun, .inl ⟨nofun, rfl⟩⟩
    · exact ⟨fun _ => file directory, .inl ⟨nofun, rfl⟩⟩
  · split_ifs at decided with directory there
    any_goals
      cases decided
      exact ⟨nofun, .inl ⟨nofun, rfl⟩⟩
    refine ⟨fun _ => file directory, ?_⟩
    simp only [fileAction] at decided
    split_ifs at decided
    any_goals
      cases decided
      exact .inl ⟨nofun, rfl⟩
    · split at decided
      · cases decided
      rename_i found
      cases decided
      exact .inr ⟨rfl, found⟩
    · split at decided
      · cases decided
      · cases decided
        exact .inl ⟨by split_ifs <;> nofun, rfl⟩

theorem Planner.fileAction_known {text : String} {path : Text} :
    p.fileAction item ≠ .ok (.other text, path) := by
  simp only [fileAction]
  grind

theorem Planner.planRemoteAction_known {action : ItemAction} {path : Text}
    (decided : p.planRemoteAction item = .ok (action, path)) : ∀ text, action ≠ .other text := by
  rintro text rfl
  simp only [planRemoteAction] at decided
  grind [fileAction_known]

/-- An item with a type and an action that planning gives. -/
structure Known (item : Item) : Prop where
  typed : item.type ≠ .other
  acted : ∀ text, item.action ≠ .other text

/-- What the plan of a manifest says of one of its entries. -/
structure Planned (p : Planner) (access : Option TransferAccess) (entry : FileEntry) (item : Item) :
    Prop where
  source : item.sourcePath = joinRelative p.sourcePath entry.path
  type : item.type = entry.type
  checksum : item.checksum = entry.checksum
  inside : validateGrantDestination p.strings p.grant (joinRelative p.destinationPath entry.path) =
    none
  destination : item.action ≠ .rename ∧
      item.destinationPath = joinRelative p.destinationPath entry.path ∨
    item.action = .rename ∧
      (∃ i, item.destinationPath = numbered (joinRelative p.destinationPath entry.path) i) ∧
      validateGrantDestination p.strings p.grant item.destinationPath = none
  known : Known item
  fetched : fetches item.action = true → item.type = .file
  listed : ∀ filters ∈ access, filters.source.allowsListedEntry p.lib
    (filters.sourceMountPath item.sourcePath) item.type = true

theorem Planner.act_planned {blocked : Bool} {out : Item}
    (acted : p.act access blocked item = .ok out) (typed : entry.type ≠ .other)
    (source : item.sourcePath = joinRelative p.sourcePath entry.path)
    (type : item.type = entry.type) (checksum : item.checksum = entry.checksum)
    (destination : item.destinationPath = joinRelative p.destinationPath entry.path)
    (inside : validateGrantDestination p.strings p.grant item.destinationPath = none) (listed : ∀
      filters ∈ access, filters.source.allowsListedEntry p.lib (filters.sourceMountPath
      item.sourcePath) item.type = true) : Planned p access entry out := by
  rw [destination] at inside
  simp only [act] at acted
  split_ifs at acted
  · cases acted
    exact ⟨source, type, checksum, inside, .inl ⟨nofun, destination⟩, ⟨type ▸ typed, nofun⟩, nofun,
      listed⟩
  · split at acted
    · cases acted
    rename_i action path decided
    split at acted
    · cases acted
    cases acted
    have known : Known { item with action := action, destinationPath := path } :=
      ⟨type ▸ typed, planRemoteAction_known decided⟩
    obtain ⟨fetched, kept | ⟨renamed, found⟩⟩ := planRemoteAction_ok (type ▸ typed) decided
    · exact ⟨source, type, checksum, inside, .inl ⟨kept.1, kept.2.trans destination⟩, known,
        fetched, listed⟩
    rw [destination] at found
    exact ⟨source, type, checksum, inside, .inr ⟨renamed, uniqueFrom_ok found⟩, known,
      fetched, listed⟩

@[simp] theorem CopyPlan.add_items (plan : CopyPlan) (item : Item) :
    (plan.add item).items = plan.items ++ [item] := by
  simp only [add]
  split_ifs
  · split <;> rfl
  · rfl

@[simp] theorem CopyPlan.add_destinationPath (plan : CopyPlan) (item : Item) :
    (plan.add item).destinationPath = plan.destinationPath := by
  simp only [add]
  split_ifs
  · split <;> rfl
  · rfl

/-- Every item of the plan so far comes from one of the entries. -/
structure Sourced (p : Planner) (access : Option TransferAccess) (entries : List FileEntry)
    (s : Planning) : Prop where
  destination : s.plan.destinationPath = p.destinationPath
  planned : ∀ item ∈ s.plan.items, ∃ entry ∈ entries, Planned p access entry item

theorem Sourced.start (p : Planner) (access : Option TransferAccess) (entries : List FileEntry) :
    Sourced p access entries p.start :=
  ⟨rfl, fun _ inside => (List.not_mem_nil inside).elim⟩

theorem Sourced.add {s : Planning} (known : entry ∈ entries) (planned : Planned p access entry item)
    (before : Sourced p access entries s) : Sourced p access entries (s.add entry item) := by
  refine ⟨(CopyPlan.add_destinationPath _ _).trans before.destination, fun other there => ?_⟩
  rw [Planning.add, CopyPlan.add_items] at there
  rcases List.mem_append.mp there with old | new
  · exact before.planned other old
  · obtain rfl := List.mem_singleton.mp new
    exact ⟨entry, known, planned⟩

theorem Planner.directoryEntry_sourced {s t : Planning} (known : entry ∈ entries)
    (done : p.directoryEntry s entry = .ok t) (before : Sourced p none entries s) :
    Sourced p none entries t := by
  simp only [directoryEntry] at done
  split_ifs at done with _ typed
  split at done
  · cases done
    exact before
  · cases done
  rename_i inside
  split at done
  · cases done
  rename_i out acted
  cases done
  exact before.add known (act_planned acted typed rfl rfl rfl rfl inside nofun)

theorem Planner.batchEntry_sourced {operation : Operation} {s t : Planning}
    (known : entry ∈ entries) (done : p.batchEntry operation access s entry = .ok t)
    (before : Sourced p access entries s) :
    Sourced p access entries t := by
  simp only [batchEntry] at done
  by_cases invalid : leadsUp entry.path = true ∨ entry.type = .other ∨ entry.size < 0
  · rw [if_pos invalid] at done
    cases done
  rw [if_neg invalid] at done
  simp only [not_or] at invalid
  split at done
  · -- an entry left out changes only the counts
    rename_i left out
    obtain ⟨filters, _, judged⟩ := Option.bind_eq_some_iff.mp out
    simp only [leaveOut] at judged
    split_ifs at judged <;> cases judged <;> cases done <;> exact ⟨before.destination, before.planned⟩
  · rename_i kept
    have listed : ∀ filters ∈ access, filters.source.allowsListedEntry p.lib
        (filters.sourceMountPath (joinRelative p.sourcePath entry.path)) entry.type = true := by
      intro filters signed
      rw [Option.bind_eq_none_iff] at kept
      have judged := kept filters signed
      simp only [leaveOut] at judged
      split_ifs at judged with _ allowed
      exact allowed
    split at done
    · split_ifs at done
      cases done
      exact before
    · cases done
    · rename_i inside
      split at done
      · cases done
      rename_i out acted
      cases done
      exact before.add known (act_planned acted invalid.2.1 rfl rfl rfl rfl inside listed)

theorem Planner.planDirectory_ok {plan : CopyPlan} (done : p.planDirectory entries = .ok plan) :
    plan.destinationPath = p.destinationPath ∧
      ∀ item ∈ plan.items, ∃ entry ∈ entries, Planned p none entry item := by
  simp only [planDirectory] at done
  split at done
  · cases done
  rename_i s run
  cases done
  have sourced := foldlM_ok (P := Sourced p none entries)
    (fun _ _ _ known => directoryEntry_sourced known) (.start p none entries) run
  exact ⟨sourced.destination, sourced.planned⟩

theorem Planner.planBatchRoot_ok {operation : Operation} {plan : CopyPlan} {omitted : Nat}
    (done : p.planBatchRoot operation access entries = .ok (plan, omitted)) :
    ∀ item ∈ plan.items, ∃ entry ∈ entries, Planned p access entry item := by
  simp only [planBatchRoot] at done
  split at done
  · cases done
  rename_i s run
  cases done
  exact (foldlM_ok (P := Sourced p access entries)
    (fun _ _ _ known => batchEntry_sourced known) (.start p access entries) run).planned

end Planned

section Requests

variable {access : Option TransferAccess}

structure PullRequest where
  peerNodeID : Text
  sourceGrantID : Text
  sourcePath : Text
  destinationGrantID : Text
  destinationPath : Text
  conflictPolicy : Text
  verifyChecksum : Bool

structure BatchPullRequest where
  peerNodeID : Text
  sourceGrantID : Text
  sourcePaths : List Text
  sourceNames : List Text
  destinationGrantID : Text
  destinationPath : Text
  operation : Text
  conflictPolicy : Text
  verifyChecksum : Bool

/-- The node that pulls: what it has stored and what its peers answer. -/
structure Puller where
  lib : Library
  strings : Strings
  trustedPeer : Text → Except PlanError Text
  transferGrant : Text → Except PlanError (Option TransferGrant)
  files : Text → Files
  fetchRemoteManifest : Text → Text → Text → Bool → Except PlanError (List FileEntry)
  validateRemoteMoveSource : Text → Text → Text → Option PlanError

variable (n : Puller)

def Puller.planner (grant : TransferGrant) (policy sourcePath destinationPath : Text) : Planner :=
  ⟨n.lib, n.strings, n.files grant.mountID, grant, policy, sourcePath, destinationPath⟩

def Puller.planDirectoryPull (request : PullRequest) : Except PlanError CopyPlan := do
  let peer ← n.trustedPeer request.peerNodeID
  let stored ← n.transferGrant (trimSpace request.destinationGrantID)
  let (grant, destination) ← receiveDestination n.strings stored peer request.destinationPath
    request.conflictPolicy
  let policy := normalizePolicy n.strings request.conflictPolicy
  let entries ← n.fetchRemoteManifest peer request.sourceGrantID request.sourcePath
    (request.verifyChecksum || policy == ascii "checksum")
  (n.planner grant policy request.sourcePath destination).planDirectory entries

def sourceName (sourcePath : Text) (supplied : Option Text) :
    Except PlanError (Option (Text × Text)) :=
  let cleaned := cleanRelative sourcePath
  match supplied.map cleanRelative with
  | none =>
    if cleaned = [dot] then .error (.invalid "a selected grant root requires a source name")
    else .ok none
  | some name =>
    if name = [dot] ∨ name = letters.parent ∨ slash ∈ name then
      .error (.invalid "source name is invalid")
    else .ok (some (cleaned, name))

def batchSourceNames (paths supplied : List Text) : Except PlanError (List (Text × Text)) := do
  if supplied ≠ [] ∧ supplied.length ≠ paths.length then
    .error (.invalid "source names must match source paths")
  let names := if supplied = [] then paths.map fun _ => none else supplied.map some
  let pairs ← (paths.zip names).mapM fun (path, name) => sourceName path name
  .ok (pairs.filterMap id)

def batchItem (operation : Operation) (sourcePath : Text) (ordinal : Nat) (item : Item) : Item :=
  { item with
    ordinal := ordinal
    relativePath := item.sourcePath
    sourceRoot := item.sourcePath == sourcePath
    sourceCleanupState := if operation = .move then .pending else item.sourceCleanupState }

def CopyPlan.append (plan root : CopyPlan) (operation : Operation) (sourcePath : Text) : CopyPlan :=
  { plan with
    items := plan.items ++ root.items.mapIdx fun index item =>
      batchItem operation sourcePath (plan.items.length + index) item
    bytesTotal := plan.bytesTotal + root.bytesTotal
    filesTotal := plan.filesTotal + root.filesTotal
    copyCount := plan.copyCount + root.copyCount
    skipCount := plan.skipCount + root.skipCount
    renameCount := plan.renameCount + root.renameCount
    conflictCount := plan.conflictCount + root.conflictCount }

/-- What a batch is planned with, once the request has been read. -/
structure Batch where
  operation : Operation
  peer : Text
  sourceGrantID : Text
  names : List (Text × Text)
  grant : TransferGrant
  destination : Text
  policy : Text
  checksum : Bool

/-- The plan so far, the entries left out and the names in use at the destination. -/
structure Batched where
  plan : CopyPlan
  omitted : Nat := 0
  seen : List Text := []

def Batch.rootName (b : Batch) (sourcePath : Text) : Text :=
  (b.names.lookup sourcePath).getD (pathBase sourcePath)

def Puller.planRoot (b : Batch) (access : Option TransferAccess) (s : Batched) (sourcePath : Text) :
    Except PlanError Batched := do
  if b.operation = .move then
    match n.validateRemoteMoveSource b.peer b.sourceGrantID sourcePath with
    | some err => .error err
    | none => .ok ()
  let name := b.rootName sourcePath
  if s.seen.contains name then
    .error (.invalid "selected roots map to the same destination name")
  let entries ← n.fetchRemoteManifest b.peer b.sourceGrantID sourcePath b.checksum
  let (root, omitted) ← (n.planner b.grant b.policy sourcePath
    (joinRelative b.destination name)).planBatchRoot b.operation access entries
  .ok { plan := s.plan.append root b.operation sourcePath
        omitted := s.omitted + omitted
        seen := name :: s.seen }

def Puller.planBatch (request : BatchPullRequest) (access : Option TransferAccess) :
    Except PlanError (CopyPlan × Nat) := do
  let operation ← match operationOf (n.strings.toLower (trimSpace request.operation)) with
    | none => .error (.invalid "operation must be copy or move")
    | some operation => .ok operation
  let paths ← (normalizeBatchPaths request.sourcePaths).mapError .invalid
  let names ← batchSourceNames request.sourcePaths request.sourceNames
  let peer ← n.trustedPeer request.peerNodeID
  let stored ← n.transferGrant (trimSpace request.destinationGrantID)
  let (grant, destination) ← receiveDestination n.strings stored peer request.destinationPath
    request.conflictPolicy
  let policy := normalizePolicy n.strings request.conflictPolicy
  let checksum := request.verifyChecksum || policy == ascii "checksum" || operation == .move
  let s ← paths.foldlM
    (n.planRoot ⟨operation, peer, request.sourceGrantID, names, grant, destination, policy, checksum⟩
      access)
    { plan := { destinationPath := destination, conflictPolicy := policy } }
  .ok (s.plan, s.omitted)

variable {n : Puller}

theorem withinGrantWithExclusions_ok {strings : Strings} {grant : TransferGrant}
    {relative path : Text} (returned : withinGrantWithExclusions strings grant relative = .ok path) :
    withinGrant grant.path relative = .ok path ∧
      validateGrantDestination strings grant path = none := by
  unfold withinGrantWithExclusions at returned
  split at returned
  · cases returned
  rename_i inside
  split at returned
  · cases returned
  rename_i valid
  cases returned
  exact ⟨inside, valid⟩

theorem receiveDestination_ok {strings : Strings} {stored : Option TransferGrant}
    {peer relative policy destination : Text} {grant : TransferGrant}
    (found : receiveDestination strings stored peer relative policy = .ok (grant, destination)) :
    stored = some grant ∧ withinGrant grant.path relative = .ok destination ∧
      validateGrantDestination strings grant destination = none := by
  cases stored with
  | none => cases found
  | some given =>
    simp only [receiveDestination] at found
    split_ifs at found
    split at found
    · cases found
    rename_i resolved
    cases found
    exact ⟨rfl, withinGrantWithExclusions_ok resolved⟩

def Gathered (n : Puller) (access : Option TransferAccess) (paths : List Text) (item : Item) :
    Prop :=
  ∃ (p : Planner) (operation : Operation) (ordinal : Nat) (entry : FileEntry) (planned : Item),
    p.lib = n.lib ∧ p.sourcePath ∈ paths ∧ Planned p access entry planned ∧
      item = batchItem operation p.sourcePath ordinal planned

theorem Puller.planRoot_ok {b : Batch} {s t : Batched} {path : Text}
    (done : n.planRoot b access s path = .ok t) :
    ∃ entries root omitted,
      n.fetchRemoteManifest b.peer b.sourceGrantID path b.checksum = .ok entries ∧
      (n.planner b.grant b.policy path (joinRelative b.destination (b.rootName path))).planBatchRoot
        b.operation access entries = .ok (root, omitted) ∧
      t = ⟨s.plan.append root b.operation path, s.omitted + omitted, b.rootName path :: s.seen⟩ := by
  have tail : (do
      let entries ← n.fetchRemoteManifest b.peer b.sourceGrantID path b.checksum
      let (root, omitted) ← (n.planner b.grant b.policy path
        (joinRelative b.destination (b.rootName path))).planBatchRoot b.operation access entries
      .ok (⟨s.plan.append root b.operation path, s.omitted + omitted,
        b.rootName path :: s.seen⟩ : Batched)) = .ok t := by
    simp only [planRoot] at done
    split_ifs at done
    · split at done <;> cases done
    · split at done
      · cases done
      · exact done
    · cases done
    · exact done
  simp only [bind_ok_iff] at tail
  obtain ⟨entries, listed, ⟨root, omitted⟩, planned, done⟩ := tail
  cases done
  exact ⟨entries, root, omitted, listed, planned, rfl⟩

theorem Puller.planRoot_gathered {b : Batch} {s t : Batched} {paths : List Text} {path : Text}
    (selected : path ∈ paths) (done : n.planRoot b access s path = .ok t)
    (before : ∀ item ∈ s.plan.items, Gathered n access paths item) :
    t.plan.conflictPolicy = s.plan.conflictPolicy ∧
      ∀ item ∈ t.plan.items, Gathered n access paths item := by
  obtain ⟨entries, root, omitted, _, planned, rfl⟩ := planRoot_ok done
  refine ⟨rfl, fun item inside => ?_⟩
  rcases List.mem_append.mp inside with old | new
  · exact before item old
  obtain ⟨index, bound, rfl⟩ := List.mem_mapIdx.mp new
  obtain ⟨entry, _, made⟩ := Planner.planBatchRoot_ok planned _ (List.getElem_mem bound)
  exact ⟨_, b.operation, _, entry, _, rfl, selected, made, rfl⟩

theorem Puller.planBatch_ok {request : BatchPullRequest} {plan : CopyPlan} {omitted : Nat}
    (done : n.planBatch request access = .ok (plan, omitted)) :
    ∃ paths id grant peer destination, normalizeBatchPaths request.sourcePaths = .ok paths ∧
      n.transferGrant id = .ok (some grant) ∧
      receiveDestination n.strings (some grant) peer request.destinationPath
        request.conflictPolicy = .ok (grant, destination) ∧
      plan.conflictPolicy = normalizePolicy n.strings request.conflictPolicy ∧
      ∀ item ∈ plan.items, Gathered n access paths item := by
  simp only [planBatch] at done
  split at done
  · cases done
  simp only [bind_ok_iff] at done
  obtain ⟨operation, _, paths, selected, names, _, peer, _, stored, asked, ⟨grant, destination⟩,
    found, s, run, same⟩ := done
  cases same
  obtain ⟨rfl, _⟩ := receiveDestination_ok found
  have normal : normalizeBatchPaths request.sourcePaths = .ok paths := by
    cases result : normalizeBatchPaths request.sourcePaths with
    | error err => simp [result, Except.mapError] at selected
    | ok found => simpa [result, Except.mapError] using selected
  refine ⟨paths, _, grant, peer, destination, normal, asked, found, ?_⟩
  refine foldlM_ok (P := fun s =>
    s.plan.conflictPolicy = normalizePolicy n.strings request.conflictPolicy ∧
    ∀ item ∈ s.plan.items, Gathered n access paths item) ?_ ⟨rfl, by simp⟩ run
  intro s t path known done before
  obtain ⟨policy, gathered⟩ := planRoot_gathered known done before.2
  exact ⟨policy.trans before.1, gathered⟩

end Requests

end Jolt.Access.Transfer
