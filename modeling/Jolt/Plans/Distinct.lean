import Jolt.Plans.CopyDestinations

/-! Where the plans of pulls are written, and when a plan of any of the planners writes each of
its paths once. -/
namespace Jolt.Plans
open Jolt.Base Jolt.Access Jolt.Access.Transfer
open Jolt.Jobs (ItemAction)

section Peer

variable {p : Planner}
variable {access : Option TransferAccess} {destination : Text} {entries : List Transfer.FileEntry}
  {entry : Transfer.FileEntry} {n : Puller} {s t : Planning}

def groundOf (p : Planner) : Ground where
  stands path := (p.files.metadata path).toOption.join
  free path := (p.uniqueDestination path).toOption
  renames := p.policy == ascii "rename"

def placeOf (p : Planner) (entry : Transfer.FileEntry) : Place where
  path := entry.path
  type := entry.type
  own := joinRelative p.destinationPath entry.path
  replaces := p.policy == ascii "overwrite" || p.policy == ascii "checksum" &&
    (p.files.checksum (joinRelative p.destinationPath entry.path)).toOption != some entry.checksum

def taken (p : Planner) (entries : List Transfer.FileEntry) : List Transfer.FileEntry :=
  entries.filter fun entry => validateGrantDestination p.strings p.grant
    (joinRelative p.destinationPath entry.path) != some .forbidden

def directoryPlaces (p : Planner) (entries : List Transfer.FileEntry) : List Place :=
  (groundOf p).unblocked [] ((taken p entries).map (placeOf p))

/-- The entries that the filter of a signed pull lists, with the directories left out so far. -/
def listedBy (p : Planner) (access : TransferAccess) :
    List Text → List Transfer.FileEntry → List Transfer.FileEntry
  | _, [] => []
  | omitted, entry :: entries =>
    if hasBlockedParent entry.path omitted then listedBy p access omitted entries
    else if access.source.allowsListedEntry p.lib
        (access.sourceMountPath (joinRelative p.sourcePath entry.path)) entry.type then
      entry :: listedBy p access omitted entries
    else listedBy p access
      (if entry.type = .directory then entry.path :: omitted else omitted) entries

theorem uniqueFrom_free {found : Text} {left index : Nat}
    (free : p.uniqueFrom destination left index = .ok found) :
    p.files.metadata found = .ok none := by
  induction left generalizing index with
  | zero => cases free
  | succ left ih =>
    simp only [Planner.uniqueFrom] at free
    split at free
    · exact ih free
    · cases free
    split at free
    · cases free
    · exact ih free
    split at free
    · cases free
    · rename_i absent
      cases free
      exact absent
    · exact ih free

theorem groundOf_lawful (p : Planner) : (groundOf p).Lawful := by
  intro d r found
  have free := toOption_eq_some_iff.mp found
  refine ⟨?_, (Planner.uniqueFrom_ok free).1⟩
  simp only [groundOf, uniqueFrom_free free]
  rfl

theorem fileAction_target {item : Item} {action : ItemAction}
    (done : p.fileAction item = .ok (action, destination))
    (own : item.destinationPath = joinRelative p.destinationPath entry.path)
    (checksum : item.checksum = entry.checksum) :
    (if writes action then some destination else none) =
      if (groundOf p).renames then (groundOf p).free (placeOf p entry).own
      else if (placeOf p entry).replaces then some (placeOf p entry).own else none := by
  simp only [groundOf, placeOf, ← own, ← checksum]
  simp only [Planner.fileAction] at done
  split_ifs at done with skips overwrites renames sums
  · cases done
    rw [skips]
    rfl
  · cases done
    rw [overwrites]
    rfl
  · split at done
    · cases done
    rename_i found
    cases done
    simp [renames, found, writes, Except.toOption]
  · split at done
    · cases done
    rename_i sum asked
    cases done
    by_cases same : sum = item.checksum <;>
      simp [sums, asked, same, writes, Except.toOption, ascii]
  · cases done
    simp [overwrites, renames, sums, writes]

theorem planRemoteAction_acts {item : Item} {action : ItemAction}
    (done : p.planRemoteAction item = .ok (action, destination))
    (own : item.destinationPath = joinRelative p.destinationPath entry.path)
    (type : item.type = entry.type) (checksum : item.checksum = entry.checksum) :
    Acts (groundOf p) (placeOf p entry) action destination := by
  have place : (placeOf p entry).own = item.destinationPath := own.symm
  have kind : (placeOf p entry).type = item.type := type.symm
  have stands {existing : Option EntryType} (asked : p.files.metadata item.destinationPath =
      .ok existing) : (groundOf p).stands (placeOf p entry).own = existing := by
    simp only [groundOf, place, asked]
    rfl
  simp only [Planner.planRemoteAction] at done
  split at done
  · cases done
  · cases done
  split at done
  · cases done
  · rename_i asked
    have absent := Acts.absent (stands asked)
    rw [kind, place] at absent
    cases done
    exact absent
  · rename_i existing asked
    split_ifs at done with directory file other
    · cases done
      have there := Acts.directory (stands asked) (kind.trans directory) item.destinationPath
      rwa [if_pos file] at there
    · cases done
      have there := Acts.directory (stands asked) (kind.trans directory) item.destinationPath
      rwa [if_neg file] at there
    · cases done
      exact Acts.other (stands asked) (kind ▸ directory) other _
    · obtain rfl := not_not.mp other
      apply Acts.file (stands asked) (kind ▸ directory)
      exact fileAction_target done own checksum

theorem act_settles {item out : Item} {blocked : Bool} (done : p.act access blocked item = .ok out)
    (own : item.destinationPath = joinRelative p.destinationPath entry.path)
    (type : item.type = entry.type) (checksum : item.checksum = entry.checksum) :
    Settles (groundOf p) blocked (placeOf p entry) out := by
  simp only [Planner.act] at done
  split_ifs at done with kept
  · cases done
    rw [kept]
    exact .of_blocked type
  · rw [Bool.eq_false_iff.mpr kept]
    split at done
    · cases done
    rename_i action destination acted
    split at done
    · cases done
    · cases done
      exact (planRemoteAction_acts acted own type checksum).settles type

/-- What an entry that is not left out comes to: the grant forbids it, or it is planned. -/
def Takes (p : Planner) (s : Planning) (entry : Transfer.FileEntry) (t : Planning) : Prop :=
  (taken p [entry] = [] ∧ t = s) ∨
    taken p [entry] = [entry] ∧ ∃ item, t = s.add entry item ∧
      Settles (groundOf p) (hasBlockedParent entry.path s.blocked) (placeOf p entry) item

theorem taken_cons (p : Planner) (entry : Transfer.FileEntry) (entries : List Transfer.FileEntry) :
    taken p (entry :: entries) = taken p [entry] ++ taken p entries :=
  List.filter_append [entry] entries

theorem Takes.lays {u : Planning} (takes : Takes p s entry t)
    (rest : Lays (groundOf p) t ((taken p entries).map (placeOf p)) u) :
    Lays (groundOf p) s ((taken p (entry :: entries)).map (placeOf p)) u := by
  rw [taken_cons]
  rcases takes with ⟨none, rfl⟩ | ⟨one, item, rfl, settles⟩
  · rw [none]
    exact rest
  · rw [one]
    exact Lays.add settles rfl rest

theorem Takes.omitted (takes : Takes p s entry t) :
    t.omittedDirectories = s.omittedDirectories := by
  rcases takes with ⟨_, rfl⟩ | ⟨_, item, rfl, _⟩ <;> rfl

theorem directoryEntry_takes (step : p.directoryEntry s entry = .ok t) : Takes p s entry t := by
  simp only [Planner.directoryEntry] at step
  split_ifs at step
  split at step
  · rename_i forbidden
    cases step
    have none : validateGrantDestination p.strings p.grant
      (joinRelative p.destinationPath entry.path) = some .forbidden := forbidden
    exact .inl ⟨by simp [taken, none], rfl⟩
  · cases step
  · rename_i inside
    have allowed : validateGrantDestination p.strings p.grant
      (joinRelative p.destinationPath entry.path) = none := inside
    split at step
    · cases step
    rename_i acted
    cases step
    exact .inr ⟨by simp [taken, allowed], _, rfl, act_settles acted rfl rfl rfl⟩

theorem directory_lays (run : entries.foldlM p.directoryEntry s = .ok t) :
    Lays (groundOf p) s ((taken p entries).map (placeOf p)) t := by
  induction entries generalizing s with
  | nil =>
    cases run
    apply Lays.nil
  | cons entry entries ih =>
    simp only [List.foldlM_cons, bind_ok_iff] at run
    obtain ⟨u, step, rest⟩ := run
    exact (directoryEntry_takes step).lays (ih rest)

theorem batchEntry_cases {operation : Operation}
    (step : p.batchEntry operation access s entry = .ok t) :
    (∃ filters ∈ access, p.leaveOut filters s entry = some (.ok t)) ∨
      (∀ filters ∈ access, p.leaveOut filters s entry = none) ∧ Takes p s entry t := by
  unfold Planner.batchEntry at step
  split at step
  · cases step
  split at step
  · rename_i left
    subst step
    exact .inl (Option.bind_eq_some_iff.mp left)
  · rename_i kept
    refine .inr ⟨fun filters signed => Option.bind_eq_none_iff.mp kept filters signed, ?_⟩
    dsimp only at step
    split at step
    · rename_i forbidden
      split_ifs at step
      cases step
      have none : validateGrantDestination p.strings p.grant
        (joinRelative p.destinationPath entry.path) = some .forbidden := forbidden
      exact .inl ⟨by simp [taken, none], rfl⟩
    · cases step
    · rename_i inside
      have allowed : validateGrantDestination p.strings p.grant
        (joinRelative p.destinationPath entry.path) = none := inside
      split at step
      · cases step
      rename_i acted
      cases step
      exact .inr ⟨by simp [taken, allowed], _, rfl, act_settles acted rfl rfl rfl⟩

theorem batch_lays {operation : Operation}
    (run : entries.foldlM (p.batchEntry operation access) s = .ok t) :
    Lays (groundOf p) s ((taken p (access.elim entries fun filters =>
      listedBy p filters s.omittedDirectories entries)).map (placeOf p)) t := by
  induction entries generalizing s with
  | nil =>
    cases run
    cases access <;> apply Lays.nil
  | cons entry entries ih =>
    simp only [List.foldlM_cons, bind_ok_iff] at run
    obtain ⟨u, step, rest⟩ := run
    have after := ih rest
    rcases batchEntry_cases step with ⟨filters, signed, left⟩ | ⟨kept, takes⟩
    · obtain rfl := Option.mem_def.mp signed
      simp only [Planner.leaveOut] at left
      simp only [Option.elim_some, listedBy] at after ⊢
      split_ifs at left with below allowed root directory
      · cases left
        rw [if_pos below]
        exact after
      · cases left
      · cases left
        rw [if_neg below, if_neg allowed, if_pos directory]
        exact after
      · cases left
        rw [if_neg below, if_neg allowed, if_neg directory]
        exact after
    · cases access with
      | none => exact takes.lays after
      | some filters =>
        have judged := kept filters rfl
        simp only [Planner.leaveOut] at judged
        split_ifs at judged with below allowed
        simp only [Option.elim_some, listedBy, if_neg below, if_pos allowed]
        simp only [Option.elim_some, takes.omitted] at after
        exact takes.lays after

theorem groundOf_planner (n : Puller) (grant : TransferGrant) (policy : Text)
    (source destination source' destination' : Text) :
    groundOf (n.planner grant policy source destination) =
      groundOf (n.planner grant policy source' destination') := by
  have unique (path : Text) (left index : Nat) :
      (n.planner grant policy source destination).uniqueFrom path left index =
        (n.planner grant policy source' destination').uniqueFrom path left index := by
    induction left generalizing index with
    | zero => rfl
    | succ left ih =>
      simp only [Planner.uniqueFrom, ih]
      rfl
  simp only [groundOf, Planner.uniqueDestination, unique]
  rfl

/-- The entries of a selected root that no directory in conflict keeps back. -/
def rootPlaces (n : Puller) (b : Batch) (access : Option TransferAccess) (sourcePath : Text) :
    List Place :=
  let p := n.planner b.grant b.policy sourcePath (joinRelative b.destination (b.rootName sourcePath))
  match n.fetchRemoteManifest b.peer b.sourceGrantID sourcePath b.checksum with
  | .error _ => []
  | .ok entries =>
    directoryPlaces p (access.elim entries fun filters => listedBy p filters [] entries)

theorem planRoot_written {b : Batch} {s t : Batched} {path : Text}
    (done : n.planRoot b access s path = .ok t) :
    writtenPaths t.plan = writtenPaths s.plan ++ (rootPlaces n b access path).filterMap
      (groundOf (n.planner b.grant b.policy [] [])).target := by
  obtain ⟨entries, root, omitted, listed, planned, rfl⟩ := Puller.planRoot_ok done
  simp only [Planner.planBatchRoot] at planned
  split at planned
  · cases planned
  rename_i u run
  cases planned
  have lays := batch_lays run
  rw [groundOf_planner n b.grant b.policy _ _ [] []] at lays
  have kept : (u.plan.items.mapIdx fun index item =>
      batchItem b.operation path (s.plan.items.length + index) item).filterMap written =
        u.plan.items.filterMap written := by
    apply filterMap_mapIdx
    exact fun _ _ => rfl
  simp only [rootPlaces, listed, directoryPlaces, groundOf_planner n b.grant b.policy path _ [] []]
  simp only [writtenPaths, CopyPlan.append, List.filterMap_append, kept]
  exact congrArg _ lays

/-- What a batch is planned with, as the request and the node's records give it. -/
structure Reads (n : Puller) (request : BatchPullRequest) (b : Batch) (paths : List Text) :
    Prop where
  operation : operationOf (n.strings.toLower (trimSpace request.operation)) = some b.operation
  paths : normalizeBatchPaths request.sourcePaths = .ok paths
  names : batchSourceNames request.sourcePaths request.sourceNames = .ok b.names
  peer : n.trustedPeer request.peerNodeID = .ok b.peer
  sourceGrantID : request.sourceGrantID = b.sourceGrantID
  granted : ∃ stored, n.transferGrant (trimSpace request.destinationGrantID) = .ok stored ∧
    receiveDestination n.strings stored b.peer request.destinationPath request.conflictPolicy =
      .ok (b.grant, b.destination)
  policy : normalizePolicy n.strings request.conflictPolicy = b.policy
  checksum : (request.verifyChecksum || b.policy == ascii "checksum" || b.operation == .move) =
    b.checksum

theorem roots_written {b : Batch} {paths : List Text} {s t : Batched}
    (run : paths.foldlM (n.planRoot b access) s = .ok t) :
    writtenPaths t.plan = writtenPaths s.plan ++ (paths.flatMap (rootPlaces n b access)).filterMap
      (groundOf (n.planner b.grant b.policy [] [])).target := by
  induction paths generalizing s with
  | nil =>
    cases run
    simp
  | cons path paths ih =>
    simp only [List.foldlM_cons, bind_ok_iff] at run
    obtain ⟨u, step, rest⟩ := run
    rw [ih rest, planRoot_written step, List.flatMap_cons, List.filterMap_append, List.append_assoc]

theorem planBatch_written {request : BatchPullRequest} {b : Batch} {paths : List Text}
    {plan : CopyPlan} {omitted : Nat} (reads : Reads n request b paths)
    (done : n.planBatch request access = .ok (plan, omitted)) :
    writtenPaths plan = (paths.flatMap (rootPlaces n b access)).filterMap
      (groundOf (n.planner b.grant b.policy [] [])).target := by
  obtain ⟨stored, asked, found⟩ := reads.granted
  simp only [Puller.planBatch, reads.operation, reads.paths, reads.names, reads.peer, asked,
    reads.policy, reads.sourceGrantID, Except.mapError, bind, Except.bind, found,
    reads.checksum] at done
  split at done
  · cases done
  rename_i s run
  cases done
  have whole := roots_written run
  exact whole

theorem planDirectoryPull_written {request : PullRequest} {peer : Text}
    {stored : Option TransferGrant} {grant : TransferGrant} {policy : Text} {plan : CopyPlan}
    (known : n.trustedPeer request.peerNodeID = .ok peer)
    (asked : n.transferGrant (trimSpace request.destinationGrantID) = .ok stored) (found :
      receiveDestination n.strings stored peer request.destinationPath request.conflictPolicy = .ok
      (grant, destination)) (normal : normalizePolicy n.strings request.conflictPolicy = policy)
      (listed : n.fetchRemoteManifest peer request.sourceGrantID request.sourcePath
      (request.verifyChecksum || policy == ascii "checksum") = .ok entries)
    (done : n.planDirectoryPull request = .ok plan) :
    writtenPaths plan =
      (directoryPlaces (n.planner grant policy request.sourcePath destination) entries).filterMap
        (groundOf (n.planner grant policy request.sourcePath destination)).target := by
  simp only [Puller.planDirectoryPull, known, asked, found, normal, listed, bind, Except.bind,
    Planner.planDirectory] at done
  split at done
  · cases done
  rename_i s run
  cases done
  exact directory_lays run

end Peer

section Plans

/-- A plan that one of the four planners returned: where its entries come from, the destination,
and the entries that are neither left out nor below a directory in conflict. -/
inductive Returned : Origin → Ground → List Place → CopyPlan → Prop
  | copy {strings : Strings} {files : LocalFiles} {source destination conflictPolicy : Text}
      {verifyChecksum : Bool} {policy : ConflictPolicy} {kind : EntryType} {modifiedAt : Int}
      {manifest : List Transfer.FileEntry} {plan : CopyPlan}
      (normal : normalizeConflictPolicy strings conflictPolicy = .ok policy)
      (found : files.metadata source = .ok (some (kind, modifiedAt)))
      (listed : files.manifest source = .ok manifest)
      (formed : WellFormed (rooted kind modifiedAt manifest))
      (done : planCopy strings files source destination conflictPolicy verifyChecksum = .ok plan) :
      Returned .here (files.ground policy) ((files.ground policy).unblocked []
        ((rooted kind modifiedAt manifest).map (files.place policy source destination))) plan
  | filtered {strings : Strings} {files : FilteredFiles} {source destination conflictPolicy : Text}
      {verifyChecksum : Bool} {policy : ConflictPolicy} {kind : EntryType} {modifiedAt : Int}
      {manifest : List Transfer.FileEntry} {omitted omitted' : Nat} {plan : CopyPlan}
      (normal : normalizeConflictPolicy strings conflictPolicy = .ok policy)
      (found : files.metadataFiltered source = .ok (kind, modifiedAt))
      (listed : files.manifestFiltered source = .ok (manifest, omitted))
      (formed : WellFormed (rooted kind modifiedAt manifest))
      (done : planCopyFiltered strings files source destination conflictPolicy verifyChecksum =
        .ok (plan, omitted')) :
      Returned .here (files.ground policy) ((files.ground policy).unblocked []
        ((rooted kind modifiedAt manifest).map (files.place policy source destination))) plan
  | directory {n : Puller} {request : PullRequest} {peer destination : Text}
      {stored : Option TransferGrant} {grant : TransferGrant} {policy : Text}
      {entries : List Transfer.FileEntry} {plan : CopyPlan}
      (known : n.trustedPeer request.peerNodeID = .ok peer)
      (asked : n.transferGrant (trimSpace request.destinationGrantID) = .ok stored)
      (found : receiveDestination n.strings stored peer request.destinationPath
        request.conflictPolicy = .ok (grant, destination))
      (normal : normalizePolicy n.strings request.conflictPolicy = policy)
      (listed : n.fetchRemoteManifest peer request.sourceGrantID request.sourcePath
        (request.verifyChecksum || policy == ascii "checksum") = .ok entries)
      (done : n.planDirectoryPull request = .ok plan) :
      Returned .peer (groundOf (n.planner grant policy request.sourcePath destination))
        (directoryPlaces (n.planner grant policy request.sourcePath destination) entries) plan
  | batch {n : Puller} {request : BatchPullRequest} {b : Batch} {paths : List Text}
      {access : Option TransferAccess} {plan : CopyPlan} {omitted : Nat}
      (reads : Reads n request b paths)
      (done : n.planBatch request access = .ok (plan, omitted)) :
      Returned .peer (groundOf (n.planner b.grant b.policy [] []))
        (paths.flatMap (rootPlaces n b access)) plan

variable {origin : Origin} {g : Ground} {places : List Place} {plan : CopyPlan}

section

variable (returned : Returned origin g places plan)
include returned

theorem Returned.written :
    writtenPaths plan = places.filterMap g.target := by
  cases returned with
  | copy normal found listed formed done => exact planCopy_written normal found listed done
  | filtered normal found listed formed done =>
    exact planCopyFiltered_written normal found listed done
  | directory known asked found normal listed done =>
    exact planDirectoryPull_written known asked found normal listed done
  | batch reads done => exact planBatch_written reads done

theorem Returned.lawful : g.Lawful := by
  cases returned with
  | copy => apply LocalFiles.lawful
  | filtered => apply FilteredFiles.lawful
  | directory => apply groundOf_lawful
  | batch => apply groundOf_lawful

theorem Returned.owns (here : origin = .here) :
    (places.map Place.own).Nodup := by
  have owns {entries : List Transfer.FileEntry} (formed : WellFormed entries) {place : Transfer.FileEntry → Place}
      {destination : Text} (own : ∀ e, (place e).own = joinLocal destination e.path) :
      ((g.unblocked [] (entries.map place)).map Place.own).Nodup := by
    apply List.Nodup.sublist ((g.unblocked_sublist _ _).map _)
    rw [List.map_map, show Place.own ∘ place = fun e => joinLocal destination e.path from
      funext own]
    exact formed.owns destination
  cases returned with
  | copy normal found listed formed done => exact owns formed fun _ => rfl
  | filtered normal found listed formed done => exact owns formed fun _ => rfl
  | directory => cases here
  | batch => cases here

/-- No two items of a plan are written at one path, exactly where no file is renamed onto
another entry's own place and the paths of a peer's entries stay distinct when they are
cleaned. -/
theorem written_distinct_iff :
    (writtenPaths plan).Nodup ↔ Apart g origin places := by
  rw [returned.written]
  exact Ground.distinct_iff returned.lawful returned.owns

end

instance (p : Place) : Decidable (g.Renames p) := inferInstanceAs (Decidable (_ ∧ _ ∧ _))

/-- A directory with the file "a.txt" and another one, where another "a.txt" stands at the
destination. -/
def sampleFiles (other : String) : LocalFiles where
  metadata path :=
    .ok (if path = ascii "src" ∨ path = ascii "dst" then some (.directory, 0)
      else if path = ascii "dst/a.txt" then some (.file, 0) else none)
  manifest _ := .ok [⟨ascii "a.txt", .file, 3, 0, []⟩, ⟨ascii other, .file, 5, 0, []⟩]
  isHiddenPath _ := .ok false
  checksum _ := .ok []

def sampleStrings : Strings := ⟨id, (· == ·), fun _ _ => some false⟩

abbrev samplePlan (other : String) : CopyPlan :=
  (planCopy sampleStrings (sampleFiles other) (ascii "src") (ascii "dst") (ascii "rename")
    false).toOption.getD ⟨[], [], [], [], 0, 0, 0, 0, 0, 0⟩

theorem samplePlan_returned (other : String) (formed : WellFormed (rooted .directory 0
      [⟨ascii "a.txt", .file, 3, 0, []⟩, ⟨ascii other, .file, 5, 0, []⟩]))
    (done : planCopy sampleStrings (sampleFiles other) (ascii "src") (ascii "dst") (ascii "rename")
      false = .ok (samplePlan other)) :
    Returned .here ((sampleFiles other).ground .rename)
      (((sampleFiles other).ground .rename).unblocked [] ((rooted .directory 0
        [⟨ascii "a.txt", .file, 3, 0, []⟩, ⟨ascii other, .file, 5, 0, []⟩]).map
          ((sampleFiles other).place .rename (ascii "src") (ascii "dst")))) (samplePlan other) :=
  .copy (by decide +kernel) rfl rfl formed done

theorem sample_plan_distinct : (writtenPaths (samplePlan "b.txt")).Nodup :=
  (written_distinct_iff (samplePlan_returned "b.txt" ⟨by decide +kernel, by decide +kernel⟩
    (by decide +kernel))).mpr ⟨by decide +kernel, nofun⟩

/-- The renamed file takes the place of a file that is copied. -/
theorem renamed_onto_copied :
    WellFormed (rooted .directory 0
      [⟨ascii "a.txt", .file, 3, 0, []⟩, ⟨ascii "a (1).txt", .file, 5, 0, []⟩]) ∧
    planCopy sampleStrings (sampleFiles "a (1).txt") (ascii "src") (ascii "dst") (ascii "rename")
      false = .ok (samplePlan "a (1).txt") ∧
    writtenPaths (samplePlan "a (1).txt") = [ascii "dst/a (1).txt", ascii "dst/a (1).txt"] :=
  ⟨⟨by decide +kernel, by decide +kernel⟩, by decide +kernel, by decide +kernel⟩

end Plans

end Jolt.Plans
