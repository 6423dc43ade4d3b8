import Jolt.Access.MovePlans
import Jolt.Base.Runs

/-! How a node carries out a signed batch from another node. The items were planned under the
filter of a lease; an attempt may run under the filter of a later one and judges every item
again before it fetches the files, in the order of its queue. An attempt can end anywhere and
another one begin, and conflicts can be decided in between. -/
namespace Jolt.Access.Transfer
open Jolt.Base List
open Jolt.Jobs (ItemAction ItemState)

section Model

structure PullItem where
  item : Item
  state : ItemState := .pending
  deriving DecidableEq

structure PullJob where
  peerNodeID : Text
  mountID : Text
  conflictPolicy : Text
  destination : Text

/-- An attempt: the filters it runs with, the items it has yet to judge, the files to fetch. -/
structure PullAttempt where
  access : TransferAccess
  todo : List PullItem
  pendingFiles : List PullItem

structure PullRun where
  items : List PullItem
  attempt : Option PullAttempt

inductive PullEvent where
  | overrideItem (ordinal : Nat) (action : ItemAction) (applyToFollowing : Bool)
      (renamed : Text → Text)
  | begin (grant : TransferGrant) (access : TransferAccess)
  | scan (files : Files) (created : Bool)
  | pick
  | finish (ordinal : Nat) (state : ItemState)
  | stop

variable (lib : Library)

def itemDenied (files : Files) (access : TransferAccess) (item : Item) : Option String :=
  if access.source.allowsListedEntry lib (access.sourceMountPath item.sourcePath) item.type = false
  then some "the source is no longer permitted"
  else if (files.checkDestinationAccess item access).isSome then
    some "the destination is no longer permitted"
  else none

inductive Scanned where
  | stored (item : PullItem)
  | queued
  | ended (item : PullItem)
  | unsupported

def scanItem (job : PullJob) (files : Files) (access : TransferAccess) (created : Bool)
    (i : PullItem) : Scanned :=
  match itemDenied lib files access i.item with
  | some _ => .stored { i with state := .failed }
  | none =>
    match i.item.action with
    | .skip => .stored { i with state := .skipped }
    | .conflict =>
      if job.conflictPolicy = ascii "ask" then .ended { i with state := .waitingUserDecision }
      else .stored { i with state := .failed }
    | .fail => .stored { i with state := .failed }
    | .merge => .stored { i with state := .completed }
    | .create =>
      if created then .stored { i with state := .completed }
      else .ended { i with state := .failed }
    | .copy | .overwrite | .rename => .queued
    | .other _ => .unsupported

/-- `UpdateJobItem` -/
def storeItem (items : List PullItem) (i : PullItem) : List PullItem :=
  items.map fun other => if other.item.ordinal = i.item.ordinal then i else other

def decided (ordinal : Nat) (applyToFollowing : Bool) (i : PullItem) : Bool :=
  i.item.ordinal == ordinal ||
    applyToFollowing && ordinal < i.item.ordinal && i.item.action == .conflict

def PullItem.resolved (action : ItemAction) (renamed : Text → Text) (i : PullItem) : PullItem where
  item := { i.item with
    action := action
    destinationPath := if action = .rename then renamed i.item.destinationPath
      else i.item.destinationPath }
  state := .pending

def overrideItem (items : List PullItem) (ordinal : Nat) (action : ItemAction)
    (applyToFollowing : Bool) (renamed : Text → Text) : Option (List PullItem) :=
  let targets := items.filter (decided ordinal applyToFollowing)
  if action ∉ [.skip, .overwrite, .rename, .fail] then none
  else if targets.any (fun i => i.item.action != .conflict) then none
  else if (action = .overwrite ∨ action = .rename) ∧ targets.any (fun i => i.item.type != .file) then
    none
  else if items.any (fun i => i.item.ordinal == ordinal) = false then none
  else some (items.map fun i =>
    if decided ordinal applyToFollowing i then i.resolved action renamed else i)

variable (strings : Strings) (job : PullJob)

def admissible (grant : TransferGrant) (items : List PullItem) : Bool :=
  receivable strings grant job.peerNodeID job.conflictPolicy && grant.mountID == job.mountID &&
    validateGrantDestination strings grant job.destination == none &&
    items.all fun i => validateGrantDestination strings grant i.item.destinationPath == none

def PullRun.next (s : PullRun) : PullEvent → Option (PullRun × Option Item)
  | .overrideItem ordinal action applyToFollowing renamed =>
    if s.attempt.isSome then none
    else (Transfer.overrideItem s.items ordinal action applyToFollowing renamed).map fun items =>
      ({ s with items := items }, none)
  | .begin grant access =>
    if s.attempt.isSome || !admissible strings job grant s.items then none
    else some ({ s with attempt := some ⟨access, s.items.filter fun i =>
      i.state != .completed && i.state != .skipped, []⟩ }, none)
  | .scan files created =>
    match s.attempt with
    | some ⟨access, i :: todo, pendingFiles⟩ =>
      match scanItem lib job files access created i with
      | .stored i => some (⟨storeItem s.items i, some ⟨access, todo, pendingFiles⟩⟩, none)
      | .queued => some (⟨s.items, some ⟨access, todo, pendingFiles ++ [i]⟩⟩, none)
      | .ended i => some (⟨storeItem s.items i, none⟩, none)
      | .unsupported => some (⟨s.items, none⟩, none)
    | _ => none
  | .pick =>
    match s.attempt with
    | some ⟨access, [], i :: pendingFiles⟩ =>
      some (⟨storeItem s.items { i with state := .running }, some ⟨access, [], pendingFiles⟩⟩,
        some i.item)
    | _ => none
  | .finish ordinal state =>
    if s.attempt.isNone || !([ItemState.completed, .failed, .pending].contains state) then none
    else some ({ s with items := s.items.map fun i =>
      if i.item.ordinal = ordinal ∧ i.state = .running then { i with state := state } else i }, none)
  | .stop => some ({ s with attempt := none }, none)

def PullRun.start (plan : CopyPlan) : PullRun := ⟨plan.items.map fun item => ⟨item, .pending⟩, none⟩

end Model

section Judged

variable {lib : Library} {strings : Strings} {job : PullJob}

def FetchesFiles (item : Item) : Prop := fetches item.action = true → item.type = .file

/-- What holds of a job along every run: the items to fetch are files, those an attempt has
queued among them are listed and readable under its filter. -/
structure Judged (lib : Library) (s : PullRun) : Prop where
  stored : ∀ i ∈ s.items, FetchesFiles i.item
  todo : ∀ a ∈ s.attempt, ∀ i ∈ a.todo, FetchesFiles i.item
  queued : ∀ a ∈ s.attempt, ∀ i ∈ a.pendingFiles, i.item.type = .file ∧
    a.access.source.allowsListedEntry lib (a.access.sourceMountPath i.item.sourcePath) .file = true

theorem storeItem_fetches {items : List PullItem} {i : PullItem}
    (stored : ∀ i ∈ items, FetchesFiles i.item) (file : FetchesFiles i.item) :
    ∀ j ∈ storeItem items i, FetchesFiles j.item := by
  intro j inside
  obtain ⟨other, known, rfl⟩ := mem_map.mp inside
  split_ifs
  · exact file
  · exact stored other known

theorem overrideItem_fetches {items out : List PullItem} {ordinal : Nat} {action : ItemAction}
    {applyToFollowing : Bool} {renamed : Text → Text}
    (done : overrideItem items ordinal action applyToFollowing renamed = some out)
    (stored : ∀ i ∈ items, FetchesFiles i.item) : ∀ i ∈ out, FetchesFiles i.item := by
  simp only [overrideItem] at done
  split_ifs at done with known conflict directories missing
  cases done
  intro i inside
  obtain ⟨other, here, rfl⟩ := mem_map.mp inside
  split_ifs with target
  · intro fetched
    -- only a skip or a failure can be decided for a directory
    by_contra directory
    refine directories ⟨?_, ?_⟩
    · have action_fetches : fetches action = true := fetched
      cases action with
      | overwrite => exact .inl rfl
      | rename => exact .inr rfl
      | copy => simp at known
      | _ => cases action_fetches
    · exact any_eq_true.mpr ⟨other, mem_filter.mpr ⟨here, target⟩, by
        simpa [PullItem.resolved] using directory⟩
  · exact stored other here

theorem scanItem_queued {files : Files} {access : TransferAccess} {created : Bool} {i : PullItem}
    (scanned : scanItem lib job files access created i = .queued) :
    access.source.allowsListedEntry lib (access.sourceMountPath i.item.sourcePath) i.item.type = true ∧
      fetches i.item.action = true := by
  simp only [scanItem, itemDenied] at scanned
  grind [fetches]

theorem scanItem_item {files : Files} {access : TransferAccess} {created : Bool} {i j : PullItem}
    (scanned : scanItem lib job files access created i = .stored j ∨
      scanItem lib job files access created i = .ended j) : j.item = i.item := by
  simp only [scanItem] at scanned
  grind

theorem admitted_todo {items : List PullItem} (stored : ∀ i ∈ items, FetchesFiles i.item)
    {p : PullItem → Bool} : ∀ i ∈ items.filter p, FetchesFiles i.item :=
  fun i inside => stored i (mem_filter.mp inside).1

theorem PullRun.next_judged {s t : PullRun} {e : PullEvent} {answer : Option Item}
    (moved : s.next lib strings job e = some (t, answer)) (before : Judged lib s) : Judged lib t := by
  cases e with
  | overrideItem ordinal action applyToFollowing renamed =>
    simp only [next] at moved
    split_ifs at moved with running
    obtain ⟨items, done, same⟩ := Option.map_eq_some_iff.mp moved
    cases same
    exact ⟨overrideItem_fetches done before.stored, before.todo, before.queued⟩
  | begin grant access =>
    simp only [next] at moved
    split_ifs at moved
    cases moved
    refine ⟨before.stored, ?_, ?_⟩
    · rintro a ⟨⟩
      exact admitted_todo before.stored
    · rintro a ⟨⟩
      simp
  | scan files created =>
    simp only [next] at moved
    split at moved
    · rename_i access i todo pendingFiles running
      have file := before.todo _ running i mem_cons_self
      have rest : ∀ j ∈ todo, FetchesFiles j.item := fun j inside =>
        before.todo _ running j (mem_cons_of_mem i inside)
      have queued := before.queued _ running
      split at moved
      · rename_i j scanned
        cases moved
        have kept : FetchesFiles j.item := scanItem_item (.inl scanned) ▸ file
        exact ⟨storeItem_fetches before.stored kept, by rintro a ⟨⟩; exact rest,
          by rintro a ⟨⟩; exact queued⟩
      · rename_i scanned
        cases moved
        refine ⟨before.stored, by rintro a ⟨⟩; exact rest, ?_⟩
        rintro a ⟨⟩ j inside
        rcases mem_append.mp inside with old | new
        · exact queued j old
        obtain rfl := mem_singleton.mp new
        obtain ⟨allowed, fetched⟩ := scanItem_queued scanned
        exact ⟨file fetched, file fetched ▸ allowed⟩
      · rename_i j scanned
        cases moved
        have kept : FetchesFiles j.item := scanItem_item (.inr scanned) ▸ file
        exact ⟨storeItem_fetches before.stored kept, nofun, nofun⟩
      · cases moved
        exact ⟨before.stored, nofun, nofun⟩
    · cases moved
  | pick =>
    simp only [next] at moved
    split at moved
    · rename_i access i pendingFiles running
      cases moved
      have queued := before.queued _ running
      have file : FetchesFiles i.item := fun _ => (queued i mem_cons_self).1
      refine ⟨storeItem_fetches before.stored file, by rintro a ⟨⟩; simp, ?_⟩
      rintro a ⟨⟩ j inside
      exact queued j (mem_cons_of_mem i inside)
    · cases moved
  | finish ordinal state =>
    simp only [next] at moved
    split_ifs at moved
    cases moved
    refine ⟨fun i inside => ?_, before.todo, before.queued⟩
    obtain ⟨other, known, rfl⟩ := mem_map.mp inside
    split_ifs
    · exact before.stored other known
    · exact before.stored other known
  | stop =>
    cases moved
    exact ⟨before.stored, nofun, nofun⟩

theorem Puller.planSignedBatch_judged {n : Puller} {request : BatchPullRequest} {nodeID : Text}
    {claims : Option (Binding × Filter)} {signed : SignedBatchPlan}
    (done : n.planSignedBatch request nodeID claims = .ok signed) :
    Judged lib (.start signed.plan) := by
  obtain ⟨_, access, _, _, _, planned⟩ := planSignedBatch_ok done
  obtain ⟨paths, _, _, _, _, _, _, _, _, gathered⟩ := planBatch_ok planned
  refine ⟨fun i inside => ?_, nofun, nofun⟩
  obtain ⟨item, known, rfl⟩ := mem_map.mp inside
  obtain ⟨p, operation, ordinal, entry, made, _, _, fits, rfl⟩ := gathered item known
  exact fits.fetched

end Judged

section Statement

/-- What a direct request for a file asks of the filter, and that the file is listed. -/
def DirectlyReadable (lib : Library) (access : TransferAccess) (item : Item) : Prop :=
  let path := access.sourceMountPath item.sourcePath
  let resource := access.source.resource path
  (access.source.context.evaluate lib resource (ascii "list") .file).allowed = true ∧
    (access.source.context.evaluate lib resource (ascii "read") .file).allowed = true ∧
    access.source.checkRoot lib path .regular = none

/-- No file of the source that the filter lets list and read is below a directory whose listing
it denies. -/
def OpenAbove (lib : Library) (access : TransferAccess) : Prop :=
  ∀ grantRelative, let path := access.sourceMountPath grantRelative
    access.source.allowsListedEntry lib path .file = true →
      access.source.checkAncestors lib path = none

theorem allowsListedEntry_file {lib : Library} {f : AccessFilter} {relative : Text}
    (allowed : f.allowsListedEntry lib relative .file = true) :
    (f.context.evaluate lib (f.resource relative) (ascii "list") .file).allowed = true ∧
      (f.context.evaluate lib (f.resource relative) (ascii "read") .file).allowed = true ∧
      (f.decide lib relative .regular).readable = true := by
  simp only [AccessFilter.allowsListedEntry, Bool.and_eq_true] at allowed
  refine ⟨?_, ?_, allowed.2⟩ <;>
    (simp only [AccessFilter.decide, fileDecision, AccessDecision.refused] at allowed; grind)

theorem checkRoot_none {lib : Library} {f : AccessFilter} {relative : Text}
    (above : f.checkAncestors lib relative = none)
    (readable : (f.decide lib relative .regular).readable = true) :
    f.checkRoot lib relative .regular = none := by
  simp [AccessFilter.checkRoot, above, readable]

theorem PullRun.next_fetched {lib : Library} {strings : Strings} {job : PullJob} {s t : PullRun}
    {e : PullEvent} {item : Item} (moved : s.next lib strings job e = some (t, some item)) :
    ∃ a ∈ s.attempt, ∃ i ∈ a.pendingFiles, i.item = item := by
  cases e with
  | overrideItem =>
    simp only [next] at moved
    grind [Option.map_eq_some_iff]
  | begin =>
    simp only [next] at moved
    grind
  | scan =>
    simp only [next] at moved
    grind
  | pick =>
    simp only [next] at moved
    split at moved
    · rename_i access i pendingFiles running
      cases moved
      exact ⟨_, running, i, mem_cons_self, rfl⟩
    · cases moved
  | finish =>
    simp only [next] at moved
    grind
  | stop => cases moved

theorem sourceMountPath_names {access : TransferAccess} (root : access.sourceRoot = [dot])
    {grantRelative : Text}
    (unrooted : isRooted letters (access.sourceMountPath grantRelative) = false) :
    access.sourceMountPath grantRelative = [dot] ∨
      ∀ part ∈ (access.sourceMountPath grantRelative).splitOn slash, part ≠ [] ∧ part ≠ [dot] := by
  have whole : access.sourceMountPath grantRelative =
      if [dot, slash].isPrefixOf (clean letters grantRelative) = true
      then (clean letters grantRelative).drop 2 else clean letters grantRelative := by
    simp [TransferAccess.sourceMountPath, root]
  have down : isRooted letters grantRelative = false := by
    by_contra rooted
    rw [Bool.not_eq_false] at rooted
    rw [whole, clean, if_pos rooted] at unrooted
    have other : [dot, slash].isPrefixOf
        (letters.slash :: joinElements letters (cleanElements letters grantRelative)) = false := rfl
    rw [other] at unrooted
    simp [isRooted] at unrooted
  have kept := (cleanElements_kept (a := letters) grantRelative).1
  rw [whole, clean_unrooted down]
  generalize cleanElements letters grantRelative = cs at kept
  by_cases none : cs = []
  · subst none
    exact .inl (by decide)
  have parts : (joinElements letters cs).splitOn slash = cs :=
    splitOn_join (fun c known => not_mem_of_mem_splitOn (kept c known).2) none
  have names : ∀ c ∈ cs, c ≠ [] ∧ c ≠ [dot] := fun c known => isName_iff.mp (kept c known).1
  have plain : [dot, slash].isPrefixOf (joinElements letters cs) ≠ true := by
    intro starts
    obtain ⟨rest, split⟩ := isPrefixOf_iff_prefix.mp starts
    have first : [dot] ∈ cs := by
      rw [← parts, ← split, show [dot, slash] ++ rest = [dot] ++ slash :: rest from rfl,
        splitOn_append_cons_self]
      exact mem_append_left _ (by decide)
    exact (names _ first).2 rfl
  rw [shown, if_neg none, if_neg plain, parts]
  exact .inr names

theorem checkParts_none {lib : Library} {f : AccessFilter} {parts : List Text} {resource : Text}
    (allowing : ∀ rule ∈ f.context.rules, rule.caps.contains deny = false)
    (names : ∀ part ∈ parts, part ≠ [] ∧ part ≠ [dot] ∧ part ≠ [dot, dot]) :
    f.checkParts lib resource parts = none := by
  have open_ (resource : Text) :
      (f.context.evaluate lib resource (ascii "list") .directory).denied = false := by
    by_cases asked : answerable lib resource (folded lib (ascii "list")) .directory = false
    · simp only [Filter.evaluate, if_pos asked]
    simp only [Filter.evaluate, if_neg asked, tally_denied, any_eq_false, decide_eq_true_eq]
    intro rule known
    have silent := allowing rule known
    simp only [CompiledRule.effect, CompiledRule.refuses, silent]
    grind
  induction parts generalizing resource with
  | nil => rfl
  | cons part parts ih =>
    obtain ⟨first, rest⟩ := forall_mem_cons.mp names
    rw [AccessFilter.checkParts, if_neg (by simpa using first), open_, if_neg Bool.false_ne_true]
    exact ih rest

theorem openAbove_of_allowing {lib : Library} {access : TransferAccess}
    (allowing : ∀ rule ∈ access.source.context.rules, rule.caps.contains deny = false)
    (root : access.sourceRoot = [dot]) : OpenAbove lib access := by
  intro grantRelative path allowed
  have straight : isRooted letters path = false ∧ containsAny path [backslash, 0] = false ∧
      [dot, dot] ∉ path.splitOn slash := by
    have readable := (allowsListedEntry_file allowed).2.2
    simp only [AccessFilter.decide] at readable
    split at readable
    · cases readable
    · rename_i accepted
      simpa [not_or, and_assoc] using accepted
  rw [AccessFilter.checkAncestors, straight.1, straight.2.1, if_neg (by decide)]
  split_ifs with empty
  · rfl
  rcases sourceMountPath_names root straight.1 with same | names
  · exact absurd (.inr same) empty
  · exact checkParts_none allowing fun part known =>
      ⟨(names part known).1, (names part known).2, fun up => straight.2.2 (up ▸ known)⟩

def fileReceiver : Puller :=
  { receiver [] with
    fetchRemoteManifest := fun _ _ _ _ => .ok [⟨[dot], .file, 1, 2, ascii "x"⟩] }

def pullOfFile : BatchPullRequest :=
  { moveOfS with sourcePaths := [ascii "d/a"], operation := ascii "copy" }

def pullLease : Binding := { moveLease with operation := ascii "transfer_pull_batch" }

def pullJob : PullJob := ⟨ascii "n", ascii "d", ascii "fail", ascii "in"⟩

def accessOf (filter : Filter) : TransferAccess where
  destination := ⟨filter, mountScope (ascii "k") (ascii "d"), by decide +kernel⟩
  source := ⟨filter, mountScope (ascii "n") (ascii "m"), sample_base⟩
  sourceRoot := [dot]

def withoutDirectory : Filter :=
  ⟨⟨ascii "nodes/n/files/mounts/m/d", .hidden, none, [deny]⟩ :: everything.rules⟩

def filePull (filter : Filter) : Except PlanError SignedBatchPlan :=
  fileReceiver.planSignedBatch pullOfFile (ascii "k") (some (pullLease, filter))

def fetching (filter : Filter) (signed : SignedBatchPlan) : Option PullRun :=
  replay (PullRun.next sampleLibrary sampleControl.strings pullJob) (fun _ _ _ => true)
    (.start signed.plan)
    [.begin ⟨ascii "h", ascii "n", ascii "d", ascii "in", ascii "receive", true, [ascii "fail"], [],
      false, true, false⟩ (accessOf filter), .scan ((receiver []).files []) true]

end Statement

end Jolt.Access.Transfer
