import Jolt.Plans.Destinations
import Jolt.Plans.LocalCopies

/-! Where the plans of a copy inside one mount are written. -/
namespace Jolt.Plans
open Jolt.Base Jolt.Access Jolt.Access.Transfer
open Jolt.Jobs (ItemAction)

variable {destination : Text} {entries : List Transfer.FileEntry} {policy : ConflictPolicy}

def ConflictPolicy.replaces (policy : ConflictPolicy) (sums : Except PlanError (Text × Text)) :
    Bool :=
  match policy, sums with
  | .overwrite, _ => true
  | .checksum, .ok (source, destination) => source != destination
  | _, _ => false

def LocalFiles.ground (files : LocalFiles) (policy : ConflictPolicy) : Ground where
  stands path := (files.metadata path).toOption.join.map Prod.fst
  free path := (files.uniqueDestination path).toOption
  renames := policy == .rename

def LocalFiles.place (files : LocalFiles) (policy : ConflictPolicy) (source destination : Text)
    (entry : Transfer.FileEntry) : Place where
  path := entry.path
  type := entry.type
  own := joinLocal destination entry.path
  replaces := policy.replaces
    (files.sums (joinLocal source entry.path) (joinLocal destination entry.path))

def FilteredFiles.ground (files : FilteredFiles) (policy : ConflictPolicy) : Ground where
  stands path := (files.stands path).toOption.join
  free path := (files.uniqueDestination path).toOption
  renames := policy == .rename

def FilteredFiles.place (files : FilteredFiles) (policy : ConflictPolicy) (source destination : Text)
    (entry : Transfer.FileEntry) : Place where
  path := entry.path
  type := entry.type
  own := joinLocal destination entry.path
  replaces := policy.replaces
    (files.sums (joinLocal source entry.path) (joinLocal destination entry.path))

theorem actionFor_acts {item : Item} {existing : Option EntryType} {unique : Except PlanError Text}
    {sums : Except PlanError (Text × Text)} {action : ItemAction} {checksum : Text} {g : Ground}
    {p : Place}
    (done : actionFor policy item existing unique sums = .ok (action, destination, checksum))
    (own : p.own = item.destinationPath) (type : p.type = item.type)
    (stands : g.stands p.own = existing) (free : g.free p.own = unique.toOption)
    (renames : g.renames = (policy == .rename)) (replaces : p.replaces = policy.replaces sums) :
    Acts g p action destination := by
  cases existing with
  | none =>
    have absent := Acts.absent stands
    simp only [actionFor] at done
    rw [type, own] at absent
    split_ifs at done absent <;> cases done <;> exact absent
  | some kind =>
    simp only [actionFor] at done
    split_ifs at done with directory file
    · cases done
      have there := Acts.directory stands (type.trans directory) item.destinationPath
      rwa [if_pos file] at there
    · cases done
      have there := Acts.directory stands (type.trans directory) item.destinationPath
      rwa [if_neg file] at there
    · cases done
      exact Acts.other stands (type ▸ directory) ‹_› _
    · rename_i file
      obtain rfl := not_not.mp file
      refine Acts.file stands (type ▸ directory) ?_
      rw [free, renames, replaces, own]
      cases policy with
      | rename =>
        cases unique with
        | error err => cases done
        | ok found =>
          cases done
          rfl
      | checksum =>
        cases sums with
        | error err => cases done
        | ok sums =>
          cases done
          by_cases same : sums.1 = sums.2 <;> simp [same, writes, ConflictPolicy.replaces]
      | skip | overwrite | fail | ask =>
        cases done
        rfl

theorem firstFree_ok {free : Text → Except PlanError Bool} {found : Text} {left index : Nat}
    (done : firstFree free destination left index = .ok found) :
    free found = .ok true ∧ ∃ i, found = numbered destination i := by
  induction left generalizing index with
  | zero => cases done
  | succ left ih =>
    simp only [firstFree] at done
    split at done
    · cases done
    · rename_i free
      cases done
      exact ⟨free, index, rfl⟩
    · exact ih done

theorem LocalFiles.lawful (files : LocalFiles) (policy : ConflictPolicy) :
    (files.ground policy).Lawful := by
  intro d r found
  obtain ⟨free, named⟩ := firstFree_ok (toOption_eq_some_iff.mp found)
  refine ⟨?_, named⟩
  simp only [LocalFiles.free] at free
  split at free
  · cases free
  · cases free
  obtain ⟨existing, asked, none⟩ := map_ok_iff.mp free
  simp only [ground, asked]
  cases existing with
  | none => rfl
  | some found => cases none

theorem FilteredFiles.inspect_ok {files : FilteredFiles} {relative : Text} {kind : EntryType}
    {existing : Option EntryType}
    (asked : files.inspectCopyDestinationFiltered relative kind = .ok existing) :
    files.stands relative = .ok existing := by
  unfold inspectCopyDestinationFiltered at asked
  split at asked
  · cases asked
  split at asked
  · cases asked
  · exact asked

theorem FilteredFiles.lawful (files : FilteredFiles) (policy : ConflictPolicy) :
    (files.ground policy).Lawful := by
  intro d r found
  obtain ⟨free, named⟩ := firstFree_ok (toOption_eq_some_iff.mp found)
  refine ⟨?_, named⟩
  obtain ⟨existing, asked, none⟩ := map_ok_iff.mp free
  simp only [ground, inspect_ok asked]
  cases existing with
  | none => rfl
  | some found => cases none

theorem LocalPlanner.summed_ok {p : LocalPlanner} {item out : Item}
    (done : p.summed item = .ok out) :
    out.type = item.type ∧ out.action = item.action ∧
      out.destinationPath = item.destinationPath := by
  simp only [summed] at done
  split_ifs at done
  · cases sum : p.sum item.sourcePath with
    | error err => simp [sum, Except.map] at done
    | ok checksum =>
      simp only [sum, Except.map, Except.ok.injEq] at done
      subst done
      exact ⟨rfl, rfl, rfl⟩
  · cases done
    exact ⟨rfl, rfl, rfl⟩

theorem LocalPlanner.entries_lay {p : LocalPlanner} {g : Ground} {place : Transfer.FileEntry → Place}
    (path : ∀ entry, (place entry).path = entry.path)
    (type : ∀ entry, (place entry).type = entry.type) (acts : ∀ entry ordinal action destination
      checksum, p.act (p.item entry ordinal) = .ok (action, destination, checksum) → Acts g (place
      entry) action destination) {s t : Planning} (run : entries.foldlM p.entry s = .ok t) :
    Lays g s (entries.map place) t := by
  induction entries generalizing s with
  | nil =>
    cases run
    apply Lays.nil
  | cons entry entries ih =>
    simp only [List.foldlM_cons, bind_ok_iff, LocalPlanner.entry] at run
    obtain ⟨_, ⟨item, decided, out, summed, same⟩, rest⟩ := run
    cases same
    apply Lays.add _ (path entry).symm (ih rest)
    have settles : Settles g (hasBlockedParent entry.path s.blocked) (place entry) item := by
      simp only [LocalPlanner.decide] at decided
      split_ifs at decided with blocked
      · cases decided
        rw [blocked]
        exact .of_blocked (type entry).symm
      · obtain ⟨⟨action, destination, checksum⟩, acted, rfl⟩ := map_ok_iff.mp decided
        rw [Bool.eq_false_iff.mpr blocked]
        exact (acts entry _ _ _ _ acted).settles (type entry).symm
    obtain ⟨kind, action, destination⟩ := summed_ok summed
    constructor
    · exact kind.trans settles.type
    · rw [written, action, destination]
      exact settles.target
    · rw [action]
      exact settles.conflict

theorem LocalPlanner.plan_written {p : LocalPlanner} {g : Ground} {place : Transfer.FileEntry → Place}
    (path : ∀ entry, (place entry).path = entry.path)
    (type : ∀ entry, (place entry).type = entry.type) (acts : ∀ entry ordinal action destination
      checksum, p.act (p.item entry ordinal) = .ok (action, destination, checksum) → Acts g (place
      entry) action destination) {plan : CopyPlan} (done : p.plan policy entries = .ok plan) :
    writtenPaths plan = (g.unblocked [] (entries.map place)).filterMap g.target := by
  obtain ⟨t, run, rfl⟩ := map_ok_iff.mp done
  exact entries_lay path type acts run

theorem planCopy_written {strings : Strings} {files : LocalFiles} {source conflictPolicy : Text}
    {verifyChecksum : Bool} {kind : EntryType} {modifiedAt : Int} {manifest : List Transfer.FileEntry}
    {plan : CopyPlan} (normal : normalizeConflictPolicy strings conflictPolicy = .ok policy)
    (found : files.metadata source = .ok (some (kind, modifiedAt)))
    (listed : files.manifest source = .ok manifest)
    (done : planCopy strings files source destination conflictPolicy verifyChecksum = .ok plan) :
    writtenPaths plan = ((files.ground policy).unblocked []
      ((rooted kind modifiedAt manifest).map (files.place policy source destination))).filterMap
        (files.ground policy).target := by
  simp only [planCopy, normal, found, listed, bind, Except.bind] at done
  apply LocalPlanner.plan_written (fun _ => rfl) (fun _ => rfl) _ done
  intro entry ordinal action destination checksum acted
  simp only [LocalFiles.planAction] at acted
  split at acted
  · cases acted
  · cases acted
  split at acted
  · cases acted
  rename_i existing asked
  apply actionFor_acts acted rfl rfl _ rfl rfl rfl
  simp only [LocalFiles.ground]
  exact congrArg (fun x => x.toOption.join.map Prod.fst) asked

theorem planCopyFiltered_written {strings : Strings} {files : FilteredFiles}
    {source conflictPolicy : Text} {verifyChecksum : Bool} {kind : EntryType} {modifiedAt : Int}
    {manifest : List Transfer.FileEntry} {omitted omitted' : Nat} {plan : CopyPlan}
    (normal : normalizeConflictPolicy strings conflictPolicy = .ok policy)
    (found : files.metadataFiltered source = .ok (kind, modifiedAt))
    (listed : files.manifestFiltered source = .ok (manifest, omitted)) (done : planCopyFiltered
      strings files source destination conflictPolicy verifyChecksum = .ok (plan, omitted')) :
    writtenPaths plan = ((files.ground policy).unblocked []
      ((rooted kind modifiedAt manifest).map (files.place policy source destination))).filterMap
        (files.ground policy).target := by
  simp only [planCopyFiltered, normal, found, listed] at done
  split at done
  · cases done
  simp only [bind, Except.bind] at done
  split at done
  · cases done
  split at done
  · cases done
  rename_i planned
  cases done
  apply LocalPlanner.plan_written (fun _ => rfl) (fun _ => rfl) _ planned
  intro entry ordinal action destination checksum acted
  simp only [FilteredFiles.planActionFiltered] at acted
  split at acted
  · cases acted
  rename_i existing asked
  apply actionFor_acts acted rfl rfl _ rfl rfl rfl
  simp only [FilteredFiles.ground]
  exact congrArg (fun x => x.toOption.join) (FilteredFiles.inspect_ok asked)

/-- A listing of a tree: proper relative paths, and none of them twice. -/
structure WellFormed (entries : List Transfer.FileEntry) : Prop where
  proper : ∀ entry ∈ entries, clean letters entry.path = entry.path ∧
    isRooted letters entry.path = false ∧ leadsUp entry.path = false
  once : (entries.map Transfer.FileEntry.path).Nodup

theorem elements_withoutDotSlash (path : Text) :
    elements letters (withoutDotSlash path) = elements letters path := by
  unfold withoutDotSlash
  split_ifs with start
  · obtain ⟨rest, rfl⟩ := List.isPrefixOf_iff_prefix.mp start
    exact (@elements_append_cons _ _ letters [dot] rest).symm
  · rfl

theorem elements_of_proper {path : Text} (steady : clean letters path = path)
    (relative : isRooted letters path = false) (down : leadsUp path = false) :
    cleanElements letters path = elements letters path ∧
      letters.parent ∉ elements letters path := by
  have kept : cleanElements letters path = elements letters path := by
    rw [← elements_clean, steady]
  refine ⟨kept, ?_⟩
  have head : (cleanElements letters path).head? ≠ some letters.parent := fun up => by
    rw [← steady] at down
    rw [(leadsUp_clean path).mpr ⟨relative, up⟩] at down
    cases down
  rw [← kept]
  rw [cleanElements, relative] at head ⊢
  exact cleanList_down head

theorem elements_joinLocal (base : Text) {path : Text} (steady : clean letters path = path)
    (relative : isRooted letters path = false) (down : leadsUp path = false) :
    elements letters (joinLocal base path) =
      cleanElements letters base ++ elements letters path := by
  obtain ⟨kept, plain⟩ := elements_of_proper steady relative down
  have named : path ≠ [] := by
    rintro rfl
    exact absurd steady (by decide)
  unfold joinLocal
  split_ifs with root top
  · obtain rfl := root.resolve_left named
    rw [elements_withoutDotSlash, elements_clean]
    exact (List.append_nil _).symm
  · rw [elements_withoutDotSlash, elements_clean, kept]
    rcases top with rfl | rfl <;> rfl
  · rw [elements_withoutDotSlash, joinPaths, elements_clean]
    exact cleanElements_below (fun empty => top (.inl empty)) plain

theorem WellFormed.owns (formed : WellFormed entries) (destination : Text) :
    (entries.map fun e => joinLocal destination e.path).Nodup := by
  have paths := List.pairwise_map.mp formed.once
  apply List.pairwise_map.mpr
  apply (List.Pairwise.and_mem.mp paths).imp
  rintro e f ⟨first, second, other⟩ same
  obtain ⟨steady, relative, down⟩ := formed.proper e first
  obtain ⟨steady', relative', down'⟩ := formed.proper f second
  have parts := congrArg (elements letters) same
  rw [elements_joinLocal _ steady relative down, elements_joinLocal _ steady' relative' down'] at parts
  have equal := List.append_cancel_left parts
  rw [← (elements_of_proper steady relative down).1,
    ← (elements_of_proper steady' relative' down').1] at equal
  apply other
  rw [← steady, ← steady', clean, clean, relative, relative', equal]

end Jolt.Plans
