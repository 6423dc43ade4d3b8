import Jolt.Access.FileTypes

/-! A node's filter for the entries of one mount. The resource path of an entry is the
mount's own path followed by the path of the entry in the mount. -/
namespace Jolt.Access
open Jolt.Base

section Model

def filterBase (base : Text) : Bool :=
  base != [] && !isRooted letters base && base.getLast? != some slash &&
    !containsAny base [backslash, 0] && (base.splitOn slash).all fun part =>
      part != [] && part != [dot] && part != [dot, dot] && part != star && part != recursive

structure AccessFilter where
  context : Filter
  base : Text
  proper : filterBase base = true

def newAccessFilter (context : Filter) (base : Text) : Option AccessFilter :=
  if proper : filterBase base = true then some ⟨context, base, proper⟩ else none

inductive FileKind where
  | directory | regular | other
  deriving DecidableEq

structure AccessDecision where
  visible : Bool
  blocked : Bool
  readable : Bool
  traversable : Bool
  deriving DecidableEq

def AccessDecision.refused : AccessDecision := ⟨false, false, false, false⟩

inductive FilterError where
  | hidden | blocked
  deriving DecidableEq

variable (lib : Library) (f : AccessFilter)

def AccessFilter.resource (relative : Text) : Text :=
  if relative = [] ∨ relative = [dot] then f.base else f.base ++ slash :: relative

def directoryDecision (list : Decision) : AccessDecision :=
  if list.allowed then ⟨true, false, false, true⟩
  else ⟨list.visibility == .visible, list.visibility == .visible, false, false⟩

def fileDecision (list read : Decision) : AccessDecision :=
  if list.allowed && read.allowed then ⟨true, false, true, false⟩
  -- a rule that only lists shows the name, one that only reads opens the file
  else if list.allowed && !read.allowed && !read.restricted then ⟨true, true, false, false⟩
  else if read.allowed && !list.allowed && !list.restricted then ⟨false, false, true, false⟩
  else if !list.allowed && list.visibility != .visible || !read.allowed && read.visibility != .visible
  then .refused
  else ⟨true, true, false, false⟩

def AccessFilter.decide (relative : Text) (info : FileKind) : AccessDecision :=
  if isRooted letters relative || containsAny relative [backslash, 0] ||
      (relative.splitOn slash).contains [dot, dot] then .refused
  else
    match info with
    | .directory =>
      directoryDecision (f.context.evaluate lib (f.resource relative) (ascii "list") .directory)
    | .regular =>
      fileDecision (f.context.evaluate lib (f.resource relative) (ascii "list") .file)
        (f.context.evaluate lib (f.resource relative) (ascii "read") .file)
    | .other => .refused

/-- No directory on the way, from the mount's root on, may deny to be listed. -/
def AccessFilter.checkParts : Text → List Text → Option FilterError
  | _, [] => none
  | resource, part :: rest =>
    if part = [] ∨ part = [dot] ∨ part = [dot, dot] then some .hidden
    else if (f.context.evaluate lib resource (ascii "list") .directory).denied then some .hidden
    else checkParts (resource ++ slash :: part) rest

def AccessFilter.checkAncestors (relative : Text) : Option FilterError :=
  if isRooted letters relative || containsAny relative [backslash, 0] then some .hidden
  else if relative = [] ∨ relative = [dot] then none
  else f.checkParts lib f.base (relative.splitOn slash)

def AccessFilter.checkRoot (relative : Text) (info : FileKind) : Option FilterError :=
  match f.checkAncestors lib relative with
  | some err => some err
  | none =>
    let decision := f.decide lib relative info
    if info = .directory ∧ decision.traversable = true ∨ info = .regular ∧ decision.readable = true
    then none
    else if decision.visible then some .blocked
    else some .hidden

def AccessFilter.allowsListedEntry (relative : Text) (kind : EntryType) : Bool :=
  match kind with
  | .directory =>
    let decision := f.decide lib relative .directory
    decision.visible && decision.traversable
  | .file =>
    let decision := f.decide lib relative .regular
    decision.visible && decision.readable
  | .other => false

def AccessFilter.allowsEntryCapability (relative : Text) (kind : EntryType) (capability : Text) :
    Bool :=
  if kind = .other ∨ isRooted letters relative = true ∨ containsAny relative [backslash, 0] = true
  then false
  else (f.context.evaluate lib (f.resource relative) capability kind).allowed

def cleanRelativeSlash (relative : Text) : Text :=
  let cleaned := trimSlashes (slashed (trimSpace relative))
  if cleaned = [] ∨ cleaned = [dot] then [] else cleaned

/-- The operations that check the path they were given before they go on. -/
inductive FilteredOperation where
  | openFiltered | metadataFiltered | listPageFiltered | search | diskUsage | manifestFiltered
  deriving DecidableEq

def FilteredOperation.takes : FilteredOperation → FileKind → Bool
  | .search, info => info == .directory
  | .diskUsage, info => info == .directory
  | .manifestFiltered, info => info != .other
  | _, _ => true

inductive RootError where
  | path (err : PathError)
  | stat (err : StatError)
  | invalid
  | filtered (err : FilterError)
  deriving DecidableEq

/-- The start of a filtered operation, up to its root check: the path on disk it goes on
with. -/
def FilteredOperation.root (op : FilteredOperation) (disk : Disk)
    (stat : Text → Except StatError FileKind) (found : Except PathError Mount) (relative : Text) :
    Except RootError Text :=
  match resolvePath disk found relative false false with
  | .error err => .error (.path err)
  | .ok resolved =>
    match stat resolved with
    | .error err => .error (.stat err)
    | .ok info =>
      if op.takes info = false then .error .invalid
      else
        match f.checkRoot lib (cleanRelativeSlash relative) info with
        | some err => .error (.filtered err)
        | none => .ok resolved

end Model

section Judged

variable {lib : Library} {f : AccessFilter}

theorem checkParts_names {resource : Text} {parts : List Text}
    (passed : f.checkParts lib resource parts = none) :
    ∀ part ∈ parts, part ≠ [] ∧ part ≠ [dot] ∧ part ≠ letters.parent := by
  induction parts generalizing resource with
  | nil => simp
  | cons part parts ih =>
    rw [AccessFilter.checkParts] at passed
    split_ifs at passed with name
    simp only [not_or] at name
    exact List.forall_mem_cons.mpr ⟨name, ih passed⟩

theorem FilteredOperation.root_ok {op : FilteredOperation} {disk : Disk}
    {stat : Text → Except StatError FileKind} {found : Except PathError Mount}
    {relative resolved : Text} (passed : op.root lib f disk stat found relative = .ok resolved) :
    resolvePath disk found relative false false = .ok resolved ∧
      f.checkAncestors lib (cleanRelativeSlash relative) = none := by
  unfold FilteredOperation.root at passed
  split at passed
  · cases passed
  rename_i candidate opened
  split at passed
  · cases passed
  split at passed
  · cases passed
  split at passed
  · cases passed
  rename_i checked
  cases passed
  refine ⟨opened, ?_⟩
  unfold AccessFilter.checkRoot at checked
  split at checked
  · cases checked
  · assumption

theorem elements_of_names {path : Text}
    (names : ∀ part ∈ path.splitOn slash, part ≠ [] ∧ part ≠ [dot] ∧ part ≠ letters.parent) :
    joinElements letters (elements letters path) = path ∧ letters.parent ∉ elements letters path := by
  have all : elements letters path = path.splitOn slash :=
    List.filter_eq_self.mpr fun part known => isName_iff.mpr ⟨(names part known).1, (names part known).2.1⟩
  rw [all]
  exact ⟨List.intercalate_splitOn slash, fun inside => (names _ inside).2.2 rfl⟩

theorem resource_of_checked {relative : Text}
    (checked : f.checkAncestors lib (cleanRelativeSlash relative) = none) :
    f.resource (cleanRelativeSlash relative) =
        followed f.base (elements letters (slashed (trimSpace relative))) ∧
      letters.parent ∉ elements letters (slashed (trimSpace relative)) := by
  have kept : elements letters (trimSlashes (slashed (trimSpace relative))) =
      elements letters (slashed (trimSpace relative)) := elements_trim _
  rw [← kept]
  unfold cleanRelativeSlash at checked ⊢
  generalize trimSlashes (slashed (trimSpace relative)) = cleaned at checked ⊢
  dsimp only at checked ⊢
  split at checked
  · rename_i root
    have none : elements letters cleaned = [] := by
      rcases root with rfl | rfl <;> decide
    rw [if_pos root, none]
    simp [AccessFilter.resource, followed]
  · rename_i named
    rw [if_neg named]
    unfold AccessFilter.checkAncestors at checked
    rw [if_neg named] at checked
    split at checked
    · cases checked
    obtain ⟨whole, down⟩ := elements_of_names (checkParts_names checked)
    have nonempty : elements letters cleaned ≠ [] := by
      intro none
      rw [none] at whole
      exact named (.inl whole.symm)
    rw [AccessFilter.resource, if_neg named, ← followed_join nonempty, whole]
    exact ⟨rfl, down⟩

theorem followed_slashed_iff {base path : Text} :
    followed base (elements letters (slashed path)) = followed base (elements letters path) ↔
      backslash ∉ path := by
  constructor
  · intro same inside
    have known := backslash_mem_components.mpr (mem_elements (a := letters) inside
      (by decide) (by decide))
    rw [← List.append_cancel_left same] at known
    obtain ⟨c, listed, here⟩ := backslash_mem_components.mp known
    exact backslash_not_mem_slashed path (mem_of_mem_elements listed here (by decide))
  · intro free
    rw [slashed_of_free free]

/-- Past its root check, a filtered operation has judged the entry it goes on with exactly
where the path it was given has no backslash. -/
theorem filter_judges_opened_entry_iff (lib : Library) (f : AccessFilter) (op : FilteredOperation)
    (disk : Disk) (stat : Text → Except StatError FileKind) (mount : Mount)
    (relative resolved : Text)
    (passed : op.root lib f disk stat (.ok mount) relative = .ok resolved) :
    f.resource (cleanRelativeSlash relative) = followed f.base (below mount.localPath resolved) ↔
      backslash ∉ relative := by
  obtain ⟨opened, checked⟩ := FilteredOperation.root_ok passed
  obtain ⟨judged, down⟩ := resource_of_checked checked
  obtain ⟨_, same, rfl⟩ := resolvePath_ok opened
  cases same
  have barred : ∀ p ∈ spaces, backslash ∉ p := by decide
  rw [judged, below_joinPath mount (elements_free down), followed_slashed_iff,
    mem_trimSpace_iff barred]

theorem sample_base : filterBase (mountScope (ascii "n") (ascii "m")) = true := by decide +kernel

def sampleFilter : AccessFilter where
  context := ⟨[⟨ascii "nodes/n/files/mounts/m/a/**", .hidden, none, [ascii "read", ascii "list"]⟩]⟩
  base := mountScope (ascii "n") (ascii "m")
  proper := sample_base

def sampleStat (_ : Text) : Except StatError FileKind := .ok .regular

theorem sample_filter_judges_entry :
    sampleFilter.resource (cleanRelativeSlash (ascii " a/b ")) =
      followed sampleFilter.base (below sampleMount.localPath (ascii "/data/a/b")) :=
  (filter_judges_opened_entry_iff sampleLibrary sampleFilter .openFiltered sampleDisk sampleStat
    sampleMount (ascii " a/b ") (ascii "/data/a/b") (by decide +kernel)).mpr (by decide)

/-- The file "a\\b" of the mount's root is opened as a file of the directory "a". -/
theorem filter_judges_other_entry :
    FilteredOperation.openFiltered.root sampleLibrary sampleFilter sampleDisk sampleStat
        (.ok sampleMount) (ascii "a\\b") = .ok (ascii "/data/a\\b") ∧
      sampleFilter.resource (cleanRelativeSlash (ascii "a\\b")) =
        ascii "nodes/n/files/mounts/m/a/b" ∧
      followed sampleFilter.base (below sampleMount.localPath (ascii "/data/a\\b")) =
        ascii "nodes/n/files/mounts/m/a\\b" ∧
      sampleFilter.checkRoot sampleLibrary (ascii "a\\b") .regular = some .hidden := by
  decide +kernel

end Judged

section Grants

variable {lib : Library} {resource capability : Text} {entry : EntryType} {f : Filter}

/-- Some rule denies the capability, and each one that does leaves the entry visible. -/
def Filter.Exposes (lib : Library) (f : Filter) (resource capability : Text) (entry : EntryType) :
    Prop :=
  (∃ c ∈ f.rules, c.effect lib resource capability entry = .deny) ∧
    ∀ c ∈ f.rules, c.effect lib resource capability entry = .deny → c.visibility = .visible

instance : Decidable (f.Exposes lib resource capability entry) := inferInstanceAs (Decidable (_ ∧ _))

def Ungranted (f : Filter) (resource capability : Text) : Prop :=
  ∀ c ∈ f.rules, (matchPath c.path resource).isSome = true → c.allows capability = false

theorem Ungranted.restricts_iff (ungranted : Ungranted f resource capability)
    (shown : shows capability = true) {c : CompiledRule} (known : c ∈ f.rules) :
    c.restricts lib resource capability entry = true ↔
      c.effect lib resource capability entry = .deny := by
  unfold CompiledRule.restricts CompiledRule.effect
  cases spoken : c.speaks resource entry with
  | false => simp
  | true =>
    rw [ungranted c known (Bool.and_eq_true_iff.mp spoken).1]
    cases c.matchesType lib resource entry <;> cases c.refuses capability <;> simp [shown]

/-- Without a grant nothing is allowed, and only denials can show an entry. -/
theorem Ungranted.evaluate (ungranted : Ungranted f resource (folded lib capability))
    (asked : answerable lib resource (folded lib capability) entry = true)
    (shown : shows (folded lib capability) = true) :
    (f.evaluate lib resource capability entry).allowed = false ∧
      ((f.evaluate lib resource capability entry).visibility = .visible ↔
        f.Exposes lib resource (folded lib capability) entry) := by
  rw [f.evaluate_eq asked]
  constructor
  · rw [← Bool.not_eq_true, permits_iff]
    rintro ⟨⟨c, known, allows⟩, _⟩
    unfold CompiledRule.effect at allows
    split_ifs at allows with spoken _ allowed
    have matched := (Bool.and_eq_true_iff.mp (Bool.and_eq_true_iff.mp spoken).1).1
    cases (ungranted c known matched).symm.trans allowed
  · have hides (v : Visibility) : ¬(v == .hidden) = true ↔ v = .visible := by cases v <;> simp
    have same (c : CompiledRule) (known : c ∈ f.rules) :=
      @Ungranted.restricts_iff lib _ _ entry f ungranted shown c known
    have picks (p : Prop) [Decidable p] :
        (if p then Visibility.visible else .hidden) = .visible ↔ p := by
      split <;> simp_all
    simp only [Bool.and_eq_true, Bool.not_eq_true', List.any_eq_true, List.any_eq_false, not_and, hides]
    rw [picks]
    exact and_congr (exists_congr fun c => and_congr_right (same c))
      (forall₂_congr fun c known => imp_congr_left (same c known))

/-- Where no rule that reaches a file or a directory grants to list or to read it, it is out of reach.
It is seen exactly if rules deny it, to be listed and if it is a file also to be read, and every rule
that does so is marked visible. -/
theorem seen_without_grant_iff (lib : Library) (f : AccessFilter) (relative : Text)
    (kind : FileKind) (placed : kind ≠ .other)
    (unlisted : Ungranted f.context (f.resource relative) (ascii "list"))
    (unread : Ungranted f.context (f.resource relative) (ascii "read")) :
    (f.decide lib relative kind).readable = false ∧ (f.decide lib relative kind).traversable = false ∧
      ((f.decide lib relative kind).visible = true ↔
        isRooted letters relative = false ∧ containsAny relative [backslash, 0] = false ∧
        [dot, dot] ∉ relative.splitOn slash ∧ validResource lib (f.resource relative) = true ∧
        match kind with
        | .regular => f.context.Exposes lib (f.resource relative) (ascii "list") .file ∧
            f.context.Exposes lib (f.resource relative) (ascii "read") .file
        | _ => f.context.Exposes lib (f.resource relative) (ascii "list") .directory) := by
  have judged (capability : Text) (entry : EntryType) (still : folded lib capability = capability)
      (known : validCaps.contains capability = true ∧ (capability != deny) = true ∧
        shows capability = true) (placed : (entry != .other) = true)
      (ungranted : Ungranted f.context (f.resource relative) capability) :
      (f.context.evaluate lib (f.resource relative) capability entry).allowed = false ∧
        ((f.context.evaluate lib (f.resource relative) capability entry).visibility = .visible ↔
          validResource lib (f.resource relative) = true ∧
            f.context.Exposes lib (f.resource relative) capability entry) := by
    rw [← still] at known ungranted
    cases valid : validResource lib (f.resource relative) with
    | false =>
      have unasked : answerable lib (f.resource relative) (folded lib capability) entry = false := by
        simp [answerable, valid]
      simp [f.context.evaluate_unanswerable unasked]
    | true =>
      have asked : answerable lib (f.resource relative) (folded lib capability) entry = true := by
        simp only [answerable, valid, known, placed, Bool.and_self]
      have both := ungranted.evaluate asked known.2.2
      rw [still] at both
      simpa using both
  have list (entry : EntryType) (placed : (entry != .other) = true) :=
    judged (ascii "list") entry rfl (by decide) placed unlisted
  obtain ⟨unread, hidden⟩ := judged (ascii "read") .file rfl (by decide) (by decide) unread
  unfold AccessFilter.decide
  split
  · rename_i refused
    refine ⟨rfl, rfl, iff_of_false (by decide) ?_⟩
    rintro ⟨unrooted, plain, down, _⟩
    simp [unrooted, plain, down] at refused
  · rename_i passed
    simp only [Bool.or_eq_true, List.contains_iff_mem, not_or, Bool.not_eq_true, and_assoc] at passed
    cases kind with
    | other => exact absurd rfl placed
    | directory =>
      obtain ⟨unlisted, shown⟩ := list .directory (by decide)
      simp [directoryDecision, unlisted, passed, shown]
    | regular =>
      obtain ⟨unlisted, shown⟩ := list .file (by decide)
      simp only [fileDecision, unlisted, unread, Bool.false_and, Bool.false_eq_true, if_false,
        Bool.not_false, Bool.true_and, Bool.or_eq_true, bne_iff_ne, ne_eq, shown, hidden, passed]
      split
      · rename_i out
        refine ⟨rfl, rfl, iff_of_false (by decide) ?_⟩
        rintro ⟨_, _, _, valid, listed, read⟩
        exact out.elim (· ⟨valid, listed⟩) (· ⟨valid, read⟩)
      · rename_i seen
        rw [not_or, not_not, not_not] at seen
        simp [seen]

/-- A filter of one rule, which denies everything below the directory "a". -/
def denyingFilter (visibility : Visibility) : AccessFilter where
  context := ⟨[⟨ascii "nodes/n/files/mounts/m/a/**", visibility, none, [deny]⟩]⟩
  base := mountScope (ascii "n") (ascii "m")
  proper := sample_base

theorem denied_file_unseen :
    ((denyingFilter .hidden).decide sampleLibrary (ascii "a/b") .regular).readable = false ∧
      ((denyingFilter .hidden).decide sampleLibrary (ascii "a/b") .regular).visible = false := by
  obtain ⟨unread, _, seen⟩ := seen_without_grant_iff sampleLibrary (denyingFilter .hidden)
    (ascii "a/b") .regular (by decide) (by unfold Ungranted; decide +kernel)
    (by unfold Ungranted; decide +kernel)
  exact ⟨unread, Bool.eq_false_iff.mpr (seen.not.mpr (by decide +kernel))⟩

/-- The only rule denies the file, and by being marked visible it shows it. -/
theorem denied_file_shown :
    Context.compile sampleLibrary ⟨1, [⟨ascii "p", ascii "nodes/n/files/mounts/m/a/**", [deny], none,
        ascii "visible"⟩]⟩ = .ok (denyingFilter .visible).context ∧
      (denyingFilter .visible).decide sampleLibrary (ascii "a/b") .regular =
        ⟨true, true, false, false⟩ := by
  decide +kernel

end Grants

end Jolt.Access
