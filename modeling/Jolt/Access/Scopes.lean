import Jolt.Base.Paths

/-! The path of a file as control and a node read it. Control makes a resource path for
its policies out of the string a request carries; the node resolves the same string below
the root of a mount. Both trim and clean it, each in its own way. Strings are bytes. -/
namespace Jolt.Access
open Jolt.Base List

section Text

abbrev Text := List UInt8

instance : LawfulBEq Text := inferInstance

def ascii (s : String) : Text := s.toList.map fun c => UInt8.ofNat c.toNat

def slash : UInt8 := 47
def dot : UInt8 := 46
def backslash : UInt8 := 92

def letters : Alphabet UInt8 := ⟨slash, dot⟩

def spaces : List Text :=
  [[9], [10], [11], [12], [13], [32], [0xC2, 0x85], [0xC2, 0xA0], [0xE1, 0x9A, 0x80],
    [0xE2, 0x80, 0x80], [0xE2, 0x80, 0x81], [0xE2, 0x80, 0x82], [0xE2, 0x80, 0x83],
    [0xE2, 0x80, 0x84], [0xE2, 0x80, 0x85], [0xE2, 0x80, 0x86], [0xE2, 0x80, 0x87],
    [0xE2, 0x80, 0x88], [0xE2, 0x80, 0x89], [0xE2, 0x80, 0x8A], [0xE2, 0x80, 0xA8],
    [0xE2, 0x80, 0xA9], [0xE2, 0x80, 0xAF], [0xE2, 0x81, 0x9F], [0xE3, 0x80, 0x80]]

/-- `strings.TrimSpace` -/
def trimSpace (s : Text) : Text := trim spaces s

/-- `strings.Trim(s, "/")` -/
def trimSlashes (s : Text) : Text := trim [[slash]] s

/-- `strings.ReplaceAll(s, "\\", "/")` -/
def slashed (s : Text) : Text := s.map fun b => if b = backslash then slash else b

end Text

section Control

def scopeSegments : List Text → Option (List Text)
  | [] => some []
  | segment :: rest =>
    if segment = [] ∨ segment = [dot] then scopeSegments rest
    else if segment = [dot, dot] then none
    else (scopeSegments rest).map (segment :: ·)

def fileScope (base relative : Text) : Text :=
  let relative := trimSlashes (slashed (trimSpace relative))
  if relative = [] ∨ relative = [dot] then base
  else
    match scopeSegments (relative.splitOn slash) with
    | none => []
    | some [] => base
    | some segments => base ++ slash :: joinElements letters segments

def normalizePath (value : Text) : Text :=
  let value := trimSlashes (trimSpace value)
  if value = ascii "workers" then ascii "nodes"
  else if (ascii "workers/").isPrefixOf value then
    ascii "nodes/" ++ value.drop (ascii "workers/").length
  else value

def mountScope (nodeID mountID : Text) : Text :=
  ascii "nodes/" ++ nodeID ++ ascii "/files/mounts/" ++ mountID

end Control

section Node

inductive PathError where
  | unavailable (text : String)
  | disabled
  | traversal
  | hiddenName
  | notFound
  deriving DecidableEq

/-- A mount with the absolute path of its root, which is stored cleaned. -/
structure Mount where
  enabled : Bool
  hiddenName : Text → Bool
  localPath : Text
  rooted : isRooted letters localPath = true
  cleaned : clean letters localPath = localPath

inductive StatError where
  | notExist
  | failed (text : String)
  deriving DecidableEq

structure Disk where
  rejectProtectedTree : Text → Option String
  stat : Text → Except StatError Unit
  lstat : Text → Except StatError Unit

def cleanRelative (path : Text) : Text :=
  let path := trimSpace path
  if path = [] then [dot] else clean letters path

/-- `filepath.Join` of a root and a path. -/
def joinPath (root path : Text) : Text := clean letters (root ++ slash :: path)

/-- `filepath.Dir` -/
def dirPath (path : Text) : Text :=
  clean letters ((path.reverse.dropWhile (· ≠ slash)).reverse)

/- The way from one absolute path to another climbs unless the elements of the first
begin the second. -/
def within (root candidate : Text) : Bool :=
  (elements letters root).isPrefixOf (elements letters candidate)

def leadsUp (path : Text) : Bool := path == [dot, dot] || [dot, dot, slash].isPrefixOf path

def statError : StatError → PathError
  | .notExist => .notFound
  | .failed text => .unavailable text

def resolvePath (disk : Disk) (found : Except PathError Mount) (relative : Text)
    (allowMissing allowFinalLink : Bool) : Except PathError Text :=
  match found with
  | .error err => .error err
  | .ok mount =>
    let clean := cleanRelative relative
    let candidate := joinPath mount.localPath clean
    let check := if allowMissing || allowFinalLink then dirPath candidate else candidate
    if mount.enabled = false then .error .disabled
    else if isRooted letters relative || leadsUp clean then .error .traversal
    else if (clean.splitOn slash).any (fun part => part != [dot] && mount.hiddenName part) then
      .error (if allowMissing then .hiddenName else .notFound)
    else if within mount.localPath candidate = false then .error .traversal
    else
      match if allowMissing then disk.rejectProtectedTree candidate else none with
      | some text => .error (.unavailable text)
      | none =>
        match disk.stat check, if allowFinalLink then disk.lstat candidate else .ok () with
        | .error err, _ => .error (statError err)
        | .ok (), .error err => .error (statError err)
        | .ok (), .ok () => .ok candidate

def below (root candidate : Text) : List Text :=
  (elements letters candidate).drop (elements letters root).length

end Node

section Scopes

def followed (base : Text) (components : List Text) : Text :=
  base ++ (components.map (slash :: ·)).flatten

theorem followed_join {base : Text} {cs : List Text} (nonempty : cs ≠ []) :
    base ++ slash :: joinElements letters cs = followed base cs := by
  have joined : slash :: joinElements letters cs = (cs.map (slash :: ·)).flatten := by
    induction cs with
    | nil => exact absurd rfl nonempty
    | cons c cs ih =>
      cases cs with
      | nil => simp [joinElements]
      | cons c' cs =>
        have rest := ih (cons_ne_nil c' cs)
        rw [map_cons, flatten_cons, ← rest]
        simp [joinElements, List.intercalate, letters]
  rw [joined]
  rfl

theorem scopeSegments_eq (segments : List Text) :
    scopeSegments segments = if letters.parent ∈ segments then none
      else some (segments.filter (isName letters)) := by
  induction segments with
  | nil => rfl
  | cons segment rest ih =>
    rw [scopeSegments]
    by_cases blank : segment = [] ∨ segment = [dot]
    · have other : letters.parent ≠ segment := by rcases blank with rfl | rfl <;> decide
      have nameless : ¬ isName letters segment = true := by
        rw [isName_iff]
        exact fun name => not_or.mpr name blank
      rw [if_pos blank, ih, filter_cons_of_neg nameless]
      simp only [mem_cons, other, false_or]
    · rw [if_neg blank]
      have name : isName letters segment = true := isName_iff.mpr (not_or.mp blank)
      by_cases up : segment = [dot, dot]
      · rw [if_pos up, if_pos]
        exact up ▸ mem_cons_self
      have other : letters.parent ≠ segment := fun same => up same.symm
      rw [if_neg up, ih, filter_cons_of_pos name]
      simp only [mem_cons, other, false_or]
      split_ifs <;> rfl

theorem fileScope_eq (base relative : Text) :
    fileScope base relative =
      if letters.parent ∈ elements letters (slashed (trimSpace relative)) then []
      else followed base (elements letters (slashed (trimSpace relative))) := by
  have same : elements letters (trimSlashes (slashed (trimSpace relative))) =
      elements letters (slashed (trimSpace relative)) := elements_trim _
  unfold fileScope
  rw [← same]
  generalize trimSlashes (slashed (trimSpace relative)) = path
  by_cases blank : path = [] ∨ path = [dot]
  · have empty : elements letters path = [] := by rcases blank with rfl | rfl <;> decide
    rw [if_pos blank, empty]
    simp [followed]
  · have upwards : letters.parent ∈ path.splitOn slash ↔ letters.parent ∈ elements letters path := by
      rw [elements, mem_filter, and_iff_left isName_parent]
      rfl
    rw [if_neg blank, scopeSegments_eq]
    by_cases up : letters.parent ∈ elements letters path
    · rw [if_pos up, if_pos (upwards.mpr up)]
    rw [if_neg up, if_neg (fun there => up (upwards.mp there))]
    have names : (path.splitOn slash).filter (isName letters) = elements letters path := rfl
    rw [names]
    cases elements letters path with
    | nil => simp [followed]
    | cons c cs => exact followed_join (cons_ne_nil c cs)

theorem spaces_proper : [] ∉ spaces := by decide

theorem spaces_barred : ∀ p ∈ spaces, slash ∉ p := by decide

theorem trimSpace_mem {text : Text} {b : UInt8} (inside : b ∈ trimSpace text) : b ∈ text :=
  (trimStart_suffix text).mem ((trimEnd_begins _).mem inside)

theorem mem_trimSpace_iff {text : Text} {b : UInt8} (other : ∀ p ∈ spaces, b ∉ p) :
    b ∈ trimSpace text ↔ b ∈ text := by
  have front := @trimStart_preserves _ _ spaces _ (fun s => decide (b ∈ s)) (by
    intro p known rest
    simp [other p known]) text
  have back := @trimEnd_preserves _ _ spaces _ (fun s => decide (b ∈ s)) (by
    intro p known rest
    simp [other p known]) (trimStart spaces text)
  exact decide_eq_decide.mp (back.trans front)

theorem leadsUp_clean (path : Text) :
    leadsUp (clean letters path) = true ↔
      isRooted letters path = false ∧ (cleanElements letters path).head? = some letters.parent := by
  have kept := @elements_clean _ _ letters path
  rw [leadsUp, Bool.or_eq_true, beq_iff_eq, isPrefixOf_iff_prefix]
  constructor
  · intro up
    have first : (clean letters path).head? = some dot := by
      rcases up with same | ⟨rest, same⟩
      · rw [same]
        rfl
      · rw [← same]
        rfl
    have unrooted : isRooted letters path = false := by
      cases rooted : isRooted letters path with
      | false => rfl
      | true =>
        rw [clean, if_pos rooted] at first
        exact absurd (Option.some.inj first) (by decide)
    refine ⟨unrooted, ?_⟩
    rcases up with same | ⟨rest, same⟩
    · rw [same] at kept
      rw [← kept]
      decide
    · have split : elements letters (clean letters path) =
          elements letters letters.parent ++ elements letters rest := by
        rw [← same]
        exact elements_append_cons letters.parent rest
      rw [← kept, split]
      rfl
  · rintro ⟨unrooted, head⟩
    cases es : cleanElements letters path with
    | nil =>
      rw [es] at head
      cases head
    | cons e rest =>
      rw [es] at head
      obtain rfl : e = letters.parent := Option.some.inj head
      rw [clean, unrooted, es]
      cases rest with
      | nil => exact .inl rfl
      | cons next rest => exact .inr ⟨joinElements letters (next :: rest), by
          simp [joinElements, List.intercalate, letters, Alphabet.parent]⟩

end Scopes

section Opening

theorem resolvePath_ok {disk : Disk} {found : Except PathError Mount} {relative candidate : Text}
    {allowMissing allowFinalLink : Bool}
    (opened : resolvePath disk found relative allowMissing allowFinalLink = .ok candidate) :
    ∃ mount, found = .ok mount ∧ candidate = joinPath mount.localPath (cleanRelative relative) := by
  cases found with
  | error err => cases opened
  | ok mount =>
    refine ⟨mount, rfl, ?_⟩
    simp only [resolvePath] at opened
    split at opened
    · cases opened
    split at opened
    · cases opened
    split at opened
    · cases opened
    split at opened
    · cases opened
    split at opened
    · cases opened
    split at opened
    · cases opened
    · cases opened
    · cases opened
      rfl

theorem Mount.parent_not_mem (mount : Mount) :
    letters.parent ∉ elements letters mount.localPath := by
  rw [← mount.cleaned, elements_clean]
  exact (cleanElements_kept mount.localPath).2 mount.rooted

theorem elements_cleanRelative {relative : Text}
    (down : letters.parent ∉ elements letters (trimSpace relative)) :
    elements letters (cleanRelative relative) = elements letters (trimSpace relative) := by
  unfold cleanRelative
  dsimp only
  split_ifs with empty
  · rw [empty]
    decide
  · rw [elements_clean, cleanElements_eq down]

theorem below_joinPath (mount : Mount) {relative : Text}
    (down : letters.parent ∉ elements letters (trimSpace relative)) :
    below mount.localPath (joinPath mount.localPath (cleanRelative relative)) =
      elements letters (trimSpace relative) := by
  have split : elements letters (mount.localPath ++ slash :: cleanRelative relative) =
      elements letters mount.localPath ++ elements letters (trimSpace relative) := by
    rw [← elements_cleanRelative down]
    exact elements_append_cons _ _
  have free : letters.parent ∉
      elements letters (mount.localPath ++ slash :: cleanRelative relative) := by
    rw [split, mem_append, not_or]
    exact ⟨mount.parent_not_mem, down⟩
  rw [below, joinPath, elements_clean, cleanElements_eq free, split, drop_left]

end Opening

section Agreement

def endsBlank (text : Text) : Bool := (spaces ++ [[slash]]).any fun p => p.isSuffixOf text

theorem endsBlank_eq_false_iff {text : Text} :
    endsBlank text = false ↔ (∀ p ∈ spaces, ¬ p <:+ text) ∧ ∀ p ∈ [[slash]], ¬ p <:+ text := by
  rw [endsBlank, any_eq_false, forall_mem_append]
  simp only [isSuffixOf_iff_suffix]

theorem normalizePath_eq (rest : Text) :
    normalizePath (110 :: rest) = trimEnd [[slash]] (trimEnd spaces (110 :: rest)) := by
  have start : trimSpace (110 :: rest) = trimEnd spaces (110 :: rest) := by
    rw [trimSpace, trim, trimStart_cons (by decide)]
  obtain ⟨cut, split⟩ := @trimEnd_begins _ _ spaces (110 :: rest)
  unfold normalizePath
  rw [start]
  cases kept : trimEnd spaces (110 :: rest) with
  | nil => decide
  | cons x kept' =>
    rw [kept, cons_append, List.cons.injEq] at split
    have letter : x = 110 := split.1
    have slashes : trimSlashes (x :: kept') = trimEnd [[slash]] (x :: kept') := by
      rw [trimSlashes, trim, letter, trimStart_cons (by decide)]
    rw [slashes]
    obtain ⟨cut', split'⟩ := @trimEnd_begins _ _ [[slash]] (x :: kept')
    cases last : trimEnd [[slash]] (x :: kept') with
    | nil => decide
    | cons y last' =>
      rw [last, cons_append, List.cons.injEq] at split'
      have letter' : y = 110 := split'.1.trans letter
      have other : y :: last' ≠ ascii "workers" := by
        rw [letter']
        exact fun same => absurd (List.cons.inj same).1 (by decide)
      have longer : ¬ (ascii "workers/").isPrefixOf (y :: last') = true := by
        rw [letter', isPrefixOf_iff_prefix]
        exact fun begins => absurd (cons_prefix_cons.mp begins).1 (by decide)
      rw [if_neg other, if_neg longer]

theorem trimEnd_twice_iff {text : Text} :
    trimEnd [[slash]] (trimEnd spaces text) = text ↔ endsBlank text = false := by
  rw [endsBlank_eq_false_iff, ← trimEnd_eq_self_iff (by decide), ← trimEnd_eq_self_iff (by decide)]
  constructor
  · intro same
    have first : trimEnd spaces text = text := by
      have shorter := (@trimEnd_begins _ _ [[slash]] (trimEnd spaces text)).length_le
      rw [same] at shorter
      exact (trimEnd_begins text).eq_of_length_le shorter
    rw [first] at same
    exact ⟨first, same⟩
  · rintro ⟨first, second⟩
    rw [first, second]

theorem suffix_append_cons_iff {x : UInt8} {p pre part : Text} (free : x ∉ p) :
    p <:+ pre ++ x :: part ↔ p <:+ part := by
  constructor
  · intro ends
    rcases suffix_or_suffix_of_suffix ends (suffix_append pre (x :: part)) with
      inner | outer
    · rcases suffix_cons_iff.mp inner with same | tail
      · exact absurd (same ▸ mem_cons_self) free
      · exact tail
    · exact absurd (outer.mem mem_cons_self) free
  · exact fun ends => (ends.trans (suffix_cons x part)).trans (suffix_append pre _)

theorem followed_concat (base : Text) (cs : List Text) (c : Text) :
    followed base (cs ++ [c]) = followed base cs ++ slash :: c := by
  simp [followed]

theorem slash_not_suffix {start c : Text} (nonempty : c ≠ []) (free : slash ∉ c) :
    ∀ p ∈ [[slash]], ¬ p <:+ start ++ c := by
  intro p known ends
  rw [mem_singleton.mp known] at ends
  rcases suffix_or_suffix_of_suffix ends (suffix_append start c) with inner | outer
  · exact free (inner.mem mem_cons_self)
  rcases suffix_cons_iff.mp outer with same | none
  · exact free (same ▸ mem_cons_self)
  · exact nonempty (suffix_nil.mp none)

theorem endsBlank_followed {base : Text} {cs : List Text} (names : ∀ c ∈ cs, c ≠ [] ∧ slash ∉ c) :
    endsBlank (followed base cs) = endsBlank (cs.getLastD base) := by
  cases cs using List.reverseRecOn with
  | nil => simp [followed]
  | append_singleton cs c _ =>
    obtain ⟨letters, free⟩ := names c (mem_append_right cs mem_cons_self)
    have spaced : ∀ p ∈ spaces, (¬ p <:+ followed base cs ++ slash :: c ↔ ¬ p <:+ c) := by
      intro p known
      have plain : slash ∉ p := (by decide : ∀ p ∈ spaces, slash ∉ p) p known
      rw [suffix_append_cons_iff plain]
    have same : endsBlank (followed base cs ++ slash :: c) = false ↔ endsBlank c = false := by
      rw [endsBlank_eq_false_iff, endsBlank_eq_false_iff, forall₂_congr spaced]
      have whole := @slash_not_suffix (followed base cs ++ [slash]) c letters free
      rw [append_assoc, singleton_append] at whole
      exact and_congr_right fun _ => iff_of_true whole (@slash_not_suffix [] c letters free)
    rw [followed_concat, getLastD_concat]
    exact Bool.eq_iff_iff.mpr (not_iff_not.mp (by simpa using same))

theorem elements_free {relative : Text}
    (down : letters.parent ∉ elements letters (slashed relative)) :
    letters.parent ∉ elements letters relative := by
  intro inside
  obtain ⟨there, name⟩ := mem_filter.mp inside
  have split := splitOn_map (a := letters) (fun b => if b = backslash then slash else b) rfl relative
  have kept : letters.parent ∈ (slashed relative).splitOn letters.slash := by
    rw [slashed, split, mem_flatMap]
    exact ⟨letters.parent, there, by decide⟩
  exact down (mem_filter.mpr ⟨kept, name⟩)

theorem slashed_of_free {text : Text} (free : backslash ∉ text) : slashed text = text := by
  have same : ∀ b ∈ text, (if b = backslash then slash else b) = id b := by
    rintro b inside
    exact if_neg fun (equal : b = backslash) => free (equal ▸ inside)
  exact (map_congr_left same).trans (map_id text)

theorem backslash_not_mem_slashed (text : Text) : backslash ∉ slashed text := by
  intro inside
  obtain ⟨b, _, equal⟩ := mem_map.mp inside
  split_ifs at equal with here
  · cases equal
  · exact here equal

theorem backslash_mem_components {cs : List Text} :
    backslash ∈ (cs.map (slash :: ·)).flatten ↔ ∃ c ∈ cs, backslash ∈ c := by
  have other : backslash ≠ slash := by decide
  simp [other]

/-- The resource path that control evaluates names the entry the node opens exactly where
the path has no backslash and its last component, or the mount itself, does not end in
white space or a slash. -/
theorem scope_names_opened_entry (nodeID mountID relative candidate : Text) (disk : Disk)
    (mount : Mount) (allowMissing allowFinalLink : Bool)
    (granted : fileScope (mountScope nodeID mountID) relative ≠ [])
    (opened : resolvePath disk (.ok mount) relative allowMissing allowFinalLink = .ok candidate) :
    normalizePath (fileScope (mountScope nodeID mountID) relative) =
        followed (mountScope nodeID mountID) (below mount.localPath candidate) ↔
      backslash ∉ trimSpace relative ∧
        endsBlank ((elements letters (trimSpace relative)).getLastD (mountScope nodeID mountID)) =
          false := by
  rw [fileScope_eq] at granted ⊢
  split_ifs at granted ⊢ with up
  · exact absurd rfl granted
  have down := elements_free up
  obtain ⟨_, same, rfl⟩ := resolvePath_ok opened
  cases same
  rw [below_joinPath mount down]
  generalize trimSpace relative = path at up down ⊢
  obtain ⟨rest, start⟩ : ∃ rest, mountScope nodeID mountID = 110 :: rest := ⟨_, rfl⟩
  generalize mountScope nodeID mountID = base at start ⊢
  have normal : normalizePath (followed base (elements letters (slashed path))) =
      trimEnd [[slash]] (trimEnd spaces (followed base (elements letters (slashed path)))) := by
    rw [followed, start, cons_append, normalizePath_eq]
  have names : ∀ c ∈ elements letters path, c ≠ [] ∧ slash ∉ c := fun c known =>
    elements_names known
  rw [normal, ← endsBlank_followed names]
  constructor
  · intro equal
    -- what the trimming leaves begins the scope, so the components begin control's
    have begins : followed base (elements letters path) <+:
        followed base (elements letters (slashed path)) := by
      rw [← equal]
      exact (trimEnd_begins _).trans (trimEnd_begins _)
    have free : backslash ∉ path := by
      intro inside
      have known := backslash_mem_components.mpr (mem_elements (a := letters) inside
        (by decide) (by decide))
      have there := ((prefix_append_right_inj base).mp begins).mem known
      obtain ⟨c, listed, here⟩ := backslash_mem_components.mp there
      exact backslash_not_mem_slashed path (mem_of_mem_elements listed here (by decide))
    rw [slashed_of_free free] at equal
    exact ⟨free, trimEnd_twice_iff.mp equal⟩
  · rintro ⟨free, ends⟩
    rw [slashed_of_free free]
    exact trimEnd_twice_iff.mpr ends

end Agreement

section Sample

def sampleMount : Mount where
  enabled := true
  hiddenName _ := false
  localPath := ascii "/data"
  rooted := by decide
  cleaned := by decide

def sampleDisk : Disk where
  rejectProtectedTree _ := none
  stat _ := .ok ()
  lstat _ := .ok ()

theorem sample_scope_names_entry :
    normalizePath (fileScope (mountScope (ascii "n") (ascii "m")) (ascii " ./a//b ")) =
      followed (mountScope (ascii "n") (ascii "m"))
        (below sampleMount.localPath (ascii "/data/a/b")) :=
  (scope_names_opened_entry (ascii "n") (ascii "m") (ascii " ./a//b ") (ascii "/data/a/b")
    sampleDisk sampleMount false false (by decide +kernel) (by decide +kernel)).mpr
      (by decide +kernel)

/-- Below the mount control evaluates "a/b" where the node opens the one entry "a\\b", and
"a" where the node opens "a" with a space at its end. -/
theorem scope_names_other_entry :
    (resolvePath sampleDisk (.ok sampleMount) (ascii "a\\b") false false =
        .ok (ascii "/data/a\\b") ∧
      normalizePath (fileScope (mountScope (ascii "n") (ascii "m")) (ascii "a\\b")) =
        ascii "nodes/n/files/mounts/m/a/b" ∧
      followed (mountScope (ascii "n") (ascii "m"))
          (below sampleMount.localPath (ascii "/data/a\\b")) =
        ascii "nodes/n/files/mounts/m/a\\b") ∧
    resolvePath sampleDisk (.ok sampleMount) (ascii "a /") false false = .ok (ascii "/data/a ") ∧
      normalizePath (fileScope (mountScope (ascii "n") (ascii "m")) (ascii "a /")) =
        ascii "nodes/n/files/mounts/m/a" ∧
      followed (mountScope (ascii "n") (ascii "m"))
          (below sampleMount.localPath (ascii "/data/a ")) =
        ascii "nodes/n/files/mounts/m/a " := by
  decide +kernel

end Sample

end Jolt.Access
