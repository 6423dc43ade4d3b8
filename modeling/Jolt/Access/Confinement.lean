import Jolt.Access.Planning

/-! Where the files of a pull land. A peer writes the manifest, so it chooses the paths that
are joined to the destination; what it cannot leave is the grant. Paths are compared by
their components, as the node reads them. -/
namespace Jolt.Access.Transfer
open Jolt.Base List
open Jolt.Jobs (ItemAction)

section Grants

variable {strings : Strings} {grant : TransferGrant}

theorem level_iff {value : Text} :
    leadsUp (cleanRelative value) = false ↔ (read value).head? ≠ some letters.parent := by
  rw [ne_eq, ← leadsUp_cleanRelative, Bool.not_eq_true]

theorem elements_cleaned (value : Text) : elements letters (cleanRelative value) = read value := by
  rw [cleanRelative_eq]
  exact elements_shown fun c known => ⟨(mem_read known).1, (mem_read known).2.1⟩

theorem validateGrantDestination_none {path : Text}
    (valid : validateGrantDestination strings grant path = none) :
    (read path).head? ≠ some letters.parent ∧ read grant.path <+: read path ∧
      backslash ∉ path := by
  simp only [validateGrantDestination] at valid
  split_ifs at valid with rooted outside
  simp only [Bool.or_eq_true, not_or, Bool.and_eq_true, bne_iff_ne, Bool.not_eq_true',
    contains_iff_mem] at rooted outside
  refine ⟨fun up => outside.1 ((leadsUp_cleanRelative path).mpr up), ?_, rooted.2⟩
  rw [← elements_cleaned, ← elements_cleaned]
  by_cases root : cleanRelative grant.path = [dot]
  · rw [root]
    exact nil_prefix
  by_cases same : cleanRelative path = cleanRelative grant.path
  · rw [same]
  have begins : cleanRelative grant.path ++ [slash] <+: cleanRelative path := by
    by_contra other
    refine outside.2 ⟨⟨root, same⟩, ?_⟩
    rw [← Bool.not_eq_true, isPrefixOf_iff_prefix]
    exact other
  obtain ⟨rest, split⟩ := begins
  have parts : elements letters (cleanRelative grant.path ++ slash :: rest) =
      elements letters (cleanRelative grant.path) ++ elements letters rest :=
    elements_append_cons _ _
  rw [← split, append_assoc, singleton_append, parts]
  exact prefix_append _ _

theorem Plain.unturned {cs : List Text} (plain : Plain cs) : backslash ∉ shown cs := by
  unfold shown
  split_ifs
  · decide
  rw [mem_joinElements (by decide)]
  rintro ⟨c, known, inside⟩
  exact plain.backslashes c known inside

theorem validateGrantDestination_inside {base : Text} {cs : List Text} (free : grant.exclude = [])
    (granted : grant.path = base) (plain : Plain cs)
    (down : (read (shown cs)).head? ≠ some letters.parent)
    (inside : read base <+: read (shown cs)) :
    validateGrantDestination strings grant (shown cs) = none := by
  subst granted
  have unrooted : isRooted letters (shown cs) = false := by
    have alone := plain.unrooted []
    rwa [append_nil] at alone
  have straight : (shown cs).contains backslash = false := by
    simpa using plain.unturned
  simp only [validateGrantDestination, unrooted, straight, level_iff.mpr down, hidden, free, any_nil,
    Bool.or_self, Bool.false_eq_true, if_false, Bool.and_false, Bool.false_or]
  rw [if_neg, if_neg (by simp)]
  simp only [Bool.and_eq_true, bne_iff_ne, Bool.not_eq_true', not_and, and_imp]
  intro root other
  obtain ⟨rest, split⟩ := inside
  rw [cleanRelative_eq] at root
  have nonempty : read grant.path ≠ [] := fun none => root (by rw [none]; rfl)
  rw [cleanRelative_eq, cleanRelative_eq, ← split] at other ⊢
  rw [Bool.not_eq_false, isPrefixOf_iff_prefix]
  exact (shown_begins nonempty).resolve_left other

end Grants

section Renaming

def parenthesis : UInt8 := 40

theorem digit_bytes {i : Nat} {b : UInt8} (known : b ∈ ascii (toString i)) : 48 ≤ b.toNat := by
  obtain ⟨c, there, rfl⟩ := mem_map.mp known
  have digit : c.isDigit = true := by
    simp only [toString, Nat.repr, String.toList_ofList] at there
    exact Nat.isDigit_of_mem_toDigits (by decide) (by decide) there
  have range : 48 ≤ c.toNat ∧ c.toNat ≤ 57 := by
    simpa [Char.isDigit, UInt32.le_iff_toNat_le] using digit
  have small : c.toNat % 2 ^ 8 = c.toNat := Nat.mod_eq_of_lt (by omega)
  rw [UInt8.toNat_ofNat', small]
  exact range.1

theorem number_eq (i : Nat) :
    ascii (" (" ++ toString i ++ ")") = ascii " (" ++ ascii (toString i) ++ ascii ")" := by
  simp [ascii]

theorem slash_not_mem_number (i : Nat) : slash ∉ ascii (" (" ++ toString i ++ ")") := by
  rw [number_eq]
  simp only [mem_append, not_or]
  refine ⟨⟨by decide, fun inside => ?_⟩, by decide⟩
  exact absurd (digit_bytes inside) (by decide)

theorem count_number (i : Nat) : (ascii (" (" ++ toString i ++ ")")).count parenthesis = 1 := by
  have none : (ascii (toString i)).count parenthesis = 0 :=
    count_eq_zero_of_not_mem fun inside => absurd (digit_bytes inside) (by decide)
  rw [number_eq, count_append, count_append, none]
  decide

theorem takeWhile_ne {b : UInt8} {first : Text} (free : b ∉ first) (rest : Text) :
    (first ++ b :: rest).takeWhile (· ≠ b) = first := by
  have all : ∀ c ∈ first, decide (c ≠ b) = true := fun c known =>
    decide_eq_true fun same => free (same ▸ known)
  rw [takeWhile_append_of_pos all]
  simp

theorem extension_suffix (path : Text) : extension path <:+ path := by
  simp only [extension]
  split_ifs with dotted
  · obtain ⟨rest, split⟩ := takeWhile_prefix (l := path.reverse) (· ≠ slash)
    obtain ⟨first, tail, cut, free⟩ := eq_append_cons_of_mem dotted
    rw [cut] at split ⊢
    rw [takeWhile_ne free]
    refine ⟨(tail ++ rest).reverse, ?_⟩
    rw [← reverse_reverse path, ← split]
    simp
  · exact nil_suffix

theorem numbered_eq (path : Text) (i : Nat) :
    ∃ stem, path = stem ++ extension path ∧
      numbered path i = stem ++ ascii (" (" ++ toString i ++ ")") ++ extension path := by
  obtain ⟨stem, split⟩ := extension_suffix path
  refine ⟨stem, split.symm, ?_⟩
  have short : path.length - (extension path).length = stem.length := by
    rw [← congrArg List.length split, length_append]
    omega
  have start : path.take stem.length = stem := by
    conv_lhs => rw [← split]
    exact take_left
  rw [numbered, short, start]

theorem count_numbered (path : Text) (i : Nat) :
    (numbered path i).count parenthesis = path.count parenthesis + 1 := by
  obtain ⟨stem, split, whole⟩ := numbered_eq path i
  have parts := congrArg (List.count parenthesis) split
  rw [count_append] at parts
  rw [whole, count_append, count_append, count_number]
  omega

theorem slash_not_mem_numbered {c : Text} (free : slash ∉ c) (i : Nat) : slash ∉ numbered c i := by
  obtain ⟨stem, split, whole⟩ := numbered_eq c i
  rw [whole]
  rw [split] at free
  simp only [mem_append, not_or] at free ⊢
  exact ⟨⟨free.1, slash_not_mem_number i⟩, free.2⟩

theorem extension_below {c : Text} (lead : Text) (free : slash ∉ c) :
    extension (lead ++ slash :: c) = extension c := by
  have turned : slash ∉ c.reverse := fun inside => free (mem_reverse.mp inside)
  have last : (lead ++ slash :: c).reverse.takeWhile (· ≠ slash) = c.reverse := by
    have whole := takeWhile_ne turned lead.reverse
    rwa [reverse_append, reverse_cons, append_assoc, singleton_append]
  have alone : c.reverse.takeWhile (· ≠ slash) = c.reverse := by
    refine takeWhile_eq_self_iff.mpr fun b known => ?_
    exact decide_eq_true fun same => turned (same ▸ known)
  rw [extension, last, extension, alone]

theorem numbered_join {cs : List Text} {c : Text} (free : slash ∉ c) (i : Nat) :
    numbered (joinElements letters (cs ++ [c])) i =
      joinElements letters (cs ++ [numbered c i]) := by
  by_cases none : cs = []
  · simp [none, joinElements]
  obtain ⟨stem, split, whole⟩ := numbered_eq c i
  have suffix := extension_below (joinElements letters cs) free
  rw [joinElements_concat none, joinElements_concat none]
  obtain ⟨start, cut, result⟩ := numbered_eq (joinElements letters cs ++ slash :: c) i
  rw [suffix] at cut result
  have ends : start ++ extension c = joinElements letters cs ++ slash :: stem ++ extension c := by
    rw [← cut, append_assoc, cons_append, ← split]
  rw [append_cancel_right ends] at result
  refine result.trans ?_
  rw [whole]
  simp [letters]

theorem read_concat {cs : List Text} {c : Text} (free : ∀ e ∈ cs ++ [c], slash ∉ e)
    (straight : backslash ∉ joinElements letters (cs ++ [c])) :
    read (joinElements letters (cs ++ [c])) =
      cleanList letters (trimFirst (cs ++ [trimEnd spaces c])) := by
  rw [read, slashed_of_free straight, splitOn_trimSpace free (by simp), trimLast_concat]

theorem cleanList_concat (cs : List Text) :
    ∃ (kept : List Text) (t : Text → Text),
      (∀ c, (t c).count parenthesis = c.count parenthesis) ∧
      ∀ c, cleanList letters (trimFirst (cs ++ [c])) =
        (cleanStep letters false kept (t c)).reverse := by
  cases cs with
  | nil =>
    refine ⟨[], trimStart spaces, count_trimStart (by decide), fun c => rfl⟩
  | cons first cs =>
    refine ⟨(trimFirst (first :: cs)).foldl (cleanStep letters false) [], id, fun _ => rfl,
      fun c => ?_⟩
    rw [cleanList, trimFirst, cons_append, modifyHead_cons, ← cons_append,
      foldl_append]
    rfl

theorem numbered_below {base : List Text} {path : Text} {i : Nat} (straight : backslash ∉ path)
    (turned : backslash ∉ numbered path i) (inside : base <+: read path)
    (kept : base <+: read (numbered path i)) : base <+: (read (numbered path i)).dropLast := by
  obtain ⟨cs, c, split⟩ : ∃ cs c, path.splitOn slash = cs ++ [c] :=
    (eq_nil_or_concat' _).resolve_left (splitOn_ne_nil slash path)
  have free : ∀ e ∈ cs ++ [c], slash ∉ e := fun e known => not_mem_of_mem_splitOn (split ▸ known)
  have whole : path = joinElements letters (cs ++ [c]) := by
    rw [← split]
    exact (intercalate_splitOn slash).symm
  have last : slash ∉ c := free c (by simp)
  have others : ∀ e ∈ cs ++ [numbered c i], slash ∉ e := by
    intro e known
    rcases mem_append.mp known with first | second
    · exact free e (mem_append_left _ first)
    · rw [mem_singleton.mp second]
      exact slash_not_mem_numbered last i
  obtain ⟨stack, t, counts, cleaned⟩ := cleanList_concat cs
  rw [whole] at straight inside turned kept ⊢
  rw [numbered_join last] at turned kept ⊢
  rw [read_concat free straight, cleaned] at inside
  rw [read_concat others turned, cleaned] at kept ⊢
  have more : (t (trimEnd spaces (numbered c i))).count parenthesis =
      (t (trimEnd spaces c)).count parenthesis + 1 := by
    rw [counts, counts, count_trimEnd (by decide), count_trimEnd (by decide), count_numbered]
  generalize t (trimEnd spaces (numbered c i)) = new at more kept ⊢
  generalize t (trimEnd spaces c) = old at more inside
  -- the numbered name has a parenthesis, so it is pushed onto what was kept before it
  have named : cleanStep letters false stack new = new :: stack := by
    have proper (c : Text) (bare : c.count parenthesis = 0) : new ≠ c := fun same => by
      rw [same, bare] at more
      omega
    rw [cleanStep_plain (proper _ (by decide)),
      if_pos (isName_iff.mpr ⟨proper _ rfl, proper _ (by decide)⟩)]
  rw [named, reverse_cons, dropLast_concat]
  rw [named, reverse_cons, prefix_concat_iff] at kept
  refine kept.resolve_left fun same => ?_
  rw [same] at inside
  rcases @cleanStep_cases _ _ letters false stack old with shorter | ⟨longer, _⟩
  · have lengths := inside.length_le
    have bound := shorter.length_le
    simp only [length_append, length_reverse, length_singleton] at lengths
    omega
  · rw [longer, reverse_cons] at inside
    have equal := append_cancel_left (inside.eq_of_length (by simp))
    rw [singleton_inj.mp equal] at more
    omega

end Renaming

section Upwards

theorem read_up {path : Text} (up : leadsUp path = true) :
    (read path).head? = some letters.parent := by
  rw [leadsUp, Bool.or_eq_true, beq_iff_eq, isPrefixOf_iff_prefix] at up
  rcases up with rfl | ⟨rest, rfl⟩
  · decide
  have turned : slashed ([dot, dot, slash] ++ rest) = [dot, dot] ++ slash :: slashed rest := by
    simp [slashed, dot, slash, backslash]
  have start : trimStart spaces [dot, dot] = [dot, dot] := by decide
  rw [read, turned, trimSpace, trim, trimStart_append_cons spaces_proper spaces_barred, start,
    trimEnd_append_cons spaces_proper spaces_barred, splitOn_append_cons_self]
  exact cleanList_parent _

theorem joinRelative_up {base : Text} (up : leadsUp base = true) (relative : Text) :
    leadsUp (joinRelative base relative) = true := by
  have again {path : Text} (up : leadsUp path = true) : leadsUp (cleanRelative path) = true :=
    (leadsUp_cleanRelative path).mpr (read_up up)
  have inner : ¬ (base = [] ∨ base = [dot]) := by
    rintro (rfl | rfl) <;> exact absurd up (by decide)
  have joined : leadsUp (joinPaths base relative) = true := by
    obtain ⟨rest, split⟩ : ∃ rest, base ++ slash :: relative = letters.parent ++ slash :: rest := by
      rw [leadsUp, Bool.or_eq_true, beq_iff_eq, isPrefixOf_iff_prefix] at up
      rcases up with rfl | ⟨rest, rfl⟩
      · exact ⟨relative, rfl⟩
      · exact ⟨rest ++ slash :: relative, rfl⟩
    have unrooted : isRooted letters (letters.parent ++ slash :: rest) = false := by
      simp [isRooted, Alphabet.parent, letters, dot, slash]
    rw [joinPaths, split, leadsUp_clean, cleanElements, unrooted]
    refine ⟨rfl, ?_⟩
    have parts : (letters.parent ++ slash :: rest).splitOn letters.slash =
        letters.parent :: rest.splitOn slash := by
      rw [show letters.slash = slash from rfl, splitOn_append_cons_self]
      rfl
    rw [parts]
    exact cleanList_parent _
  unfold joinRelative
  split_ifs with same
  · exact again up
  · exact again joined

end Upwards

section Climbing

/-- Components that climb to the mount's root from a directory and go down again. -/
def climbing (ds fs : List Text) : List Text :=
  ascii "a" :: List.replicate (ds.length + 1) letters.parent ++ fs

theorem joinPaths_climbing {ds fs : List Text} (start : Plain ds) (goal : Plain fs) (inner : ds ≠ []) :
    joinPaths (shown ds) (joinElements letters (climbing ds fs)) = shown fs := by
  have free : ∀ c ∈ climbing ds fs, slash ∉ c := by
    intro c known
    simp only [climbing, cons_append, mem_cons, mem_append, mem_replicate] at known
    rcases known with rfl | ⟨_, rfl⟩ | known
    · decide
    · decide
    · exact goal.slashes c known
  have parts : (shown ds ++ slash :: joinElements letters (climbing ds fs)).splitOn letters.slash =
      ds ++ climbing ds fs := by
    rw [show letters.slash = slash from rfl, splitOn_append_cons_self,
      splitOn_join free (by simp [climbing]), shown, if_neg inner, splitOn_join start.slashes inner]
  have pushes {cs : List Text} (plain : Plain cs) (kept : List Text) :
      cs.foldl (cleanStep letters false) kept = cs.reverse ++ kept := by
    have all : cs.filter (isName letters) = cs := filter_eq_self.mpr plain.names
    rw [foldl_cleanStep_plain false (by rw [all]; exact plain.down), all]
  have up : letters.parent ∉ ascii "a" :: ds.reverse := by
    rw [mem_cons, mem_reverse, not_or]
    exact ⟨by decide, start.down⟩
  have cleaned : cleanElements letters (shown ds ++ slash :: joinElements letters (climbing ds fs)) =
      fs := by
    have pushed : cleanStep letters false ds.reverse (ascii "a") = ascii "a" :: ds.reverse := by
      rw [cleanStep_plain (by decide), if_pos (by decide)]
    have back := foldl_parents false up
    rw [length_cons, length_reverse] at back
    rw [cleanElements, start.unrooted, parts, climbing, foldl_append, pushes start,
      append_nil, foldl_append, foldl_cons, pushed, back, pushes goal,
      append_nil, reverse_reverse]
  rw [joinPaths, clean_unrooted (start.unrooted _), cleaned]

def blankDot : Text := ascii " ."

theorem plain_blankDot : Plain [blankDot] :=
  ⟨by decide, by decide, by decide, by decide⟩

theorem readAgain_blankDot {cs : List Text} {c : Text} (plain : Plain (cs ++ [c]))
    (ends : trimEnd spaces c = c) : readAgain (blankDot :: (cs ++ [c])) = cs ++ [c] := by
  have start : trimStart spaces blankDot = [dot] := by decide
  have skipped : cleanStep letters false [] [dot] = [] := by decide
  rw [readAgain, ← cons_append, trimLast_concat, ends, cons_append, trimFirst,
    modifyHead_cons, start, cleanList, foldl_cons, skipped]
  exact cleanList_eq plain.names plain.down

end Climbing

section Landing

/-- Where an item lands: at the destination or below it, and below it where it is renamed. -/
def Confined (destination : Text) (item : Item) : Prop :=
  read destination <+:
    if item.action = .rename then (read item.destinationPath).dropLast
    else read item.destinationPath

theorem Planned.confined {p : Planner} {access : Option TransferAccess} {entry : FileEntry}
    {item : Item} {destination : Text} (planned : Planned p access entry item)
    (above : read destination <+: read p.grant.path) : Confined destination item := by
  obtain ⟨_, inside, straight⟩ := validateGrantDestination_none planned.inside
  rcases planned.destination with ⟨kept, same⟩ | ⟨renamed, ⟨i, same⟩, valid⟩
  · rw [Confined, if_neg kept, same]
    exact above.trans inside
  obtain ⟨_, kept, turned⟩ := validateGrantDestination_none valid
  rw [Confined, if_pos renamed]
  rw [same] at kept turned ⊢
  exact above.trans (numbered_below straight turned inside kept)

theorem Planned.down {p : Planner} {access : Option TransferAccess} {entry : FileEntry} {item : Item}
    (planned : Planned p access entry item) :
    leadsUp (cleanRelative p.grant.path) = false ∧ leadsUp p.destinationPath = false := by
  obtain ⟨down, inside, _⟩ := validateGrantDestination_none planned.inside
  constructor
  · refine level_iff.mpr fun head => down ?_
    obtain ⟨rest, split⟩ := inside
    rw [← split, head?_append, head]
    rfl
  · exact Bool.eq_false_iff.mpr fun up => down (read_up (joinRelative_up up entry.path))

end Landing

section Leaving

/-- The path of an entry that leaves a destination for another directory of its mount. -/
def leaving (ds target : List Text) : Text :=
  joinElements letters (climbing ds (blankDot :: blankDot :: target))

theorem leaving_head (ds target : List Text) : (leaving ds target).head? = some 97 := by
  have more : List.replicate (ds.length + 1) letters.parent ++ blankDot :: blankDot :: target ≠ [] := by
    simp
  have split := joinElements_append (a := letters) (cons_ne_nil (ascii "a") []) more
  rw [leaving, climbing, cons_append, ← singleton_append, split]
  rfl

theorem leadsUp_leaving (ds target : List Text) : leadsUp (leaving ds target) = false := by
  have head := leaving_head ds target
  rw [Bool.eq_false_iff, leadsUp]
  intro up
  rw [Bool.or_eq_true, beq_iff_eq, isPrefixOf_iff_prefix] at up
  rcases up with same | ⟨rest, same⟩
  · rw [same] at head
    exact absurd head (by decide)
  rw [← same] at head
  have other : some dot = some (97 : UInt8) := head
  exact absurd other (by decide)

theorem joinRelative_leaving {ds cs : List Text} {c : Text} (start : Plain ds) (inner : ds ≠ [])
    (goal : Plain (cs ++ [c])) (ends : trimEnd spaces c = c) :
    joinRelative (shown ds) (leaving ds (cs ++ [c])) = shown (blankDot :: (cs ++ [c])) ∧
      read (shown (blankDot :: (cs ++ [c]))) = cs ++ [c] := by
  have once : Plain (blankDot :: (cs ++ [c])) := plain_blankDot.append goal
  have twice : Plain (blankDot :: blankDot :: (cs ++ [c])) := plain_blankDot.append once
  have named : ¬ (leaving ds (cs ++ [c]) = [] ∨ leaving ds (cs ++ [c]) = [dot]) := by
    rintro (same | same) <;> exact absurd (same ▸ leaving_head ds (cs ++ [c])) (by decide)
  have deep : ¬ (shown ds = [] ∨ shown ds = [dot]) := by
    have parts := start.elements_shown
    rintro (same | same) <;> exact inner (by rw [← parts, same]; decide)
  constructor
  · rw [joinRelative, if_neg named, if_neg deep, leaving, joinPaths_climbing start twice inner,
      cleanRelative_eq, read_shown twice, ← cons_append,
      readAgain_blankDot (by rwa [cons_append]) ends, cons_append]
  · rw [read_shown once, readAgain_blankDot goal ends]

def emptyFiles : Files where
  isHiddenPath _ := .ok false
  metadata _ := .ok none
  checksum _ := .ok []
  inspect _ _ _ := none

def directoryAt (path : Text) : FileEntry := ⟨path, .directory, 0, 0, []⟩

variable {p : Planner}

theorem Planner.act_empty (empty : p.files = emptyFiles) {item : Item} (type : item.type = .directory) :
    p.act none false item = .ok { item with action := .create } := by
  simp [act, planRemoteAction, empty, emptyFiles, type]

theorem hasBlockedParent_nil (path : Text) : hasBlockedParent path [] = false := by
  simp [hasBlockedParent]

theorem Planner.directoryEntry_one (empty : p.files = emptyFiles) {path : Text}
    (down : leadsUp path = false)
    (inside : validateGrantDestination p.strings p.grant (joinRelative p.destinationPath path) = none) :
    p.directoryEntry p.start (directoryAt path) = .ok (p.start.add (directoryAt path)
      { p.item (directoryAt path) with relativePath := path, action := .create }) := by
  simp [directoryEntry, directoryAt, down, inside, start, hasBlockedParent_nil, act_empty empty,
    item]

theorem Planner.batchEntry_one (empty : p.files = emptyFiles) {path : Text}
    (down : leadsUp path = false)
    (inside : validateGrantDestination p.strings p.grant (joinRelative p.destinationPath path) = none) :
    p.batchEntry .copy none p.start (directoryAt path) = .ok (p.start.add (directoryAt path)
      { p.item (directoryAt path) with action := .create }) := by
  simp [batchEntry, directoryAt, down, inside, start, hasBlockedParent_nil, act_empty empty, item]

theorem exists_leaving {strings : Strings} {grant : TransferGrant} {base value : Text}
    (free : grant.exclude = []) (granted : grant.path = base)
    (given : leadsUp (cleanRelative base) = false) (down : leadsUp (cleanRelative value) = false)
    (outside : ¬ read (cleanRelative value) <+: read base) :
    ∃ path, leadsUp path = false ∧
      validateGrantDestination strings grant (joinRelative (cleanRelative value) path) = none ∧
      ¬ read (cleanRelative value) <+: read (joinRelative (cleanRelative value) path) := by
  have first : Plain (read base) := plain_read (level_iff.mp given)
  have start : Plain (read value) := plain_read (level_iff.mp down)
  have inner : read value ≠ [] := by
    intro none
    rw [cleanRelative_eq, none] at outside
    exact outside nil_prefix
  -- one of two names next to the grant's path is not the destination
  obtain ⟨c, named, ends, other⟩ : ∃ c : Text, Plain [c] ∧ trimEnd spaces c = c ∧
      read (cleanRelative value) ≠ read base ++ [c] := by
    by_cases same : read (cleanRelative value) = read base ++ [ascii "a"]
    · refine ⟨ascii "b", ⟨by decide, by decide, by decide, by decide⟩, by decide, fun again => ?_⟩
      exact absurd (append_cancel_left (same.symm.trans again)) (by decide)
    · exact ⟨ascii "a", ⟨by decide, by decide, by decide, by decide⟩, by decide, same⟩
  have goal : Plain (read base ++ [c]) := first.append named
  obtain ⟨lands, placed⟩ := joinRelative_leaving start inner goal ends
  refine ⟨leaving (read value) (read base ++ [c]), leadsUp_leaving _ _, ?_, ?_⟩
  · rw [cleanRelative_eq, lands]
    refine validateGrantDestination_inside free granted (plain_blankDot.append goal) ?_ ?_
    · rw [placed]
      exact fun up => goal.down (mem_of_mem_head? up)
    · rw [placed]
      exact prefix_append _ _
  · rw [cleanRelative_eq value, lands, placed, ← cleanRelative_eq, prefix_concat_iff]
    exact not_or.mpr ⟨other, outside⟩

def grantOf (path : Text) : TransferGrant where
  id := ascii "g"
  peerNodeID := []
  mountID := ascii "m"
  path := path
  direction := ascii "receive"
  enabled := true
  conflictPolicies := [ascii "fail"]
  exclude := []
  read := false
  write := true
  delete := false

end Leaving

section Destinations

theorem withinGrant_ok {base relative destination : Text}
    (found : withinGrant base relative = .ok destination) : ∃ value, destination = cleanRelative value := by
  simp only [withinGrant] at found
  split_ifs at found
  exact ⟨_, (Except.ok.inj found).symm⟩

theorem Puller.planDirectoryPull_ok {n : Puller} {request : PullRequest} {plan : CopyPlan}
    (done : n.planDirectoryPull request = .ok plan) :
    ∃ id grant destination entries, n.transferGrant id = .ok (some grant) ∧
      withinGrant grant.path request.destinationPath = .ok destination ∧
      validateGrantDestination n.strings grant destination = none ∧
      (n.planner grant (normalizePolicy n.strings request.conflictPolicy) request.sourcePath
        destination).planDirectory entries = .ok plan := by
  simp only [planDirectoryPull, bind_ok_iff] at done
  obtain ⟨peer, _, stored, asked, ⟨grant, destination⟩, found, entries, _, planned⟩ := done
  obtain ⟨rfl, within, valid⟩ := receiveDestination_ok found
  exact ⟨_, grant, destination, entries, asked, within, valid, planned⟩

end Destinations

section Statement

def pullerOf (grant : TransferGrant) (path : Text) : Puller where
  lib := sampleLibrary
  strings := sampleControl.strings
  trustedPeer := .ok
  transferGrant _ := .ok (some grant)
  files _ := emptyFiles
  fetchRemoteManifest _ _ _ _ := .ok [directoryAt path]
  validateRemoteMoveSource _ _ _ := none

def requestTo (relative : Text) : PullRequest where
  peerNodeID := []
  sourceGrantID := []
  sourcePath := []
  destinationGrantID := []
  destinationPath := relative
  conflictPolicy := []
  verifyChecksum := false

theorem pullerOf_plans {grantPath relative destination path : Text}
    (within : withinGrant grantPath relative = .ok destination)
    (valid : validateGrantDestination sampleControl.strings (grantOf grantPath) destination = none)
    (down : leadsUp path = false)
    (inside : validateGrantDestination sampleControl.strings (grantOf grantPath)
      (joinRelative destination path) = none) :
    ∃ plan, (pullerOf (grantOf grantPath) path).planDirectoryPull (requestTo relative) = .ok plan ∧
      plan.destinationPath = destination ∧
      ∃ item ∈ plan.items, item.action = .create ∧
        item.destinationPath = joinRelative destination path := by
  let n := pullerOf (grantOf grantPath) path
  let p := n.planner (grantOf grantPath) (ascii "fail") [] destination
  have policy : normalizePolicy sampleControl.strings [] = ascii "fail" := by decide
  have found : receiveDestination sampleControl.strings (some (grantOf grantPath)) []
      relative [] = .ok (grantOf grantPath, destination) := by
    have granted : receivable sampleControl.strings (grantOf grantPath) [] [] = true := by
      simp [receivable, grantOf, validPatterns, policy]
    have same : (grantOf grantPath).path = grantPath := rfl
    simp [receiveDestination, granted, withinGrantWithExclusions, same, within, valid]
  have asked : n.planDirectoryPull (requestTo relative) = p.planDirectory [directoryAt path] := by
    simp only [Puller.planDirectoryPull, n, pullerOf, requestTo]
    change (receiveDestination sampleControl.strings (some (grantOf grantPath)) []
      relative [] >>= _) = _
    rw [found]
    change Planner.planDirectory ⟨sampleLibrary, sampleControl.strings, emptyFiles,
      grantOf grantPath, normalizePolicy sampleControl.strings [], [],
      destination⟩ [directoryAt path] = _
    rw [policy]
    rfl
  have step := p.directoryEntry_one rfl down inside
  refine ⟨_, asked.trans (by rw [Planner.planDirectory, foldlM_cons, step]; rfl), ?_, ?_⟩
  · exact CopyPlan.add_destinationPath _ _
  refine ⟨{ p.item (directoryAt path) with relativePath := path, action := .create }, ?_, rfl, rfl⟩
  rw [Planning.add, CopyPlan.add_items]
  exact mem_concat_self


theorem planDirectoryPull_leaves {grantPath relative destination : Text}
    (within : withinGrant grantPath relative = .ok destination)
    (down : leadsUp (cleanRelative destination) = false)
    (inside : read grantPath <+: read destination) (other : read destination ≠ read grantPath) :
    ∃ (n : Puller) (plan : CopyPlan) (item : Item),
      (∀ id grant, n.transferGrant id = .ok (some grant) → grant.path = grantPath) ∧
      n.planDirectoryPull (requestTo relative) = .ok plan ∧ item ∈ plan.items ∧
      ¬ Confined plan.destinationPath item := by
  have flat := level_iff.mp down
  have given : leadsUp (cleanRelative grantPath) = false := by
    refine level_iff.mpr fun head => flat ?_
    obtain ⟨rest, split⟩ := inside
    rw [← split, head?_append, head]
    rfl
  have apart : ¬ read destination <+: read grantPath := fun above =>
    other (above.eq_of_length_le inside.length_le)
  have level : leadsUp destination = false := Bool.eq_false_iff.mpr fun up => flat (read_up up)
  obtain ⟨value, rfl⟩ := withinGrant_ok within
  have start : Plain (read value) := plain_read (level_iff.mp level)
  have valid : validateGrantDestination sampleControl.strings (grantOf grantPath)
      (cleanRelative value) = none := by
    rw [cleanRelative_eq value] at flat inside ⊢
    exact validateGrantDestination_inside rfl rfl start flat inside
  obtain ⟨path, straight, there, leaves⟩ := @exists_leaving sampleControl.strings
    (grantOf grantPath) grantPath value rfl rfl given level apart
  obtain ⟨plan, done, same, item, known, created, lands⟩ :=
    pullerOf_plans within valid straight there
  refine ⟨_, plan, item, fun _ grant stored => ?_, done, known, fun landed => ?_⟩
  · cases stored
    rfl
  · rw [Confined, created, same, lands] at landed
    exact leaves landed

theorem planBatchRoot_leaves {grantPath value : Text}
    (given : leadsUp (cleanRelative grantPath) = false)
    (down : leadsUp (cleanRelative value) = false)
    (apart : ¬ read (cleanRelative value) <+: read grantPath) :
    ∃ (p : Planner) (entries : List FileEntry) (plan : CopyPlan) (item : Item),
      p.grant.path = grantPath ∧ p.destinationPath = cleanRelative value ∧
      p.planBatchRoot .copy none entries = .ok (plan, 0) ∧ item ∈ plan.items ∧
      ¬ Confined p.destinationPath item := by
  let p : Planner := ⟨sampleLibrary, sampleControl.strings, emptyFiles, grantOf grantPath, [], [],
    cleanRelative value⟩
  obtain ⟨path, straight, inside, leaves⟩ := @exists_leaving sampleControl.strings
    (grantOf grantPath) grantPath value rfl rfl given down apart
  have step := p.batchEntry_one rfl straight inside
  refine ⟨p, [directoryAt path], _, { p.item (directoryAt path) with action := .create }, rfl, rfl,
    by rw [Planner.planBatchRoot, foldlM_cons, step]; rfl, ?_, leaves⟩
  rw [Planning.add, CopyPlan.add_items]
  exact mem_concat_self

end Statement

section Opening

variable {strings : Strings} {grant : TransferGrant} {path : Text}

theorem validateGrantDestination_shown (valid : validateGrantDestination strings grant path = none) :
    ∀ c ∈ read path, hidden strings grant.exclude c = false := by
  intro c known
  simp only [validateGrantDestination] at valid
  split_ifs at valid with _ _ excluded
  by_contra hides
  have split : (joinElements letters (read path)).splitOn slash = read path :=
    splitOn_join (fun _ there => (mem_read there).2.1) (ne_nil_of_mem known)
  refine excluded (any_eq_true.mpr ⟨c, ?_, ?_⟩)
  · rw [cleanRelative_eq, shown, if_neg (ne_nil_of_mem known), split]
    exact known
  · have name := (isName_iff.mp (mem_read known).1).2
    simpa [show c ≠ [dot] from name] using hides

theorem elements_cleanRelative_read (straight : backslash ∉ path)
    (down : letters.parent ∉ read path) : elements letters (Access.cleanRelative path) = read path := by
  have unturned : slashed path = path := slashed_of_free straight
  unfold Access.cleanRelative
  dsimp only
  rw [read, unturned] at down ⊢
  split_ifs with empty
  · rw [empty]
    decide
  · rw [elements_clean]
    exact cleanElements_down down

/-- Whatever path a peer names, what is opened for it is the entry of the grant's own path or
lies below it, and has no component that the grant excludes. -/
theorem grant_confines_opened (grant : TransferGrant) (relative path : Text) (disk : Disk)
    (mount : Mount) (allowMissing allowFinalLink : Bool) {candidate : Text}
    (returned : withinGrantWithExclusions strings grant relative = .ok path)
    (opened : resolvePath disk (.ok mount) path allowMissing allowFinalLink = .ok candidate) :
    ∃ rest, elements letters candidate = elements letters mount.localPath ++
        (elements letters (cleanRelative grant.path) ++ rest) ∧
      ∀ component ∈ elements letters (cleanRelative grant.path) ++ rest,
        hidden strings grant.exclude component = false := by
  have valid := (withinGrantWithExclusions_ok returned).2
  obtain ⟨top, ⟨rest, split⟩, straight⟩ := validateGrantDestination_none valid
  have down : letters.parent ∉ read path := cleanList_down top
  have granted := elements_cleaned grant.path
  refine ⟨rest, ?_, ?_⟩
  · obtain ⟨_, same, rfl⟩ := resolvePath_ok opened
    cases same
    have parts : elements letters (mount.localPath ++ slash :: Access.cleanRelative path) =
        elements letters mount.localPath ++ read path := by
      rw [← elements_cleanRelative_read straight down]
      exact elements_append_cons _ _
    rw [joinPath, elements_clean, cleanElements_eq, parts, granted, split]
    rw [parts, mem_append, not_or]
    exact ⟨mount.parent_not_mem, down⟩
  · rw [granted, split]
    exact validateGrantDestination_shown valid

theorem sample_grant_confines :
    ∃ rest, elements letters (ascii "/data/in/b / c") = elements letters sampleMount.localPath ++
        (elements letters (cleanRelative (ascii " in/")) ++ rest) ∧
      ∀ component ∈ elements letters (cleanRelative (ascii " in/")) ++ rest,
        hidden ⟨id, (· == ·), fun pattern name => some (pattern == name)⟩ [ascii "x"] component =
          false :=
  grant_confines_opened { grantOf (ascii " in/") with exclude := [ascii "x"] } (ascii "/b / c/")
    (ascii "in/b / c") sampleDisk sampleMount false false
    (by decide +kernel) (by decide +kernel)

end Opening

end Jolt.Access.Transfer
