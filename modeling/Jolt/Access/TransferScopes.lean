import Jolt.Access.TransferRequests

/-! Where a transfer writes. Control evaluates the policies for one reading of the
destination and sends the node another one; both are given here by components. -/
namespace Jolt.Access.Transfer
open Jolt.Base List

section Readings

variable {cs : List Text}

/-- Components as a cleaned path that does not lead upwards has them. -/
structure Plain (cs : List Text) : Prop where
  names : ∀ c ∈ cs, isName letters c = true
  slashes : ∀ c ∈ cs, slash ∉ c
  backslashes : ∀ c ∈ cs, backslash ∉ c
  down : letters.parent ∉ cs

/-- The components of a path after white space is trimmed and the path cleaned. -/
def read (value : Text) : List Text :=
  cleanList letters ((trimSpace (slashed value)).splitOn slash)

def trimFirst (cs : List Text) : List Text := cs.modifyHead (trimStart spaces)

def trimLast (cs : List Text) : List Text := (cs.reverse.modifyHead (trimEnd spaces)).reverse

def readAgain (cs : List Text) : List Text := cleanList letters (trimFirst (trimLast cs))

def shown (cs : List Text) : Text := if cs = [] then [dot] else joinElements letters cs

@[simp] theorem trimLast_concat (cs : List Text) (c : Text) :
    trimLast (cs ++ [c]) = cs ++ [trimEnd spaces c] := by
  simp [trimLast]

theorem spaces_separate : Separate spaces := by
  unfold Separate
  decide +kernel

theorem splitOn_join (free : ∀ c ∈ cs, slash ∉ c) (nonempty : cs ≠ []) :
    (joinElements letters cs).splitOn slash = cs :=
  splitOn_intercalate slash free nonempty

theorem Plain.elements_join (plain : Plain cs) :
    elements letters (joinElements letters cs) = cs :=
  Base.elements_join fun c known => ⟨plain.names c known, plain.slashes c known⟩

theorem splitOn_trimSpace (free : ∀ c ∈ cs, slash ∉ c) (nonempty : cs ≠ []) :
    (trimSpace (joinElements letters cs)).splitOn slash = trimFirst (trimLast cs) := by
  have first := @splitOn_trimStart _ _ letters _ spaces_proper spaces_barred
    (trimEnd spaces (joinElements letters cs))
  have last := @splitOn_trimEnd _ _ letters _ spaces_proper spaces_barred
    (joinElements letters cs)
  have split : (joinElements letters cs).splitOn letters.slash = cs := splitOn_join free nonempty
  have ends : leadingElements letters (joinElements letters cs) ++
      [trimEnd spaces (lastElement letters (joinElements letters cs))] = trimLast cs := by
    rw [leadingElements, lastElement, split]
    cases cs using List.reverseRecOn with
    | nil => exact absurd rfl nonempty
    | append_singleton cs c _ =>
      rw [dropLast_concat, getLastD_concat, trimLast_concat]
  rw [trimSpace, trim, ← trimStart_trimEnd spaces_proper spaces_separate]
  exact first.trans (by rw [last, ends, trimFirst])

theorem slashed_join (free : ∀ c ∈ cs, backslash ∉ c) :
    slashed (joinElements letters cs) = joinElements letters cs := by
  apply slashed_of_free
  rw [mem_joinElements (by decide)]
  rintro ⟨c, known, inside⟩
  exact free c known inside

theorem read_join (free : ∀ c ∈ cs, slash ∉ c) (straight : ∀ c ∈ cs, backslash ∉ c) :
    read (joinElements letters cs) = readAgain cs := by
  by_cases nonempty : cs = []
  · rw [nonempty]
    decide
  · rw [read, slashed_join straight, splitOn_trimSpace free nonempty, readAgain]

theorem cleanElements_read (value : Text) :
    cleanElements letters (trimStart [[slash]] (trimSpace (slashed value))) = read value :=
  cleanElements_trimStart _

theorem mem_read {value c : Text} (known : c ∈ read value) :
    isName letters c = true ∧ slash ∉ c ∧ backslash ∉ c := by
  rw [← cleanElements_read] at known
  obtain ⟨name, split⟩ := (cleanElements_kept _).1 c known
  refine ⟨name, not_mem_of_mem_splitOn split, fun inside => ?_⟩
  have there := (mem_splitOn (by decide)).mpr ⟨c, split, inside⟩
  exact backslash_not_mem_slashed value (trimSpace_mem ((trimStart_suffix _).mem there))

theorem plain_read {value : Text} (down : (read value).head? ≠ some letters.parent) :
    Plain (read value) where
  names _ known := (mem_read known).1
  slashes _ known := (mem_read known).2.1
  backslashes _ known := (mem_read known).2.2
  down := cleanList_down down

theorem elements_shown (names : ∀ c ∈ cs, isName letters c = true ∧ slash ∉ c) :
    elements letters (shown cs) = cs := by
  unfold shown
  split_ifs with empty
  · rw [empty]
    decide
  · exact elements_join names

theorem elements_shown_read (value : Text) : elements letters (shown (read value)) = read value :=
  elements_shown fun _ known => ⟨(mem_read known).1, (mem_read known).2.1⟩

theorem clean_unrooted {path : Text} (unrooted : isRooted letters path = false) :
    clean letters path = shown (cleanElements letters path) := by
  rw [clean, unrooted, shown]
  rfl

theorem clean_read (value : Text) :
    clean letters (trimStart [[slash]] (trimSpace (slashed value))) = shown (read value) := by
  have unrooted : isRooted letters (trimStart [[slash]] (trimSpace (slashed value))) = false :=
    isRooted_trimStart _
  rw [clean_unrooted unrooted, cleanElements_read]

theorem cleanRelative_eq (value : Text) : cleanRelative value = shown (read value) := by
  unfold cleanRelative
  dsimp only
  rw [clean_read]
  split_ifs with blank
  · have none : read value = [] := by
      rw [← elements_shown_read]
      rcases blank with empty | root
      · rw [empty]
        decide
      · rw [root]
        decide
    rw [none]
    rfl
  · rfl

theorem leadsUp_cleanRelative (value : Text) :
    leadsUp (cleanRelative value) = true ↔ (read value).head? = some letters.parent := by
  rw [cleanRelative_eq, ← clean_read, leadsUp_clean, cleanElements_read]
  exact and_iff_right (isRooted_trimStart _)

theorem normalizeTransferPath_ok {value path : Text}
    (normal : normalizeTransferPath value true = .ok path) :
    path = joinElements letters (read value) ∧ Plain (read value) := by
  simp only [normalizeTransferPath, if_true] at normal
  by_cases empty : trimSpace (slashed value) = []
  · rw [if_pos empty] at normal
    have none : read value = [] := by
      rw [read, empty]
      decide
    have plain : Plain (read value) := plain_read (by rw [none]; decide)
    cases normal
    rw [none] at plain ⊢
    exact ⟨rfl, plain⟩
  · rw [if_neg empty] at normal
    by_cases rooted : isRooted letters (trimSpace (slashed value)) = true
    · rw [if_pos rooted] at normal
      cases normal
    rw [if_neg rooted] at normal
    have unrooted := Bool.eq_false_iff.mpr rooted
    have kept : cleanElements letters (trimSpace (slashed value)) = read value := by
      rw [cleanElements, unrooted]
      rfl
    have up := leadsUp_clean (trimSpace (slashed value))
    rw [clean_unrooted unrooted, kept] at normal up
    by_cases none : read value = []
    · have plain : Plain (read value) := plain_read (by rw [none]; decide)
      rw [none] at normal plain ⊢
      cases normal
      exact ⟨rfl, plain⟩
    · have other : shown (read value) ≠ [dot] := by
        intro same
        have parts := elements_shown_read value
        rw [same] at parts
        exact none (parts.symm.trans (by decide))
      rw [if_neg other] at normal
      split_ifs at normal with upwards
      cases normal
      refine ⟨if_neg none, plain_read fun head => upwards (up.mpr ⟨unrooted, head⟩)⟩

theorem relativeTransferPath_some {candidate grantPath relative : Text}
    (found : relativeTransferPath candidate grantPath = some relative) :
    Plain (read candidate) ∧ Plain (read grantPath) ∧
      ∃ rest, read candidate = read grantPath ++ rest ∧ relative = joinElements letters rest := by
  unfold relativeTransferPath at found
  cases asked : normalizeTransferPath candidate true with
  | error text =>
    rw [asked] at found
    cases found
  | ok path =>
    cases granted : normalizeTransferPath grantPath true with
    | error text =>
      rw [asked, granted] at found
      cases found
    | ok root =>
      obtain ⟨rfl, plain⟩ := normalizeTransferPath_ok asked
      obtain ⟨rfl, given⟩ := normalizeTransferPath_ok granted
      rw [asked, granted] at found
      dsimp only at found
      refine ⟨plain, given, ?_⟩
      split_ifs at found with top same below
      · have parts := given.elements_join
        rw [top, elements_nil] at parts
        rw [← parts]
        exact ⟨_, rfl, (Option.some.inj found).symm⟩
      · have parts := plain.elements_join
        rw [same, given.elements_join] at parts
        rw [← parts]
        exact ⟨[], (append_nil _).symm, (Option.some.inj found).symm⟩
      · obtain ⟨rest, split⟩ := isPrefixOf_iff_prefix.mp below
        rw [← split, drop_left] at found
        cases found
        have nonempty : read grantPath ≠ [] := fun none => top (by rw [none]; rfl)
        have asked : read candidate ≠ [] := by
          intro none
          rw [none] at split
          simp [joinElements] at split
        have parts := congrArg (List.splitOn slash) split
        rw [append_assoc, singleton_append, splitOn_append_cons_self,
          splitOn_join given.slashes nonempty, splitOn_join plain.slashes asked] at parts
        exact ⟨_, parts.symm, (intercalate_splitOn slash).symm⟩

theorem Plain.append {ds : List Text} (first : Plain cs) (second : Plain ds) :
    Plain (cs ++ ds) where
  names := forall_mem_append.mpr ⟨first.names, second.names⟩
  slashes := forall_mem_append.mpr ⟨first.slashes, second.slashes⟩
  backslashes := forall_mem_append.mpr ⟨first.backslashes, second.backslashes⟩
  down inside := (mem_append.mp inside).elim first.down second.down

theorem Plain.sublist {ds : List Text} (plain : Plain ds) (within : cs.Sublist ds) : Plain cs where
  names c known := plain.names c (within.subset known)
  slashes c known := plain.slashes c (within.subset known)
  backslashes c known := plain.backslashes c (within.subset known)
  down inside := plain.down (within.subset inside)

theorem Plain.nonempty (plain : Plain cs) : ∀ c ∈ cs, c ≠ [] := fun c known =>
  (isName_iff.mp (plain.names c known)).1

theorem filter_nonempty (names : ∀ c ∈ cs, c ≠ []) : cs.filter (· ≠ []) = cs :=
  filter_eq_self.mpr fun c known => decide_eq_true (names c known)

theorem Plain.elements_shown (plain : Plain cs) :
    elements letters (shown cs) = cs :=
  Transfer.elements_shown fun c known => ⟨plain.names c known, plain.slashes c known⟩

theorem Plain.unrooted (plain : Plain cs) (rest : Text) :
    isRooted letters (shown cs ++ rest) = false := by
  cases cs with
  | nil => simp [shown, isRooted, letters, dot, slash]
  | cons c cs =>
    have name := isName_iff.mp (plain.names c mem_cons_self)
    have free := plain.slashes c mem_cons_self
    cases c with
    | nil => exact absurd rfl name.1
    | cons x c =>
      have other : x ≠ slash := fun same => free (same ▸ mem_cons_self)
      have first : (joinElements letters ((x :: c) :: cs)).head? = some x := by
        cases cs <;> simp [joinElements, List.intercalate]
      rw [shown, if_neg (cons_ne_nil _ _), isRooted, decide_eq_false_iff_not,
        head?_append, first]
      exact fun same => other (Option.some.inj same)

theorem joinPaths_shown {ds : List Text} (first : Plain cs) (second : Plain ds) :
    joinPaths (shown cs) (shown ds) = shown (cs ++ ds) := by
  have parts : elements letters (shown cs ++ slash :: shown ds) = cs ++ ds := by
    have split : elements letters (shown cs ++ slash :: shown ds) =
        elements letters (shown cs) ++ elements letters (shown ds) := elements_append_cons _ _
    rw [split, first.elements_shown, second.elements_shown]
  rw [joinPaths, clean_unrooted (first.unrooted _),
    cleanElements_eq (parts ▸ (first.append second).down), parts]

theorem read_shown (plain : Plain cs) : read (shown cs) = readAgain cs := by
  unfold shown
  split_ifs with empty
  · rw [empty]
    decide
  · exact read_join plain.slashes plain.backslashes

theorem shown_begins {cs ds : List Text} (nonempty : cs ≠ []) :
    shown (cs ++ ds) = shown cs ∨ shown cs ++ [slash] <+: shown (cs ++ ds) := by
  by_cases none : ds = []
  · rw [none, append_nil]
    exact .inl rfl
  have longer : cs ++ ds ≠ [] := append_ne_nil_of_left_ne_nil nonempty ds
  rw [shown, if_neg longer, shown, if_neg nonempty, joinElements_append nonempty none]
  exact .inr ⟨joinElements letters ds, by simp [letters]⟩

theorem withinGrant_eq {base : Text} {rest : List Text} (given : Plain (read base))
    (free : ∀ c ∈ rest, slash ∉ c) (straight : ∀ c ∈ rest, backslash ∉ c) :
    withinGrant base (joinElements letters rest) =
      if (readAgain rest).head? = some letters.parent then .error .traversal
      else .ok (shown (readAgain (read base ++ readAgain rest))) := by
  have relative := leadsUp_cleanRelative (joinElements letters rest)
  rw [read_join free straight] at relative
  unfold withinGrant
  dsimp only
  by_cases up : (readAgain rest).head? = some letters.parent
  · rw [if_pos (relative.mpr up), if_pos up]
  have plain : Plain (readAgain rest) := by
    rw [← read_join free straight] at up ⊢
    exact plain_read up
  rw [if_neg (fun leads => up (relative.mp leads)), if_neg up, cleanRelative_eq base,
    cleanRelative_eq (joinElements letters rest), read_join free straight, joinPaths_shown given plain, if_neg,
    cleanRelative_eq, read_shown (given.append plain)]
  rintro ⟨inner, other, outside⟩
  have nonempty : read base ≠ [] := fun none => inner (by rw [none]; rfl)
  rcases @shown_begins _ (readAgain rest) nonempty with same | begins
  · exact other same
  · exact outside (List.isPrefixOf_iff_prefix.mpr begins)

end Readings

section Trimming

variable {cs : List Text}

/-- The components left when white space is trimmed from the end of the path. -/
def evaluated (cs : List Text) : List Text := (trimLast cs).filter (· ≠ [])

def beginsBlank (text : Text) : Bool := spaces.any fun p => p.isPrefixOf text

theorem size_trimFirst (cs : List Text) :
    size (trimFirst cs) ≤ size cs ∧ (size cs ≤ size (trimFirst cs) → trimFirst cs = cs) := by
  cases cs with
  | nil => exact ⟨Nat.le_refl _, fun _ => rfl⟩
  | cons c cs =>
    obtain ⟨shorter, same⟩ := size_sublist (@trimStart_suffix _ _ spaces c).sublist
    have parts : ∀ d : Text, size (d :: cs) = size [d] + size cs := fun d => size_append [d] cs
    rw [trimFirst, modifyHead_cons, parts, parts]
    exact ⟨by omega, fun long => by rw [same (by omega)]⟩

theorem size_trimLast (cs : List Text) :
    size (trimLast cs) ≤ size cs ∧ (size cs ≤ size (trimLast cs) → trimLast cs = cs) := by
  cases cs using List.reverseRecOn with
  | nil => exact ⟨Nat.le_refl _, fun _ => rfl⟩
  | append_singleton cs c _ =>
    obtain ⟨shorter, same⟩ := size_sublist (@trimEnd_begins _ _ spaces c).sublist
    rw [trimLast_concat, size_append, size_append]
    exact ⟨by omega, fun long => by rw [same (by omega)]⟩

theorem trimFirst_eq_self_iff :
    trimFirst cs = cs ↔ beginsBlank (cs.headD []) = false := by
  have first : ∀ c, trimStart spaces c = c ↔ beginsBlank c = false := by
    intro c
    rw [trimStart_eq_self_iff spaces_proper, beginsBlank, any_eq_false]
    simp only [List.isPrefixOf_iff_prefix]
  cases cs with
  | nil => exact iff_of_true rfl (by decide)
  | cons c cs =>
    rw [trimFirst, modifyHead_cons, List.cons.injEq, and_iff_left rfl]
    exact first c

theorem trimLast_eq_self_iff (free : ∀ c ∈ cs, slash ∉ c) :
    trimLast cs = cs ↔ endsBlank (cs.getLastD []) = false := by
  cases cs using List.reverseRecOn with
  | nil => exact iff_of_true rfl (by decide)
  | append_singleton cs c _ =>
    have plain : ∀ p ∈ [[slash]], ¬ p <:+ c := by
      intro p known ends
      rw [mem_singleton.mp known] at ends
      exact free c (mem_append_right cs mem_cons_self) (ends.mem mem_cons_self)
    rw [trimLast_concat, append_cancel_left_eq, List.cons.injEq, and_iff_left rfl,
      getLastD_concat, endsBlank_eq_false_iff, trimEnd_eq_self_iff spaces_proper]
    exact (and_iff_left plain).symm

theorem evaluated_concat (names : ∀ c ∈ cs, c ≠ []) (c : Text) :
    evaluated (cs ++ [c]) = cs ++ if trimEnd spaces c = [] then [] else [trimEnd spaces c] := by
  rw [evaluated, trimLast_concat, filter_append, filter_nonempty names]
  split_ifs with empty
  · simp [empty]
  · simp [empty]

theorem evaluated_append {ds : List Text} (names : ∀ c ∈ cs, c ≠ []) (nonempty : ds ≠ []) :
    evaluated (cs ++ ds) = cs ++ evaluated ds := by
  cases ds using List.reverseRecOn with
  | nil => exact absurd rfl nonempty
  | append_singleton ds d _ =>
    rw [← append_assoc, evaluated, evaluated, trimLast_concat, trimLast_concat,
      append_assoc, filter_append, filter_nonempty names]

theorem readAgain_eq (names : ∀ c ∈ cs, c ≠ []) :
    readAgain cs = cleanList letters (trimFirst (evaluated cs)) := by
  cases cs using List.reverseRecOn with
  | nil => rfl
  | append_singleton cs c _ =>
    rw [evaluated_concat fun c known => names c (mem_append_left _ known), readAgain,
      trimLast_concat]
    split_ifs with empty
    · have dropped : ∀ es, cleanList letters (es ++ [[]]) = cleanList letters es := by
        intro es
        simp [cleanList, cleanStep]
      rw [empty, append_nil]
      cases cs with
      | nil => decide
      | cons d cs => exact dropped (trimStart spaces d :: cs)
    · rfl

end Trimming

section Agreement

variable {granted : List Text}

/-- Where control and the node read a path alike, given the components of the grant and the
rest: what is evaluated is made of names and does not begin with white space; below the
grant it neither leads upwards nor begins or ends with white space. -/
def steady (granted rest : List Text) : Bool :=
  let named := evaluated (granted ++ rest)
  named.all (isName letters) && !beginsBlank (named.headD []) &&
    if rest = [] then !named.contains letters.parent || named == [letters.parent]
    else !named.contains letters.parent && !beginsBlank ((named.drop granted.length).headD []) &&
      !endsBlank (named.getLastD [])

theorem Plain.evaluated {cs : List Text} (plain : Plain cs) :
    letters.parent ∉ (evaluated cs).dropLast ∧ ∀ c ∈ evaluated cs, slash ∉ c := by
  cases cs using List.reverseRecOn with
  | nil => exact ⟨not_mem_nil, nofun⟩
  | append_singleton cs c _ =>
    have before := plain.sublist (sublist_append_left cs [c])
    have last := plain.slashes c (mem_append_right cs mem_cons_self)
    rw [evaluated_concat before.nonempty]
    split_ifs with empty
    · rw [append_nil]
      exact ⟨fun inside => before.down (mem_of_mem_dropLast inside), before.slashes⟩
    · rw [dropLast_concat, forall_mem_append, forall_mem_singleton]
      exact ⟨before.down, before.slashes, fun inside => last ((trimEnd_begins c).mem inside)⟩

theorem cleanList_trimFirst_iff {cs : List Text} (down : letters.parent ∉ cs.dropLast) :
    cleanList letters (trimFirst cs) = cs ↔ beginsBlank (cs.headD []) = false ∧
      (∀ c ∈ cs, isName letters c = true) ∧ (letters.parent ∉ cs ∨ cs = [letters.parent]) := by
  rw [← cleanList_eq_self_iff down, ← trimFirst_eq_self_iff]
  constructor
  · intro same
    have shorter := @size_cleanList _ _ letters (trimFirst cs)
    rw [same] at shorter
    have first := (size_trimFirst cs).2 shorter
    rw [first] at same
    exact ⟨first, same⟩
  · rintro ⟨first, same⟩
    rw [first, same]

theorem readAgain_eq_evaluated_iff (plain : Plain granted) :
    readAgain granted = evaluated granted ↔ steady granted [] = true := by
  rw [readAgain_eq plain.nonempty, cleanList_trimFirst_iff plain.evaluated.1, steady,
    append_nil, if_pos rfl]
  simp only [Bool.and_eq_true, Bool.or_eq_true, Bool.not_eq_true', all_eq_true, beq_iff_eq,
    contains_eq_mem, decide_eq_false_iff_not]
  constructor
  · rintro ⟨first, names, last⟩
    exact ⟨⟨names, first⟩, last⟩
  · rintro ⟨⟨names, first⟩, last⟩
    exact ⟨first, names, last⟩

theorem readAgain_below_iff {rest : List Text} (plain : Plain (granted ++ rest))
    (below : rest ≠ []) :
    ((readAgain rest).head? ≠ some letters.parent ∧
        readAgain (granted ++ readAgain rest) = evaluated (granted ++ rest)) ↔
      steady granted rest = true := by
  have leading := plain.sublist (sublist_append_left granted rest)
  have following := plain.sublist (sublist_append_right granted rest)
  have free := plain.evaluated.2
  have named := evaluated_append leading.nonempty below
  rw [steady, if_neg below]
  simp only [Bool.and_eq_true, Bool.not_eq_true', all_eq_true, contains_eq_mem,
    decide_eq_false_iff_not]
  rw [← trimFirst_eq_self_iff, ← trimFirst_eq_self_iff, ← trimLast_eq_self_iff free, named,
    drop_left]
  rw [readAgain_eq following.nonempty]
  generalize evaluated rest = named
  constructor
  · rintro ⟨up, same⟩
    -- no reading may make the path shorter, so that each leaves it as it is
    have whole := @size_cleanList _ _ letters
      (trimFirst (trimLast (granted ++ cleanList letters (trimFirst named))))
    have part := @size_cleanList _ _ letters (trimFirst named)
    have opening := size_trimFirst named
    have front := size_trimFirst (trimLast (granted ++ cleanList letters (trimFirst named)))
    have back := size_trimLast (granted ++ cleanList letters (trimFirst named))
    rw [← readAgain, same] at whole
    rw [size_append] at whole back
    have start := opening.2 (by omega)
    have last := back.2 (by omega)
    have first := front.2 (by omega)
    rw [start] at up same last first
    have down : letters.parent ∉ granted ++ cleanList letters named := fun inside =>
      (mem_append.mp inside).elim leading.down (cleanList_down up)
    have names : ∀ c ∈ granted ++ cleanList letters named, isName letters c = true :=
      forall_mem_append.mpr ⟨leading.names, cleanList_names named⟩
    rw [last] at first
    rw [readAgain, last, first, cleanList_eq names down] at same
    rw [same] at names first down last
    exact ⟨⟨names, first⟩, ⟨down, start⟩, last⟩
  · rintro ⟨⟨names, first⟩, ⟨down, start⟩, last⟩
    have kept : cleanList letters named = named :=
      cleanList_eq (fun c known => names c (mem_append_right granted known))
        (fun inside => down (mem_append_right granted inside))
    rw [start, kept, readAgain, last, first, cleanList_eq names down]
    exact ⟨fun head => down (mem_append_right granted (mem_of_head? head)), rfl⟩

theorem readings_agree_iff {rest : List Text} (plain : Plain (granted ++ rest)) :
    ((readAgain rest).head? ≠ some letters.parent ∧
        readAgain (granted ++ readAgain rest) = evaluated (granted ++ rest)) ↔
      steady granted rest = true := by
  by_cases here : rest = []
  · rw [here, append_nil] at plain ⊢
    have none : readAgain [] = [] := by decide
    rw [none, append_nil, readAgain_eq_evaluated_iff plain]
    exact and_iff_right (by decide)
  · exact readAgain_below_iff plain here

end Agreement

section Policies

variable {base : Text}

theorem scope_eq {path : Text} (straight : backslash ∉ path) (granted : fileScope base path ≠ []) :
    fileScope base path = followed base (read path) := by
  have plain : slashed (trimSpace path) = trimSpace path :=
    slashed_of_free fun inside => straight (trimSpace_mem inside)
  rw [fileScope_eq, plain] at granted ⊢
  split_ifs at granted ⊢ with up
  · exact absurd rfl granted
  have run := foldl_cleanStep_plain false up []
  rw [append_nil] at run
  rw [read, slashed_of_free straight, cleanList]
  exact congrArg (followed base) (run ▸ (reverse_reverse _).symm)

theorem followed_unslashed {cs : List Text} (mount : ∀ p ∈ [[slash]], ¬ p <:+ base)
    (plain : Plain cs) : ∀ p ∈ [[slash]], ¬ p <:+ followed base cs := by
  cases cs using List.reverseRecOn with
  | nil =>
    rw [followed, map_nil, flatten_nil, append_nil]
    exact mount
  | append_singleton cs c _ =>
    have last : c ∈ cs ++ [c] := mem_append_right cs mem_cons_self
    have split : followed base (cs ++ [c]) = (followed base cs ++ [slash]) ++ c := by
      rw [followed_concat, append_assoc, singleton_append]
    rw [split]
    exact slash_not_suffix (plain.nonempty c last) (plain.slashes c last)

theorem normalizePath_followed {cs : List Text} (start : base.head? = some 110)
    (mount : ∀ p ∈ [[slash]], ¬ p <:+ base) (plain : Plain cs) (nonempty : cs ≠ []) :
    normalizePath (followed base cs) = followed base (evaluated cs) := by
  obtain ⟨rest, rfl⟩ := head?_eq_some_iff.mp start
  rw [followed, cons_append, normalizePath_eq, ← cons_append, ← followed]
  cases cs using List.reverseRecOn with
  | nil => exact absurd rfl nonempty
  | append_singleton cs c _ =>
    have before := plain.sublist (sublist_append_left cs [c])
    have free := plain.slashes c (mem_append_right cs mem_cons_self)
    have proper : [] ∉ [[slash]] := by decide
    rw [evaluated_concat before.nonempty, followed_concat,
      trimEnd_append_cons spaces_proper spaces_barred]
    split_ifs with empty
    · have single : Separate [[slash]] := by
        unfold Separate
        decide
      rw [empty, append_nil, trimEnd_pattern proper single mem_cons_self]
      exact (trimEnd_eq_self_iff proper).mpr (followed_unslashed mount before)
    · have cut : slash ∉ trimEnd spaces c := fun inside => free ((trimEnd_begins c).mem inside)
      have ends := @slash_not_suffix (followed (110 :: rest) cs ++ [slash]) _ empty cut
      rw [append_assoc, singleton_append] at ends
      rw [followed_concat]
      exact (trimEnd_eq_self_iff proper).mpr ends

theorem followed_injective {cs ds : List Text} (first : ∀ c ∈ cs, slash ∉ c)
    (second : ∀ d ∈ ds, slash ∉ d) (same : followed base cs = followed base ds) : cs = ds := by
  have joined : ∀ es : List Text, (es.map (slash :: ·)).flatten = joinElements letters ([] :: es) := by
    intro es
    cases es with
    | nil => rfl
    | cons e es =>
      have nonempty := cons_ne_nil e es
      have below := (@followed_join [] _ nonempty).symm
      exact below.trans (joinElements_append (a := letters) (cons_ne_nil [] []) nonempty).symm
  have split : ∀ es : List Text, (∀ e ∈ es, slash ∉ e) →
      ((es.map (slash :: ·)).flatten).splitOn slash = [] :: es := by
    intro es free
    rw [joined]
    exact splitOn_join (forall_mem_cons.mpr ⟨not_mem_nil, free⟩) (cons_ne_nil _ _)
  have parts := congrArg (List.splitOn slash) (append_cancel_left same)
  rw [split cs first, split ds second] at parts
  exact (List.cons.inj parts).2

theorem validPathIdentifier_free {value : Text} (valid : validPathIdentifier value = true) :
    value ≠ [] ∧ slash ∉ value := by
  unfold validPathIdentifier at valid
  rw [Bool.and_eq_true, bne_iff_ne, Bool.not_eq_true', any_eq_false] at valid
  refine ⟨fun empty => valid.1 (by rw [empty]; decide), fun inside => ?_⟩
  exact valid.2 slash ((mem_trimSpace_iff spaces_barred).mpr inside) (by decide)

theorem mountScope_eq (nodeID mountID : Text) : mountScope nodeID mountID =
    followed (ascii "nodes/" ++ nodeID ++ ascii "/files/mounts") [mountID] := by
  have split : ascii "/files/mounts/" = ascii "/files/mounts" ++ [slash] := by decide
  simp [mountScope, followed, split]

theorem mountScope_unslashed {nodeID mountID : Text} (valid : validPathIdentifier mountID = true) :
    ∀ p ∈ [[slash]], ¬ p <:+ mountScope nodeID mountID := by
  obtain ⟨nonempty, free⟩ := validPathIdentifier_free valid
  exact slash_not_suffix nonempty free

theorem normalizePath_mount {nodeID mountID : Text} (valid : validPathIdentifier mountID = true) :
    normalizePath (mountScope nodeID mountID) = mountScope nodeID mountID ↔
      endsBlank mountID = false := by
  obtain ⟨nonempty, free⟩ := validPathIdentifier_free valid
  have last := @endsBlank_followed (ascii "nodes/" ++ nodeID ++ ascii "/files/mounts") [mountID]
    (fun c known => by rw [mem_singleton.mp known]; exact ⟨nonempty, free⟩)
  obtain ⟨rest, start⟩ : ∃ rest, mountScope nodeID mountID = 110 :: rest := ⟨_, rfl⟩
  have ends : endsBlank (mountScope nodeID mountID) = endsBlank mountID := by
    rw [mountScope_eq, last]
    rfl
  rw [← ends, ← trimEnd_twice_iff, start, normalizePath_eq]

end Policies

section Destinations

theorem mostSpecific_some {allows : TransferGrant → Bool} {grants : List TransferGrant}
    {grant : TransferGrant} (chosen : mostSpecific allows grants = some grant) :
    allows grant = true := by
  have step : ∀ best candidate, (∀ g n, best = some (g, n) → allows g = true) →
      ∀ g n, preferGrant allows best candidate = some (g, n) → allows g = true := by
    intro best candidate known g n preferred
    unfold preferGrant at preferred
    split at preferred
    · exact known g n preferred
    rename_i allowed
    split at preferred
    · exact known g n preferred
    · cases preferred
      simpa using allowed
    split at preferred
    · cases preferred
      simpa using allowed
    · exact known g n preferred
  obtain ⟨⟨g, n⟩, found, rfl⟩ := Option.map_eq_some_iff.mp chosen
  exact List.foldlRecOn (b := none) (motive := fun best => ∀ g n, best = some (g, n) →
    allows g = true) grants (preferGrant allows) nofun
    (fun best known candidate _ => step best candidate known) g n found

theorem selectLogicalTransferGrants_some {strings : Strings} {sources destinations : List TransferGrant}
    {sourceNodeID destinationNodeID sourceMountID destinationMountID : Text} {paths : List Text}
    {destinationPath : Text} {operation : Operation} {conflictPolicy : Text}
    {source destination : TransferGrant}
    (selected : selectLogicalTransferGrants strings sources destinations sourceNodeID
      destinationNodeID sourceMountID destinationMountID paths destinationPath operation
      conflictPolicy = some (source, destination)) :
    (relativeTransferPath destinationPath destination.path).isSome = true := by
  unfold selectLogicalTransferGrants at selected
  split at selected
  · cases selected
  obtain ⟨grant, chosen, pair⟩ := Option.map_eq_some_iff.mp selected
  cases pair
  have allowed := mostSpecific_some chosen
  simp only [Bool.and_eq_true] at allowed
  exact allowed.1.2

theorem planTransfer_ok {c : Control} {destinationNodeID : Text} {request : LogicalTransferRequest}
    {operation : Operation} {resolved : ResolvedTransfer}
    (planned : c.planTransfer destinationNodeID request operation = .ok resolved) :
    resolved.request = request ∧ relativeTransferPath request.destinationPath
      resolved.destinationGrant.path = some resolved.destinationPath := by
  unfold Control.planTransfer at planned
  split at planned
  · cases planned
  · cases planned
  split at planned
  · cases planned
  split at planned
  · split at planned
    · cases planned
    · cases planned
    dsimp only at planned
    split at planned
    · split at planned
      · cases planned
      · cases planned
    · rename_i selected
      obtain ⟨relative, found⟩ :=
        Option.isSome_iff_exists.mp (selectLogicalTransferGrants_some selected)
      cases planned
      exact ⟨rfl, by rw [found, Option.getD_some]⟩
  · cases planned

theorem resolveLogicalTransferRequest_ok {c : Control} {transferCapability : String}
    {nodeID : Text} {request : LogicalTransferRequest} {resolved : ResolvedTransfer}
    (done : c.resolveLogicalTransferRequest transferCapability nodeID request = .ok resolved) :
    validPathIdentifier request.destinationMountID = true ∧
      resolved.request.destinationMountID = request.destinationMountID ∧
      normalizeTransferPath request.destinationPath true = .ok resolved.request.destinationPath ∧
      c.authorizeFileTree (c.typedPolicies && c.signedLocalJobs)
        (fileScope (mountScope (trimSpace nodeID) request.destinationMountID)
          resolved.request.destinationPath) "create" = none ∧
      relativeTransferPath resolved.request.destinationPath resolved.destinationGrant.path =
        some resolved.destinationPath := by
  unfold Control.resolveLogicalTransferRequest at done
  dsimp only at done
  split at done
  · cases done
  split at done
  · cases done
  split at done
  · cases done
  rename_i identifiers
  split at done
  · cases done
  rename_i path normal
  split at done
  · cases done
  split at done
  · cases done
  rename_i authorized
  obtain ⟨same, relative⟩ := planTransfer_ok done
  rw [same]
  refine ⟨by simp only [Bool.or_eq_true, not_or] at identifiers; simpa using identifiers.1.2, rfl,
    normal, ?_, relative⟩
  unfold Control.authorizeTransfer at authorized
  rw [findSome?_eq_none_iff] at authorized
  exact authorized _ (mem_append_left _ (mem_append_right _ mem_cons_self))

def asked (destinationPath : Text) : List Text := readAgain (read destinationPath)

/-- A transfer writes to the directory whose creation was authorised exactly where control
and the node read the destination alike; the mount itself must not end in white space. -/
theorem transfer_writes_where_authorised {c : Control} {transferCapability : String}
    {nodeID : Text} {request : LogicalTransferRequest} {resolved : ResolvedTransfer}
    (done : c.resolveLogicalTransferRequest transferCapability nodeID request = .ok resolved) :
    (∃ directory, withinGrant resolved.destinationGrant.path resolved.destinationPath =
        .ok directory ∧
      normalizePath (fileScope (mountScope (trimSpace nodeID) request.destinationMountID)
          resolved.request.destinationPath) =
        followed (mountScope (trimSpace nodeID) request.destinationMountID)
          (elements letters directory)) ↔
    (asked request.destinationPath = [] → endsBlank request.destinationMountID = false) ∧
      steady (read resolved.destinationGrant.path) ((asked request.destinationPath).drop
        (read resolved.destinationGrant.path).length) = true := by
  obtain ⟨valid, _, normal, create, relative⟩ := resolveLogicalTransferRequest_ok done
  obtain ⟨written, plain⟩ := normalizeTransferPath_ok normal
  have same : asked request.destinationPath = read resolved.request.destinationPath := by
    rw [asked, written, read_join plain.slashes plain.backslashes]
  have straight : backslash ∉ resolved.request.destinationPath := by
    rw [written, mem_joinElements (by decide)]
    rintro ⟨d, known, inside⟩
    exact plain.backslashes d known inside
  have granted : fileScope (mountScope (trimSpace nodeID) request.destinationMountID)
      resolved.request.destinationPath ≠ [] := by
    intro empty
    rw [Control.authorizeFileTree, if_pos empty] at create
    cases create
  obtain ⟨destination, given, rest, split, sent⟩ := relativeTransferPath_some relative
  rw [split] at destination
  obtain ⟨_, free, turned, _⟩ := destination.sublist (sublist_append_right _ rest)
  rw [scope_eq straight granted, same, split, drop_left, sent, withinGrant_eq given free turned,
    ← readings_agree_iff destination]
  generalize read resolved.destinationGrant.path = root at *
  by_cases top : root ++ rest = []
  · obtain ⟨rfl, rfl⟩ := append_eq_nil_iff.mp top
    have there : (if (readAgain []).head? = some letters.parent then Except.error PathError.traversal
        else .ok (shown (readAgain ([] ++ readAgain [])))) = .ok [dot] := by decide
    have agree : (readAgain []).head? ≠ some letters.parent ∧
        readAgain ([] ++ readAgain []) = evaluated ([] ++ []) := by decide
    have none : elements letters [dot] = [] := by decide
    rw [there, append_nil, followed, map_nil, flatten_nil, append_nil]
    constructor
    · rintro ⟨directory, found, named⟩
      cases found
      rw [none, followed, map_nil, flatten_nil, append_nil] at named
      exact ⟨fun _ => (normalizePath_mount valid).mp named, agree⟩
    · rintro ⟨ends, _⟩
      refine ⟨[dot], rfl, ?_⟩
      rw [none, followed, map_nil, flatten_nil, append_nil]
      exact (normalizePath_mount valid).mpr (ends rfl)
  · have start : (mountScope (trimSpace nodeID) request.destinationMountID).head? = some 110 := rfl
    have evaluates := normalizePath_followed start (mountScope_unslashed valid) destination top
    have again : ∀ d ∈ readAgain rest, slash ∉ d ∧ backslash ∉ d := fun d known =>
      (mem_read (read_join free turned ▸ known)).2
    have opened : ∀ d ∈ readAgain (root ++ readAgain rest), isName letters d = true ∧ slash ∉ d := by
      have unslashed : ∀ d ∈ root ++ readAgain rest, slash ∉ d :=
        forall_mem_append.mpr ⟨given.slashes, fun d known => (again d known).1⟩
      have unturned : ∀ d ∈ root ++ readAgain rest, backslash ∉ d :=
        forall_mem_append.mpr ⟨given.backslashes, fun d known => (again d known).2⟩
      intro d known
      rw [← read_join unslashed unturned] at known
      exact ⟨(mem_read known).1, (mem_read known).2.1⟩
    rw [evaluates]
    constructor
    · rintro ⟨directory, found, named⟩
      split_ifs at found with up
      cases found
      rw [elements_shown opened] at named
      refine ⟨fun empty => absurd empty top, up, ?_⟩
      exact (followed_injective destination.evaluated.2 (fun d known => (opened d known).2) named).symm
    · rintro ⟨_, up, agree⟩
      rw [if_neg up]
      refine ⟨_, rfl, ?_⟩
      rw [elements_shown opened, agree]

def sampleGrant (direction : String) : TransferGrant where
  id := ascii "g"
  peerNodeID := ascii "peer"
  mountID := ascii "m"
  path := ascii (if direction = "receive" then "in" else "")
  direction := ascii direction
  enabled := true
  conflictPolicies := [ascii "fail"]
  exclude := []
  read := true
  write := true
  delete := false

/-- A control whose policies allow everything and whose nodes hold the sample grants. -/
def sampleControl : Control where
  strings := ⟨id, fun a b => a == b, fun _ _ => some false⟩
  typedPolicies := false
  signedLocalJobs := false
  maxSourcePaths := 0
  authorize _ _ _ := .allowed
  deniesWithinScope _ _ := .allowed
  getNode id := some ⟨id, ascii "online"⟩
  nodeMetadata _ := some ⟨ascii "peer", []⟩
  nodeTransferGrants node := .ok [sampleGrant (if node.id = ascii "a" then "send" else "receive")]

def sampleTransfer (destinationPath : String) : LogicalTransferRequest where
  operation := []
  sourceNodeID := ascii "a"
  sourceMountID := ascii "m"
  sourcePaths := [ascii "f"]
  destinationMountID := ascii "m"
  destinationPath := ascii destinationPath
  conflictPolicy := []

def sampleResolved (destinationPath translated : String) : ResolvedTransfer where
  request := { sampleTransfer destinationPath with conflictPolicy := ascii "fail" }
  operation := .copy
  sourceNode := ⟨ascii "a", ascii "online"⟩
  sourcePeerNodeID := ascii "peer"
  destinationNode := ⟨ascii "b", ascii "online"⟩
  sourceGrant := sampleGrant "send"
  destinationGrant := sampleGrant "receive"
  sourcePaths := [ascii "f"]
  destinationPath := ascii translated

theorem sample_transfer_directory :
    ∃ directory, withinGrant (ascii "in") (ascii "x y") = .ok directory ∧
      normalizePath (fileScope (mountScope (ascii "b") (ascii "m")) (ascii "in/x y")) =
        followed (mountScope (ascii "b") (ascii "m")) (elements letters directory) :=
  (@transfer_writes_where_authorised sampleControl "execute" (ascii "b")
    (sampleTransfer "in/./x y") (sampleResolved "in/x y" "x y") (by decide +kernel)).mpr
      (by decide +kernel)

/-- The policies are evaluated for "in/ x"; the node writes to "in/x". -/
theorem transfer_writes_elsewhere :
    sampleControl.resolveLogicalTransferRequest "execute" (ascii "b") (sampleTransfer "in/ x") =
        .ok (sampleResolved "in/ x" " x") ∧
      withinGrant (ascii "in") (ascii " x") = .ok (ascii "in/x") ∧
      normalizePath (fileScope (mountScope (ascii "b") (ascii "m")) (ascii "in/ x")) =
        ascii "nodes/b/files/mounts/m/in/ x" ∧
      normalizePath (fileScope (mountScope (ascii "b") (ascii "m")) (ascii "in/ x")) ≠
        followed (mountScope (ascii "b") (ascii "m")) (elements letters (ascii "in/x")) := by
  decide +kernel

end Destinations

end Jolt.Access.Transfer
