import Jolt.Access.Scopes

/-! Public shares. A share keeps the path of a folder; a request names a path below it,
control joins the two and checks the result against the policies of the share's creator,
and the node resolves the joined path. -/
namespace Jolt.Access
open Jolt.Base List

section Requests

inductive ShareKind where
  | file | directory
  deriving DecidableEq

structure Share where
  nodeID : Text
  mountID : Text
  path : Text
  kind : ShareKind
  deriving DecidableEq

def normalizeSharePath (value : Text) : Text := trimSlashes (slashed (trimSpace value))

/-- A new share; `allowed` is what the policies of its creator say of a resource path. -/
def createShare (allowed : Text → Bool) (nodeID mountID path : Text) (kind : ShareKind) :
    Option Share :=
  let scope := fileScope (mountScope nodeID mountID) path
  if scope = [] then none
  else if allowed scope then some ⟨nodeID, mountID, normalizeSharePath path, kind⟩
  else none

def resolveSharePath (share : Share) (query : Text) : Option Text :=
  let requested := normalizeSharePath query
  match share.kind with
  | .file => if requested = [] then some share.path else none
  | .directory =>
    if requested = [] then some share.path
    else if fileScope share.path requested = [] then none
    else if share.path = [] then some requested
    else some (fileScope share.path requested)

def authorizeSharePath (allowed : Text → Bool) (share : Share) (relative : Text) : Bool :=
  let scope := fileScope (mountScope share.nodeID share.mountID) relative
  scope != [] && allowed scope

end Requests

section Confinement

theorem elements_cleanRelative_eq (path : Text) :
    elements letters (cleanRelative path) = cleanElements letters (trimSpace path) := by
  unfold cleanRelative
  dsimp only
  split_ifs with empty
  · rw [empty]
    decide
  · exact elements_clean _

/-- The last component of a path does not change when a slash is put after it, or what it
changes to is no component of its own. -/
def firmEnd (path : Text) : Bool :=
  let name := lastElement letters (trimStart spaces path)
  let trimmed := trimEnd spaces name
  trimmed == name || !isName letters trimmed ||
    (trimmed == letters.parent && !leadsUp (cleanRelative path))

theorem not_isName {element : Text} (nameless : ¬ isName letters element = true) :
    element = [] ∨ element = [dot] := by
  by_contra proper
  exact nameless (isName_iff.mpr (not_or.mp proper))

theorem parent_last_iff {rooted : Bool} {leading : List Text} {name : Text} (rest : List Text)
    (down : letters.parent ∉ leading) (other : name ≠ letters.parent) :
    (cleanStep letters rooted leading.reverse letters.parent).reverse <+:
        leading ++ name :: rest ↔
      ¬ (rooted = false ∧ (cleanStep letters rooted leading.reverse letters.parent).reverse.head? =
        some letters.parent) := by
  have blank : ¬ (letters.parent = [] ∨ letters.parent = [letters.dot]) := by decide
  cases leading using List.reverseRecOn with
  | nil =>
    rw [reverse_nil, cleanStep, if_neg blank, if_pos rfl]
    cases rooted with
    | true => simp
    | false => simp [other.symm]
  | append_singleton before last _ =>
    have known : last ≠ letters.parent := fun same =>
      down (same ▸ mem_append_right before mem_cons_self)
    have stays : letters.parent ∉ before := fun inside => down (mem_append_left [last] inside)
    rw [reverse_append, reverse_singleton, singleton_append, cleanStep,
      if_neg blank, if_pos rfl]
    simp only [if_neg known, reverse_reverse, append_assoc]
    refine iff_of_true (prefix_append before _) ?_
    rintro ⟨_, head⟩
    exact stays (mem_of_head? head)

theorem begins_iff_firmEnd {path : Text}
    (down : letters.parent ∉ elements letters (trimStart spaces path)) (rest : List Text) :
    elements letters (cleanRelative path) <+: elements letters (trimStart spaces path) ++ rest ↔
      firmEnd path = true := by
  have whole : elements letters (trimStart spaces path) =
      (leadingElements letters (trimStart spaces path)).filter (isName letters) ++
        [lastElement letters (trimStart spaces path)].filter (isName letters) := by
    rw [elements, splitOn_eq_leading, filter_append]
  have trimmed : (trimSpace path).splitOn letters.slash =
      leadingElements letters (trimStart spaces path) ++
        [trimEnd spaces (lastElement letters (trimStart spaces path))] :=
    splitOn_trimEnd spaces_proper spaces_barred _
  have leading : letters.parent ∉
      (leadingElements letters (trimStart spaces path)).filter (isName letters) := by
    intro inside
    rw [whole] at down
    exact down (mem_append_left _ inside)
  have nonempty : isName letters (trimEnd spaces (lastElement letters (trimStart spaces path))) =
      true → trimSpace path ≠ [] := by
    intro name empty
    rw [empty, splitOn_nil, ← nil_append [[]]] at trimmed
    have last := append_inj_right' trimmed rfl
    rw [← singleton_inj.mp last] at name
    exact absurd name (by decide)
  have named : isName letters (trimEnd spaces (lastElement letters (trimStart spaces path))) =
      true → isName letters (lastElement letters (trimStart spaces path)) = true := by
    intro name
    by_contra nameless
    rcases not_isName nameless with empty | same
    · rw [empty] at name
      exact absurd name (by decide)
    · rw [same] at name
      exact absurd name (by decide)
  have kept := cleanElements_last trimmed leading
  have read : trimSpace path ≠ [] → (leadsUp (cleanRelative path) = true ↔
      isRooted letters (trimSpace path) = false ∧
        (cleanElements letters (trimSpace path)).head? = some letters.parent) := by
    intro nonempty
    rw [cleanRelative, if_neg nonempty, leadsUp_clean]
  rw [elements_cleanRelative_eq, firmEnd]
  generalize trimEnd spaces (lastElement letters (trimStart spaces path)) = short at *
  generalize lastElement letters (trimStart spaces path) = name at *
  generalize (leadingElements letters (trimStart spaces path)).filter (isName letters) = before at *
  by_cases proper : isName letters short = true
  · have there : elements letters (trimStart spaces path) = before ++ [name] := by
      rw [whole, filter_cons_of_pos (named proper), filter_nil]
    rw [there] at down ⊢
    rw [append_assoc, singleton_append]
    by_cases up : short = letters.parent
    · have other : name ≠ letters.parent := fun same =>
        down (same ▸ mem_append_right before mem_cons_self)
      have changed : (short == name) = false := by
        rw [up, beq_eq_false_iff_ne]
        exact other.symm
      rw [up] at kept
      have decided := read (nonempty proper)
      rw [kept] at decided ⊢
      rw [parent_last_iff rest leading other, ← decided, changed, proper, up]
      simp
    · have stays : cleanElements letters (trimSpace path) = before ++ [short] := by
        rw [kept, cleanStep_plain up, if_pos proper, reverse_cons, reverse_reverse]
      have unchanged : (short == letters.parent) = false := beq_eq_false_iff_ne.mpr up
      rw [stays, prefix_append_right_inj, unchanged, proper]
      simp
  · have plain : short ≠ letters.parent := by
      rintro rfl
      exact proper isName_parent
    have stays : cleanElements letters (trimSpace path) = before := by
      rw [kept, cleanStep_plain plain, if_neg proper, reverse_reverse]
    rw [stays, whole, append_assoc]
    refine iff_of_true (prefix_append before _) ?_
    simp [proper]

theorem trimSpace_append (path rest : Text) :
    trimSpace (path ++ slash :: rest) = trimStart spaces path ++ slash :: trimEnd spaces rest := by
  rw [trimSpace, trim, trimStart_append_cons spaces_proper spaces_barred,
    trimEnd_append_cons spaces_proper spaces_barred]

theorem slashed_requested (query : Text) :
    slashed (trimSpace (normalizeSharePath query)) = trimSpace (normalizeSharePath query) := by
  apply slashed_of_free
  intro inside
  have inner : backslash ∈ normalizeSharePath query := trimSpace_mem inside
  exact backslash_not_mem_slashed _ ((trimStart_suffix _).mem ((trimEnd_begins _).mem inner))

theorem resolveSharePath_cases {share : Share} {query joined : Text}
    (directory : share.kind = .directory) (resolved : resolveSharePath share query = some joined) :
    (joined = share.path ∧ elements letters (trimSpace (normalizeSharePath query)) = []) ∨
      share.path = [] ∨
      (elements letters (trimSpace (normalizeSharePath query)) ≠ [] ∧
        joined = share.path ++ slash ::
          joinElements letters (elements letters (trimSpace (normalizeSharePath query)))) := by
  simp only [resolveSharePath, directory] at resolved
  split_ifs at resolved with empty up root
  · refine .inl ⟨(Option.some.inj resolved).symm, ?_⟩
    rw [empty]
    decide
  · exact .inr (.inl root)
  · have scope := Option.some.inj resolved
    rw [fileScope_eq, slashed_requested] at scope up
    by_cases upwards : letters.parent ∈ elements letters (trimSpace (normalizeSharePath query))
    · rw [if_pos upwards] at up
      exact absurd rfl up
    rw [if_neg upwards] at scope
    by_cases none : elements letters (trimSpace (normalizeSharePath query)) = []
    · rw [none] at scope
      exact .inl ⟨by simpa [followed] using scope.symm, none⟩
    · exact .inr (.inr ⟨none, scope.symm.trans (followed_join none).symm⟩)

/-- A request through a directory share is answered from the shared folder exactly where
it names no component, or the share's path has a firm end. -/
theorem share_confined_iff {created allowed : Text → Bool}
    {nodeID mountID folder query joined : Text} {share : Share}
    (new : createShare created nodeID mountID folder .directory = some share)
    (resolved : resolveSharePath share query = some joined)
    (authorized : authorizeSharePath allowed share joined = true) :
    elements letters (cleanRelative share.path) <+: elements letters (cleanRelative joined) ↔
      elements letters (trimSpace (normalizeSharePath query)) = [] ∨ firmEnd share.path = true := by
  have directory : share.kind = .directory := by
    unfold createShare at new
    dsimp only at new
    split_ifs at new
    cases new
    rfl
  rcases resolveSharePath_cases directory resolved with ⟨rfl, none⟩ | root | ⟨names, rfl⟩
  · exact iff_of_true (prefix_refl _) (.inl none)
  · rw [root]
    exact iff_of_true List.nil_prefix (.inr (by decide))
  obtain ⟨opened, _⟩ := Bool.and_eq_true_iff.mp authorized
  rw [bne_iff_ne, fileScope_eq] at opened
  split_ifs at opened with up
  · exact absurd rfl opened
  have down := elements_free up
  have parts := elements_cleanRelative down
  rw [trimSpace_append] at down parts
  have split := @elements_append_cons _ _ letters (trimStart spaces share.path) (trimEnd spaces
    (joinElements letters (elements letters (trimSpace (normalizeSharePath query)))))
  have start : letters.parent ∉ elements letters (trimStart spaces share.path) := by
    intro inside
    exact down (split ▸ mem_append_left _ inside)
  rw [parts]
  exact (split ▸ begins_iff_firmEnd start _).trans (or_iff_right names).symm

end Confinement

section Sample

theorem sample_share_confined :
    elements letters (cleanRelative (ascii "a b")) <+:
      elements letters (cleanRelative (ascii "a b/c/x ./y")) :=
  (@share_confined_iff (fun _ => true) (fun _ => true) (ascii "n") (ascii "m") (ascii "/a b/")
    (ascii " c//x ./y/") (ascii "a b/c/x ./y")
    ⟨ascii "n", ascii "m", ascii "a b", .directory⟩
    (by decide +kernel) (by decide +kernel) (by decide +kernel)).mpr (by decide +kernel)

/-- The folder is given as "a /", so the share keeps "a " and the node lists "a" for it; the
path "x" below the share is sent as "a /x", which the node opens in its sibling "a ". -/
theorem share_opens_sibling :
    ∃ share : Share,
      createShare (fun _ => true) (ascii "n") (ascii "m") (ascii "a /") .directory = some share ∧
      resolveSharePath share (ascii "x") = some (ascii "a /x") ∧
      authorizeSharePath (fun _ => true) share (ascii "a /x") = true ∧
      cleanRelative share.path = ascii "a" ∧
      cleanRelative (ascii "a /x") = ascii "a /x" ∧
      ¬ elements letters (cleanRelative share.path) <+:
        elements letters (cleanRelative (ascii "a /x")) :=
  ⟨⟨ascii "n", ascii "m", ascii "a ", .directory⟩, by decide +kernel⟩

end Sample

end Jolt.Access
