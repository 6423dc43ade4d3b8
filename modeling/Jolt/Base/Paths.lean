import Jolt.Base.Trim

/-! Slash-separated paths over any alphabet, and their cleaning by the four rules of
Go's `path.Clean`: repeated slashes count once, "." elements go, an inner ".." goes
with the element before it, and a ".." that begins a rooted path goes. -/
namespace Jolt.Base
open List

variable {α : Type} [DecidableEq α]

/-- The two letters a path is made of. -/
structure Alphabet (α : Type) where
  slash : α
  dot : α

variable (a : Alphabet α)

def Alphabet.parent : List α := [a.dot, a.dot]

/-- The elements kept so far, the last one first, and the next element of the path. -/
def cleanStep (rooted : Bool) (kept : List (List α)) (element : List α) : List (List α) :=
  if element = [] ∨ element = [a.dot] then kept
  else if element = a.parent then
    match kept with
    | [] => if rooted then [] else [a.parent]
    | last :: before => if last = a.parent then a.parent :: kept else before
  else element :: kept

def isRooted (path : List α) : Bool := decide (path.head? = some a.slash)

def cleanElements (path : List α) : List (List α) :=
  ((path.splitOn a.slash).foldl (cleanStep a (isRooted a path)) []).reverse

def joinElements (elements : List (List α)) : List α := [a.slash].intercalate elements

def clean (path : List α) : List α :=
  if isRooted a path then a.slash :: joinElements a (cleanElements a path)
  else if cleanElements a path = [] then [a.dot]
  else joinElements a (cleanElements a path)

/-- An element that is neither empty nor a dot. -/
def isName (element : List α) : Bool := decide (element ≠ [] ∧ element ≠ [a.dot])

/-- The elements of a path that name something. -/
def elements (path : List α) : List (List α) := (path.splitOn a.slash).filter (isName a)

/-- What stands before and after the last slash. -/
def leadingElements (path : List α) : List (List α) := (path.splitOn a.slash).dropLast

def lastElement (path : List α) : List α := (path.splitOn a.slash).getLastD []

section Splitting

variable {a} {x : α}

theorem not_mem_of_mem_splitOn {path element : List α} (inside : element ∈ path.splitOn x) :
    x ∉ element := by
  induction path generalizing element with
  | nil =>
    rw [splitOn_nil, mem_singleton] at inside
    rw [inside]
    exact not_mem_nil
  | cons y path ih =>
    rw [splitOn_cons_eq_if_modifyHead] at inside
    split_ifs at inside with slash
    · rcases mem_cons.mp inside with rfl | later
      · exact not_mem_nil
      · exact ih later
    · cases first : path.splitOn x with
      | nil => exact absurd first (splitOn_ne_nil x path)
      | cons head rest =>
        rw [first, modifyHead_cons] at inside
        rw [first] at ih
        rcases mem_cons.mp inside with rfl | later
        · intro here
          rcases mem_cons.mp here with rfl | there
          · exact slash (beq_self_eq_true x)
          · exact ih mem_cons_self there
        · exact ih (mem_cons_of_mem head later)

theorem splitOn_joinElements {es : List (List α)} (nonempty : es ≠ []) :
    (joinElements a es).splitOn a.slash = es.flatMap (·.splitOn a.slash) := by
  induction es with
  | nil => exact absurd rfl nonempty
  | cons e es ih =>
    cases es with
    | nil => simp [joinElements]
    | cons e' es =>
      have joined : joinElements a (e :: e' :: es) = e ++ a.slash :: joinElements a (e' :: es) := by
        simp [joinElements, List.intercalate]
      rw [joined, splitOn_append_cons_self, ih (cons_ne_nil e' es)]
      rfl

omit [DecidableEq α] in
theorem map_joinElements (f : α → α) (slash : f a.slash = a.slash) (es : List (List α)) :
    (joinElements a es).map f = joinElements a (es.map (List.map f)) := by
  induction es with
  | nil => rfl
  | cons e es ih =>
    cases es with
    | nil => simp [joinElements]
    | cons e' es =>
      simp only [joinElements, List.intercalate, map_cons] at ih ⊢
      simp [ih, slash]

omit [DecidableEq α] in
theorem mem_joinElements {y : α} {es : List (List α)} (other : y ≠ a.slash) :
    y ∈ joinElements a es ↔ ∃ e ∈ es, y ∈ e := by
  induction es with
  | nil => simp [joinElements]
  | cons e es ih =>
    cases es with
    | nil => simp [joinElements]
    | cons e' es =>
      have joined : joinElements a (e :: e' :: es) = e ++ a.slash :: joinElements a (e' :: es) := by
        simp [joinElements, List.intercalate]
      rw [joined, mem_append, mem_cons, ih]
      simp [other]

theorem mem_splitOn {y : α} {path : List α} (other : y ≠ a.slash) :
    y ∈ path ↔ ∃ e ∈ path.splitOn a.slash, y ∈ e := by
  rw [← mem_joinElements other]
  have joined : joinElements a (path.splitOn a.slash) = path := intercalate_splitOn a.slash
  rw [joined]

/-- Other letters read as slashes split the elements further. -/
theorem splitOn_map (f : α → α) (slash : f a.slash = a.slash) (path : List α) :
    (path.map f).splitOn a.slash =
      (path.splitOn a.slash).flatMap fun element => (element.map f).splitOn a.slash := by
  have joined : joinElements a (path.splitOn a.slash) = path := intercalate_splitOn a.slash
  have split : (path.splitOn a.slash).map (List.map f) ≠ [] := by
    intro none
    exact splitOn_ne_nil a.slash path (map_eq_nil_iff.mp none)
  calc (path.map f).splitOn a.slash
      = ((joinElements a (path.splitOn a.slash)).map f).splitOn a.slash := by rw [joined]
    _ = ((path.splitOn a.slash).map (List.map f)).flatMap (·.splitOn a.slash) := by
        rw [map_joinElements f slash, splitOn_joinElements split]
    _ = _ := flatMap_map _ _ _

theorem splitOn_eq_leading (path : List α) :
    path.splitOn a.slash = leadingElements a path ++ [lastElement a path] := by
  cases split : path.splitOn a.slash using List.reverseRecOn with
  | nil => exact absurd split (splitOn_ne_nil a.slash path)
  | append_singleton es e _ =>
    rw [leadingElements, lastElement, split, dropLast_concat, getLastD_concat]

omit [DecidableEq α] in
theorem joinElements_append {es fs : List (List α)} (first : es ≠ []) (second : fs ≠ []) :
    joinElements a (es ++ fs) = joinElements a es ++ a.slash :: joinElements a fs := by
  induction es with
  | nil => exact absurd rfl first
  | cons e es ih =>
    cases es with
    | nil =>
      cases fs with
      | nil => exact absurd rfl second
      | cons f fs => simp [joinElements, List.intercalate]
    | cons e' es =>
      have rest := ih (cons_ne_nil e' es)
      simp only [joinElements, List.intercalate, cons_append, intersperse_cons_cons,
        flatten_cons, append_assoc] at rest ⊢
      rw [rest]

omit [DecidableEq α] in
theorem joinElements_concat {es : List (List α)} (nonempty : es ≠ []) (e : List α) :
    joinElements a (es ++ [e]) = joinElements a es ++ a.slash :: e := by
  rw [joinElements_append nonempty (cons_ne_nil e [])]
  simp [joinElements]

theorem lastElement_free (path : List α) : a.slash ∉ lastElement a path := by
  have inside : lastElement a path ∈ path.splitOn a.slash := by
    rw [splitOn_eq_leading]
    exact mem_append_right _ mem_cons_self
  exact not_mem_of_mem_splitOn inside

/-- Trimming the end of a path trims its last element. -/
theorem splitOn_trimEnd {patterns : List (List α)} (proper : [] ∉ patterns)
    (barred : ∀ p ∈ patterns, a.slash ∉ p) (path : List α) :
    (trimEnd patterns path).splitOn a.slash =
      leadingElements a path ++ [trimEnd patterns (lastElement a path)] := by
  have joined : joinElements a (path.splitOn a.slash) = path := intercalate_splitOn a.slash
  have split := @splitOn_eq_leading _ _ a path
  have free := @lastElement_free _ _ a path
  have trimmed : a.slash ∉ trimEnd patterns (lastElement a path) := fun inside =>
    free ((trimEnd_begins _).mem inside)
  by_cases alone : leadingElements a path = []
  · rw [split, alone] at joined
    have whole : lastElement a path = path := by simpa [joinElements] using joined
    rw [whole] at trimmed
    rw [alone, whole, splitOn_eq_singleton trimmed]
    rfl
  · rw [split, joinElements_concat alone] at joined
    have leading : (joinElements a (leadingElements a path)).splitOn a.slash =
        leadingElements a path := by
      have whole := congrArg (List.splitOn a.slash) joined
      rw [splitOn_append_cons_self, splitOn_eq_singleton free, split] at whole
      exact append_cancel_right whole
    have cut : trimEnd patterns path = joinElements a (leadingElements a path) ++
        a.slash :: trimEnd patterns (lastElement a path) := by
      rw [← trimEnd_append_cons proper barred, joined]
    rw [cut, splitOn_append_cons_self, leading, splitOn_eq_singleton trimmed]

end Splitting

section Elements

variable {a}

theorem isName_iff {element : List α} :
    isName a element = true ↔ element ≠ [] ∧ element ≠ [a.dot] := decide_eq_true_iff

@[simp] theorem elements_nil : elements a [] = [] := by simp [elements, isName]

theorem elements_append_cons (p q : List α) :
    elements a (p ++ a.slash :: q) = elements a p ++ elements a q := by
  rw [elements, splitOn_append_cons_self, filter_append]
  rfl

/-- The elements hold the letters of a path, slashes and dots apart. -/
theorem mem_elements {x : α} {path : List α} (inside : x ∈ path) (slash : x ≠ a.slash)
    (dot : x ≠ a.dot) : ∃ e ∈ elements a path, x ∈ e := by
  obtain ⟨e, split, there⟩ := (mem_splitOn slash).mp inside
  refine ⟨e, mem_filter.mpr ⟨split, isName_iff.mpr ⟨?_, ?_⟩⟩, there⟩
  · exact ne_nil_of_mem there
  · rintro rfl
    exact dot (mem_singleton.mp there)

theorem mem_of_mem_elements {x : α} {path e : List α} (known : e ∈ elements a path)
    (inside : x ∈ e) (slash : x ≠ a.slash) : x ∈ path :=
  (mem_splitOn slash).mpr ⟨e, (mem_filter.mp known).1, inside⟩

theorem elements_names {path e : List α} (known : e ∈ elements a path) :
    e ≠ [] ∧ a.slash ∉ e := by
  obtain ⟨there, name⟩ := mem_filter.mp known
  exact ⟨(isName_iff.mp name).1, not_mem_of_mem_splitOn there⟩

theorem elements_slash_cons (p : List α) : elements a (a.slash :: p) = elements a p := by
  have split := elements_append_cons (a := a) [] p
  rwa [elements_nil] at split

theorem elements_join {es : List (List α)} (names : ∀ e ∈ es, isName a e = true ∧ a.slash ∉ e) :
    elements a (joinElements a es) = es := by
  cases es with
  | nil => exact elements_nil
  | cons e es =>
    have split : (joinElements a (e :: es)).splitOn a.slash = e :: es :=
      splitOn_intercalate a.slash (fun l inside => (names l inside).2) (cons_ne_nil e es)
    rw [elements, split]
    exact filter_eq_self.mpr fun l inside => (names l inside).1

/-- Slashes at the ends do not matter. -/
theorem elements_trim (path : List α) : elements a (trim [[a.slash]] path) = elements a path := by
  have start : ∀ p ∈ [[a.slash]], ∀ rest, elements a (p ++ rest) = elements a rest := by
    intro p known rest
    rw [mem_singleton.mp known]
    exact elements_slash_cons rest
  have ends : ∀ p ∈ [[a.slash]], ∀ rest, elements a (rest ++ p) = elements a rest := by
    intro p known rest
    rw [mem_singleton.mp known, elements_append_cons, elements_nil, append_nil]
  rw [trim, trimEnd_preserves (elements a) ends, trimStart_preserves (elements a) start]

end Elements

section Cleaning

variable {a}

theorem isName_parent : isName a a.parent = true := by simp [isName, Alphabet.parent]

/-- A step of the cleaning takes elements back, or adds the next one, which is a name and
leads above the root only where nothing else is left to take back. -/
theorem cleanStep_cases (rooted : Bool) (kept : List (List α)) (element : List α) :
    cleanStep a rooted kept element <:+ kept ∨
      (cleanStep a rooted kept element = element :: kept ∧ isName a element = true ∧
        (element = a.parent → rooted = false ∨ a.parent ∈ kept)) := by
  unfold cleanStep
  by_cases blank : element = [] ∨ element = [a.dot]
  · rw [if_pos blank]
    exact .inl (suffix_refl kept)
  have name : isName a element = true := isName_iff.mpr (not_or.mp blank)
  rw [if_neg blank]
  by_cases up : element = a.parent
  · rw [if_pos up]
    cases kept with
    | nil =>
      cases rooted with
      | true => exact .inl (suffix_refl [])
      | false => exact .inr ⟨up ▸ rfl, name, fun _ => .inl rfl⟩
    | cons last before =>
      dsimp only
      by_cases parents : last = a.parent
      · rw [if_pos parents]
        exact .inr ⟨up ▸ rfl, name, fun _ => .inr (parents ▸ mem_cons_self)⟩
      · rw [if_neg parents]
        exact .inl (suffix_cons last before)
  · rw [if_neg up]
    exact .inr ⟨rfl, name, fun same => absurd same up⟩

/-- What cleaning keeps are names among the elements; a rooted path keeps no parent. -/
theorem foldl_cleanStep {rooted : Bool} {path kept : List (List α)}
    (names : ∀ e ∈ kept, isName a e = true) (down : rooted = true → a.parent ∉ kept) :
    (∀ e ∈ path.foldl (cleanStep a rooted) kept, isName a e = true ∧ (e ∈ kept ∨ e ∈ path)) ∧
      (rooted = true → a.parent ∉ path.foldl (cleanStep a rooted) kept) := by
  induction path generalizing kept with
  | nil => exact ⟨fun e inside => ⟨names e inside, .inl inside⟩, down⟩
  | cons element path ih =>
    rw [foldl_cons]
    rcases cleanStep_cases rooted kept element with shorter | ⟨same, name, parents⟩
    · obtain ⟨kept', down'⟩ := ih (fun e inside => names e (shorter.mem inside))
        (fun root inside => down root (shorter.mem inside))
      refine ⟨fun e inside => ?_, down'⟩
      obtain ⟨name, earlier | later⟩ := kept' e inside
      · exact ⟨name, .inl (shorter.mem earlier)⟩
      · exact ⟨name, .inr (mem_cons_of_mem element later)⟩
    · rw [same]
      have names' : ∀ e ∈ element :: kept, isName a e = true :=
        forall_mem_cons.mpr ⟨name, names⟩
      have down'' : rooted = true → a.parent ∉ element :: kept := by
        intro root inside
        rcases mem_cons.mp inside with up | earlier
        · rcases parents up.symm with unrooted | known
          · rw [root] at unrooted
            cases unrooted
          · exact down root known
        · exact down root earlier
      obtain ⟨kept', down'⟩ := ih names' down''
      refine ⟨fun e inside => ?_, down'⟩
      obtain ⟨name', earlier | later⟩ := kept' e inside
      · rcases mem_cons.mp earlier with rfl | before
        · exact ⟨name', .inr mem_cons_self⟩
        · exact ⟨name', .inl before⟩
      · exact ⟨name', .inr (mem_cons_of_mem element later)⟩

theorem cleanElements_kept (path : List α) :
    (∀ e ∈ cleanElements a path, isName a e = true ∧ e ∈ path.splitOn a.slash) ∧
      (isRooted a path = true → a.parent ∉ cleanElements a path) := by
  obtain ⟨kept, down⟩ := @foldl_cleanStep _ _ a (isRooted a path) (path.splitOn a.slash) []
    nofun nofun
  constructor
  · intro e inside
    obtain ⟨name, none | there⟩ := kept e (mem_reverse.mp inside)
    · cases none
    · exact ⟨name, there⟩
  · exact fun rooted inside => down rooted (mem_reverse.mp inside)

/-- Where nothing leads upwards, cleaning drops what is no name. -/
theorem cleanStep_plain {rooted : Bool} {kept : List (List α)} {element : List α}
    (down : element ≠ a.parent) :
    cleanStep a rooted kept element = if isName a element then element :: kept else kept := by
  unfold cleanStep
  by_cases name : isName a element = true
  · have proper := isName_iff.mp name
    rw [if_neg (not_or.mpr proper), if_neg down, if_pos name]
  rw [if_neg name, if_pos]
  by_contra proper
  exact name (isName_iff.mpr (not_or.mp proper))

theorem foldl_cleanStep_plain (rooted : Bool) {es : List (List α)}
    (down : a.parent ∉ es.filter (isName a)) (kept : List (List α)) :
    es.foldl (cleanStep a rooted) kept = (es.filter (isName a)).reverse ++ kept := by
  induction es generalizing kept with
  | nil => rfl
  | cons e es ih =>
    have plain : e ≠ a.parent := by
      rintro rfl
      rw [filter_cons_of_pos isName_parent] at down
      exact down mem_cons_self
    have rest : a.parent ∉ es.filter (isName a) := by
      intro inside
      obtain ⟨there, name⟩ := mem_filter.mp inside
      exact down (mem_filter.mpr ⟨mem_cons_of_mem e there, name⟩)
    rw [foldl_cons, ih rest, cleanStep_plain plain, filter_cons]
    split_ifs
    · simp
    · rfl

/-- The elements of a path that leads nowhere upwards stay. -/
theorem cleanElements_eq {path : List α} (down : a.parent ∉ elements a path) :
    cleanElements a path = elements a path := by
  rw [cleanElements, foldl_cleanStep_plain _ down, append_nil, reverse_reverse]
  rfl

/-- What leads nowhere upwards is kept below a path that is cleaned. -/
theorem cleanElements_below {base path : List α} (inner : base ≠ [])
    (down : a.parent ∉ elements a path) :
    cleanElements a (base ++ a.slash :: path) = cleanElements a base ++ elements a path := by
  have rooted : isRooted a (base ++ a.slash :: path) = isRooted a base := by
    cases base with
    | nil => exact absurd rfl inner
    | cons first rest => rfl
  rw [cleanElements, rooted, splitOn_append_cons_self, foldl_append,
    foldl_cleanStep_plain _ down, reverse_append, reverse_reverse]
  rfl

/-- A cleaned path has exactly the elements that were kept. -/
theorem elements_clean (path : List α) : elements a (clean a path) = cleanElements a path := by
  have names : ∀ e ∈ cleanElements a path, isName a e = true ∧ a.slash ∉ e := fun e inside =>
    ((cleanElements_kept path).1 e inside).imp_right not_mem_of_mem_splitOn
  have joined := elements_join names
  unfold clean
  split_ifs with rooted empty
  · rw [elements_slash_cons, joined]
  · rw [empty]
    by_cases same : a.dot = a.slash
    · rw [same, elements_slash_cons, elements_nil]
    have free : a.slash ∉ [a.dot] := fun inside => same (mem_singleton.mp inside).symm
    rw [elements, splitOn_eq_singleton free]
    simp [isName]
  · exact joined

/-- What cleaning makes of a path in which at most the last element leads upwards. -/
theorem cleanElements_last {path : List α} {leading : List (List α)} {last : List α}
    (split : path.splitOn a.slash = leading ++ [last])
    (down : a.parent ∉ leading.filter (isName a)) :
    cleanElements a path =
      (cleanStep a (isRooted a path) (leading.filter (isName a)).reverse last).reverse := by
  rw [cleanElements, split, foldl_append, foldl_cleanStep_plain _ down, append_nil]
  rfl

end Cleaning

section Lists

/-- The cleaning of a path below nothing, given by its elements. -/
def cleanList (es : List (List α)) : List (List α) := (es.foldl (cleanStep a false) []).reverse

/-- The letters of the elements that are not empty, with a slash for each. -/
def size (es : List (List α)) : Nat := (es.map fun e => if e = [] then 0 else e.length + 1).sum

variable {a}

theorem isRooted_trimStart (path : List α) :
    isRooted a (trimStart [[a.slash]] path) = false := by
  have free := trimStart_free (by simp : [] ∉ [[a.slash]]) path [a.slash] mem_cons_self
  rw [isRooted, decide_eq_false_iff_not]
  intro head
  obtain ⟨rest, split⟩ := head?_eq_some_iff.mp head
  rw [split] at free
  exact free (prefix_append [a.slash] rest)

/-- Slashes before a path do not count once they are cut off. -/
theorem cleanElements_trimStart (path : List α) :
    cleanElements a (trimStart [[a.slash]] path) = cleanList a (path.splitOn a.slash) := by
  have same := @trimStart_preserves _ _ [[a.slash]] _
    (fun path => cleanList a (path.splitOn a.slash)) (by
      intro p known rest
      rw [mem_singleton.mp known, ← nil_append [a.slash], append_assoc,
        singleton_append, splitOn_append_cons_self, splitOn_nil]
      simp [cleanList, cleanStep]) path
  rw [cleanElements, isRooted_trimStart]
  exact same

/-- Trimming the start of a path trims its first element. -/
theorem splitOn_trimStart {patterns : List (List α)} (proper : [] ∉ patterns)
    (barred : ∀ p ∈ patterns, a.slash ∉ p) (path : List α) :
    (trimStart patterns path).splitOn a.slash =
      (path.splitOn a.slash).modifyHead (trimStart patterns) := by
  have joined : joinElements a (path.splitOn a.slash) = path := intercalate_splitOn a.slash
  cases split : path.splitOn a.slash with
  | nil => exact absurd split (splitOn_ne_nil a.slash path)
  | cons e es =>
    have free : a.slash ∉ e := not_mem_of_mem_splitOn (split ▸ mem_cons_self)
    have trimmed : a.slash ∉ trimStart patterns e := fun inside =>
      free ((trimStart_suffix e).mem inside)
    rw [split] at joined
    cases es with
    | nil =>
      have whole : e = path := by simpa [joinElements] using joined
      rw [← whole, splitOn_eq_singleton trimmed]
      rfl
    | cons e' es =>
      have cut : path = e ++ a.slash :: joinElements a (e' :: es) := by
        rw [← joined]
        simp [joinElements, List.intercalate]
      have rest : (joinElements a (e' :: es)).splitOn a.slash = e' :: es := by
        have whole := congrArg (List.splitOn a.slash) cut
        rw [splitOn_append_cons_self, splitOn_eq_singleton free, split] at whole
        exact (List.cons.inj whole).2.symm
      rw [cut, trimStart_append_cons proper barred, splitOn_append_cons_self, rest,
        splitOn_eq_singleton trimmed]
      rfl

omit [DecidableEq α] in
theorem size_append (es fs : List (List α)) : size (es ++ fs) = size es + size fs := by
  simp [size]

theorem size_cleanStep (rooted : Bool) (kept : List (List α)) (element : List α) :
    size (cleanStep a rooted kept element) ≤ size kept + size [element] := by
  rcases @cleanStep_cases _ _ a rooted kept element with shorter | ⟨longer, _⟩
  · obtain ⟨taken, split⟩ := shorter
    have parts := congrArg size split
    rw [size_append] at parts
    omega
  · rw [longer, ← singleton_append, size_append]
    omega

/-- Cleaning makes no path longer. -/
theorem size_cleanList (es : List (List α)) : size (cleanList a es) ≤ size es := by
  have run : ∀ (es kept : List (List α)),
      size (es.foldl (cleanStep a false) kept) ≤ size kept + size es := by
    intro es
    induction es with
    | nil => exact fun kept => Nat.le_add_right _ _
    | cons e es ih =>
      intro kept
      have step := @size_cleanStep _ _ a false kept e
      have rest := ih (cleanStep a false kept e)
      rw [← singleton_append, size_append]
      exact rest.trans (by omega)
  have total := run es []
  have turned : ∀ fs : List (List α), size fs.reverse = size fs := fun fs => by
    simp [size, sum_reverse]
  rw [cleanList, turned]
  simpa [size] using total

/-- Only the elements at the start of what cleaning leaves may lead upwards. -/
theorem cleanList_down {es : List (List α)} (down : (cleanList a es).head? ≠ some a.parent) :
    a.parent ∉ cleanList a es := by
  have step : ∀ (kept : List (List α)) (e : List α),
      (a.parent ∈ kept → kept.getLast? = some a.parent) → a.parent ∈ cleanStep a false kept e →
        (cleanStep a false kept e).getLast? = some a.parent := by
    intro kept e up inside
    by_cases plain : e = a.parent
    · unfold cleanStep at inside ⊢
      rw [plain, if_neg (not_or.mpr (isName_iff.mp isName_parent)), if_pos rfl] at inside ⊢
      cases kept with
      | nil => rfl
      | cons last before =>
        dsimp only at inside ⊢
        split_ifs at inside ⊢ with parent
        · rw [getLast?_cons_cons]
          exact up (parent ▸ mem_cons_self)
        have same := up (mem_cons_of_mem last inside)
        cases before with
        | nil => cases inside
        | cons e before => rwa [getLast?_cons_cons] at same
    · rw [cleanStep_plain plain] at inside ⊢
      split_ifs at inside ⊢ with name
      · have there := (mem_cons.mp inside).resolve_left (Ne.symm plain)
        cases kept with
        | nil => cases there
        | cons last before =>
          rw [getLast?_cons_cons]
          exact up there
      · exact up inside
  have run : ∀ (es kept : List (List α)), (a.parent ∈ kept → kept.getLast? = some a.parent) →
      a.parent ∈ es.foldl (cleanStep a false) kept →
        (es.foldl (cleanStep a false) kept).getLast? = some a.parent := by
    intro es
    induction es with
    | nil => exact fun kept up => up
    | cons e es ih => exact fun kept up => ih _ (step kept e up)
  intro inside
  apply down
  rw [cleanList, head?_reverse]
  exact run es [] nofun (mem_reverse.mp inside)

theorem cleanStep_down {kept : List (List α)} {element : List α}
    (down : a.parent ∉ cleanStep a false kept element) :
    a.parent ∉ kept ∧ cleanStep a true kept element = cleanStep a false kept element := by
  by_cases up : element = a.parent
  · subst up
    cases kept with
    | nil => simp [cleanStep, Alphabet.parent] at down
    | cons last before =>
      have proper : ¬(a.parent = [] ∨ a.parent = [a.dot]) := not_or.mpr (isName_iff.mp isName_parent)
      simp only [cleanStep, proper, if_false, if_true] at down ⊢
      split_ifs at down ⊢ with above
      · simp at down
      · exact ⟨by simp [Ne.symm above, down], trivial⟩
  · refine ⟨fun inside => down ?_, by simp [cleanStep, up]⟩
    simp only [cleanStep, up, if_false]
    split_ifs
    · exact inside
    · exact mem_cons_of_mem _ inside

/-- Cleaning that leads nowhere upwards is the same for a rooted path. -/
theorem cleanElements_down {path : List α}
    (down : a.parent ∉ cleanList a (path.splitOn a.slash)) :
    cleanElements a path = cleanList a (path.splitOn a.slash) := by
  have same : ∀ es : List (List α), a.parent ∉ es.foldl (cleanStep a false) [] →
      es.foldl (cleanStep a true) [] = es.foldl (cleanStep a false) [] := by
    intro es down
    induction es using List.reverseRecOn with
    | nil => rfl
    | append_singleton es e ih =>
      rw [foldl_concat] at down ⊢
      obtain ⟨before, step⟩ := cleanStep_down down
      rw [foldl_concat, ih before, step]
  cases rooted : isRooted a path with
  | false => rw [cleanElements, rooted, cleanList]
  | true => rw [cleanElements, rooted, cleanList, same _ (fun up => down (mem_reverse.mpr up))]

/-- What begins with a parent begins with it still when it is cleaned. -/
theorem cleanList_parent (es : List (List α)) :
    (cleanList a (a.parent :: es)).head? = some a.parent := by
  have step : ∀ (kept : List (List α)) (e : List α), kept.getLast? = some a.parent →
      (cleanStep a false kept e).getLast? = some a.parent := by
    intro kept e last
    cases kept with
    | nil => cases last
    | cons top before =>
      by_cases plain : e = a.parent
      · unfold cleanStep
        rw [plain, if_neg (not_or.mpr (isName_iff.mp isName_parent)), if_pos rfl]
        dsimp only
        split_ifs with up
        · rwa [getLast?_cons_cons]
        cases before with
        | nil => exact absurd (Option.some.inj last) up
        | cons next before => rwa [getLast?_cons_cons] at last
      · rw [cleanStep_plain plain]
        split_ifs
        · rwa [getLast?_cons_cons]
        · exact last
  have run : ∀ (es kept : List (List α)), kept.getLast? = some a.parent →
      (es.foldl (cleanStep a false) kept).getLast? = some a.parent := by
    intro es
    induction es with
    | nil => exact fun kept last => last
    | cons e es ih => exact fun kept last => ih _ (step kept e last)
  have first : cleanStep a false [] a.parent = [a.parent] := by
    simp [cleanStep, not_or.mpr (isName_iff.mp (isName_parent (a := a)))]
  rw [cleanList, head?_reverse, foldl_cons, first]
  exact run es [a.parent] rfl

/-- As many parents as there are elements take them all back. -/
theorem foldl_parents (rooted : Bool) {kept : List (List α)} (down : a.parent ∉ kept) :
    (List.replicate kept.length a.parent).foldl (cleanStep a rooted) kept = [] := by
  induction kept with
  | nil => rfl
  | cons top kept ih =>
    rw [mem_cons, not_or] at down
    have popped : cleanStep a rooted (top :: kept) a.parent = kept := by
      simp [cleanStep, not_or.mpr (isName_iff.mp (isName_parent (a := a))), Ne.symm down.1]
    rw [length_cons, replicate_succ, foldl_cons, popped]
    exact ih down.2

theorem cleanList_names (es : List (List α)) : ∀ e ∈ cleanList a es, isName a e = true := by
  intro e inside
  have kept := @foldl_cleanStep _ _ a false es [] nofun nofun
  exact (kept.1 e (mem_reverse.mp inside)).1

theorem cleanList_eq {es : List (List α)} (names : ∀ e ∈ es, isName a e = true)
    (down : a.parent ∉ es) : cleanList a es = es := by
  have all : es.filter (isName a) = es := filter_eq_self.mpr names
  rw [cleanList, foldl_cleanStep_plain false (by rwa [all]), all, append_nil,
    reverse_reverse]

/-- Cleaning changes nothing in names, unless the last of them leads upwards from another. -/
theorem cleanList_eq_self_iff {es : List (List α)} (down : a.parent ∉ es.dropLast) :
    cleanList a es = es ↔
      (∀ e ∈ es, isName a e = true) ∧ (a.parent ∉ es ∨ es = [a.parent]) := by
  constructor
  · intro same
    have names : ∀ e ∈ es, isName a e = true := fun e inside =>
      cleanList_names es e (same.symm ▸ inside)
    refine ⟨names, ?_⟩
    by_contra up
    obtain ⟨inside, longer⟩ := not_or.mp up
    cases es using List.reverseRecOn with
    | nil => exact inside not_mem_nil
    | append_singleton es e _ =>
      rw [dropLast_concat] at down
      obtain rfl : a.parent = e :=
        mem_singleton.mp ((mem_append.mp (not_not.mp inside)).resolve_left down)
      have all : es.filter (isName a) = es :=
        filter_eq_self.mpr fun e inside => names e (mem_append_left _ inside)
      have run := foldl_cleanStep_plain false (by rwa [all]) []
      rw [all, append_nil] at run
      rw [cleanList, foldl_append, run] at same
      cases es using List.reverseRecOn with
      | nil => exact longer rfl
      | append_singleton es last _ =>
        -- the last name is taken back, and the path is shorter by two
        have other : last ≠ a.parent := fun equal =>
          down (equal ▸ mem_append_right es mem_cons_self)
        have proper := not_or.mpr (isName_iff.mp (isName_parent (a := a)))
        have lengths := congrArg List.length same
        simp [cleanStep, proper, other] at lengths
  · rintro ⟨names, plain | rfl⟩
    · exact cleanList_eq names plain
    · simp [cleanList, cleanStep, Alphabet.parent]

omit [DecidableEq α] in
/-- A part of an element that is as long is all of it. -/
theorem size_sublist {e f : List α} (part : e.Sublist f) :
    size [e] ≤ size [f] ∧ (size [f] ≤ size [e] → e = f) := by
  have shorter := part.length_le
  by_cases none : f = []
  · rw [none, sublist_nil] at part
    rw [none, part]
    exact ⟨Nat.le_refl _, fun _ => rfl⟩
  · have letters := length_pos_iff.mpr none
    by_cases empty : e = []
    · simp only [size, map_cons, map_nil, sum_cons, sum_nil, if_pos empty,
        if_neg none]
      exact ⟨by omega, by omega⟩
    · simp only [size, map_cons, map_nil, sum_cons, sum_nil, if_neg empty,
        if_neg none]
      exact ⟨by omega, fun long => part.eq_of_length_le (by omega)⟩

end Lists

end Jolt.Base
