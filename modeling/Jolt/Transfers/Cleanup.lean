import Jolt.Transfers.Batch

/-! The end of a move: the source node is asked to delete what was moved, item by item, in the order
of a sort that puts files first and deep paths before others. -/
namespace Jolt.Transfers
open Jolt.Base Jolt.Jobs List

section Requests

def slashes (item : JobItem) : Nat := item.sourcePath.toList.count '/'

def removesFirst (left right : JobItem) : Bool :=
  if left.type ≠ right.type then left.type == .file else slashes right < slashes left

def itemsToRemove (items : List JobItem) : List JobItem :=
  items.filter fun item => item.sourceCleanupState != .completed

/-- An order that a sort may come up with; items that compare equal stand anyhow. -/
def Sorts (items order : List JobItem) : Prop :=
  order.Perm (itemsToRemove items) ∧ order.Pairwise fun left right => removesFirst right left = false

def covers (candidate item : JobItem) : Bool :=
  candidate.sourceRoot &&
    (let base := cleanRelative candidate.sourcePath
     let child := cleanRelative item.sourcePath
     base == "." || child == base || (base ++ "/").toList.isPrefixOf child.toList)

/-- What the source node, the lease and the store answer. -/
structure Cleaner where
  validateMove : String → Option String
  permits : JobItem → Bool
  delete : JobItem → String → Option (Int × Time) → Option String
  update : JobItem → Option String
  now : Time

/-- The items whose deletion was asked for, the items stored, and the error. -/
structure Cleanup where
  asked : List JobItem := []
  stored : List JobItem := []
  err : Option String := none

def expectedETag (item : JobItem) : Option (Int × Time) :=
  if item.type = .directory then none else some (item.size, item.modifiedAt)

def removeSources (c : Cleaner) (items : List JobItem) : List JobItem → Cleanup
  | [] => {}
  | item :: rest =>
    match items.find? (covers · item) with
    | none => { err := some "move item has no selected root" }
    | some root =>
      if c.permits item = false then
        { stored := [cleaned item (some "the source is no longer permitted") c.now]
          err := some "forbidden" }
      else
        let answer := c.delete item root.sourcePath (expectedETag item)
        let stored := cleaned item answer c.now
        match answer, c.update stored with
        | some err, _ | none, some err => { asked := [item], stored := [stored], err := some err }
        | none, none =>
          let after := removeSources c items rest
          { asked := item :: after.asked, stored := stored :: after.stored, err := after.err }

def cleanupMovedSources (c : Cleaner) (items order : List JobItem) : Cleanup :=
  let roots := items.filter (·.sourceRoot)
  match (itemsToRemove roots).findSome? fun item => c.validateMove item.sourcePath with
  | some err => { err := some err }
  | none =>
    if roots = [] then
      { err := some "move source roots are unavailable; replan the transfer" }
    else removeSources c items order

end Requests

section Planned

def components (item : JobItem) : List (List Char) := elements pathLetters item.sourcePath.toList

def Below (item directory : JobItem) : Prop :=
  ∃ e rest, components item = components directory ++ e :: rest ∧ e ≠ pathLetters.parent

/-- The items of a move, with the paths and types its planning gives them. -/
structure MoveItems where
  items : List JobItem
  typed : ∀ item ∈ items, item.type = .file ∨ item.type = .directory
  planned : ∀ item ∈ items, ∃ value, item.sourcePath = cleanRelative value

theorem count_joinElements {es : List (List Char)} (free : ∀ e ∈ es, '/' ∉ e) :
    (joinElements pathLetters es).count '/' = es.length - 1 := by
  induction es with
  | nil => rfl
  | cons e es ih =>
    have first := count_eq_zero.mpr (free e mem_cons_self)
    have rest := ih fun f inside => free f (mem_cons_of_mem e inside)
    cases es with
    | nil => simpa [joinElements] using first
    | cons f es =>
      rw [joinElements, intercalate_cons_cons, count_append, count_append, first]
      simp only [joinElements, pathLetters, length_cons, count_singleton_self] at rest ⊢
      omega

theorem isRooted_dropWhile (path : List Char) :
    isRooted pathLetters (path.dropWhile (· = '/')) = false := by
  have first := head?_dropWhile_not (fun c => decide (c = '/')) path
  unfold isRooted
  split at first
  · rename_i found
    rw [found]
    simpa [pathLetters] using first
  · rename_i found
    simp [found]

theorem cleanRelative_names (value : String) :
    ∃ es, (∀ e ∈ es, isName pathLetters e = true ∧ '/' ∉ e) ∧ (cleanRelative value).toList =
      if es = [] then ['.'] else joinElements pathLetters es := by
  unfold cleanRelative
  dsimp only
  generalize (((value.toList.map _).dropWhile isSpace).reverse.dropWhile isSpace).reverse = trimmed
  have down := isRooted_dropWhile trimmed
  generalize trimmed.dropWhile (· = '/') = path at down
  have names : ∀ e ∈ cleanElements pathLetters path, isName pathLetters e = true ∧ '/' ∉ e :=
    fun e inside => ((cleanElements_kept _).1 e inside).imp_right not_mem_of_mem_splitOn
  refine ⟨_, names, ?_⟩
  have joined := elements_join names
  have cleans : clean pathLetters path = if cleanElements pathLetters path = [] then ['.']
      else joinElements pathLetters (cleanElements pathLetters path) := by
    rw [clean, down]
    rfl
  rw [cleans]
  by_cases empty : cleanElements pathLetters path = []
  · simp [empty]
  simp only [empty, if_false]
  rw [if_neg, String.toList_ofList]
  -- neither the empty path nor a lone slash has a name in it
  rintro (none | slash)
  · rw [none, elements_nil] at joined
    exact empty joined.symm
  · rw [slash] at joined
    exact empty (joined.symm.trans (by decide))

theorem MoveItems.path (m : MoveItems) {item : JobItem} (inside : item ∈ m.items) :
    (components item = [] ↔ item.sourcePath = ".") ∧
      slashes item = (components item).length - 1 ∧
      ∀ e, components item = [e] → item.sourcePath = String.ofList e := by
  obtain ⟨value, same⟩ := m.planned item inside
  obtain ⟨es, names, text⟩ := cleanRelative_names value
  rw [← same] at text
  unfold components slashes
  rw [text]
  by_cases empty : es = []
  · rw [if_pos empty] at text ⊢
    have path : item.sourcePath = "." := String.toList_injective (text.trans (by decide))
    have none : elements pathLetters ['.'] = [] := by decide
    refine ⟨⟨fun _ => path, fun _ => none⟩, by decide, fun e single => ?_⟩
    rw [none] at single
    cases single
  · rw [if_neg empty] at text ⊢
    rw [elements_join names, count_joinElements fun e known => (names e known).2]
    refine ⟨⟨fun none => absurd none empty, fun path => ?_⟩, rfl, fun e single => ?_⟩
    · rw [← elements_join names, ← text, path]
      decide
    rw [single] at text
    rw [← String.toList_inj, text, String.toList_ofList]
    simp [joinElements]

end Planned

section Order

/-- Before the deletion of a directory is asked for, that of all items below it is. -/
def InsideOut (items asked : List JobItem) : Prop :=
  ∀ before directory after, asked = before ++ directory :: after → directory.type = .directory →
    ∀ item ∈ itemsToRemove items, Below item directory → item ∈ before

/-- The grant root is to be deleted together with a directory right below it. -/
structure RootTied (items : List JobItem) : Prop where
  selected : ∃ root ∈ items, root.sourceRoot = true ∧ cleanRelative root.sourcePath = "."
  root : ∃ d ∈ itemsToRemove items, d.type = .directory ∧ d.sourcePath = "."
  child : ∃ x ∈ itemsToRemove items, x.type = .directory ∧ slashes x = 0 ∧
    x.sourcePath ≠ "." ∧ x.sourcePath ≠ ".."

variable {c : Cleaner} {items order : List JobItem} {m : MoveItems}

theorem removeSources_asked (c : Cleaner) (items order : List JobItem) :
    (removeSources c items order).asked <+: order ∧
      ∀ item ∈ (removeSources c items order).asked, ∃ root ∈ items, covers root item = true := by
  induction order with
  | nil => simp [removeSources]
  | cons item rest ih =>
    rw [removeSources]
    split
    · simp
    rename_i root found
    have covered : ∃ root ∈ items, covers root item = true :=
      ⟨root, mem_of_find?_eq_some found,
        find?_some (p := fun candidate => covers candidate item) found⟩
    dsimp only
    split_ifs
    · simp
    split
    · simpa using covered
    · simpa using covered
    · simpa [covered] using ih

theorem cleanupMovedSources_asked (c : Cleaner) (items order : List JobItem) :
    (cleanupMovedSources c items order).asked <+: order ∧
      ∀ item ∈ (cleanupMovedSources c items order).asked, ∃ root ∈ items,
        covers root item = true := by
  unfold cleanupMovedSources
  dsimp only
  split
  · simp
  split_ifs
  · simp
  · exact removeSources_asked c items order

theorem covers_grantRoot {root item : JobItem} (path : item.sourcePath = ".")
    (covered : covers root item = true) :
    root.sourceRoot = true ∧ cleanRelative root.sourcePath = "." := by
  have itself : cleanRelative "." = "." := by decide +kernel
  simp only [covers, path, itself, Bool.and_eq_true, Bool.or_eq_true, beq_iff_eq,
    isPrefixOf_iff_prefix, String.toList_append] at covered
  obtain ⟨selected, (base | base) | above⟩ := covered
  · exact ⟨selected, base⟩
  · exact ⟨selected, base.symm⟩
  -- a lone dot has no slash in it
  have slash : '/' ∈ ".".toList := above.subset (by simp)
  exact absurd slash (by decide)

theorem tied_of_behind {d x : JobItem} (here : d ∈ m.items) (there : x ∈ m.items)
    (directory : d.type = .directory) (below : Below x d) (behind : removesFirst x d = false) :
    x.type = .directory ∧ d.sourcePath = "." ∧ slashes x = 0 ∧ x.sourcePath ≠ "." ∧
      x.sourcePath ≠ ".." := by
  obtain ⟨rootless, depth, _⟩ := m.path here
  obtain ⟨rootless', depth', _⟩ := m.path there
  obtain ⟨e, rest, names, forward⟩ := below
  have longer := congrArg List.length names
  rw [length_append, length_cons] at longer
  rcases m.typed x there with file | same
  · simp [removesFirst, file, directory] at behind
  simp only [removesFirst, same, directory, ne_eq, not_true_eq_false, if_false,
    decide_eq_false_iff_not, not_lt] at behind
  have empty : components d = [] := eq_nil_of_length_eq_zero (by omega)
  have single : rest = [] := eq_nil_of_length_eq_zero (by omega)
  rw [empty, single, nil_append] at names
  refine ⟨same, rootless.mp empty, by rw [depth', names]; rfl, fun path => ?_, fun path => ?_⟩
  · rw [rootless'.mpr path] at names
    cases names
  have parent : components x = [pathLetters.parent] := by
    rw [components, path]
    decide
  cases parent.symm.trans names
  exact forward rfl

theorem inside_out_of_untied (untied : ¬RootTied m.items) (sorted : Sorts m.items order) :
    InsideOut m.items (cleanupMovedSources c m.items order).asked := by
  intro before d after asked directory x listed below
  obtain ⟨⟨tail, whole⟩, covered⟩ := cleanupMovedSources_asked c m.items order
  rw [asked, append_assoc] at whole
  have inOrder : x ∈ order := sorted.1.mem_iff.mpr listed
  have known (y : JobItem) (inside : y ∈ itemsToRemove m.items) : y ∈ m.items :=
    mem_of_mem_filter inside
  have pending : d ∈ itemsToRemove m.items := sorted.1.mem_iff.mp (by simp [← whole])
  by_contra missing
  have behind : removesFirst x d = false := by
    have pairs := sorted.2
    rw [← whole, pairwise_append] at pairs
    rw [← whole] at inOrder
    rcases mem_append.mp inOrder with early | late
    · exact absurd early missing
    rcases mem_cons.mp late with rfl | later
    · simp [removesFirst]
    · exact (pairwise_cons.mp pairs.2.1).1 x later
  obtain ⟨type, path, flat, proper, forward⟩ :=
    tied_of_behind (known d pending) (known x listed) directory below behind
  obtain ⟨root, member, covers⟩ := covered d (by simp [asked])
  exact untied ⟨⟨root, member, covers_grantRoot path covers⟩, ⟨d, pending, directory, path⟩,
    ⟨x, listed, type, flat, proper, forward⟩⟩

def Cleaner.willing : Cleaner := ⟨fun _ => none, fun _ => true, fun _ _ _ => none, fun _ => none, 0⟩

theorem removeSources_willing {root : JobItem} (inside : root ∈ items)
    (selected : root.sourceRoot = true) (top : cleanRelative root.sourcePath = ".")
    (order : List JobItem) : (removeSources .willing items order).asked = order := by
  induction order with
  | nil => rfl
  | cons item rest ih =>
    rw [removeSources]
    split
    · rename_i none
      have bare := find?_eq_none.mp none root inside
      simp [covers, selected, top] at bare
    · simpa [Cleaner.willing] using ih

theorem cleanupMovedSources_willing {root : JobItem} (inside : root ∈ items)
    (selected : root.sourceRoot = true) (top : cleanRelative root.sourcePath = ".")
    (order : List JobItem) : (cleanupMovedSources .willing items order).asked = order := by
  have unrefused : ((itemsToRemove (items.filter (·.sourceRoot))).findSome? fun item =>
      Cleaner.willing.validateMove item.sourcePath) = none :=
    findSome?_eq_none_iff.mpr fun _ _ => rfl
  have some_root : items.filter (·.sourceRoot) ≠ [] :=
    ne_nil_of_mem (mem_filter.mpr ⟨inside, selected⟩)
  rw [cleanupMovedSources]
  simp only [unrefused, some_root, if_false]
  exact removeSources_willing inside selected top order

def rank (favoured item : JobItem) : Bool ×ₗ ℕᵒᵈ ×ₗ Bool :=
  toLex (item.type != .file, toLex (OrderDual.toDual (slashes item), item != favoured))

theorem removesFirst_of_rank {d left right : JobItem} (here : left ∈ m.items)
    (there : right ∈ m.items) (order : rank d left ≤ rank d right) :
    removesFirst right left = false := by
  simp only [rank, Prod.Lex.toLex_le_toLex, Bool.lt_iff, OrderDual.toDual_lt_toDual,
    OrderDual.toDual_inj] at order
  rcases m.typed left here with file | directory <;>
    rcases m.typed right there with file' | directory' <;>
    simp_all [removesFirst] <;> omega

theorem sorts_by_rank (d : JobItem) :
    Sorts m.items ((itemsToRemove m.items).insertionSort (rank d · ≤ rank d ·)) := by
  refine ⟨perm_insertionSort _ _, ?_⟩
  refine (pairwise_insertionSort (rank d · ≤ rank d ·) _).imp_of_mem ?_
  intro left right here there order
  have known {item : JobItem} (inside : item ∈ (itemsToRemove m.items).insertionSort
      (rank d · ≤ rank d ·)) : item ∈ m.items :=
    mem_of_mem_filter ((mem_insertionSort _).mp inside)
  exact removesFirst_of_rank (known here) (known there) order

theorem untied_of_inside_out
    (safe : ∀ c order, Sorts m.items order →
      InsideOut m.items (cleanupMovedSources c m.items order).asked) : ¬RootTied m.items := by
  rintro ⟨⟨root, inside, selected, top⟩, ⟨d, pending, directory, path⟩, x, listed, type, flat,
    proper, forward⟩
  have sorted := sorts_by_rank (m := m) d
  have ordered := pairwise_insertionSort (rank d · ≤ rank d ·) (itemsToRemove m.items)
  have early := safe .willing _ sorted
  rw [cleanupMovedSources_willing inside selected top] at early
  obtain ⟨before, after, whole⟩ := append_of_mem (sorted.1.mem_iff.mpr pending)
  have known {item : JobItem} (listed : item ∈ itemsToRemove m.items) : item ∈ m.items :=
    mem_of_mem_filter listed
  obtain ⟨rootless, depth, _⟩ := m.path (known pending)
  obtain ⟨rootless', depth', single⟩ := m.path (known listed)
  have below : Below x d := by
    rw [Below, rootless.mpr path]
    cases names : components x with
    | nil => exact absurd (rootless'.mp names) proper
    | cons e rest =>
      rw [flat, names, length_cons] at depth'
      cases eq_nil_of_length_eq_zero (l := rest) (by omega)
      exact ⟨e, [], rfl, fun parent => forward ((single e names).trans (by rw [parent]; decide))⟩
  have first := early before d after whole directory x listed below
  rw [whole, pairwise_append] at ordered
  have tied := ordered.2.2 x first d mem_cons_self
  have other : (x != d) = true := bne_iff_ne.mpr fun same => proper (same ▸ path)
  have flat' : slashes d = 0 := by rw [depth, rootless.mpr path]; rfl
  simp [rank, Prod.Lex.toLex_le_toLex, type, directory, flat, flat', other] at tied
  exact absurd tied (by decide)

/-- A move's cleanup deletes each directory after everything below it, in whatever order the sort
leaves equals, exactly if it does not delete the selected grant root together with a directory
right below it. -/
theorem cleanup_inside_out_iff (m : MoveItems) :
    (∀ c order, Sorts m.items order →
      InsideOut m.items (cleanupMovedSources c m.items order).asked) ↔ ¬RootTied m.items :=
  ⟨untied_of_inside_out, fun untied _ _ sorted => inside_out_of_untied untied sorted⟩

def sampleGrantRoot : JobItem where
  ordinal := 0
  relativePath := "."
  sourcePath := "."
  destinationPath := "to"
  type := .directory
  sourceRoot := true
  sourceCleanupState := .pending
  action := .create

def sampleChild : JobItem :=
  { sampleGrantRoot with ordinal := 1, relativePath := "a", sourcePath := "a",
                         destinationPath := "to/a", sourceRoot := false }

def sampleMoveItems : MoveItems where
  items := [sampleGrantRoot, sampleChild]
  typed := by decide
  planned := by
    simp only [forall_mem_cons, not_mem_nil, false_imp_iff, implies_true, and_true]
    exact ⟨⟨".", by decide +kernel⟩, "a", by decide +kernel⟩

/-- In the listed order, which a stable sort keeps, the root is deleted first. -/
theorem grantRoot_deleted_first :
    Sorts sampleMoveItems.items sampleMoveItems.items ∧ ¬InsideOut sampleMoveItems.items
      (cleanupMovedSources .willing sampleMoveItems.items sampleMoveItems.items).asked := by
  refine ⟨⟨by decide, by decide⟩, fun safe => ?_⟩
  have first := safe [] sampleGrantRoot [sampleChild] (by decide +kernel) rfl sampleChild
    (by decide) ⟨['a'], [], by decide, by decide⟩
  cases first

end Order

end Jolt.Transfers
