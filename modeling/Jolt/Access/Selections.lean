import Jolt.Access.TransferScopes
import Jolt.Base.Loops
import Jolt.Base.Sorting

/-! The paths a transfer selects. Control and the destination node each clean and sort them
and compare every path with the one before it. -/
namespace Jolt.Access.Transfer
open Jolt.Base List

section Model

def collectPaths : List Text → List Text → Except String (List Text)
  | [], paths => .ok paths
  | value :: rest, paths =>
    let cleaned := cleanRelative value
    if leadsUp cleaned then .error "source path is invalid"
    else if paths.contains cleaned then .error "source paths must be unique"
    else collectPaths rest (paths ++ [cleaned])

def normalizeBatchPaths (values : List Text) : Except String (List Text) :=
  if values = [] then .error "at least one source path is required"
  else
    match collectPaths values [] with
    | .error text => .error text
    | .ok paths =>
      let sorted := paths.insertionSort (· ≤ ·)
      if 1 < sorted.length ∧ sorted.head? = some [dot] then .error "selected paths cannot overlap"
      else if (sorted.zip sorted.tail).any fun x => (x.1 ++ [slash]).isPrefixOf x.2 then
        .error "selected paths cannot overlap"
      else .ok sorted

end Model

section Order

def Above (p d : Text) : Prop := p ≠ d ∧ elements letters p <+: elements letters d

def Apart (paths : List Text) : Prop :=
  paths.Nodup ∧ ∀ p ∈ paths, ∀ d ∈ paths, ¬ Above p d

instance (p d : Text) : Decidable (Above p d) := inferInstanceAs (Decidable (_ ∧ _))

instance (paths : List Text) : Decidable (Apart paths) := inferInstanceAs (Decidable (_ ∧ _))

def Parts (p q : Text) : Prop := if p = [dot] then q < p else p < q ∧ q < p ++ [slash]

def Parted (paths : List Text) : Prop :=
  ∀ p ∈ paths, (∃ d ∈ paths, Above p d) → ∃ q ∈ paths, Parts p q

structure Cleaned (path : Text) : Prop where
  exists_plain : ∃ cs, Plain cs ∧ path = shown cs

theorem cleaned_cleanRelative {value : Text} (down : leadsUp (cleanRelative value) = false) :
    Cleaned (cleanRelative value) := by
  refine ⟨read value, plain_read fun up => ?_, cleanRelative_eq value⟩
  rw [(leadsUp_cleanRelative value).mpr up] at down
  cases down

theorem above_root {d : Text} : Above [dot] d ↔ d ≠ [dot] := by
  have none : elements letters [dot] = [] := by decide
  simp [Above, none, ne_comm]

theorem Cleaned.above_iff {p d : Text} (first : Cleaned p) (second : Cleaned d) (inner : p ≠ [dot]) :
    Above p d ↔ p ++ [slash] <+: d := by
  obtain ⟨cs, plain, rfl⟩ := first
  obtain ⟨ds, other, rfl⟩ := second
  have nonempty : cs ≠ [] := fun none => inner (by rw [none]; rfl)
  rw [Above, plain.elements_shown, other.elements_shown]
  constructor
  · rintro ⟨apart, es, rfl⟩
    rcases @shown_begins cs es nonempty with same | begins
    · exact absurd same.symm apart
    · exact begins
  · rintro ⟨rest, same⟩
    have parts : cs ++ elements letters rest = ds := by
      have split : elements letters (shown cs ++ slash :: rest) =
          elements letters (shown cs) ++ elements letters rest := elements_append_cons _ _
      rw [← other.elements_shown, ← same, append_assoc, singleton_append, split,
        plain.elements_shown]
    refine ⟨fun equal => ?_, _, parts⟩
    rw [← equal] at same
    exact absurd (congrArg List.length same) (by simp)

theorem lt_append {p : Text} {r : Text} (nonempty : r ≠ []) : p < p ++ r := by
  induction p with
  | nil =>
    cases r with
    | nil => exact absurd rfl nonempty
    | cons b r => exact nil_lt_cons b r
  | cons b p ih => exact cons_lt_cons_iff.mpr (.inr ⟨rfl, ih⟩)

theorem sorted_parted_iff {sorted : List Text} (order : sorted.Pairwise (· < ·)) :
    sorted.IsChain (fun a b => (a ++ [slash]).isPrefixOf b = false) ↔
      ∀ p ∈ sorted, (∃ d ∈ sorted, p ++ [slash] <+: d) →
        ∃ q ∈ sorted, p < q ∧ q < p ++ [slash] := by
  have same (a b : Text) : (a ++ [slash]).isPrefixOf b = false ↔ ¬ a ++ [slash] <+: b := by
    rw [← isPrefixOf_iff_prefix, Bool.not_eq_true]
  simp only [same]
  refine isChain_not_iff List.lt_irrefl (fun _ _ _ => List.lt_trans) order ?_ ?_ ?_
  · rintro p d ⟨rest, rfl⟩
    rw [append_assoc]
    exact lt_append (by simp)
  · rintro p q d ⟨rest, rfl⟩ low high
    by_cases early : q < p ++ [slash]
    · exact .inr ⟨low, early⟩
    · exact .inl (prefix_of_between early high)
  · rintro p q d ⟨rest, rfl⟩ ⟨low, early⟩
    refine ⟨low, ?_⟩
    cases rest with
    | nil => rwa [append_nil]
    | cons b rest => exact List.lt_trans early (lt_append (by simp))

theorem Cleaned.not_dotted {d : Text} (cleaned : Cleaned d) : ¬ [dot] ++ [slash] <+: d := by
  obtain ⟨ds, plain, rfl⟩ := cleaned
  rintro ⟨rest, same⟩
  by_cases none : ds = []
  · rw [none] at same
    exact absurd (congrArg List.length same) (by simp [shown])
  have parts := congrArg (List.splitOn slash) same
  have first : ([dot] ++ [slash] ++ rest).splitOn slash = [dot] :: rest.splitOn slash := by
    have split : [dot] ++ [slash] ++ rest = [dot] ++ slash :: rest := append_assoc ..
    rw [split, splitOn_append_cons_self]
    rfl
  rw [first, shown, if_neg none, splitOn_join plain.slashes none] at parts
  exact absurd (plain.names [dot] (parts ▸ mem_cons_self)) (by decide)

theorem neighbours_iff {paths : List Text} (cleaned : ∀ p ∈ paths, Cleaned p) (distinct : paths.Nodup) :
    (paths.insertionSort (· ≤ ·)).IsChain (fun a b => (a ++ [slash]).isPrefixOf b = false) ↔
      ∀ p ∈ paths, p ≠ [dot] → (∃ d ∈ paths, Above p d) → ∃ q ∈ paths, Parts p q := by
  have perm := perm_insertionSort (· ≤ ·) paths
  have order : (paths.insertionSort (· ≤ ·)).Pairwise (· < ·) := by
    have weak := pairwise_insertionSort (· ≤ ·) paths
    have strict := weak.and (perm.nodup_iff.mpr distinct)
    refine strict.imp fun {a b} both => ?_
    by_contra above
    exact both.2 (List.le_antisymm both.1 above)
  rw [sorted_parted_iff order]
  simp only [perm.mem_iff]
  constructor
  · rintro all p known inner ⟨d, there, above⟩
    obtain ⟨q, here, parts⟩ := all p known
      ⟨d, there, ((cleaned p known).above_iff (cleaned d there) inner).mp above⟩
    exact ⟨q, here, by rwa [Parts, if_neg inner]⟩
  · rintro all p known ⟨d, there, begins⟩
    have inner : p ≠ [dot] := by
      rintro rfl
      exact (cleaned d there).not_dotted begins
    obtain ⟨q, here, parts⟩ := all p known inner
      ⟨d, there, ((cleaned p known).above_iff (cleaned d there) inner).mpr begins⟩
    exact ⟨q, here, by rwa [Parts, if_neg inner] at parts⟩

theorem root_iff {sorted : List Text} (order : sorted.Pairwise (· ≤ ·)) (distinct : sorted.Nodup) :
    ¬ (1 < sorted.length ∧ sorted.head? = some [dot]) ↔
      ([dot] ∈ sorted → (∃ d ∈ sorted, Above [dot] d) → ∃ q ∈ sorted, Parts [dot] q) := by
  simp only [above_root, Parts, if_true]
  cases sorted with
  | nil => simp
  | cons first rest =>
    have least := (pairwise_cons.mp order).1
    constructor
    · rintro passed root ⟨d, there, other⟩
      have inner : first ≠ [dot] := by
        rintro rfl
        refine passed ⟨?_, rfl⟩
        rcases mem_cons.mp there with same | later
        · exact absurd same other
        · exact Nat.succ_lt_succ (length_pos_of_mem later)
      rcases mem_cons.mp root with same | later
      · exact absurd same.symm inner
      refine ⟨first, mem_cons_self, ?_⟩
      by_contra above
      exact inner (List.le_antisymm (least _ later) above)
    · rintro parted ⟨several, root⟩
      obtain rfl : first = [dot] := Option.some.inj root
      cases rest with
      | nil => simp at several
      | cons second rest =>
        have other : second ≠ [dot] := by
          rintro rfl
          exact (nodup_cons.mp distinct).1 mem_cons_self
        obtain ⟨q, known, before⟩ := parted mem_cons_self
          ⟨second, mem_cons_of_mem _ mem_cons_self, other⟩
        rcases mem_cons.mp known with rfl | later
        · exact List.lt_irrefl _ before
        · exact least q later before

end Order

section Acceptance

theorem collectPaths_ok_iff {values paths out : List Text} (distinct : paths.Nodup) :
    collectPaths values paths = .ok out ↔
      (∀ value ∈ values, leadsUp (cleanRelative value) = false) ∧
        (paths ++ values.map cleanRelative).Nodup ∧ out = paths ++ values.map cleanRelative := by
  induction values generalizing paths with
  | nil =>
    simp only [collectPaths, not_mem_nil, false_implies, implies_true, true_and, map_nil,
      append_nil, Except.ok.injEq, distinct]
    exact eq_comm
  | cons value values ih =>
    simp only [collectPaths]
    split
    · rename_i up
      simp [up]
    rename_i down
    split
    · rename_i twice
      have inside : cleanRelative value ∈ paths := by simpa using twice
      simp only [reduceCtorEq, false_iff]
      rintro ⟨_, once, _⟩
      exact (nodup_append.mp once).2.2 _ inside _ (by simp) rfl
    · rename_i fresh
      have outside : cleanRelative value ∉ paths := by simpa using fresh
      rw [ih (by simpa [nodup_append] using ⟨distinct, fun p known => by grind⟩)]
      simp [down]

theorem checks_iff {paths : List Text} (cleaned : ∀ p ∈ paths, Cleaned p) (distinct : paths.Nodup) :
    (¬ (1 < (paths.insertionSort (· ≤ ·)).length ∧
        (paths.insertionSort (· ≤ ·)).head? = some [dot]) ∧
      (paths.insertionSort (· ≤ ·)).IsChain (fun a b => (a ++ [slash]).isPrefixOf b = false)) ↔
      Parted paths := by
  have perm := perm_insertionSort (· ≤ ·) paths
  rw [neighbours_iff cleaned distinct,
    root_iff (pairwise_insertionSort (· ≤ ·) paths) (perm.nodup_iff.mpr distinct)]
  simp only [perm.mem_iff]
  constructor
  · rintro ⟨root, others⟩ p known
    by_cases inner : p = [dot]
    · subst inner
      exact root known
    · exact others p known inner
  · intro all
    exact ⟨all [dot], fun p known _ => all p known⟩

theorem normalizeBatchPaths_ok_iff (values : List Text) :
    (∃ sorted, normalizeBatchPaths values = .ok sorted) ↔
      values ≠ [] ∧ (∀ value ∈ values, leadsUp (cleanRelative value) = false) ∧
        (values.map cleanRelative).Nodup ∧ Parted (values.map cleanRelative) := by
  by_cases none : values = []
  · simp [normalizeBatchPaths, none]
  rw [normalizeBatchPaths, if_neg none]
  cases collected : collectPaths values [] with
  | error text =>
    have refused : ∀ out, collectPaths values [] ≠ .ok out := by simp [collected]
    simp only [ne_eq, collectPaths_ok_iff nodup_nil, nil_append] at refused
    simp only [reduceCtorEq, exists_false, false_iff]
    rintro ⟨_, down, distinct, _⟩
    exact refused _ ⟨down, distinct, rfl⟩
  | ok paths =>
    obtain ⟨down, distinct, rfl⟩ := (collectPaths_ok_iff nodup_nil).mp collected
    have cleaned : ∀ p ∈ values.map cleanRelative, Cleaned p := by
      intro p known
      obtain ⟨value, there, rfl⟩ := mem_map.mp known
      exact cleaned_cleanRelative (down value there)
    rw [nil_append] at distinct ⊢
    have both := checks_iff cleaned distinct
    rw [← any_zip_tail_eq_false] at both
    rw [← both]
    dsimp only
    split_ifs with root under
    · exact iff_of_false (by simp) fun all => all.2.2.2.1 root
    · exact iff_of_false (by simp) fun all => Bool.eq_false_iff.mp all.2.2.2.2 under
    · exact iff_of_true ⟨_, rfl⟩ ⟨none, down, distinct, root, Bool.eq_false_iff.mpr under⟩

theorem normalizeTransferPath_cleaned {value path : Text}
    (normal : normalizeTransferPath value false = .ok path) : Cleaned path ∧ path ≠ [dot] := by
  simp only [normalizeTransferPath, Bool.false_eq_true, if_false] at normal
  split_ifs at normal with _ rooted root up
  cases normal
  have unrooted := Bool.eq_false_iff.mpr rooted
  have same : clean letters (trimSpace (slashed value)) = shown (read value) := by
    rw [clean_unrooted unrooted, cleanElements, unrooted]
    rfl
  refine ⟨⟨read value, plain_read fun parent => up ?_, same⟩, root⟩
  rw [same, ← cleanRelative_eq]
  exact (leadsUp_cleanRelative value).mpr parent

theorem overlapping_eq_false_iff {sorted : List Text} (order : sorted.Pairwise (· ≤ ·)) :
    overlapping sorted = false ↔
      sorted.Nodup ∧ sorted.IsChain (fun a b => (a ++ [slash]).isPrefixOf b = false) := by
  have each : overlapping sorted = false ↔
      sorted.IsChain (fun a b => (b == a || (a ++ [slash]).isPrefixOf b) = false) := by
    rw [← any_zip_tail_eq_false]
    rfl
  simp only [Bool.or_eq_false_iff, beq_eq_false_iff_ne] at each
  rw [each]
  constructor
  · intro chain
    refine ⟨?_, chain.imp fun _ _ both => both.2⟩
    rw [isChain_iff_getElem] at chain
    have strict : sorted.IsChain (· < ·) := by
      rw [isChain_iff_getElem]
      intro i next
      by_contra above
      exact (chain i next).1 (List.le_antisymm above
        (pairwise_iff_getElem.mp order i (i + 1) _ next (Nat.lt_succ_self i)))
    refine (isChain_iff_pairwise.mp strict).imp fun less same => ?_
    rw [same] at less
    exact List.lt_irrefl _ less
  · rintro ⟨distinct, chain⟩
    rw [isChain_iff_getElem] at chain ⊢
    exact fun i next =>
      ⟨(pairwise_iff_getElem.mp distinct i (i + 1) _ next (Nat.lt_succ_self i)).symm,
        chain i next⟩

/-- Control looks at the paths of a request: it knows the operation and there are not too many. -/
def Control.considers (c : Control) (values : List Text) (operation : Text) : Prop :=
  (operationOf (c.strings.toLower (trimSpace operation))).isSome ∧
    1 ≤ values.length ∧ (values.length : Int) ≤ c.transferMaxSourcePaths

theorem normalizeTransferSelection_ok_iff (c : Control) (values : List Text) (operation : Text) :
    (∃ result, c.normalizeTransferSelection values operation = .ok result) ↔
      c.considers values operation ∧
        ∃ paths, (values.mapM fun value => normalizeTransferPath value false) = .ok paths ∧
          paths.Nodup ∧ Parted paths := by
  rw [Control.normalizeTransferSelection, Control.considers]
  cases operationOf (c.strings.toLower (trimSpace operation)) with
  | none => simp
  | some kind =>
    dsimp only
    split_ifs with limit
    · exact iff_of_false (by simp) fun ⟨⟨_, several, few⟩, _⟩ => by omega
    cases normal : values.mapM fun value => normalizeTransferPath value false with
    | error text => simp
    | ok paths =>
      have perm := perm_insertionSort (· ≤ ·) paths
      have cleaned : ∀ p ∈ paths, Cleaned p ∧ p ≠ [dot] := by
        intro p known
        obtain ⟨value, _, one⟩ := mapM_ok_mem normal known
        exact normalizeTransferPath_cleaned one
      have checks : overlapping (paths.insertionSort (· ≤ ·)) = false ↔
          paths.Nodup ∧ Parted paths := by
        rw [overlapping_eq_false_iff (pairwise_insertionSort (· ≤ ·) paths), perm.nodup_iff]
        refine and_congr_right fun distinct => ?_
        rw [neighbours_iff (fun p known => (cleaned p known).1) distinct]
        exact forall₂_congr fun p known => forall_prop_of_true (cleaned p known).2
      dsimp only
      split_ifs with overlaps
      · refine iff_of_false (by simp) fun ⟨_, _, same, apart⟩ => ?_
        cases same
        exact Bool.eq_false_iff.mp (checks.mpr apart) overlaps
      · exact iff_of_true ⟨_, rfl⟩ ⟨⟨rfl, by omega, by omega⟩, _, rfl,
          checks.mp (Bool.eq_false_iff.mpr overlaps)⟩

end Acceptance

section Overlaps

/-- What has to hold of a selection for an overlap in it to be seen: one of the paths above
others has nothing between itself and them. -/
def Exposed (paths : List Text) : Prop :=
  paths.Nodup → (∃ p ∈ paths, ∃ d ∈ paths, Above p d) →
    ∃ p ∈ paths, (∃ d ∈ paths, Above p d) ∧ ∀ q ∈ paths, ¬ Parts p q

theorem apart_iff_exposed {paths : List Text} :
    (paths.Nodup ∧ Parted paths → Apart paths) ↔ Exposed paths := by
  constructor
  · rintro apart distinct ⟨p, known, d, there, above⟩
    by_contra parted
    push Not at parted
    exact (apart ⟨distinct, parted⟩).2 p known d there above
  · rintro exposed ⟨distinct, parted⟩
    refine ⟨distinct, fun p known d there above => ?_⟩
    obtain ⟨a, top, others, alone⟩ := exposed distinct ⟨p, known, d, there, above⟩
    obtain ⟨q, here, between⟩ := parted a top others
    exact alone q here between

/-- Either side takes only selections without overlaps exactly where an overlap is always
next to a path above it. -/
theorem overlaps_refused_iff (c : Control) (operation : Text) (values : List Text) :
    ((∀ sorted, normalizeBatchPaths values = .ok sorted → Apart (values.map cleanRelative)) ↔
      ((∀ value ∈ values, leadsUp (cleanRelative value) = false) →
        Exposed (values.map cleanRelative))) ∧
    ((∀ paths result, (values.mapM fun value => normalizeTransferPath value false) = .ok paths →
        c.normalizeTransferSelection values operation = .ok result → Apart paths) ↔
      (c.considers values operation →
        ∀ paths, (values.mapM fun value => normalizeTransferPath value false) = .ok paths →
          Exposed paths)) := by
  constructor
  · rw [← exists_imp, normalizeBatchPaths_ok_iff]
    constructor
    · rintro apart down
      refine apart_iff_exposed.mp fun both => ?_
      by_cases none : values = []
      · simp [none, Apart]
      · exact apart ⟨none, down, both⟩
    · rintro exposed ⟨_, down, both⟩
      exact apart_iff_exposed.mpr (exposed down) both
  · have accepted := normalizeTransferSelection_ok_iff c values operation
    constructor
    · intro apart considered paths normal
      refine apart_iff_exposed.mp fun both => ?_
      obtain ⟨result, taken⟩ := accepted.mpr ⟨considered, paths, normal, both⟩
      exact apart paths result normal taken
    · intro exposed paths result normal taken
      obtain ⟨considered, others, same, both⟩ := accepted.mp ⟨result, taken⟩
      rw [normal] at same
      cases same
      exact apart_iff_exposed.mpr (exposed considered paths normal) both

/-- A path that sorts between a directory and what is in it hides the overlap of the two. -/
theorem parted_overlap_accepted :
    let values := ["a", "a-b", "a/b"].map ascii
    normalizeBatchPaths values = .ok values ∧
      sampleControl.normalizeTransferSelection values (ascii "copy") = .ok (values, .copy) ∧
      (values.mapM fun value => normalizeTransferPath value false) = .ok values ∧
      values.map cleanRelative = values ∧ ¬ Apart values := by
  decide +kernel

end Overlaps

end Jolt.Access.Transfer
