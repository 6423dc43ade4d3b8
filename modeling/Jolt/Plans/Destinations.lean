import Jolt.Access.Confinement
import Jolt.Base.Records

/-! Where the items of a plan are written. Each planner asks the same questions about an entry:
what stands at its destination, which numbered name is free there, and whether a directory
above it is in conflict. -/
namespace Jolt.Plans
open Jolt.Base Jolt.Access Jolt.Access.Transfer List
open Jolt.Jobs (ItemAction)

def writes : ItemAction → Bool
  | .create | .copy | .overwrite | .rename => true
  | _ => false

def written (item : Item) : Option Text :=
  if writes item.action then some item.destinationPath else none

/-- The destination paths of the items that will be written, in the plan's order. -/
def writtenPaths (plan : CopyPlan) : List Text := plan.items.filterMap written

structure Place where
  path : Text
  type : EntryType
  own : Text
  /-- a file that stands there is overwritten -/
  replaces : Bool

structure Ground where
  stands : Text → Option EntryType
  free : Text → Option Text
  renames : Bool

section Ground

variable (g : Ground)

def Ground.Renames (p : Place) : Prop :=
  g.renames = true ∧ p.type ≠ .directory ∧ g.stands p.own = some .file

def Ground.target (p : Place) : Option Text :=
  match g.stands p.own with
  | none => some p.own
  | some kind =>
    if p.type = .directory ∨ kind ≠ .file then none
    else if g.renames then g.free p.own
    else if p.replaces then some p.own
    else none

def Ground.obstructed (p : Place) : Bool :=
  p.type == .directory && (g.stands p.own).any (· != .directory)

def Ground.block (blocked : List Text) (p : Place) : List Text :=
  if p.type = .directory ∧ (hasBlockedParent p.path blocked || g.obstructed p) = true then
    p.path :: blocked
  else blocked

def Ground.unblocked : List Text → List Place → List Place
  | _, [] => []
  | blocked, p :: ps =>
    if hasBlockedParent p.path blocked then unblocked (g.block blocked p) ps
    else p :: unblocked (g.block blocked p) ps

def Ground.Lawful : Prop :=
  ∀ d r, g.free d = some r → g.stands r = none ∧ ∃ i, r = numbered d i

/-- Where entries come from: this node's own mount, or a peer's manifest. -/
inductive Origin where
  | here | peer
  deriving DecidableEq

/-- No entry's first free name is the place of another entry; and no two entries of a peer that
are written share a place because of how the paths are cleaned. -/
structure Apart (origin : Origin) (ps : List Place) : Prop where
  renamed : ∀ e ∈ ps, ∀ f ∈ ps, g.Renames e → g.free e.own ≠ some f.own
  respelled : origin = .peer → ps.Pairwise fun e f =>
    (g.target e).isSome → (g.target f).isSome → e.own ≠ f.own

end Ground

section Numbers

theorem extension_of_dot {stem t : Text} (single : dot ∉ t) (last : slash ∉ t) :
    extension (stem ++ dot :: t) = dot :: t := by
  have turned : (stem ++ dot :: t).reverse = t.reverse ++ dot :: stem.reverse := by simp
  have bare : ∀ b ∈ t.reverse ++ [dot], decide (b ≠ slash) = true := by
    intro b known
    simp only [mem_append, mem_reverse, mem_singleton] at known
    rcases known with inside | rfl
    · exact decide_eq_true fun same => last (same ▸ inside)
    · decide
  have cut : (stem ++ dot :: t).reverse.takeWhile (· ≠ slash) =
      t.reverse ++ dot :: stem.reverse.takeWhile (· ≠ slash) := by
    rw [turned, append_cons, takeWhile_append_of_pos bare, ← append_cons]
  have first : dot ∉ t.reverse := fun inside => single (mem_reverse.mp inside)
  simp only [extension, cut]
  rw [if_pos (by simp), takeWhile_ne first, reverse_reverse]

theorem extension_cases (path : Text) :
    extension path = [] ∧ dot ∉ path.reverse.takeWhile (· ≠ slash) ∨
      ∃ t, extension path = dot :: t ∧ dot ∉ t ∧ slash ∉ t := by
  simp only [extension]
  split_ifs with dotted
  · refine .inr ⟨_, rfl, ?_, ?_⟩
    · intro inside
      simpa using mem_takeWhile_imp (mem_reverse.mp inside)
    intro inside
    have within := (takeWhile_sublist _).subset (mem_reverse.mp inside)
    simpa using mem_takeWhile_imp within
  · exact .inl ⟨rfl, dotted⟩

theorem bytes_of_number {i : Nat} {b : UInt8} (known : b ∈ ascii (" (" ++ toString i ++ ")")) :
    b ≠ dot ∧ b ≠ slash := by
  have around : (ascii " (" ++ ascii ")").all (fun b => b != dot && b != slash) = true := by decide
  simp only [all_append, Bool.and_eq_true, all_eq_true, bne_iff_ne] at around
  rw [number_eq] at known
  simp only [mem_append] at known
  rcases known with (start | digits) | final
  · exact around.1 b start
  · have large := digit_bytes digits
    constructor <;> rintro rfl <;> exact absurd large (by decide)
  · exact around.2 b final

theorem extension_numbered (path : Text) (i : Nat) :
    extension (numbered path i) = extension path := by
  obtain ⟨stem, split, whole⟩ := numbered_eq path i
  rcases extension_cases path with ⟨none, plain⟩ | ⟨t, ends, single, last⟩
  · rw [none, append_nil] at split whole
    have bare : ∀ b ∈ (ascii (" (" ++ toString i ++ ")")).reverse, decide (b ≠ slash) = true :=
      fun b known => decide_eq_true (bytes_of_number (mem_reverse.mp known)).2
    rw [whole, none, extension, reverse_append, takeWhile_append_of_pos bare, ← split,
      if_neg]
    rw [mem_append, not_or]
    exact ⟨fun inside => (bytes_of_number (mem_reverse.mp inside)).1 rfl, plain⟩
  · rw [whole, ends, extension_of_dot single last]

theorem numbered_inj {d e : Text} {i j : Nat} (same : numbered d i = numbered e j) : d = e := by
  have ends : extension d = extension e := by
    rw [← extension_numbered d i, same, extension_numbered]
  obtain ⟨stem, split, whole⟩ := numbered_eq d i
  obtain ⟨other, cut, result⟩ := numbered_eq e j
  rw [whole, result, ends] at same
  have turned (s : Text) (n : Nat) : (s ++ ascii (" (" ++ toString n ++ ")")).reverse =
      (ascii ")" ++ (ascii (toString n)).reverse) ++ parenthesis :: (ascii " " ++ s.reverse) := by
    rw [number_eq]
    simp [ascii, parenthesis]
  have bare (n : Nat) : parenthesis ∉ ascii ")" ++ (ascii (toString n)).reverse := by
    simp only [mem_append, mem_reverse, not_or]
    exact ⟨by decide, fun inside => absurd (digit_bytes inside) (by decide)⟩
  have stems := congrArg List.reverse (append_cancel_right same)
  rw [turned, turned] at stems
  have rest := (append_cons_inj (bare i) (bare j) stems).2
  have start : stem = other := reverse_inj.mp (append_cancel_left rest)
  calc d = stem ++ extension d := split
    _ = other ++ extension e := by rw [start, ends]
    _ = e := cut.symm

end Numbers

section Targets

variable {g : Ground}

theorem Ground.target_cases {p : Place} {path : Text} (found : g.target p = some path) :
    path = p.own ∧ ¬ g.Renames p ∨ g.Renames p ∧ g.free p.own = some path := by
  simp only [target] at found
  split at found
  · rename_i none
    cases found
    exact .inl ⟨rfl, fun renames => by rw [renames.2.2] at none; cases none⟩
  · rename_i kind there
    split_ifs at found with plain renames replaces
    · simp only [not_or, not_not] at plain
      exact .inr ⟨⟨renames, plain.1, plain.2 ▸ there⟩, found⟩
    · cases found
      exact .inl ⟨rfl, fun other => renames other.1⟩

theorem Ground.target_of_absent {p : Place} (absent : g.stands p.own = none) :
    g.target p = some p.own := by
  simp only [target, absent]

theorem Ground.target_of_renames {p : Place} (renames : g.Renames p) :
    g.target p = g.free p.own := by
  obtain ⟨allowed, plain, there⟩ := renames
  simp [target, there, plain, allowed]

theorem Ground.target_of_own {e f : Place} (same : e.own = f.own) (first : (g.target e).isSome)
    (second : (g.target f).isSome) : g.target e = g.target f := by
  simp only [target, same] at first second ⊢
  grind

theorem Ground.distinct_iff (lawful : g.Lawful) {origin : Origin} {ps : List Place}
    (spelled : origin = .here → (ps.map Place.own).Nodup) :
    (ps.filterMap g.target).Nodup ↔ Apart g origin ps := by
  rw [List.Nodup, pairwise_filterMap]
  constructor
  · intro distinct
    constructor
    · intro e first f second renames hit
      have absent := (lawful _ _ hit).1
      have other : e ≠ f := by
        rintro rfl
        rw [renames.2.2] at absent
        cases absent
      have : Std.Symm fun x y : Place => ∀ b, g.target x = some b → ∀ b', g.target y = some b' →
          b ≠ b' := ⟨fun x y apart b there b' here same => apart b' here b there same.symm⟩
      exact distinct.forall first second other _ ((target_of_renames renames).trans hit) _
        (target_of_absent absent) rfl
    · intro _
      refine distinct.imp fun {e f} apart first second same => ?_
      obtain ⟨path, found⟩ := Option.isSome_iff_exists.mp first
      exact apart path found path ((target_of_own same first second).symm.trans found) rfl
  · intro apart
    have owns : ps.Pairwise fun e f =>
        (g.target e).isSome → (g.target f).isSome → e.own ≠ f.own := by
      cases origin with
      | here => exact (pairwise_map.mp (spelled rfl)).imp fun other _ _ => other
      | peer => exact apart.respelled rfl
    refine (List.Pairwise.and_mem.mp owns).imp ?_
    rintro e f ⟨first, second, other⟩ path found path' found' rfl
    have places := other (found ▸ rfl) (found' ▸ rfl)
    rcases target_cases found with ⟨rfl, _⟩ | ⟨renames, free⟩
    · rcases target_cases found' with ⟨same, _⟩ | ⟨renames, hit⟩
      · exact places same
      · exact apart.renamed f second e first renames hit
    · rcases target_cases found' with ⟨rfl, _⟩ | ⟨_, free'⟩
      · exact apart.renamed e first f second renames free
      -- both are renamed to one name, so they come from one path
      obtain ⟨i, named⟩ := (lawful _ _ free).2
      obtain ⟨j, named'⟩ := (lawful _ _ free').2
      exact places (numbered_inj (named.symm.trans named'))

end Targets

section Loops

variable {g : Ground}

/-- What an action and its destination say of an entry nothing keeps back. -/
structure Acts (g : Ground) (p : Place) (action : ItemAction) (destination : Text) : Prop where
  target : (if writes action then some destination else none) = g.target p
  conflict : p.type = .directory → (action = .conflict ↔ g.obstructed p = true)

/- The four situations a planner tells apart at a destination. -/
theorem Acts.absent {p : Place} (absent : g.stands p.own = none) :
    Acts g p (if p.type = .directory then .create else .copy) p.own := by
  constructor
  · rw [Ground.target_of_absent absent]
    split_ifs <;> simp_all [writes]
  · intro directory
    simp [directory, Ground.obstructed, absent]

theorem Acts.directory {p : Place} {kind : EntryType} (there : g.stands p.own = some kind)
    (directory : p.type = .directory) (path : Text) :
    Acts g p (if kind = .directory then .merge else .conflict) path := by
  constructor
  · simp only [Ground.target, there, directory]
    split_ifs <;> simp_all [writes]
  · intro _
    simp [directory, Ground.obstructed, there]

theorem Acts.other {p : Place} {kind : EntryType} (there : g.stands p.own = some kind)
    (plain : p.type ≠ .directory) (other : kind ≠ .file) (path : Text) :
    Acts g p .conflict path := by
  constructor
  · simp [Ground.target, there, other, writes]
  · exact fun directory => absurd directory plain

theorem Acts.file {p : Place} {action : ItemAction} {path : Text}
    (there : g.stands p.own = some .file) (plain : p.type ≠ .directory)
    (target : (if writes action then some path else none) =
      if g.renames then g.free p.own else if p.replaces then some p.own else none) :
    Acts g p action path := by
  constructor
  · rw [target]
    simp [Ground.target, there, plain]
  · exact fun directory => absurd directory plain

structure Settles (g : Ground) (blocked : Bool) (p : Place) (item : Item) : Prop where
  type : item.type = p.type
  target : written item = if blocked then none else g.target p
  conflict : p.type = .directory → (item.action = .conflict ↔ (blocked || g.obstructed p) = true)

theorem Settles.of_blocked {p : Place} {item : Item} (type : item.type = p.type) :
    Settles g true p { item with action := .conflict } :=
  ⟨type, rfl, fun _ => by simp⟩

theorem Acts.settles {p : Place} {item : Item} (acts : Acts g p item.action item.destinationPath)
    (type : item.type = p.type) : Settles g false p item :=
  ⟨type, acts.target, fun directory => by simpa using acts.conflict directory⟩

/-- The plan goes on from `s` to `t` with the places that are written. -/
def Lays (g : Ground) (s : Planning) (ps : List Place) (t : Planning) : Prop :=
  writtenPaths t.plan = writtenPaths s.plan ++ (g.unblocked s.blocked ps).filterMap g.target

theorem Lays.nil (s : Planning) : Lays g s [] s := by simp [Lays, Ground.unblocked]

theorem Lays.add {s t : Planning} {p : Place} {ps : List Place} {entry : Transfer.FileEntry} {item : Item}
    (settles : Settles g (hasBlockedParent entry.path s.blocked) p item)
    (path : entry.path = p.path) (rest : Lays g (s.add entry item) ps t) :
    Lays g s (p :: ps) t := by
  have blocks : (s.add entry item).blocked = g.block s.blocked p := by
    simp only [Planning.add, Ground.block, settles.type, ← path]
    by_cases directory : p.type = .directory
    · simp only [directory, true_and, settles.conflict directory]
    · simp only [directory, false_and, if_false]
  rw [Lays, blocks] at rest
  simp only [Planning.add, writtenPaths, CopyPlan.add_items, filterMap_append] at rest
  rw [Lays, writtenPaths, writtenPaths, rest, append_assoc, Ground.unblocked, ← path]
  cases blocked : hasBlockedParent entry.path s.blocked with
  | true => simp [settles.target, blocked]
  | false => cases target : g.target p <;> simp [settles.target, blocked, target]

theorem Ground.unblocked_sublist (g : Ground) (blocked : List Text) (ps : List Place) :
    (g.unblocked blocked ps).Sublist ps := by
  induction ps generalizing blocked with
  | nil => exact .slnil
  | cons p ps ih =>
    simp only [unblocked]
    split_ifs
    · exact (ih _).cons p
    · exact (ih _).cons_cons p

end Loops

end Jolt.Plans
