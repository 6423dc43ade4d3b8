import Jolt.Access.EntryFilter
import Jolt.Base.Sorting

/-! A page of a directory's listing. The entries come sorted; a page begins behind the
cursor it was asked for, and holds as many of the visible ones as fit. -/
namespace Jolt.Access
open Jolt.Base

section Model

structure FileInfo where
  kind : FileKind
  symlink : Bool
  size : Nat
  modifiedAt : Int
  deriving DecidableEq

structure DirEntry where
  name : Text
  info : FileInfo
  deriving DecidableEq

structure Directory where
  entries : List DirEntry
  distinct : (entries.map DirEntry.name).Nodup
  plain : ∀ entry ∈ entries, 0 ∉ entry.name

inductive ItemType where
  | directory | symlink | file
  deriving DecidableEq

structure FileEntry where
  name : Text
  path : Text
  type : ItemType
  size : Nat
  modifiedAt : Int
  blocked : Bool
  deriving DecidableEq

structure FilePage where
  items : List FileEntry
  hasMore : Bool
  nextAfter : Text
  deriving DecidableEq

inductive ListError where
  | root (err : RootError)
  | invalidCursor
  | disk (text : String)
  deriving DecidableEq

/-- `base64.RawURLEncoding` -/
structure Base64 where
  encode : Text → Text
  decode : Text → Option Text

def entryKey (lib : Library) (entry : DirEntry) : Text :=
  (if entry.info.kind = .directory then ascii "0" else ascii "1") ++
    0 :: (lib.lower entry.name ++ 0 :: entry.name)

def parseCursor (base64 : Base64) (after : Text) : Option Text :=
  if after = [] then some []
  else
    match base64.decode after with
    | none => none
    | some raw => if 4096 < raw.length ∨ (raw.splitOn 0).length ≠ 3 then none else some raw

def pageLimit (limit : Int) : Nat := if limit ≤ 0 ∨ 1000 < limit then 200 else limit.toNat

def entryPath (relative name : Text) : Text := joinPath (cleanRelative relative) name

variable (lib : Library) (filter : Option AccessFilter)

def access (path : Text) (info : FileInfo) : AccessDecision :=
  match filter with
  | none => ⟨true, false, true, true⟩
  | some f => f.decide lib path info.kind

def itemType (info : FileInfo) : ItemType :=
  if info.kind = .directory then .directory else if info.symlink then .symlink else .file

def fillPage (base64 : Base64) (mount : Mount) (relative cursor : Text) (limit : Nat) :
    List DirEntry → List FileEntry → Text → FilePage
  | [], items, _ => ⟨items, false, []⟩
  | entry :: rest, items, last =>
    let key := entryKey lib entry
    if key ≤ cursor ∨ mount.hiddenName entry.name = true then
      fillPage base64 mount relative cursor limit rest items last
    else
      let path := entryPath relative entry.name
      let access := access lib filter path entry.info
      if access.visible = false then fillPage base64 mount relative cursor limit rest items last
      else if items.length = limit then ⟨items, true, base64.encode last⟩
      else
        let item : FileEntry :=
          ⟨entry.name, path, itemType entry.info, entry.info.size, entry.info.modifiedAt, access.blocked⟩
        fillPage base64 mount relative cursor limit rest (items ++ [item]) key

/-- Where a listing starts: the directory on disk, checked if there is a filter. -/
def listRoot (disk : Disk) (stat : Text → Except StatError FileKind) (mount : Mount)
    (relative : Text) : Except RootError Text :=
  match filter with
  | none =>
    match resolvePath disk (.ok mount) relative false false with
    | .error err => .error (.path err)
    | .ok resolved => .ok resolved
  | some f => FilteredOperation.listPageFiltered.root lib f disk stat (.ok mount) relative

def listPageFiltered (base64 : Base64) (disk : Disk) (stat : Text → Except StatError FileKind)
    (readDir : Text → Except String Directory) (mount : Mount) (relative : Text) (limit : Int)
    (after : Text) : Except ListError FilePage :=
  match listRoot lib filter disk stat mount relative with
  | .error err => .error (.root err)
  | .ok resolved =>
    match parseCursor base64 after with
    | none => .error .invalidCursor
    | some cursor =>
      match readDir resolved with
      | .error text => .error (.disk text)
      | .ok directory =>
        let sorted := directory.entries.insertionSort fun a b => entryKey lib a ≤ entryKey lib b
        .ok (fillPage lib filter base64 mount relative cursor (pageLimit limit) sorted [] [])

end Model

section Order

variable {lib : Library}

theorem entryKey_name {a b : DirEntry} (first : 0 ∉ a.name) (second : 0 ∉ b.name)
    (same : entryKey lib a = entryKey lib b) : a.name = b.name := by
  have last (e : DirEntry) (plain : 0 ∉ e.name) :
      ((entryKey lib e).reverse.takeWhile (· ≠ 0)).reverse = e.name := by
    have ends : (entryKey lib e).reverse = e.name.reverse ++ 0 ::
        ((if e.info.kind = .directory then ascii "0" else ascii "1") ++
          0 :: lib.lower e.name).reverse := by
      simp [entryKey]
    have proper : ∀ b ∈ e.name.reverse, decide (b ≠ 0) = true := by
      intro b known
      rw [decide_eq_true_iff]
      rintro rfl
      exact plain (List.mem_reverse.mp known)
    rw [ends, List.takeWhile_append_of_pos proper]
    simp
  rw [← last a first, ← last b second, same]

theorem Directory.entry_of_name (d : Directory) {a b : DirEntry} (first : a ∈ d.entries)
    (second : b ∈ d.entries) (same : a.name = b.name) : a = b :=
  List.inj_on_of_nodup_map d.distinct first second same

end Order

section Pages

variable {lib : Library} {filter : Option AccessFilter} {base64 : Base64} {mount : Mount}
  {relative cursor : Text} {limit : Nat}

def shownEntry (lib : Library) (filter : Option AccessFilter) (relative : Text) (entry : DirEntry) :
    Bool :=
  (access lib filter (entryPath relative entry.name) entry.info).visible

theorem fillPage_filter (entries : List DirEntry) (items : List FileEntry) (last : Text) :
    fillPage lib filter base64 mount relative cursor limit
        (entries.filter (shownEntry lib filter relative)) items last =
      fillPage lib filter base64 mount relative cursor limit entries items last := by
  induction entries generalizing items last with
  | nil => rfl
  | cons entry entries ih =>
    rw [List.filter_cons]
    cases shown : shownEntry lib filter relative entry with
    | true =>
      simp only [if_true, fillPage, ih]
    | false =>
      have gone : (access lib filter (entryPath relative entry.name) entry.info).visible = false := shown
      simp only [Bool.false_eq_true, if_false, ih, fillPage, gone, if_true, ite_self]

/-- A listing is the same for two directories with the same visible entries. -/
theorem listing_hides_invisible_entries (lib : Library) (filter : Option AccessFilter)
    (base64 : Base64) (disk : Disk) (stat : Text → Except StatError FileKind) (mount : Mount)
    (relative : Text) (limit : Int) (after : Text) (first second : Directory)
    (same : ∀ entry, shownEntry lib filter relative entry = true →
      (entry ∈ first.entries ↔ entry ∈ second.entries)) :
    listPageFiltered lib filter base64 disk stat (fun _ => .ok first) mount relative limit after =
      listPageFiltered lib filter base64 disk stat (fun _ => .ok second) mount relative limit after := by
  have total : Std.Total fun a b => entryKey lib a ≤ entryKey lib b :=
    ⟨fun a b => List.le_total _ _⟩
  have trans : IsTrans DirEntry fun a b => entryKey lib a ≤ entryKey lib b :=
    ⟨fun a b c => List.le_trans⟩
  have sorted : (first.entries.insertionSort fun a b => entryKey lib a ≤ entryKey lib b).filter
        (shownEntry lib filter relative) =
      (second.entries.insertionSort fun a b => entryKey lib a ≤ entryKey lib b).filter
        (shownEntry lib filter relative) := by
    refine filter_insertionSort_eq first.distinct.of_map second.distinct.of_map ?_ same
    intro a here b there below above
    have equal : entryKey lib a = entryKey lib b := List.le_antisymm below above
    exact first.entry_of_name here there (entryKey_name (first.plain a here) (first.plain b there) equal)
  unfold listPageFiltered
  split
  · rfl
  split
  · rfl
  · dsimp only
    rw [← fillPage_filter, sorted, fillPage_filter]

def sampleBase64 : Base64 := ⟨id, some⟩

/-- The mount's root with its allowed directory, and some of what the filter hides. -/
def sampleDirectory (others : List Text) (distinct : (ascii "a" :: others).Nodup)
    (plain : ∀ name ∈ others, 0 ∉ name) : Directory where
  entries := ⟨ascii "a", ⟨.directory, false, 0, 0⟩⟩ ::
    others.map fun name => ⟨name, ⟨.regular, false, 1, 0⟩⟩
  distinct := by simpa [Function.comp_def] using distinct
  plain := by
    refine List.forall_mem_cons.mpr ⟨by decide, ?_⟩
    simpa using plain

def rootFilter : AccessFilter where
  context := ⟨[⟨ascii "nodes/n/files/mounts/m", .hidden, none, [ascii "list"]⟩,
    ⟨ascii "nodes/n/files/mounts/m/a/**", .hidden, none, [ascii "read", ascii "list"]⟩]⟩
  base := mountScope (ascii "n") (ascii "m")
  proper := sample_base

theorem sample_listing_hides :
    listPageFiltered sampleLibrary (some rootFilter) sampleBase64 sampleDisk
        (fun _ => .ok .directory) (fun _ => .ok (sampleDirectory [] (by decide) (by decide)))
        sampleMount [] 1 [] =
      listPageFiltered sampleLibrary (some rootFilter) sampleBase64 sampleDisk
        (fun _ => .ok .directory)
        (fun _ => .ok (sampleDirectory [ascii "b", ascii "B"] (by decide) (by decide)))
        sampleMount [] 1 [] := by
  refine listing_hides_invisible_entries sampleLibrary (some rootFilter) sampleBase64 sampleDisk
    (fun _ => .ok .directory) sampleMount [] 1 [] _ _ fun entry shown => ?_
  have hidden (name : Text) (other : name = ascii "b" ∨ name = ascii "B") :
      shownEntry sampleLibrary (some rootFilter) [] ⟨name, ⟨.regular, false, 1, 0⟩⟩ = false := by
    rcases other with rfl | rfl <;> decide +kernel
  simp only [sampleDirectory, List.map_nil, List.map_cons, List.mem_cons, List.not_mem_nil, or_false]
  grind

end Pages

end Jolt.Access
