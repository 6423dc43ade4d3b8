import Mathlib.Data.List.Induction

/-! The manifest of a source, page by page. The source node walks the whole directory for every page
and counts what it passes by; the root of the source is an entry in front of the ones that are
counted. The destination node follows the cursors until there is none. -/
namespace Jolt.Transfers.Manifests
open List

section Model

structure FileEntry where
  name : String
  /-- The components below the root; there are none in the path of the root itself. -/
  path : List String
  isDirectory : Bool
  size : Int := 0
  modifiedAt : Int
  checksum : String := ""
  deriving DecidableEq

/-- What stands in a directory, with the entries of a directory in the order `safeReadDir` sorts
them into. -/
inductive Node where
  | leaf (name : String) (size modifiedAt : Int) (isSymlink : Bool)
  | directory (name : String) (size modifiedAt : Int) (entries : List Node)

def Node.name : Node → String
  | .leaf name _ _ _ | .directory name _ _ _ => name

def Node.entry (path : List String) : Node → FileEntry
  | .leaf name size modifiedAt _ => { name, path, isDirectory := false, size, modifiedAt }
  | .directory name size modifiedAt _ => { name, path, isDirectory := true, size, modifiedAt }

inductive Visited where
  | next
  | skipDir
  | failed (text : String)
  deriving DecidableEq

structure Walk where
  total : Nat := 0
  items : List FileEntry := []
  deriving DecidableEq

variable (hidden : String → Bool) (after limit : Int)

/-- An entry is counted, and is part of the page unless it is before it or behind it. -/
def Walk.count (w : Walk) (entry : FileEntry) : Walk :=
  if w.total < after ∨ limit ≤ w.items.length then { w with total := w.total + 1 }
  else { total := w.total + 1, items := w.items ++ [entry] }

/-- The function that `ManifestPageWithExclusions` walks with; `hidden` is a name that the mount or
the grant hides. -/
def visit (path : List String) (node : Node) (w : Walk) : Walk × Visited :=
  if path = [] then (w, .next)
  else
    match node with
    | .leaf name _ _ isSymlink =>
      if hidden name then (w, .next)
      else if isSymlink then (w, .failed "symlinks are not included in manifests")
      else (w.count after limit (node.entry path), .next)
    | .directory name _ _ _ =>
      if hidden name then (w, .skipDir) else (w.count after limit (node.entry path), .next)

mutual

def walk (path : List String) : Node → Walk → Walk × Visited
  | .leaf name size modifiedAt isSymlink, w =>
    visit hidden after limit path (.leaf name size modifiedAt isSymlink) w
  | .directory name size modifiedAt entries, w =>
    match visit hidden after limit path (.directory name size modifiedAt entries) w with
    | (w, .next) => walkAll path entries w
    | (w, .skipDir) => (w, .next)
    | (w, .failed text) => (w, .failed text)

def walkAll (path : List String) : List Node → Walk → Walk × Visited
  | [], w => (w, .next)
  | child :: rest, w =>
    match walk (path ++ [child.name]) child w with
    | (w, .next) => walkAll path rest w
    | (w, .skipDir) => (w, .next)
    | (w, .failed text) => (w, .failed text)

end

def manifestPageWithExclusions (root : Node) : Except String (List FileEntry × Nat) :=
  match root with
  | .leaf _ _ _ _ => .error "invalid"
  | .directory _ _ _ _ =>
    let after := if after < 0 then 0 else after
    let limit := if limit ≤ 0 then 500 else limit
    match walk hidden after limit [] root {} with
    | (_, .failed text) => .error text
    | (w, _) => .ok (w.items, w.total)

structure ManifestPage where
  items : List FileEntry
  total : Nat
  nextAfter : Int := 0
  deriving DecidableEq

/-- The checksum of a file goes into its entry, if the request asks for checksums. -/
def FileEntry.summed (checksum : Option (List String → String)) (entry : FileEntry) : FileEntry :=
  match checksum with
  | some sum => if entry.isDirectory then entry else { entry with checksum := sum entry.path }
  | none => entry

/-- The entry of the root of the source. -/
def Node.rootEntry (root : Node) : FileEntry :=
  match root with
  | .leaf name size modifiedAt _ => { name, path := [], isDirectory := false, size, modifiedAt }
  | .directory name _ modifiedAt _ => { name, path := [], isDirectory := true, modifiedAt }

def openManifest (root : Node) (checksum : Option (List String → String)) :
    Except String ManifestPage :=
  match root with
  | .leaf _ _ _ true => .error "manifest source type is unsupported"
  | .leaf _ _ _ false => .ok { items := [root.rootEntry.summed checksum], total := 1 }
  | .directory _ _ _ _ =>
    let after := if after < 0 then 0 else after
    let limit := if limit ≤ 0 ∨ 1000 < limit then 500 else limit
    let first := if after = 0 then [root.rootEntry] else []
    let descendantAfter := max (after - 1) 0
    let descendantLimit := if after = 0 then limit - 1 else limit
    let found :=
      if 0 < descendantLimit then
        manifestPageWithExclusions hidden descendantAfter descendantLimit root
      else (manifestPageWithExclusions hidden 0 1 root).map fun (_, total) => ([], total)
    match found with
    | .error text => .error text
    | .ok (descendants, descendantTotal) =>
      let items := (first ++ descendants).map (FileEntry.summed checksum)
      let total := descendantTotal + 1
      let items := if (total : Int) < after then [] else items
      let after := if (total : Int) < after then (total : Int) else after
      let last := after + items.length
      .ok { items, total, nextAfter := if last < total then last else 0 }

/-- The loop of `fetchRemoteManifest`, for so many pages at most; the pages are what the peer
answers to a cursor. -/
def fetchRemoteManifest (page : Int → Except String ManifestPage) :
    Nat → Int → List FileEntry → Option (Except String (List FileEntry))
  | 0, _, _ => none
  | fuel + 1, after, items =>
    match page after with
    | .error text => some (.error text)
    | .ok page' =>
      let items := items ++ page'.items
      if page'.nextAfter = 0 then some (.ok items)
      else if page'.nextAfter ≤ after ∨ (page'.total : Int) < page'.nextAfter then
        some (.error "remote manifest cursor is invalid")
      else fetchRemoteManifest page fuel page'.nextAfter items

end Model

section Listing

variable (hidden : String → Bool)

mutual

/-- A directory and then what is in it, but for what is hidden and what is below it. -/
def Node.listing (path : List String) : Node → List FileEntry
  | .leaf name size modifiedAt isSymlink =>
    if hidden name then [] else [(Node.leaf name size modifiedAt isSymlink).entry path]
  | .directory name size modifiedAt entries =>
    if hidden name then []
    else (Node.directory name size modifiedAt entries).entry path :: listingAll path entries

def listingAll (path : List String) : List Node → List FileEntry
  | [] => []
  | child :: rest => child.listing (path ++ [child.name]) ++ listingAll path rest

end

mutual

/-- No entry that is listed is a symbolic link. -/
def Node.plain : Node → Bool
  | .leaf name _ _ isSymlink => hidden name || !isSymlink
  | .directory name _ _ entries => hidden name || plainAll entries

def plainAll : List Node → Bool
  | [] => true
  | child :: rest => child.plain && plainAll rest

end

/-- The whole manifest: the root and then what is listed below it. -/
def Node.manifest (checksum : Option (List String → String)) (root : Node) : List FileEntry :=
  match root with
  | .leaf _ _ _ _ => [root.rootEntry.summed checksum]
  | .directory _ _ _ entries =>
    (root.rootEntry :: listingAll hidden [] entries).map (FileEntry.summed checksum)

end Listing

section Walking

variable {hidden : String → Bool} {after limit : Int}

mutual

theorem walk_plain {node : Node} {path : List String} (below : path ≠ [])
    (plain : node.plain hidden = true) (w : Walk) : walk hidden after limit path node w =
      ((node.listing hidden path).foldl (Walk.count after limit) w, .next) := by
  cases node with
  | leaf name size modifiedAt isSymlink =>
    cases concealed : hidden name with
    | true => simp [walk, visit, Node.listing, below, concealed]
    | false =>
      have file : isSymlink = false := by simpa [Node.plain, concealed] using plain
      simp [walk, visit, Node.listing, below, concealed, file]
  | directory name size modifiedAt entries =>
    cases concealed : hidden name with
    | true => simp [walk, visit, Node.listing, below, concealed]
    | false =>
      have inner : plainAll hidden entries = true := by simpa [Node.plain, concealed] using plain
      simp [walk, visit, Node.listing, below, concealed, walkAll_plain inner]

theorem walkAll_plain {entries : List Node} {path : List String}
    (plain : plainAll hidden entries = true) (w : Walk) :
    walkAll hidden after limit path entries w =
      ((listingAll hidden path entries).foldl (Walk.count after limit) w, .next) := by
  cases entries with
  | nil => rfl
  | cons child rest =>
    simp only [plainAll, Bool.and_eq_true] at plain
    have below : path ++ [child.name] ≠ [] := by simp
    simp [walkAll, listingAll, walk_plain below plain.1, walkAll_plain plain.2]

end

mutual

theorem walk_linked {node : Node} {path : List String} (below : path ≠ [])
    (linked : node.plain hidden = false) (w : Walk) :
    (walk hidden after limit path node w).2 = .failed "symlinks are not included in manifests" := by
  cases node with
  | leaf name size modifiedAt isSymlink =>
    simp only [Node.plain, Bool.or_eq_false_iff, Bool.not_eq_false'] at linked
    simp [walk, visit, below, linked]
  | directory name size modifiedAt entries =>
    simp only [Node.plain, Bool.or_eq_false_iff] at linked
    simp [walk, visit, below, linked.1, walkAll_linked linked.2]

theorem walkAll_linked {entries : List Node} {path : List String}
    (linked : plainAll hidden entries = false) (w : Walk) :
    (walkAll hidden after limit path entries w).2 =
      .failed "symlinks are not included in manifests" := by
  cases entries with
  | nil => simp [plainAll] at linked
  | cons child rest =>
    have below : path ++ [child.name] ≠ [] := by simp
    cases first : child.plain hidden with
    | true =>
      have later : plainAll hidden rest = false := by simpa [plainAll, first] using linked
      simp [walkAll, walk_plain below first, walkAll_linked later]
    | false =>
      have failed : (walk hidden after limit (path ++ [child.name]) child w).2 = _ :=
        walk_linked below first w
      rw [walkAll]
      split <;> simp_all

end

/-- The page is cut out of what is counted. -/
theorem foldl_count {a l : Nat} (entries : List FileEntry) :
    entries.foldl (Walk.count a l) {} =
      { total := entries.length, items := (entries.drop a).take l } := by
  induction entries using List.reverseRecOn with
  | nil => simp
  | append_singleton entries entry ih =>
    simp only [foldl_append, ih, foldl_cons, foldl_nil, Walk.count]
    rcases Nat.lt_or_ge entries.length a with early | reached
    · have before : (entries ++ [entry]).drop a = [] := by simp; omega
      simp [early, before, drop_eq_nil_of_le (Nat.le_of_lt early)]
    have inside : (entries ++ [entry]).drop a = entries.drop a ++ [entry] :=
      drop_append_of_le_length reached
    have late : ¬ entries.length < a := by omega
    rcases Nat.lt_or_ge (entries.drop a).length l with room | full
    · have all : (entries.drop a).take l = entries.drop a :=
        take_of_length_le (Nat.le_of_lt room)
      have more : (entries.drop a ++ [entry]).take l = entries.drop a ++ [entry] :=
        take_of_length_le (by simp at room ⊢; omega)
      simp only [inside, all, more, length_append, length_singleton]
      rw [if_neg (by omega)]
    · have cut : ((entries.drop a).take l).length = l := by simp at full ⊢; omega
      simp [inside, take_append_of_le_length full, cut]

end Walking

section Paging

variable {hidden : String → Bool} {name : String} {size modifiedAt : Int} {entries : List Node}
  {checksum : Option (List String → String)}

theorem manifestPageWithExclusions_plain (plain : plainAll hidden entries = true) (a : Nat) {l : Nat}
    (positive : 0 < l) :
    manifestPageWithExclusions hidden a l (.directory name size modifiedAt entries) =
      .ok (((listingAll hidden [] entries).drop a).take l, (listingAll hidden [] entries).length) := by
  have forward : ¬ (a : Int) < 0 := by omega
  have some : ¬ (l : Int) ≤ 0 := by omega
  simp only [manifestPageWithExclusions, walk, visit, if_true, if_neg forward, if_neg some,
    walkAll_plain plain, foldl_count]

theorem manifestPageWithExclusions_linked (linked : plainAll hidden entries = false)
    (after limit : Int) :
    manifestPageWithExclusions hidden after limit (.directory name size modifiedAt entries) =
      .error "symlinks are not included in manifests" := by
  simp only [manifestPageWithExclusions, walk, visit]
  have failed : (walkAll hidden (if after < 0 then 0 else after) (if limit ≤ 0 then 500 else limit) []
    entries {}).2 = _ := walkAll_linked linked {}
  split <;> simp_all

/-- A page with no room below the root still learns how much there is. -/
theorem descendants_plain (plain : plainAll hidden entries = true) (a l : Nat) :
    (if 0 < (l : Int) then
        manifestPageWithExclusions hidden a l (.directory name size modifiedAt entries)
      else (manifestPageWithExclusions hidden 0 1 (.directory name size modifiedAt entries)).map
        fun (_, total) => ([], total)) =
      .ok (((listingAll hidden [] entries).drop a).take l, (listingAll hidden [] entries).length) := by
  cases l with
  | zero =>
    have counted : manifestPageWithExclusions hidden 0 1 (.directory name size modifiedAt entries) =
      _ := manifestPageWithExclusions_plain plain 0 Nat.one_pos
    simp [counted, Except.map]
  | succ l =>
    rw [if_pos (by omega)]
    exact manifestPageWithExclusions_plain plain a l.succ_pos

/-- The number of entries in a page. -/
def pageLimit (limit : Int) : Nat := if limit ≤ 0 ∨ 1000 < limit then 500 else limit.toNat

theorem pageLimit_pos (limit : Int) : 0 < pageLimit limit := by
  rw [pageLimit]
  split <;> omega

/-- The entry of the root shifts the ones below it by one place. -/
theorem root_shifts (entry : FileEntry) (descendants : List FileEntry) (a : Nat) {l : Nat}
    (positive : 0 < l) :
    (if (a : Int) = 0 then [entry] else []) ++
        (descendants.drop (a - 1)).take (if a = 0 then l - 1 else l) =
      ((entry :: descendants).drop a).take l := by
  cases a with
  | zero =>
    obtain ⟨l, rfl⟩ : ∃ k, l = k + 1 := ⟨l - 1, by omega⟩
    simp
  | succ b =>
    simp
    omega

theorem openManifest_plain (plain : plainAll hidden entries = true) (a : Nat) (limit : Int) :
    let root := Node.directory name size modifiedAt entries
    let whole := root.manifest hidden checksum
    openManifest hidden a limit root checksum =
      .ok { items := (whole.drop a).take (pageLimit limit), total := whole.length
            nextAfter := if a + pageLimit limit < whole.length then a + pageLimit limit else 0 } := by
  intro root whole
  have forward : ¬ (a : Int) < 0 := by omega
  have bound : (if limit ≤ 0 ∨ 1000 < limit then 500 else limit) = (pageLimit limit : Int) := by
    rw [pageLimit]; split <;> omega
  have positive := pageLimit_pos limit
  generalize pageLimit limit = l at *
  have shifted : max ((a : Int) - 1) 0 = ((a - 1 : Nat) : Int) := by omega
  have room : (if (a : Int) = 0 then (l : Int) - 1 else l) =
      ((if a = 0 then l - 1 else l : Nat) : Int) := by split <;> split <;> omega
  have length : whole.length = (listingAll hidden [] entries).length + 1 := by
    simp [whole, root, Node.manifest]
  have laid : (root.rootEntry :: listingAll hidden [] entries).map (FileEntry.summed checksum) =
    whole := rfl
  simp only [root] at laid
  simp only [root, openManifest, if_neg forward, bound, shifted, room, descendants_plain plain,
    root_shifts _ _ _ positive, ← length, map_take, map_drop, laid]
  rcases Nat.lt_or_ge whole.length a with beyond | within
  · have nothing : whole.drop a = [] := drop_eq_nil_of_le (Nat.le_of_lt beyond)
    have past : ¬ a + l < whole.length := by omega
    simp [beyond, nothing, past]
  · have inside : ¬ (whole.length : Int) < a := by omega
    have counted : ((whole.drop a).take l).length = min l (whole.length - a) := by simp
    simp only [if_neg inside, counted]
    congr 2
    split <;> split <;> omega

theorem openManifest_linked (linked : plainAll hidden entries = false) (after limit : Int) :
    openManifest hidden after limit (.directory name size modifiedAt entries) checksum =
      .error "symlinks are not included in manifests" := by
  simp only [openManifest, manifestPageWithExclusions_linked linked, Except.map, ite_self]

variable (hidden) in
/-- What the manifest of a source is, page after page: all of it, unless an entry that is not hidden
is a symbolic link. -/
def Node.answer (checksum : Option (List String → String)) (root : Node) :
    Except String (List FileEntry) :=
  match root with
  | .leaf _ _ _ true => .error "manifest source type is unsupported"
  | .leaf _ _ _ false => .ok (root.manifest hidden checksum)
  | .directory _ _ _ entries =>
    if plainAll hidden entries then .ok (root.manifest hidden checksum)
    else .error "symlinks are not included in manifests"

/-- With the entries before the cursor in hand, the pages from it on bring the rest. -/
theorem fetchRemoteManifest_from {page : Int → Except String ManifestPage} {whole : List FileEntry}
    {l : Nat} (positive : 0 < l)
    (pages : ∀ a : Nat, page a = .ok
      { items := (whole.drop a).take l, total := whole.length,
        nextAfter := if a + l < whole.length then a + l else 0 }) :
    ∀ fuel a : Nat, 0 < fuel → whole.length ≤ a + fuel →
      fetchRemoteManifest page fuel a (whole.take a) = some (.ok whole) := by
  intro fuel
  induction fuel with
  | zero => omega
  | succ fuel ih =>
    intro a _ enough
    have joined : whole.take a ++ (whole.drop a).take l = whole.take (a + l) := take_add.symm
    simp only [fetchRemoteManifest, pages, joined]
    rcases Nat.lt_or_ge (a + l) whole.length with more | done
    · have continued := ih (a + l) (by omega) (by omega)
      have moved : ¬ ((a : Int) + l = 0) := by omega
      have accepted : ¬ ((a : Int) + l ≤ a ∨ (whole.length : Int) < a + l) := by omega
      simpa only [if_pos more, if_neg moved, if_neg accepted, Int.natCast_add] using continued
    · have last : ¬ a + l < whole.length := by omega
      simp only [if_neg last, if_true, take_of_length_le done]

/-- Following the cursors from the first page ends, after at most as many pages as there are
entries, and brings the whole manifest. -/
theorem fetchRemoteManifest_whole (root : Node) (limit : Int) (spare : Nat) :
    fetchRemoteManifest (fun after => openManifest hidden after limit root checksum)
        ((root.manifest hidden checksum).length + spare) 0 [] =
      some (root.answer hidden checksum) := by
  cases root with
  | leaf name size modifiedAt isSymlink =>
    rw [Node.manifest, length_singleton, Nat.add_comm]
    cases isSymlink <;> rfl
  | directory name size modifiedAt entries =>
    have some : 0 < ((Node.directory name size modifiedAt entries).manifest hidden checksum).length :=
      by simp [Node.manifest]
    cases plain : plainAll hidden entries with
    | true =>
      simpa [Node.answer, plain] using
        fetchRemoteManifest_from (pageLimit_pos limit) (fun a => openManifest_plain plain a limit)
          (_ + spare) 0 (by omega) (by omega)
    | false =>
      obtain ⟨k, filled⟩ := Nat.exists_eq_add_of_lt some
      simp [filled, Nat.add_right_comm _ 1, fetchRemoteManifest, openManifest_linked plain,
        Node.answer, plain]

/-- A link in the source ends its manifest with an error, on the first page already. -/
theorem link_ends_manifest :
    fetchRemoteManifest (fun after => openManifest (fun _ => false) after 500
      (.directory "docs" 0 0 [.leaf "a" 1 0 false, .leaf "latest" 1 0 true]) none) 3 0 [] =
      some (.error "symlinks are not included in manifests") := by
  decide +kernel

end Paging
end Jolt.Transfers.Manifests
