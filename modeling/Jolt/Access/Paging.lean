import Jolt.Access.Listing

/-! A directory listed page by page. A cursor is the key of the last entry that was shown, so what is
added or removed between two requests moves nothing else to another page. -/
namespace Jolt.Access
open Jolt.Base List

section Model

/-- Follows the cursors for so many requests at most, the first of which has this number. -/
def followPages (page : Nat → Text → Except ListError FilePage) :
    Nat → Nat → Text → List FileEntry → Option (Except ListError (List FileEntry))
  | 0, _, _, _ => none
  | fuel + 1, i, after, items =>
    match page i after with
    | .error err => some (.error err)
    | .ok found =>
      if found.hasMore then followPages page fuel (i + 1) found.nextAfter (items ++ found.items)
      else some (.ok (items ++ found.items))

/-- A rune takes three bytes at most once its case is folded, and only a zero is folded to one. -/
structure CursorLaws (lib : Library) (base64 : Base64) : Prop where
  decode_encode : ∀ raw, base64.decode (base64.encode raw) = some raw
  encode_ne_nil : ∀ raw, raw ≠ [] → base64.encode raw ≠ []
  plain : ∀ name, 0 ∉ name → 0 ∉ lib.lower name
  length : ∀ name, (lib.lower name).length ≤ 3 * name.length

/-- Who lists which directory. -/
structure Viewer where
  lib : Library
  filter : Option AccessFilter
  mount : Mount
  relative : Text

variable (v : Viewer)

def Viewer.itemKey (item : FileEntry) : Text :=
  (if item.type = .directory then ascii "0" else ascii "1") ++
    0 :: (v.lib.lower item.name ++ 0 :: item.name)

def Viewer.itemOf (entry : DirEntry) : FileEntry :=
  let path := entryPath v.relative entry.name
  ⟨entry.name, path, itemType entry.info, entry.info.size, entry.info.modifiedAt,
    (access v.lib v.filter path entry.info).blocked⟩

def Viewer.listed (entry : DirEntry) : Bool :=
  !v.mount.hiddenName entry.name && shownEntry v.lib v.filter v.relative entry

abbrev Viewer.key (entry : DirEntry) : Text := entryKey v.lib entry

def Viewer.sorted (d : Directory) : List DirEntry :=
  d.entries.insertionSort fun a b => v.key a ≤ v.key b

def Viewer.waits (cursor : Text) (entry : DirEntry) : Bool :=
  decide (cursor < v.key entry) && v.listed entry

/-- What the pages behind a cursor have to show. -/
def Viewer.waiting (d : Directory) (cursor : Text) : List DirEntry :=
  (v.sorted d).filter (v.waits cursor)

end Model

section Cursors

variable {lib : Library} {base64 : Base64}

theorem length_splitOn {α : Type} [DecidableEq α] (x : α) (l : List α) :
    (l.splitOn x).length = l.count x + 1 := by
  induction l with
  | nil => rfl
  | cons y l ih =>
    rw [splitOn_cons_eq_if_modifyHead, count_cons]
    split <;> simp [ih]

theorem parseCursor_encode (laws : CursorLaws lib base64) {entry : DirEntry}
    (plain : 0 ∉ entry.name) (short : entry.name.length ≤ 1023) :
    parseCursor base64 (base64.encode (entryKey lib entry)) = some (entryKey lib entry) := by
  have nonempty : entryKey lib entry ≠ [] := by simp [entryKey]
  have folded := laws.length entry.name
  have size : ¬ 4096 < (entryKey lib entry).length := by
    rw [entryKey]
    split <;> simp [ascii] <;> omega
  have zeros : (entryKey lib entry).count 0 = 2 := by
    have first := count_eq_zero.mpr (laws.plain entry.name plain)
    have second := count_eq_zero.mpr plain
    rw [entryKey]
    split <;> simp [count_append, first, second] <;> decide
  simp [parseCursor, laws.encode_ne_nil _ nonempty, laws.decode_encode, size, length_splitOn, zeros]

end Cursors

section Pages

variable {v : Viewer} {base64 : Base64} {cursor : Text} {limit : Nat}

theorem itemKey_itemOf (entry : DirEntry) :
    v.itemKey (v.itemOf entry) = v.key entry := by
  rcases entry with ⟨name, kind, symlink, size, modifiedAt⟩
  cases kind <;> cases symlink <;> rfl

/-- A page takes the first of the entries that wait, and ends with them or when it is full. -/
theorem fillPage_spec (entries : List DirEntry) (items : List FileEntry) (last : Text) :
    ∃ taken rest, entries.filter (v.waits cursor) = taken ++ rest ∧
      let page := fillPage v.lib v.filter base64 v.mount v.relative cursor limit entries items last
      page.items = items ++ taken.map (v.itemOf) ∧
      (page.hasMore = false ∧ rest = [] ∨ page.hasMore = true ∧ items.length + taken.length = limit ∧
        page.nextAfter = base64.encode ((taken.map (v.key)).getLastD last)) := by
  induction entries generalizing items last with
  | nil => exact ⟨[], [], by simp [fillPage]⟩
  | cons entry entries ih =>
    simp only [fillPage]
    split
    · rename_i passed
      have gone : v.waits cursor entry = false := by
        rcases passed with before | hidden
        · simp [Viewer.waits, List.not_lt.mpr before]
        · simp [Viewer.waits, Viewer.listed, hidden]
      simpa [filter_cons, gone] using ih items last
    · rename_i here
      obtain ⟨behind, named⟩ := not_or.mp here
      rw [List.not_le] at behind
      split
      · rename_i invisible
        simpa [filter_cons, Viewer.waits, Viewer.listed, shownEntry, invisible] using ih items last
      rename_i visible
      have kept : v.waits cursor entry = true := by
        simpa [Viewer.waits, Viewer.listed, shownEntry, behind, named] using visible
      rw [filter_cons_of_pos kept]
      split
      · rename_i full
        exact ⟨[], _, rfl, by simp [full]⟩
      obtain ⟨taken, rest, split, filled, ends⟩ :=
        ih (items ++ [v.itemOf entry]) (v.key entry)
      refine ⟨entry :: taken, rest, by rw [split, cons_append], ?_, ?_⟩
      · exact filled.trans (by simp)
      rcases ends with done | ⟨more, full, next⟩
      · exact .inl done
      · exact .inr ⟨more, by simp at full ⊢; omega, next.trans (by rw [map_cons, getLastD_cons])⟩

theorem mem_sorted {d : Directory} {entry : DirEntry} :
    entry ∈ v.sorted d ↔ entry ∈ d.entries :=
  (perm_insertionSort _ _).mem_iff

theorem sorted_pairwise (d : Directory) :
    (v.sorted d).Pairwise fun a b => v.key a < v.key b := by
  have total : Std.Total fun a b => v.key a ≤ v.key b :=
    ⟨fun a b => List.le_total _ _⟩
  have trans : IsTrans DirEntry fun a b => v.key a ≤ v.key b :=
    ⟨fun a b c => List.le_trans⟩
  have ordered := pairwise_insertionSort (fun a b => v.key a ≤ v.key b) d.entries
  have distinct : (v.sorted d).Pairwise (· ≠ ·) :=
    (perm_insertionSort _ _).nodup_iff.mpr d.distinct.of_map
  refine (ordered.and distinct).imp_of_mem fun {a b} here there ⟨below, apart⟩ => ?_
  rw [mem_sorted] at here there
  refine List.not_le.mp fun above => apart (d.entry_of_name here there ?_)
  exact entryKey_name (d.plain a here) (d.plain b there) (List.le_antisymm below above)

end Pages

section Following

variable {v : Viewer} {base64 : Base64} {cursor : Text} {limit i : Nat} {dirs : Nat → Directory} {items : List FileEntry}

/-- What the pages up to a cursor have shown. -/
structure Followed (v : Viewer) (dirs : Nat → Directory) (cursor : Text) (items : List FileEntry) : Prop where
  ordered : items.Pairwise fun a b => v.itemKey a < v.itemKey b
  passed : ∀ item ∈ items, v.itemKey item ≤ cursor
  steady : ∀ entry, v.listed entry = true →
    (∀ i, entry ∈ (dirs i).entries) → v.key entry ≤ cursor →
      v.itemOf entry ∈ items

theorem mem_waiting {d : Directory} {entry : DirEntry} :
    entry ∈ v.waiting d cursor ↔ entry ∈ d.entries ∧
      cursor < v.key entry ∧ v.listed entry = true := by
  simp [Viewer.waiting, Viewer.waits, mem_sorted]

variable {taken rest : List DirEntry} {d : Directory}

/-- The last entry of a page parts what it shows from what still waits. -/
theorem waiting_parts (split : v.waiting d cursor = taken ++ rest) :
    let next := (taken.map (v.key)).getLastD cursor
    cursor ≤ next ∧ (∀ entry ∈ taken, v.key entry ≤ next) ∧
      ∀ entry ∈ rest, next < v.key entry := by
  have sorted : (cursor :: (taken.map (v.key) ++ rest.map (v.key))).Pairwise (· < ·) := by
    rw [← map_append, ← split, pairwise_cons]
    refine ⟨?_, pairwise_map.mpr ((sorted_pairwise d).filter _)⟩
    simp only [mem_map, forall_exists_index, and_imp, forall_apply_eq_imp_iff₂]
    exact fun entry known => (mem_waiting.mp known).2.1
  obtain ⟨upTo, beyond⟩ := getLastD_parts sorted fun _ _ _ => List.lt_trans
  have reached (key : Text) (known : key ∈ cursor :: taken.map (v.key)) :
      key ≤ (taken.map (v.key)).getLastD cursor := by
    rcases upTo key known with same | less
    · exact same ▸ List.le_refl _
    · exact List.le_of_lt less
  exact ⟨reached cursor (by simp), fun entry known => reached _ (by simp; exact .inr ⟨entry, known, rfl⟩),
    fun entry known => beyond _ (mem_map_of_mem known)⟩

theorem Followed.page (followed : Followed v dirs cursor items)
    (split : v.waiting (dirs i) cursor = taken ++ rest) :
    Followed v dirs ((taken.map (v.key)).getLastD cursor)
      (items ++ taken.map (v.itemOf)) := by
  obtain ⟨further, upTo, beyond⟩ := waiting_parts split
  have behind (entry : DirEntry) (known : entry ∈ taken) : cursor < v.key entry :=
    (mem_waiting.mp (split ▸ mem_append_left rest known)).2.1
  have sorted : (taken ++ rest).Pairwise fun a b => v.key a < v.key b :=
    split ▸ (sorted_pairwise (dirs i)).filter _
  refine ⟨pairwise_append.mpr ⟨followed.ordered, ?_, ?_⟩, ?_, ?_⟩
  · rw [pairwise_map]
    simpa only [itemKey_itemOf] using (pairwise_append.mp sorted).1
  · intro item known
    simp only [forall_mem_map, itemKey_itemOf]
    exact fun entry new => List.lt_of_le_of_lt (followed.passed item known) (behind entry new)
  · simp only [forall_mem_append, forall_mem_map, itemKey_itemOf]
    exact ⟨fun item known => List.le_trans (followed.passed item known) further, upTo⟩
  · intro entry shown there reached
    rw [mem_append]
    by_cases old : v.key entry ≤ cursor
    · exact .inl (followed.steady entry shown there old)
    have new := mem_waiting.mpr ⟨there i, List.not_le.mp old, shown⟩
    rw [split, mem_append] at new
    rcases new with here | later
    · exact .inr (mem_map_of_mem here)
    · exact absurd (beyond entry later) (List.not_lt.mpr reached)

theorem waiting_next (split : v.waiting d cursor = taken ++ rest) :
    v.waiting d ((taken.map (v.key)).getLastD cursor) = rest := by
  obtain ⟨further, upTo, beyond⟩ := waiting_parts split
  generalize (taken.map (v.key)).getLastD cursor = next at *
  have narrowed : v.waiting d next =
      (v.waiting d cursor).filter fun e => decide (next < v.key e) := by
    rw [Viewer.waiting, Viewer.waiting, filter_filter]
    refine filter_congr fun entry _ => ?_
    by_cases later : next < v.key entry
    · simp [Viewer.waits, later, List.lt_of_le_of_lt further later]
    · simp [Viewer.waits, later]
  rw [narrowed, split, filter_append,
    filter_eq_nil_iff.mpr fun entry known => by simpa using upTo entry known,
    filter_eq_self.mpr fun entry known => by simpa using beyond entry known, nil_append]

theorem waiting_length (d : Directory) (cursor : Text) :
    (v.waiting d cursor).length ≤ d.entries.length := by
  refine (length_filter_le _ _).trans ?_
  rw [Viewer.sorted, length_insertionSort]

variable {page : Nat → Text → Except ListError FilePage} {n : Nat}

/-- The requests from a cursor on: a page that is not the last leaves less to wait for, and until the
directory stands still there are only so many of them. -/
theorem followPages_from (laws : CursorLaws v.lib base64) (positive : 0 < limit)
    (short : ∀ i, ∀ entry ∈ (dirs i).entries, entry.name.length ≤ 1023)
    (still : ∀ i, n ≤ i → dirs i = dirs n)
    (pages : ∀ i after cursor, parseCursor base64 after = some cursor → page i after =
      .ok (fillPage v.lib v.filter base64 v.mount v.relative cursor limit (v.sorted (dirs i)) [] []))
    (fuel i : Nat) (after : Text) (read : parseCursor base64 after = some cursor)
    (followed : Followed v dirs cursor items)
    (enough : n - i + (if i < n then (dirs n).entries.length
      else (v.waiting (dirs n) cursor).length) < fuel) :
    ∃ result last, followPages page fuel i after items = some (.ok result) ∧
      Followed v dirs last result ∧
      ∀ entry, v.listed entry = true → (∀ i, entry ∈ (dirs i).entries) →
        v.key entry ≤ last := by
  induction fuel generalizing i after cursor items with
  | zero => omega
  | succ fuel ih =>
    obtain ⟨taken, rest, split, filled, ends⟩ := @fillPage_spec v base64 cursor limit (v.sorted (dirs i)) [] []
    change v.waiting (dirs i) cursor = taken ++ rest at split
    have shown := followed.page split
    simp only [followPages, pages i after cursor read]
    rcases ends with ⟨done, rfl⟩ | ⟨more, full, next⟩
    · refine ⟨_, _, by rw [done, filled]; rfl, shown, fun entry visible there => ?_⟩
      obtain ⟨further, upTo, _⟩ := waiting_parts split
      by_cases old : v.key entry ≤ cursor
      · exact List.le_trans old further
      have new := mem_waiting.mpr ⟨there i, List.not_le.mp old, visible⟩
      rw [split, append_nil] at new
      exact upTo entry new
    · obtain rfl | ⟨first, entry, rfl⟩ := taken.eq_nil_or_concat
      · simp at full
        omega
      have here : entry ∈ (dirs i).entries :=
        (mem_waiting.mp (split ▸ by simp : entry ∈ v.waiting _ cursor)).1
      have shrunk := congrArg List.length split
      have left := waiting_next split
      have decoded := parseCursor_encode laws ((dirs i).plain entry here) (short i entry here)
      simp only [concat_eq_append, map_append, map_singleton, getLastD_concat]
        at shown left next
      rw [if_pos more, next, filled]
      refine ih (i + 1) _ decoded (by simpa using shown) ?_
      rcases Nat.lt_or_ge i n with moving | standing
      · have few := @waiting_length v (dirs n) (entryKey v.lib entry)
        rw [if_pos moving] at enough
        split <;> omega
      · rw [still i standing] at left shrunk
        rw [if_neg (by omega)] at enough ⊢
        simp at shrunk
        rw [left]
        omega

/-- The pages of a directory that stops changing after so many requests: they end, show nothing
twice and show everything that was there all along once, in the order of the keys. -/
theorem paging_misses_nothing (laws : CursorLaws v.lib base64) (disk : Disk)
    (stat : Text → Except StatError FileKind) {resolved : Text}
    (rooted : listRoot v.lib v.filter disk stat v.mount v.relative = .ok resolved)
    (dirs : Nat → Directory)
    (short : ∀ i, ∀ entry ∈ (dirs i).entries, entry.name.length ≤ 1023) (n : Nat)
    (still : ∀ i, n ≤ i → dirs i = dirs n) (limit : Int) (fuel : Nat)
    (enough : n + (dirs n).entries.length < fuel) :
    ∃ items, followPages (fun i after => listPageFiltered v.lib v.filter base64 disk
        stat (fun _ => .ok (dirs i)) v.mount v.relative limit after) fuel 0 [] [] = some (.ok items) ∧
      (items.map (v.itemKey)).Pairwise (· < ·) ∧
      (items.map fun item => (item.name, item.type)).Nodup ∧
      ∀ entry, v.listed entry = true → (∀ i, entry ∈ (dirs i).entries) →
        items.count (v.itemOf entry) = 1 := by
  have positive : 0 < pageLimit limit := by
    rw [pageLimit]
    split <;> omega
  have start : Followed v dirs [] [] :=
    ⟨.nil, by simp, fun entry _ _ early => by simp [entryKey] at early⟩
  have few := @waiting_length v (dirs n) []
  have pages (i : Nat) (after cursor : Text) (read : parseCursor base64 after = some cursor) :
      listPageFiltered v.lib v.filter base64 disk stat (fun _ => .ok (dirs i)) v.mount v.relative
        limit after =
        .ok (fillPage v.lib v.filter base64 v.mount v.relative cursor (pageLimit limit)
          (v.sorted (dirs i)) [] []) := by
    simp only [listPageFiltered, rooted, read, Viewer.sorted]
  obtain ⟨items, last, found, followed, reached⟩ := followPages_from laws positive short still pages
    fuel 0 [] (by simp [parseCursor]) start (by split <;> omega)
  have distinct : items.Nodup := followed.ordered.imp fun less same => by
    subst same
    exact List.lt_irrefl _ less
  refine ⟨items, found, pairwise_map.mpr followed.ordered, ?_, fun entry shown there => ?_⟩
  · refine pairwise_map.mpr (followed.ordered.imp fun {a b} less same => ?_)
    have alike : v.itemKey a = v.itemKey b := by simp_all [Viewer.itemKey]
    exact List.lt_irrefl _ (alike ▸ less)
  · have inside := followed.steady entry shown there (reached entry shown there)
    exact count_eq_one_of_mem distinct inside

theorem sample_cursorLaws : CursorLaws sampleLibrary sampleBase64 where
  decode_encode _ := rfl
  encode_ne_nil _ nonempty := nonempty
  plain name plain := by
    rw [Library.lower]
    split
    · simp only [mem_map, not_exists, not_and]
      intro b known zero
      have same : b = 0 := by
        unfold lowerByte at zero
        split at zero <;> grind
      exact plain (same ▸ known)
    · exact plain
  length name := by
    rw [Library.lower]
    split
    · simp; omega
    · exact Nat.le_mul_of_pos_left _ (by decide)

def sampleDirs (i : Nat) : Directory :=
  if i = 0 then sampleDirectory [ascii "B", ascii "c"] (by decide) (by decide)
  else sampleDirectory [ascii "b", ascii "c"] (by decide) (by decide)

def sampleViewer : Viewer := ⟨sampleLibrary, none, sampleMount, []⟩

theorem sample_paging : ∃ items, followPages (fun i after => listPageFiltered sampleLibrary none
      sampleBase64 sampleDisk (fun _ => .ok .directory) (fun _ => .ok (sampleDirs i)) sampleMount [] 1
      after) 5 0 [] [] = some (.ok items) ∧
    items.count (sampleViewer.itemOf ⟨ascii "c", ⟨.regular, false, 1, 0⟩⟩) = 1 := by
  have rooted : listRoot sampleLibrary none sampleDisk (fun _ => .ok .directory) sampleMount [] =
    .ok (ascii "/data") := by decide +kernel
  obtain ⟨items, found, _, _, once⟩ := @paging_misses_nothing sampleViewer _ sample_cursorLaws
    sampleDisk (fun _ => .ok .directory) _ rooted sampleDirs
    (fun i => by unfold sampleDirs; split <;> decide) 1
    (fun i later => by unfold sampleDirs; rw [if_neg (by omega)]; rfl) 1 5 (by decide)
  exact ⟨items, found, once _ (by decide) fun i => by unfold sampleDirs; split <;> decide⟩

end Following
end Jolt.Access
