import Jolt.State.Durability

/-! Where the format runs out. A history page numbered 1000000 or higher is written and
published, but its name is not recognised when the directory is opened. -/
namespace Jolt.State
open Jolt.Base List

section Exhaustion

variable {δ σ : Type} {engine : Engine δ σ} {s : Store} {d : StateDir σ} {g : Layout δ}

theorem openHistory_rejects {seq : Nat} (names : List Name) {seen : List Name} {s : Store}
    {name : Name} (mem : name ∈ names) (unknown : historyPageIdentity name = none) :
    ∃ e, openHistory engine d seq names seen s = .error e := by
  induction names generalizing seen s with
  | nil => cases mem
  | cons first names ih =>
    rw [openHistory]
    cases identity : historyPageIdentity first with
    | none => exact ⟨_, rfl⟩
    | some pair =>
      have later : name ∈ names := by
        rcases mem_cons.mp mem with rfl | later
        · rw [unknown] at identity
          cases identity
        · exact later
      dsimp only
      split
      · exact ⟨_, rfl⟩
      cases readDocument engine s d first .snapshot pair.1 with
      | error e => exact ⟨e, rfl⟩
      | ok page =>
        simp only [bind, Except.bind]
        split
        · exact ⟨_, rfl⟩
        cases Jolt.State.apply page.2 page.1 first true with
        | error e => exact ⟨e, rfl⟩
        | ok s' => exact ih later

theorem openStore_rejects {version seq : Nat} {id : String} {m : Manifest} {name : Name}
    (valid : Valid version id)
    (header : d.lookup .store =
      some (sealFile engine version id .store .header 0 (.header stateFormat)))
    (head : ∃ committed, Holds engine d version id .head .head committed .head)
    (manifest : Holds engine d version id .manifest .manifest seq (.manifest m))
    (mem : name ∈ m.historyPages) (unknown : historyPageIdentity name = none) (drawn : Identity) :
    ∃ e, openStore engine drawn d = .error e := by
  obtain ⟨committed, head⟩ := head
  have present : Name.store ∈ d := AList.lookup_isSome.mp (by rw [header]; rfl)
  have listed : Name.manifest ∈ d := by
    obtain ⟨v, _, _, found⟩ := manifest
    exact AList.lookup_isSome.mp (by rw [found]; rfl)
  have headRead : read engine { emptyStore id with envelopeVersion := version } d .head .head
      maxUint64 = .ok (committed, .head, { emptyStore id with envelopeVersion := version }) :=
    Holds.read head valid (by decide) (.inr rfl)
  have manifestRead : read engine { emptyStore id with envelopeVersion := version } d .manifest
      .manifest maxUint64 =
      .ok (seq, .manifest m, { emptyStore id with envelopeVersion := version }) :=
    Holds.read manifest valid (by decide) (.inr rfl)
  obtain ⟨e, rejected⟩ := @openHistory_rejects δ σ engine d seq m.historyPages []
    { emptyStore id with envelopeVersion := version, sequence := seq, snapshotSequence := seq }
    name mem unknown
  refine ⟨e, ?_⟩
  rw [openStore, if_pos present, readHeader_ok valid header]
  simp only [bind, Except.bind, recover, headRead, openManifest, listed, if_true, manifestRead,
    rejected]

theorem add_heavy {seq : Nat} {a : Compaction δ} {r : Record δ} (empty : a.doc = [])
    (flag : a.history = true) (heavy : pageBytes ≤ (r.data.map engine.dataSize).getD 0) :
    a.add engine seq r =
      ⟨a.pages, a.historyPages ++ [.historyPage seq a.newPages.length],
        a.newPages ++ [(.historyPage seq a.newPages.length, [r])], true, [], 0⟩ := by
  unfold Compaction.add
  dsimp only
  rw [if_pos (.inr (heavy.trans (Nat.le_add_left _ _))), empty]
  simp [Compaction.flush, flag]

theorem compactKeys_heavy {bucket : String} (ids : List String)
    (found : ∀ key ∈ ids, ∃ r, (s.index.refs bucket key).bind (record engine s d) = some r ∧
      pageBytes ≤ (r.data.map engine.dataSize).getD 0)
    {a : Compaction δ} (empty : a.doc = []) (flag : a.history = true) :
    ∃ a', compactKeys engine s d bucket ids a = (a', none) ∧ a'.doc = [] ∧
      a.historyPages ⊆ a'.historyPages ∧ ∀ j, a.newPages.length ≤ j →
        j < a.newPages.length + ids.length → .historyPage s.sequence j ∈ a'.historyPages := by
  induction ids generalizing a with
  | nil =>
    refine ⟨a, rfl, empty, List.Subset.refl _, fun j low high => ?_⟩
    rw [length_nil] at high
    omega
  | cons key ids ih =>
    obtain ⟨r, here, heavy⟩ := found key mem_cons_self
    have added := @add_heavy δ σ engine s.sequence a r empty flag heavy
    obtain ⟨a', result, emptied, kept, numbers⟩ := ih
      (fun key' hk => found key' (mem_cons_of_mem key hk))
      (a := a.add engine s.sequence r) (by rw [added]) (by rw [added])
    rw [added] at kept numbers
    simp only [length_append, length_cons, length_nil] at numbers
    refine ⟨a', ?_, emptied, fun name mem => kept (mem_append_left _ mem), ?_⟩
    · rw [compactKeys, here]
      exact result
    intro j low high
    rcases Nat.eq_or_lt_of_le low with rfl | low
    · exact kept (mem_append_right _ (mem_singleton.mpr rfl))
    · rw [length_cons] at high
      exact numbers j low (by omega)

theorem checkRecords_fresh (records : List (Record δ)) {seen : List (String × String)}
    (identified : ∀ r ∈ records, r.bucket ≠ "" ∧ r.key ≠ "")
    (live : ∀ r ∈ records, r.delete = false)
    (distinct : (records.map Record.identity).Nodup)
    (unseen : ∀ r ∈ records, r.identity ∉ seen) :
    checkRecords (Index.empty : Index Reference) seen records = .ok () := by
  induction records generalizing seen with
  | nil => rfl
  | cons r records ih =>
    obtain ⟨fresh, distinct⟩ := nodup_cons.mp distinct
    have here : r ∈ r :: records := mem_cons_self
    have rest : ∀ seen', (∀ r' ∈ records, r'.identity ∉ seen') →
        checkRecords (Index.empty : Index Reference) seen' records = .ok () :=
      fun seen' => ih (fun r' hr => identified r' (mem_cons_of_mem r hr))
        (fun r' hr => live r' (mem_cons_of_mem r hr)) distinct
    rw [checkRecords, if_neg (not_or.mpr (identified r here))]
    split
    · rw [if_neg]
      · apply rest
        intro r' hr mem
        rcases mem_cons.mp mem with same | mem
        · exact fresh (mem_map.mpr ⟨r', hr, same⟩)
        · exact unseen r' (mem_cons_of_mem r hr) mem
      · simp only [Index.empty, Option.isSome_none, Bool.false_eq_true, false_or, live r here]
        exact unseen r here
    · exact rest seen (fun r' hr => unseen r' (mem_cons_of_mem r hr))

theorem applyFrom_buckets {name : Name} {snapshot : Bool} (rest : List (Record δ)) {slot : Nat}
    {s s' : Store} (done : applyFrom s name snapshot slot rest = .ok s') :
    ∀ b ∈ s'.buckets, b ∈ s.buckets ∨ ∃ r ∈ rest, r.bucket = b := by
  induction rest generalizing slot s with
  | nil =>
    cases done
    exact fun b mem => .inl mem
  | cons r rest ih =>
    cases step : applyRecord s name snapshot slot r with
    | error e => simp [applyFrom, step, bind, Except.bind] at done
    | ok s₁ =>
      simp only [applyFrom, step] at done
      intro b mem
      rcases ih done b mem with before | ⟨r', hr, eq⟩
      · unfold applyRecord at step
        split at step
        · cases step
        split at step
        · cases step
        cases step
        dsimp only at before
        split at before
        · exact .inl before
        rcases mem_append.mp before with before | new
        · exact .inl before
        · exact .inr ⟨r, mem_cons_self, (mem_singleton.mp new).symm⟩
      · exact .inr ⟨r', mem_cons_of_mem r hr, eq⟩

theorem staleActions_other {live : List Name} {name : Name} (plain : name.contents = none) :
    (performAll d (staleActions d live)).lookup name = d.lookup name := by
  apply performAll_lookup_other
  intro a ha same
  obtain ⟨name', mem, rfl⟩ := mem_map.mp ha
  change name = name' at same
  subst same
  rcases mem_append.mp mem with mem | mem
  · have isJournal := (mem_filter.mp mem).2
    cases name with
    | journal q => cases plain
    | _ => cases isJournal
  · have inSnapshots := (mem_filter.mp mem).2
    cases name with
    | page q i => cases plain
    | historyPage q i => cases plain
    | _ => cases inSnapshots

theorem append_ok {records : List (Record δ)} {s' : Store}
    (done : (append engine s records).2 = .ok s') :
    (∀ b ∈ s'.buckets, b ∈ s.buckets ∨ ∃ r ∈ records, r.bucket = b) ∧
      ∃ file, engine.fileSize file ≤ s'.journalBytes := by
  unfold append at done
  dsimp only at done
  split at done
  · cases done
  rename_i applied result
  cases done
  have buckets := applyFrom_buckets records result
  exact ⟨buckets, _, Nat.le_add_left _ _⟩

/-- Compacting more than a million large pending history records publishes a manifest
that `open` rejects. -/
theorem compact_unreadable (related : Related engine s d g)
    (advanced : s.sequence ≠ s.snapshotSequence) (only : s.buckets = ["audit"])
    (many : 10 ^ 6 < (compactIds s "audit").length)
    (heavy : ∀ key ∈ compactIds s "audit", ∃ r, g.table.refs "audit" key = some r ∧
      pageBytes ≤ (r.data.map engine.dataSize).getD 0) (id : Identity) :
    (∃ s', (compact engine s d).2 = .ok s') ∧
      ∃ e, openStore engine id (performAll d (compact engine s d).1) = .error e := by
  obtain ⟨a, pages, result, paged, manifest, _⟩ := compactBuckets_paged related advanced
  obtain ⟨s₁, outcome, _, _⟩ := compact_outcome related advanced result paged
  have listed : Name.historyPage s.sequence (10 ^ 6) ∈ a.historyPages := by
    obtain ⟨a', keysDone, emptied, _, numbers⟩ := @compactKeys_heavy δ σ
      engine s d "audit" (compactIds s "audit")
      (fun key hk => by rw [related.resolve]; exact heavy key hk)
      ⟨[], s.historyPages, [], true, [], 0⟩ rfl rfl
    have flushed : a'.flush s.sequence = a' := by rw [Compaction.flush, emptied]
    have sorted : s.buckets.insertionSort (· ≤ ·) = ["audit"] := by
      rw [only]
      rfl
    have begun : { (⟨[], s.historyPages, [], false, [], 0⟩ : Compaction δ).flush s.sequence with
        history := historyBucket "audit" } = ⟨[], s.historyPages, [], true, [], 0⟩ := rfl
    simp only [sorted, compactBuckets, begun, keysDone, flushed, Prod.mk.injEq, and_true] at result
    rw [← result]
    exact numbers (10 ^ 6) (Nat.zero_le _) (by simpa using many)
  rw [outcome]
  refine ⟨⟨_, rfl⟩, ?_⟩
  rw [performAll_append]
  have plain : ∀ name, name.contents = none → name ≠ Name.manifest →
      (performAll (performAll d (publication engine s a.newPages ⟨a.pages, a.historyPages⟩))
        (staleActions (performAll d (publication engine s a.newPages ⟨a.pages, a.historyPages⟩))
          (a.pages ++ a.historyPages))).lookup name = d.lookup name := by
    intro name none other
    rw [staleActions_other none, publication_other _ other]
    intro p hp same
    rw [same, paged.ofSnapshot hp] at none
    cases none
  refine openStore_rejects related.image.wf.valid
    ((plain .store rfl (by decide)).trans related.image.header)
    ⟨_, related.image.head.mono (le_refl _) (plain .head rfl (by decide))⟩
    (show Holds engine _ g.version g.id .manifest .manifest s.sequence
      (.manifest ⟨a.pages, a.historyPages⟩) from ?_) listed rfl id
  refine ⟨g.version, related.image.wf.valid.positive, le_refl _, ?_⟩
  rw [staleActions_other rfl, publication, performAll_append, performAll_cons, performAll_nil,
    perform, AList.lookup_insert, write, related.id, related.envelopeVersion]

theorem update_compacts {records : List (Record δ)} {s₁ s₂ : Store} (some : records ≠ [])
    (checked : checkRecords s.index [] records = .ok ())
    (done : (append engine s records).2 = .ok s₁)
    (due : compactTransactions ≤ s₁.journalCount ∨ compactBytes ≤ s₁.journalBytes)
    (compacted : (compact engine s₁ (performAll d (append engine s records).1)).2 = .ok s₂) :
    update engine s d (fun _ => ⟨[], .ok records⟩) =
      ⟨(append engine s records).1 ++ (compact engine s₁ (performAll d (append engine s records).1)).1,
        s₂, .ok ()⟩ := by
  cases records with
  | nil => exact absurd rfl some
  | cons r rest =>
    cases appended : append engine s (r :: rest) with
    | mk written result =>
      rw [appended] at done compacted
      cases done
      cases outcome : compact engine s₁ (performAll d written) with
      | mk actions result =>
        rw [outcome] at compacted
        cases compacted
        simp only [update, raiseAll, checked, performAll_nil, commit, appended, due, if_true, outcome,
          nil_append]

def floodKey (i : Nat) : String := String.ofList (List.replicate (i + 1) 'a')

def flood (n : Nat) : List (Record Unit) :=
  (List.range n).map (fun i => ⟨"audit", floodKey i, "", "", "", false, some ()⟩)

theorem floodKey_injective {i j : Nat} (same : floodKey i = floodKey j) : i = j := by
  have lengths := congrArg (fun key => key.toList.length) same
  simpa [floodKey] using lengths

theorem flood_distinct (n : Nat) : ((flood n).map Record.identity).Nodup := by
  rw [flood, map_map]
  apply nodup_range.map
  intro i j same
  exact floodKey_injective (Prod.mk.inj same).2

theorem mem_flood {n : Nat} {r : Record Unit} (mem : r ∈ flood n) :
    r.bucket = "audit" ∧ r.key ≠ "" ∧ r.delete = false ∧ r.data = some () := by
  obtain ⟨i, _, rfl⟩ := mem_map.mp mem
  refine ⟨rfl, ?_, rfl, rfl⟩
  intro empty
  have length := congrArg (fun key => key.toList.length) empty
  simp [floodKey] at length

theorem related_plain (fileBytes dataBytes : Nat) :
    Related (plainEngine fileBytes dataBytes) (emptyStore "00") (firstDir fileBytes dataBytes)
      (Layout.first Unit firstIdentity) := by
  obtain ⟨s, actions, opened, related⟩ :=
    open_first (plainEngine fileBytes dataBytes) firstIdentity
  rw [open_plain] at opened
  cases opened
  exact related

theorem compactIds_flood {n : Nat} (related : Related engine s d g) (journal : g.history = [])
    {records : List (Record δ)} (table : g.table = Index.empty.applyAll records)
    (distinct : (records.map Record.identity).Nodup)
    (audit : ∀ r ∈ records, r.bucket = "audit" ∧ r.delete = false) (long : records.length = n) :
    n ≤ (compactIds s "audit").length := by
  have located := related.loaded.toLocated
  have subset : records.map Record.key ⊆ compactIds s "audit" := by
    intro key mem
    obtain ⟨r, hr, rfl⟩ := mem_map.mp mem
    obtain ⟨bucket, live⟩ := audit r hr
    have held : g.table.refs "audit" r.key = some r := by
      rw [table, ← bucket]
      exact Index.applyAll_refs_mem records distinct hr live
    obtain ⟨ref, href⟩ := located.indexed held
    refine (mem_compactIds located _ _).mpr ⟨by rw [href]; rfl, fun hist => ?_⟩
    refine (located.pending _ _).mpr ⟨hist, ref, href, ?_⟩
    by_contra inPage
    obtain ⟨p, hp, into⟩ := mem_map.mp (related.loaded.file _ _ ref href)
    have page := mem_history_of_files hp (by rw [into]; simpa using inPage)
    rw [journal] at page
    cases page
  have keys : (records.map Record.key).Nodup := by
    have apart : (records.map Record.identity) = (records.map Record.key).map
        (fun key => ("audit", key)) := by
      rw [map_map]
      apply map_congr_left
      intro r hr
      exact Prod.ext (audit r hr).1 rfl
    rw [apart] at distinct
    exact List.Nodup.of_map _ distinct
  have length := (keys.subperm subset).length_le
  rwa [length_map, long] at length

theorem flood_rejected {n : Nat} (many : 10 ^ 6 < n) :
    (update (plainEngine compactBytes pageBytes) (emptyStore "00")
      (firstDir compactBytes pageBytes) (fun _ => ⟨[], .ok (flood n)⟩)).answer = .ok () ∧
    ∃ e, openStore (plainEngine compactBytes pageBytes) firstIdentity
      (performAll (firstDir compactBytes pageBytes)
        (update (plainEngine compactBytes pageBytes) (emptyStore "00")
          (firstDir compactBytes pageBytes) (fun _ => ⟨[], .ok (flood n)⟩)).actions) =
      .error e := by
  have related := related_plain compactBytes pageBytes
  have length : (flood n).length = n := by simp [flood]
  have checked : checkRecords (emptyStore "00").index [] (flood n) = .ok () := by
    apply checkRecords_fresh
    · intro r hr
      rw [(mem_flood hr).1]
      exact ⟨by decide, (mem_flood hr).2.1⟩
    · exact fun r hr => (mem_flood hr).2.2.1
    · exact flood_distinct n
    · exact fun r hr => not_mem_nil
  obtain ⟨s₁, done, related₁, _⟩ := append_related related (by decide) checked
  obtain ⟨buckets, file, bytes⟩ := append_ok done
  have due : compactTransactions ≤ s₁.journalCount ∨ compactBytes ≤ s₁.journalBytes :=
    .inr bytes
  have table : ({ (Layout.first Unit firstIdentity).append (flood n) with committed := 1 } :
      Layout Unit).table = Index.empty.applyAll (flood n) :=
    Layout.append_table (Layout.first Unit firstIdentity) (flood n)
  have long := compactIds_flood related₁ rfl table (flood_distinct n)
    (fun r hr => ⟨(mem_flood hr).1, (mem_flood hr).2.2.1⟩) length
  have heavy : ∀ key ∈ compactIds s₁ "audit", ∃ r,
      ({ (Layout.first Unit firstIdentity).append (flood n) with committed := 1 } :
        Layout Unit).table.refs "audit" key = some r ∧
      pageBytes ≤ (r.data.map (plainEngine compactBytes pageBytes).dataSize).getD 0 := by
    intro key mem
    obtain ⟨indexed, _⟩ := (mem_compactIds related₁.loaded.toLocated _ _).mp mem
    cases held : ({ (Layout.first Unit firstIdentity).append (flood n) with committed := 1 } :
        Layout Unit).table.refs "audit" key with
    | none =>
      rw [(related₁.loaded.entry _ _).none_iff.mpr held] at indexed
      cases indexed
    | some r =>
      obtain ⟨_, _, p, hp, hr⟩ := contents_refs_some held
      have only : p = (.journal 1, flood n) := by
        rw [Layout.files] at hp
        exact mem_singleton.mp hp
      rw [only] at hr
      refine ⟨r, rfl, ?_⟩
      rw [(mem_flood hr).2.2.2]
      exact le_refl _
  have only : s₁.buckets = ["audit"] := by
    refine perm_singleton.mp ((perm_ext_iff_of_nodup related₁.loaded.nodup (nodup_singleton _)).mpr
      fun b => ⟨fun mem => ?_, fun same => ?_⟩)
    · rcases buckets b mem with before | ⟨r, hr, eq⟩
      · cases before
      · rw [mem_singleton, ← eq, (mem_flood hr).1]
    · obtain ⟨key, mem⟩ := exists_mem_of_length_pos (l := compactIds s₁ "audit") (by omega)
      obtain ⟨indexed, _⟩ := (mem_compactIds related₁.loaded.toLocated _ _).mp mem
      obtain ⟨ref, href⟩ := Option.isSome_iff_exists.mp indexed
      rw [mem_singleton.mp same]
      exact related₁.loaded.bucket _ _ ref href
  have advanced : s₁.sequence ≠ s₁.snapshotSequence := by
    rw [related₁.sequence, related₁.snapshotSequence]
    change 0 + 1 ≠ 0
    decide
  obtain ⟨⟨s₂, compacted⟩, rejected⟩ := compact_unreadable related₁ advanced only (by omega) heavy
    firstIdentity
  have some : flood n ≠ [] := ne_nil_of_length_pos (by omega)
  rw [update_compacts some checked done due compacted, performAll_append]
  exact ⟨rfl, rejected⟩

end Exhaustion

end Jolt.State
