import Jolt.State.Recovery

/-! Compaction. The pages it writes hold every record outside the history pages once
more, the manifest publishes them in one step, and the removals touch nothing that the
manifest names: at every moment the directory stands for the same content. -/
namespace Jolt.State
open Jolt.Base List

section Packing

variable {δ σ : Type} {engine : Engine δ σ} {seq : Nat} {base : List Name}
variable {a : Compaction δ} {done : List (Record δ)}

def isHistoryFile (p : Name × List (Record δ)) : Bool := p.1.isHistory

def isPageFile (p : Name × List (Record δ)) : Bool := !p.1.isHistory

/-- What the loop has packed when it has gone through the records `done`. -/
structure Packed (seq : Nat) (base : List Name) (a : Compaction δ) (done : List (Record δ)) :
    Prop where
  content : a.newPages.flatMap Prod.snd ++ a.doc = done
  pages : ∃ docs, a.newPages.filter isPageFile = numbered (Name.page seq) 0 docs ∧
    a.pages = (numbered (Name.page seq) 0 docs).map Prod.fst ∧ a.pages.length = docs.length
  history : a.historyPages = base ++ (a.newPages.filter isHistoryFile).map Prod.fst
  names : (a.newPages.map Prod.fst).Nodup
  bounds : ∀ p ∈ a.newPages, (∃ j, j < a.newPages.length ∧ p.1 = .historyPage seq j) ∨
    ∃ j, j < a.pages.length ∧ p.1 = .page seq j
  sorted : ∀ p ∈ a.newPages, ∀ r ∈ p.2, historyBucket r.bucket = p.1.isHistory
  current : ∀ r ∈ a.doc, historyBucket r.bucket = a.history

theorem packed_start (seq : Nat) (base : List Name) :
    Packed (δ := δ) seq base ⟨[], base, [], false, [], 0⟩ [] := by
  refine ⟨rfl, ⟨[], rfl, rfl, rfl⟩, by simp, nodup_nil, ?_, ?_, ?_⟩
  · nofun
  · nofun
  · nofun

/-- A flush closes the page that is open. -/
theorem flush_spec (seq : Nat) (a : Compaction δ) :
    (a.flush seq).doc = [] ∧ (a.flush seq).history = a.history ∧
      (a.flush seq).newPages.length ≤ a.newPages.length + 1 ∧ (a.flush seq).size ≤ a.size ∧
      (a.doc ≠ [] → (a.flush seq).size = 0) := by
  unfold Compaction.flush
  cases hd : a.doc with
  | nil => exact ⟨hd, rfl, Nat.le_succ _, le_refl _, absurd rfl⟩
  | cons r rest => cases a.history <;> simp

theorem Packed.flush (h : Packed seq base a done) :
    Packed seq base (a.flush seq) done := by
  obtain ⟨docs, pageFiles, pageNames, count⟩ := h.pages
  have content := h.content
  unfold Compaction.flush
  cases hd : a.doc with
  | nil => exact h
  | cons r rest =>
    rw [hd] at content
    have names (name : Name) (fresh : ∀ p ∈ a.newPages, p.1 ≠ name) :
        ((a.newPages ++ [(name, r :: rest)]).map Prod.fst).Nodup := by
      simp only [map_append, map_cons, map_nil]
      refine List.Nodup.append h.names (nodup_singleton _) ?_
      simpa only [disjoint_singleton, mem_map, not_exists, not_and] using fresh
    have sorted (name : Name) (own : name.isHistory = a.history) :
        ∀ p ∈ a.newPages ++ [(name, r :: rest)], ∀ r ∈ p.2, historyBucket r.bucket = p.1.isHistory := by
      intro p hp
      rcases mem_append.mp hp with hp | hp
      · exact h.sorted p hp
      · rw [mem_singleton.mp hp, own, ← hd]
        exact h.current
    cases hh : a.history with
    | true =>
      refine ⟨?_, ⟨docs, ?_, pageNames, count⟩, ?_, names _ ?_, ?_, sorted _ hh.symm, ?_⟩
      · simpa using content
      · simpa [isPageFile, Name.isHistory, filter_append] using pageFiles
      · simp only [if_true, h.history, filter_append, map_append, append_assoc]
        rfl
      · intro p hp same
        rcases h.bounds p hp with ⟨j, small, named⟩ | ⟨j, _, named⟩
        · cases named.symm.trans same
          exact absurd small (lt_irrefl _)
        · cases named.symm.trans same
      · intro p hp
        simp only [if_true, length_append, length_cons, length_nil] at hp ⊢
        rcases mem_append.mp hp with hp | hp
        · rcases h.bounds p hp with ⟨j, small, named⟩ | page
          · exact .inl ⟨j, by omega, named⟩
          · exact .inr page
        · exact .inl ⟨a.newPages.length, by omega, by rw [mem_singleton.mp hp]⟩
      · nofun
    | false =>
      have place : a.pages.length = docs.length := count
      refine ⟨?_, ⟨docs ++ [r :: rest], ?_, ?_, ?_⟩, ?_, names _ ?_, ?_, sorted _ hh.symm, ?_⟩
      · simpa using content
      · simp [isPageFile, Name.isHistory, filter_append, numbered_append, place] at pageFiles ⊢
        exact pageFiles
      · simp [numbered_append, pageNames, ← place]
      · simp [place]
      · simpa [isHistoryFile, Name.isHistory, filter_append] using h.history
      · intro p hp same
        rcases h.bounds p hp with ⟨j, _, named⟩ | ⟨j, small, named⟩
        · cases named.symm.trans same
        cases named.symm.trans same
        exact absurd small (lt_irrefl _)
      · intro p hp
        simp only [Bool.false_eq_true, if_false, length_append, length_cons,
          length_nil] at hp ⊢
        rcases mem_append.mp hp with hp | hp
        · rcases h.bounds p hp with ⟨j, small, named⟩ | ⟨j, small, named⟩
          · exact .inl ⟨j, by omega, named⟩
          · exact .inr ⟨j, by omega, named⟩
        · exact .inr ⟨a.pages.length, by omega, by rw [mem_singleton.mp hp]⟩
      · nofun

theorem Packed.add (h : Packed seq base a done) {r : Record δ}
    (same : historyBucket r.bucket = a.history) :
    Packed seq base (a.add engine seq r) (done ++ [r]) := by
  have grown : Packed seq base { a with
      doc := a.doc ++ [r], size := a.size + (r.data.map engine.dataSize).getD 0 }
      (done ++ [r]) := by
    refine ⟨?_, h.pages, h.history, h.names, h.bounds, h.sorted, ?_⟩
    · rw [← h.content, append_assoc]
    intro r' hr'
    rcases mem_append.mp hr' with hr' | hr'
    · exact h.current r' hr'
    · rw [mem_singleton.mp hr']
      exact same
  unfold Compaction.add
  dsimp only
  split
  · exact grown.flush
  · exact grown

theorem add_history (a : Compaction δ) (r : Record δ) :
    (a.add engine seq r).history = a.history := by
  unfold Compaction.add
  dsimp only
  split
  · exact (flush_spec seq _).2.1
  · rfl

def recordBytes (engine : Engine δ σ) (rs : List (Record δ)) : Nat :=
  (rs.map (fun r => (r.data.map engine.dataSize).getD 0)).sum

/-- Every new page but `extra` of them was closed by its number of records or by its size. -/
def Frugal (engine : Engine δ σ) (a : Compaction δ) (done : List (Record δ)) (extra : Nat) : Prop :=
  ∃ full heavy, a.newPages.length ≤ full + heavy + extra ∧
    pageRecords * full + a.doc.length ≤ done.length ∧
    pageBytes * heavy + a.size ≤ recordBytes engine done

theorem Frugal.flush {extra : Nat} (h : Frugal engine a done extra) :
    Frugal engine (a.flush seq) done (extra + 1) := by
  obtain ⟨full, heavy, pages, records, bytes⟩ := h
  obtain ⟨emptied, _, more, less, _⟩ := flush_spec seq a
  refine ⟨full, heavy, by omega, ?_, by omega⟩
  rw [emptied, length_nil]
  omega

/- A flush inside a bucket is paid for by the page it closes. -/
theorem Frugal.add {extra : Nat} (h : Frugal engine a done extra) (r : Record δ) :
    Frugal engine (a.add engine seq r) (done ++ [r]) extra := by
  obtain ⟨full, heavy, pages, records, bytes⟩ := h
  have total : recordBytes engine (done ++ [r]) =
      recordBytes engine done + (r.data.map engine.dataSize).getD 0 := by
    simp [recordBytes]
  have count : (done ++ [r]).length = done.length + 1 := by simp
  unfold Compaction.add
  generalize grown : { a with
    doc := a.doc ++ [r], size := a.size + (r.data.map engine.dataSize).getD 0 } = next
  have nextPages : next.newPages = a.newPages := by rw [← grown]
  have nextDoc : next.doc.length = a.doc.length + 1 := by simp [← grown]
  have nextSize : next.size = a.size + (r.data.map engine.dataSize).getD 0 := by rw [← grown]
  dsimp only
  split
  · rename_i closes
    obtain ⟨closed, _, more, _, zero⟩ := flush_spec seq next
    have emptied : (next.flush seq).doc.length = 0 := by rw [closed, length_nil]
    have zero := zero (ne_nil_of_length_pos (by omega))
    rw [nextPages] at more
    rcases closes with long | large
    · refine ⟨full + 1, heavy, by omega, ?_, by omega⟩
      rw [Nat.mul_succ]
      omega
    · refine ⟨full, heavy + 1, by omega, by omega, ?_⟩
      rw [Nat.mul_succ]
      omega
  · exact ⟨full, heavy, by rw [nextPages]; exact pages, by omega, by omega⟩

end Packing

section Rewriting

variable {δ σ : Type} {engine : Engine δ σ} {s : Store} {d : StateDir σ} {t : Index (Record δ)}
  {base : List Name}

/-- The records of the table `t` that a compaction of `s` writes again, in their order. -/
def rewritten (s : Store) (t : Index (Record δ)) : List (Record δ) :=
  (s.buckets.insertionSort (· ≤ ·)).flatMap
    (fun bucket => (compactIds s bucket).filterMap (t.refs bucket))

theorem compactKeys_packed {bucket : String} (ids : List String)
    (resolve : ∀ key, (s.index.refs bucket key).bind (record engine s d) = t.refs bucket key)
    (found : ∀ key ∈ ids, ∃ r, t.refs bucket key = some r ∧ r.bucket = bucket)
    {a : Compaction δ} {done : List (Record δ)} {extra : Nat}
    (packed : Packed s.sequence base a done) (frugal : Frugal engine a done extra)
    (flag : a.history = historyBucket bucket) :
    ∃ a', compactKeys engine s d bucket ids a = (a', none) ∧
      Packed s.sequence base a' (done ++ ids.filterMap (t.refs bucket)) ∧
      Frugal engine a' (done ++ ids.filterMap (t.refs bucket)) extra := by
  induction ids generalizing a done with
  | nil => exact ⟨a, rfl, by simpa using packed, by simpa using frugal⟩
  | cons key ids ih =>
    obtain ⟨r, here, own⟩ := found key mem_cons_self
    have same : historyBucket r.bucket = a.history := by rw [own, flag]
    obtain ⟨a', result, packed', frugal'⟩ := ih
      (fun key' hk => found key' (mem_cons_of_mem key hk))
      (packed.add same) (frugal.add r) ((add_history a r).trans flag)
    have listed : done ++ (key :: ids).filterMap (t.refs bucket) =
        done ++ [r] ++ ids.filterMap (t.refs bucket) := by
      rw [filterMap_cons, here, append_assoc]
      rfl
    rw [listed]
    refine ⟨a', ?_, packed', frugal'⟩
    rw [compactKeys, resolve key, here]
    exact result

theorem compactBuckets_packed (buckets : List String)
    (resolve : ∀ b k, (s.index.refs b k).bind (record engine s d) = t.refs b k)
    (found : ∀ b, ∀ key ∈ compactIds s b, ∃ r, t.refs b key = some r ∧ r.bucket = b)
    {a : Compaction δ} {done : List (Record δ)} {extra : Nat}
    (packed : Packed s.sequence base a done) (frugal : Frugal engine a done extra) :
    ∃ a', compactBuckets engine s d buckets a = (a', none) ∧ a'.doc = [] ∧
      Packed s.sequence base a'
        (done ++ buckets.flatMap (fun b => (compactIds s b).filterMap (t.refs b))) ∧
      Frugal engine a'
        (done ++ buckets.flatMap (fun b => (compactIds s b).filterMap (t.refs b)))
        (extra + buckets.length + 1) := by
  induction buckets generalizing a done extra with
  | nil =>
    refine ⟨a.flush s.sequence, rfl, (flush_spec _ a).1, ?_, ?_⟩
    · simpa using packed.flush
    · simpa using frugal.flush
  | cons b buckets ih =>
    have opened : Packed s.sequence base
        { a.flush s.sequence with history := historyBucket b } done := by
      refine { packed.flush with current := ?_ }
      rw [(flush_spec _ a).1]
      nofun
    have budget : Frugal engine { a.flush s.sequence with history := historyBucket b } done
        (extra + 1) := frugal.flush
    obtain ⟨a₁, keysDone, packed₁, frugal₁⟩ := compactKeys_packed (compactIds s b) (resolve b)
      (found b) opened budget rfl
    obtain ⟨a', rest, emptied, packed', frugal'⟩ := ih packed₁ frugal₁
    rw [append_assoc] at packed' frugal'
    rw [flatMap_cons]
    refine ⟨a', ?_, emptied, packed', ?_⟩
    · simp only [compactBuckets, keysDone]
      exact rest
    rw [length_cons]
    have order : extra + (buckets.length + 1) + 1 = extra + 1 + buckets.length + 1 := by omega
    rw [order]
    exact frugal'

variable {docs : Name → Option (List (Record δ))}

theorem mem_compactIds (h : Located docs s t) (b k : String) :
    k ∈ compactIds s b ↔ (s.index.refs b k).isSome = true ∧
      (historyBucket b = true → (b, k) ∈ s.pendingHistory) := by
  unfold compactIds
  split
  · rename_i hist
    simp only [Finset.mem_sort, Finset.mem_image, Finset.mem_filter, Prod.exists, hist,
      true_implies]
    constructor
    · rintro ⟨b', k', ⟨mem, rfl⟩, rfl⟩
      obtain ⟨_, ref, href, _⟩ := (h.pending _ _).mp mem
      exact ⟨by rw [href]; rfl, mem⟩
    · exact fun both => ⟨b, k, ⟨both.2, rfl⟩, rfl⟩
  · rename_i plain
    rw [Index.keys, if_pos rfl, h.mirrors.member]
    simp [Index.selections, plain, Option.isSome_iff_exists]

theorem compactIds_nodup (h : Located docs s t) (b : String) : (compactIds s b).Nodup := by
  unfold compactIds
  split
  · exact Finset.sort_nodup _ _
  · exact (h.mirrors.ranked _).nodup

theorem mem_rewritten (h : Located docs s t)
    (keyed : ∀ b k r, t.refs b k = some r → r.identity = (b, k)) (r : Record δ) :
    r ∈ rewritten s t ↔ t.refs r.bucket r.key = some r ∧
      (historyBucket r.bucket = true → (r.bucket, r.key) ∈ s.pendingHistory) := by
  unfold rewritten
  simp only [mem_flatMap, mem_insertionSort, mem_filterMap, mem_compactIds h]
  constructor
  · rintro ⟨b, _, k, ⟨_, pending⟩, found⟩
    obtain ⟨rfl, rfl⟩ := Record.identity_eq.mp (keyed b k r found)
    exact ⟨found, pending⟩
  · rintro ⟨found, pending⟩
    obtain ⟨ref, href⟩ := h.indexed found
    exact ⟨r.bucket, h.bucket _ _ ref href, r.key, ⟨by rw [href]; rfl, pending⟩, found⟩

theorem rewritten_distinct (h : Located docs s t)
    (keyed : ∀ b k r, t.refs b k = some r → r.identity = (b, k)) :
    ((rewritten s t).map Record.identity).Nodup := by
  have inBucket : ∀ b, ((compactIds s b).filterMap (t.refs b)).map Record.identity =
      ((compactIds s b).filter (fun k => (t.refs b k).isSome)).map (fun k => (b, k)) := by
    intro b
    generalize compactIds s b = ids
    induction ids with
    | nil => rfl
    | cons k ids ih =>
      cases found : t.refs b k with
      | none => simp [found, ih]
      | some r => simp [found, ih, keyed b k r found]
  rw [rewritten, map_flatMap]
  simp only [inBucket]
  rw [nodup_flatMap]
  constructor
  · intro b _
    exact ((compactIds_nodup h b).filter _).map (fun k k' eq => (Prod.mk.inj eq).2)
  have nodup : (s.buckets.insertionSort (· ≤ ·)).Nodup :=
    (perm_insertionSort _ _).nodup_iff.mpr h.nodup
  apply nodup.imp
  intro b b' apart
  rw [Function.onFun, disjoint_left]
  intro x hx hx'
  obtain ⟨k, _, rfl⟩ := mem_map.mp hx
  obtain ⟨k', _, eq⟩ := mem_map.mp hx'
  exact apart (Prod.mk.inj eq).1.symm

end Rewriting

section Publishing

variable {δ σ : Type} {engine : Engine δ σ} {docs : Name → Option (List (Record δ))}
variable {p : Name × List (Record δ)} {r : Record δ}

theorem applyPages_loaded {d : StateDir σ} (files : List (Name × List (Record δ)))
    {before : List (Name × List (Record δ))} {s : Store}
    (loaded : Loaded docs s before) (valid : Valid s.envelopeVersion s.id)
    (stored : ∀ p ∈ files, Stored engine d s.envelopeVersion s.id p)
    (named : ∀ p ∈ files, p.1.contents = some (.snapshot, s.sequence))
    (held : ∀ p ∈ files, docs p.1 = some p.2)
    (records : ∀ p ∈ files, ∀ r ∈ p.2, r.delete = false ∧ r.bucket ≠ "" ∧ r.key ≠ "")
    (distinct : ((files.flatMap Prod.snd).map Record.identity).Nodup)
    (untouched : ∀ p ∈ before, p.1.isHistory = true → ∀ r' ∈ p.2, ∀ r ∈ files.flatMap Prod.snd,
      r.identity ≠ r'.identity) :
    ∃ s', applyPages engine s d (files.map Prod.fst) = .ok s' ∧
      Loaded docs s' (before ++ files) ∧ Framed s s' ∧
      ∀ b k ref, s'.index.refs b k = some ref → ref.file ∈ files.map Prod.fst ∨
        s.index.refs b k = some ref ∧ ∀ r ∈ files.flatMap Prod.snd, r.identity ≠ (b, k) := by
  induction files generalizing before s with
  | nil =>
    exact ⟨s, rfl, by simpa using loaded, Framed.refl s, fun b k ref href => .inr ⟨href, by simp⟩⟩
  | cons p files ih =>
    have here : p ∈ p :: files := mem_cons_self
    rw [flatMap_cons, map_append, nodup_append] at distinct
    obtain ⟨own, distinct, apart⟩ := distinct
    have first : ∀ r ∈ p.2, r ∈ (p :: files).flatMap Prod.snd := fun r hr =>
      mem_flatMap.mpr ⟨p, here, hr⟩
    have later : ∀ r ∈ files.flatMap Prod.snd, r ∈ (p :: files).flatMap Prod.snd := fun r hr => by
      rw [flatMap_cons]
      exact mem_append_right _ hr
    have fit : Appendable before p.1 p.2 false :=
      ⟨fun r hr => (records p here r hr).2,
        fun p' hp' hist r' hr' r hr => untouched p' hp' hist r' hr' r (first r hr),
        fun _ => ⟨own, fun r hr => (records p here r hr).1⟩, nofun⟩
    obtain ⟨s₁, applied, loaded₁, framed⟩ := loaded.apply (held p here) fit
    obtain ⟨s', pages, loaded', framed', refs'⟩ := ih loaded₁
      (framed.valid valid) (fun p' hp => framed.stored (stored p' (mem_cons_of_mem p hp)))
      (fun p' hp => by rw [framed.sequence]; exact named p' (mem_cons_of_mem p hp))
      (fun p' hp => held p' (mem_cons_of_mem p hp))
      (fun p' hp => records p' (mem_cons_of_mem p hp)) distinct
      (fun p' hp' hist r' hr' r hr => by
        rcases mem_append.mp hp' with hp' | hp'
        · exact untouched p' hp' hist r' hr' r (later r hr)
        · cases mem_singleton.mp hp'
          exact (apart _ (mem_map_of_mem hr') _ (mem_map_of_mem hr)).symm)
    refine ⟨s', ?_, by simpa using loaded', framed.trans framed', ?_⟩
    · have pageRead : readDocument engine s d p.1 .snapshot s.sequence = .ok (p.2, s) :=
        (stored p here).readDocument valid (named p here)
      simp only [map_cons, applyPages, pageRead, bind, Except.bind, applied]
      exact pages
    · intro b k ref href
      rcases refs' b k ref href with inLater | ⟨same, none⟩
      · exact .inl (mem_cons_of_mem _ inLater)
      rcases applyFrom_refs p.2 applied b k with ⟨none', same'⟩ | ⟨i, r, _, _, result⟩
      · refine .inr ⟨same' ▸ same, fun r hr => ?_⟩
        rcases mem_append.mp (by rw [flatMap_cons] at hr; exact hr) with hr | hr
        · exact none' r hr
        · exact none r hr
      · rw [result] at same
        split at same
        · cases same
        · cases same
          exact .inl mem_cons_self

variable {s : Store} {d : StateDir σ} {g : Layout δ}

theorem table_keyed (g : Layout δ) (b k : String) (r : Record δ)
    (found : g.table.refs b k = some r) : r.identity = (b, k) := (contents_refs_some found).1

theorem Related.resolve (h : Related engine s d g) (b k : String) :
    (s.index.refs b k).bind (record engine s d) = g.table.refs b k :=
  (h.loaded.entry b k).resolve

theorem mem_files_of_history (hp : p ∈ g.history) : p ∈ g.files :=
  mem_append_left _ (mem_append_left _ hp)

theorem files_cases (hp : p ∈ g.files) :
    p ∈ g.history ∨ (∃ j, p.1 = .page g.snapshot j) ∨ ∃ j, p.1 = .journal j := by
  rcases mem_append.mp hp with hp | hp
  · rcases mem_append.mp hp with hp | hp
    · exact .inl hp
    · exact .inr (.inl (mem_numbered hp))
  · exact .inr (.inr (mem_numbered hp))

theorem mem_history_of_files (hp : p ∈ g.files) (hist : p.1.isHistory = true) : p ∈ g.history := by
  rcases files_cases hp with hp | ⟨j, named⟩ | ⟨j, named⟩
  · exact hp
  · rw [named] at hist
    cases hist
  · rw [named] at hist
    cases hist

theorem Related.at (h : Related engine s d g) (hp : p ∈ g.files) {b k : String} {ref : Reference}
    (href : s.index.refs b k = some ref) (into : ref.file = p.1) :
    ∃ r, p.2[ref.slot]? = some r ∧ g.table.refs b k = some r := by
  have entry := h.loaded.entry b k
  change Entry _ _ (g.table.refs b k) at entry
  rw [href] at entry
  generalize g.table.refs b k = found at entry
  cases entry with
  | present held slot =>
    simp only [refer] at into
    rw [into, h.load (h.image.stored p hp)] at held
    cases held
    exact ⟨_, slot, rfl⟩

theorem Related.historyHeld (h : Related engine s d g) (hp : p ∈ g.history) (hr : r ∈ p.2) :
    g.table.refs r.bucket r.key = some r ∧ (r.bucket, r.key) ∉ s.pendingHistory := by
  obtain ⟨q, j, named, _, _⟩ := h.image.wf.historyNames p hp
  have hist : p.1.isHistory = true := by rw [named]; rfl
  obtain ⟨i, found⟩ := mem_iff_getElem?.mp hr
  have kept := h.loaded.kept p (mem_files_of_history hp) hist i r found
  obtain ⟨r', found', held⟩ := h.at (mem_files_of_history hp) kept rfl
  have same : r' = r := Option.some.inj (found'.symm.trans found)
  refine ⟨same ▸ held, fun pending => ?_⟩
  obtain ⟨_, ref, href, plain⟩ := (h.loaded.pending _ _).mp pending
  rw [kept] at href
  cases href
  exact absurd hist (by simpa [refer] using plain)

theorem Related.covered (h : Related engine s d g) {b k : String} {ref : Reference}
    (href : s.index.refs b k = some ref) (found : g.table.refs b k = some r) :
    r ∈ rewritten s g.table ∨ ∃ p ∈ g.history, ref.file = p.1 ∧ r ∈ p.2 := by
  obtain ⟨rfl, rfl⟩ := Record.identity_eq.mp (table_keyed g b k r found)
  by_cases pending : historyBucket r.bucket = true → (r.bucket, r.key) ∈ s.pendingHistory
  · exact .inl ((mem_rewritten h.loaded.toLocated (table_keyed g) r).mpr ⟨found, pending⟩)
  obtain ⟨hist, absent⟩ := Classical.not_imp.mp pending
  have inPage : ref.file.isHistory = true := by
    by_contra plain
    exact absent ((h.loaded.pending _ _).mpr ⟨hist, ref, href, by simpa using plain⟩)
  obtain ⟨p, hp, into⟩ := mem_map.mp (h.loaded.file _ _ ref href)
  obtain ⟨r', slot, held⟩ := h.at hp href into.symm
  cases Option.some.inj (held.symm.trans found)
  exact .inr ⟨p, mem_history_of_files hp (into ▸ inPage), into.symm, mem_of_getElem? slot⟩

def Layout.publish (g : Layout δ) (new : List (Name × List (Record δ)))
    (pages : List (List (Record δ))) : Layout δ :=
  { g with
    snapshot := g.sequence
    published := true
    history := g.history ++ new.filter isHistoryFile
    pages := pages
    journal := [] }

/-- The pages of a compaction of `s`, numbered as the source numbers them. -/
structure Paged (s : Store) (g : Layout δ) (new : List (Name × List (Record δ)))
    (pages : List (List (Record δ))) : Prop where
  advanced : g.snapshot < g.sequence
  content : new.flatMap Prod.snd = rewritten s g.table
  pageFiles : new.filter isPageFile = numbered (Name.page g.sequence) 0 pages
  names : (new.map Prod.fst).Nodup
  bounds : ∀ p ∈ new, (∃ j, j < new.length ∧ p.1 = .historyPage g.sequence j) ∨
    ∃ j, p.1 = .page g.sequence j
  sorted : ∀ p ∈ new, ∀ r ∈ p.2, historyBucket r.bucket = p.1.isHistory

variable {new : List (Name × List (Record δ))} {pages : List (List (Record δ))}

theorem Paged.perm (h : Paged s g new pages) :
    (g.publish new pages).snapshotFiles.Perm (g.history ++ new) := by
  have pageFiles : (g.publish new pages).pageFiles = new.filter isPageFile := h.pageFiles.symm
  rw [Layout.snapshotFiles, pageFiles, Layout.publish, append_assoc]
  exact (filter_append_perm isHistoryFile new).append_left g.history

theorem Paged.files (h : Paged s g new pages) (p : Name × List (Record δ)) :
    p ∈ (g.publish new pages).files ↔ p ∈ g.history ∨ p ∈ new := by
  have noJournal : (g.publish new pages).journalFiles = [] := rfl
  rw [Layout.files, noJournal, append_nil, h.perm.mem_iff, mem_append]

theorem Paged.snapshotFiles_eq : (g.publish new pages).files = (g.publish new pages).snapshotFiles :=
  append_nil _

theorem Paged.mem (h : Paged s g new pages) (hp : p ∈ new) (hr : r ∈ p.2) :
    r ∈ rewritten s g.table := by
  rw [← h.content]
  exact mem_flatMap.mpr ⟨p, hp, hr⟩

theorem Paged.held (h : Paged s g new pages) (related : Related engine s d g)
    (hp : p ∈ (g.publish new pages).files) (hr : r ∈ p.2) :
    g.table.refs r.bucket r.key = some r := by
  rcases (h.files p).mp hp with hp | hp
  · exact (related.historyHeld hp hr).1
  · exact ((mem_rewritten related.loaded.toLocated (table_keyed g) r).mp (h.mem hp hr)).1

theorem Paged.apart (related : Related engine s d g) (hp : p ∈ g.history) {r' : Record δ}
    (hr' : r' ∈ p.2) (hr : r ∈ rewritten s g.table) :
    r.identity ≠ r'.identity := by
  intro same
  have loaded := related.loaded.toLocated
  obtain ⟨found, pending⟩ := (mem_rewritten loaded (table_keyed g) r).mp hr
  obtain ⟨hb, hk⟩ := Prod.mk.inj same
  have hist := related.image.wf.historyRecords p hp r' hr'
  rw [hb, hk] at pending
  exact (related.historyHeld hp hr').2 (pending hist)

section

variable (h : Paged s g new pages) (related : Related engine s d g)
include h related

theorem Paged.distinct :
    (((g.publish new pages).snapshotFiles.flatMap Prod.snd).map Record.identity).Nodup := by
  have reordered := (h.perm.flatMap_right Prod.snd).map Record.identity
  rw [reordered.nodup_iff, flatMap_append, h.content, map_append, nodup_append]
  refine ⟨?_, rewritten_distinct related.loaded.toLocated (table_keyed g), ?_⟩
  · have all := related.image.wf.distinct
    rw [Layout.snapshotFiles, flatMap_append, map_append] at all
    exact (nodup_append.mp all).1
  · intro x hx y hy
    obtain ⟨r', hr', rfl⟩ := mem_map.mp hx
    obtain ⟨r, hr, rfl⟩ := mem_map.mp hy
    obtain ⟨p, hp, hr'⟩ := mem_flatMap.mp hr'
    exact (Paged.apart related hp hr' hr).symm

theorem Paged.fresh (hp : p ∈ new) {p' : Name × List (Record δ)} (hp' : p' ∈ g.files) :
    p.1 ≠ p'.1 := by
  have advanced := h.advanced
  intro same
  rcases files_cases hp' with hp' | ⟨i, named'⟩ | ⟨i, named'⟩
  · obtain ⟨q, i, named', low, _⟩ := related.image.wf.historyNames p' hp'
    rw [named'] at same
    rcases h.bounds p hp with ⟨j, _, named⟩ | ⟨j, named⟩ <;> rw [named] at same <;> cases same
    omega
  · rw [named'] at same
    rcases h.bounds p hp with ⟨j, _, named⟩ | ⟨j, named⟩ <;> rw [named] at same
    · cases same
    have := (Name.page.inj same).1
    omega
  · rw [named'] at same
    rcases h.bounds p hp with ⟨j, _, named⟩ | ⟨j, named⟩ <;> rw [named] at same <;> cases same

theorem Paged.facts (hp : p ∈ (g.publish new pages).files) (hr : r ∈ p.2) :
    r.delete = false ∧ r.bucket ≠ "" ∧ r.key ≠ "" := by
  obtain ⟨_, live, q, hq, mem⟩ := contents_refs_some (h.held related hp hr)
  exact ⟨live, related.image.wf.identified q hq r mem⟩

/- Opening recognises history pages up to number 999999 only. -/
theorem Paged.wf (few : new.length ≤ 10 ^ 6) : (g.publish new pages).WellFormed := by
  have old := related.image.wf
  refine ⟨old.valid, old.bounded, old.committed_le, nofun, ?_, ?_, ?_, ?_, ?_, ?_, ?_⟩
  · intro p hp
    rcases mem_append.mp hp with hp | hp
    · obtain ⟨q, i, named, low, small⟩ := old.historyNames p hp
      exact ⟨q, i, named, low.trans (Nat.le_add_right _ _), small⟩
    obtain ⟨mem, hist⟩ := mem_filter.mp hp
    rcases h.bounds p mem with ⟨j, small, named⟩ | ⟨j, named⟩
    · exact ⟨g.sequence, j, named, le_refl _, by omega⟩
    · rw [isHistoryFile, named] at hist
      cases hist
  · change ((g.history ++ new.filter isHistoryFile).map Prod.fst).Nodup
    rw [map_append]
    refine List.Nodup.append old.historyNodup (h.names.sublist (filter_sublist.map _)) ?_
    rw [disjoint_left]
    intro name before after
    obtain ⟨p, hp, rfl⟩ := mem_map.mp before
    obtain ⟨p', hp', same⟩ := mem_map.mp after
    exact h.fresh related (mem_of_mem_filter hp') (mem_files_of_history hp) same
  · intro p hp r hr
    rcases mem_append.mp hp with hp | hp
    · exact old.historyRecords p hp r hr
    · obtain ⟨mem, hist⟩ := mem_filter.mp hp
      exact (h.sorted p mem r hr).trans hist
  · exact fun p hp r hr => (h.facts related hp hr).2
  · exact h.distinct related
  · exact fun p hp r hr => (h.facts related (Paged.snapshotFiles_eq ▸ hp) hr).1
  · nofun

theorem Paged.table :
    (g.publish new pages).table = g.table := by
  apply Index.eq_of_refs (contents_mirrors _) (contents_mirrors _)
  intro b k
  change (g.publish new pages).table.refs b k = g.table.refs b k
  have back : ∀ r, g.table.refs b k = some r → (g.publish new pages).table.refs b k = some r := by
    intro r found
    obtain ⟨ref, href⟩ := related.loaded.indexed found
    have listed : ∃ p ∈ (g.publish new pages).files, r ∈ p.2 := by
      rcases related.covered href found with again | ⟨p, hp, _, hr⟩
      · rw [← h.content] at again
        obtain ⟨p, hp, hr⟩ := mem_flatMap.mp again
        exact ⟨p, (h.files p).mpr (.inr hp), hr⟩
      · exact ⟨p, (h.files p).mpr (.inl hp), hr⟩
    obtain ⟨p, hp, hr⟩ := listed
    rw [Paged.snapshotFiles_eq] at hp
    obtain ⟨rfl, rfl⟩ := Record.identity_eq.mp (table_keyed g b k r found)
    rw [Layout.table, Paged.snapshotFiles_eq]
    exact Index.applyAll_refs_mem _ (h.distinct related) (mem_flatMap.mpr ⟨p, hp, hr⟩)
      (h.facts related (Paged.snapshotFiles_eq ▸ hp) hr).1
  cases found : g.table.refs b k with
  | some r => exact back r found
  | none =>
    cases new' : (g.publish new pages).table.refs b k with
    | none => rfl
    | some r =>
      obtain ⟨at', _, p, hp, hr⟩ := contents_refs_some new'
      obtain ⟨rfl, rfl⟩ := Record.identity_eq.mp at'
      rw [h.held related hp hr] at found
      cases found

end

theorem Paged.ofSnapshot (h : Paged s g new pages) (hp : p ∈ new) :
    p.1.contents = some (.snapshot, g.sequence) := by
  rcases h.bounds p hp with ⟨j, _, named⟩ | ⟨j, named⟩ <;> rw [named] <;> rfl

theorem Paged.writing (h : Paged s g new pages) (related : Related engine s d g) :
    Throughout (fun d => Image engine d g) d (pageActions engine s new) := by
  apply related.image.of_untouched
  intro a ha relevant
  obtain ⟨p, hp, rfl⟩ := mem_map.mp ha
  generalize hname : (Action.put p.1 (write engine s p.1 .snapshot s.sequence
    (.document p.2))).name = name at relevant
  have named : name.contents = some (.snapshot, g.sequence) := by
    rw [← hname]
    exact h.ofSnapshot hp
  cases relevant with
  | store => cases named
  | head => cases named
  | manifest => cases named
  | journal later => cases named
  | file mem => exact h.fresh related hp mem hname

def publication (engine : Engine δ σ) (s : Store) (new : List (Name × List (Record δ)))
    (m : Manifest) : List (StateAction σ) :=
  pageActions engine s new ++
    [.put .manifest (write engine s .manifest .manifest s.sequence (.manifest m))]

theorem publication_other {name : Name} {m : Manifest} (apart : ∀ p ∈ new, name ≠ p.1)
    (other : name ≠ .manifest) :
    (performAll d (publication engine s new m)).lookup name = d.lookup name := by
  apply performAll_lookup_other
  intro a ha
  rcases mem_append.mp ha with ha | ha
  · obtain ⟨p, hp, rfl⟩ := mem_map.mp ha
    exact apart p hp
  · rw [mem_singleton.mp ha]
    exact other

theorem Paged.stored (h : Paged s g new pages) (related : Related engine s d g) {m : Manifest}
    (hp : p ∈ new) :
    Stored engine (performAll d (publication engine s new m)) g.version g.id p := by
  refine ⟨.snapshot, g.sequence, h.ofSnapshot hp, g.version, related.image.wf.valid.positive,
    le_refl _, ?_⟩
  have other : p.1 ≠ .manifest := by
    intro same
    have named := h.ofSnapshot hp
    rw [same] at named
    cases named
  rw [publication, performAll_append, performAll_cons, performAll_nil,
    perform_lookup_other _ (by exact other)]
  have files : pageActions engine s new = (new.map (fun p =>
      (p.1, write engine s p.1 .snapshot s.sequence (.document p.2)))).map
        (fun f => .put f.1 f.2) := by
    simp [pageActions]
  have found := performAll_lookup_put (new.map (fun p =>
      (p.1, write engine s p.1 .snapshot s.sequence (.document p.2)))) d
    (by simpa [Function.comp_def] using h.names) (mem_map.mpr ⟨p, hp, rfl⟩)
  rw [files, found, write, related.id, related.envelopeVersion, related.sequence]

theorem Paged.image (h : Paged s g new pages) (related : Related engine s d g)
    (few : new.length ≤ 10 ^ 6) :
    Image engine (performAll d (publication engine s new (g.publish new pages).manifestOf))
      (g.publish new pages) := by
  have old := related.image
  have plain : ∀ name, name.contents = none → name ≠ Name.manifest →
      (performAll d (publication engine s new (g.publish new pages).manifestOf)).lookup name =
        d.lookup name := by
    intro name none other
    apply publication_other _ other
    intro p hp same
    rw [same, h.ofSnapshot hp] at none
    cases none
  refine ⟨h.wf related few, ?_, ?_, ?_, nofun, ?_, ?_⟩
  · exact (plain .store rfl (by decide)).trans old.header
  · exact old.head.mono (le_refl _) (plain .head rfl (by decide))
  · intro _
    refine ⟨g.version, old.wf.valid.positive, le_refl _, ?_⟩
    rw [publication, performAll_append, performAll_cons, performAll_nil, perform,
      AList.lookup_insert, write, related.id, related.envelopeVersion, related.sequence]
    rfl
  · intro p hp
    rcases (h.files p).mp hp with hp | hp
    · apply (old.stored p (mem_files_of_history hp)).mono (le_refl _)
      apply publication_other
      · exact fun p' hp' => (h.fresh related hp' (mem_files_of_history hp)).symm
      exact old.name_ne (mem_files_of_history hp) rfl
    · exact h.stored related hp
  · intro q later
    rw [publication_other _ (by simp)]
    · exact old.journalEnd q later
    intro p hp same
    have named := h.ofSnapshot hp
    rw [← same] at named
    cases named

theorem Image.removing {d : StateDir σ} {g : Layout δ} (h : Image engine d g)
    (folded : g.journal = []) (live : List Name)
    (named : ∀ p ∈ g.files, p.1 ∈ live) :
    Throughout (fun d => Image engine d g) d (staleActions d live) := by
  apply h.of_untouched
  intro a ha relevant
  obtain ⟨name, mem, rfl⟩ := mem_map.mp ha
  change g.Relevant name at relevant
  rcases mem_append.mp mem with mem | mem
  · obtain ⟨present, isJournal⟩ := mem_filter.mp mem
    cases relevant with
    | @journal q later =>
      have gone := h.journalEnd q (by rw [Layout.sequence, folded]; exact later)
      exact AList.lookup_eq_none.mp gone present
    | @file p hp =>
      have inSnapshot : p ∈ g.snapshotFiles := by
        rw [Layout.files, Layout.journalFiles, folded] at hp
        simpa [numbered] using hp
      rcases mem_append.mp inSnapshot with hp | hp
      · obtain ⟨q, i, eq, _, _⟩ := h.wf.historyNames p hp
        rw [eq] at isJournal
        cases isJournal
      · obtain ⟨j, eq⟩ := mem_numbered hp
        rw [eq] at isJournal
        cases isJournal
    | _ => cases isJournal
  · obtain ⟨_, outside⟩ := mem_filter.mp mem
    simp only [Bool.and_eq_true, decide_eq_true_eq] at outside
    cases relevant with
    | file hp => exact outside.2 (named _ hp)
    | _ => cases outside.1

theorem Paged.reload (h : Paged s g new pages) (related : Related engine s d g)
    {d' : StateDir σ} (written : ∀ p ∈ new, Stored engine d' g.version g.id p)
    (kept : ∀ p ∈ g.files, Stored engine d' g.version g.id p) (names : List Name) :
    ∃ s', applyPages engine { s with historyPages := names } d' (new.map Prod.fst) = .ok s' ∧
      Loaded (load engine s d') s' (g.publish new pages).files ∧
      Framed { s with historyPages := names } s' := by
  have fresh : ∀ p ∈ new, Stored engine d' s.envelopeVersion s.id p := by
    rw [related.id, related.envelopeVersion]
    exact written
  have before : Loaded (load engine s d') { s with historyPages := names } g.files := by
    refine Loaded.congr (related.loaded.rebase (fun p hp => ?_) ?_) (by rfl) (by rfl) (by rfl)
    · exact related.load (related.image.stored p hp)
    · exact fun p hp => related.load (kept p hp)
  have distinct := rewritten_distinct related.loaded.toLocated (table_keyed g)
  obtain ⟨s', applied, loaded, framed, refs⟩ := applyPages_loaded new before related.valid
    fresh
    (fun p hp => by
      rw [h.ofSnapshot hp]
      exact congrArg (fun q => some (Kind.snapshot, q)) related.sequence.symm)
    (fun p hp => related.load (written p hp))
    (fun p hp r hr => h.facts related ((h.files p).mpr (.inr hp)) hr)
    (by rw [h.content]; exact distinct)
    (fun p hp hist r' hr' r hr =>
      Paged.apart related (mem_history_of_files hp hist) hr' (by rw [← h.content]; exact hr))
  have content : contents (g.files ++ new) = (g.publish new pages).table := by
    rw [h.table related, contents, flatMap_append, Index.applyAll_append, h.content]
    apply Index.applyAll_held
    intro r hr
    have found := ((mem_rewritten related.loaded.toLocated (table_keyed g) r).mp hr).1
    exact ⟨found, (contents_refs_some found).2.1⟩
  have located := loaded.toLocated
  rw [content] at located
  refine ⟨s', applied, ⟨located, ?_, ?_⟩, framed⟩
  · intro b k ref href
    rcases refs b k ref href with inNew | ⟨same, none⟩
    · obtain ⟨p, hp, eq⟩ := mem_map.mp inNew
      exact mem_map.mpr ⟨p, (h.files p).mpr (.inr hp), eq⟩
    have indexed : s.index.refs b k = some ref := same
    obtain ⟨p, hp, into⟩ := mem_map.mp (related.loaded.file b k ref indexed)
    obtain ⟨r, _, found⟩ := related.at hp indexed into.symm
    rcases related.covered indexed found with again | ⟨p', hp', eq, _⟩
    · rw [← h.content] at again
      exact absurd (table_keyed g b k r found) (none r again)
    · exact mem_map.mpr ⟨p', (h.files p').mpr (.inl hp'), eq.symm⟩
  · intro p hp hist i r found
    apply loaded.kept p _ hist i r found
    rcases (h.files p).mp hp with hp | hp
    · exact mem_append_left _ (mem_files_of_history hp)
    · exact mem_append_right _ hp

/-- How many pages a compaction of `s` writes at most, when `t` is what the store holds. -/
def pageBudget (engine : Engine δ σ) (s : Store) (t : Index (Record δ)) : Nat :=
  (rewritten s t).length / pageRecords + recordBytes engine (rewritten s t) / pageBytes +
    s.buckets.length

/-- The directory is one from which `t` is recovered. -/
def Stands (engine : Engine δ σ) (t : Index (Record δ)) (d : StateDir σ) : Prop :=
  ∃ g, Image engine d g ∧ g.table = t

theorem compactBuckets_paged (related : Related engine s d g)
    (advanced : s.sequence ≠ s.snapshotSequence) :
    ∃ a pages, compactBuckets engine s d (s.buckets.insertionSort (· ≤ ·))
        ⟨[], s.historyPages, [], false, [], 0⟩ = (a, none) ∧
      Paged s g a.newPages pages ∧
      Manifest.mk a.pages a.historyPages = (g.publish a.newPages pages).manifestOf ∧
      a.newPages.length ≤ pageBudget engine s g.table + 1 := by
  have located := related.loaded.toLocated
  have found : ∀ b, ∀ key ∈ compactIds s b, ∃ r, g.table.refs b key = some r ∧ r.bucket = b := by
    intro b key mem
    obtain ⟨indexed, _⟩ := (mem_compactIds located b key).mp mem
    cases held : g.table.refs b key with
    | none =>
      rw [(located.entry b key).none_iff.mpr held] at indexed
      cases indexed
    | some r => exact ⟨r, rfl, (Record.identity_eq.mp (table_keyed g b key r held)).1.symm⟩
  obtain ⟨a, result, emptied, packed, full, heavy, length, records, bytes⟩ := compactBuckets_packed
    (s.buckets.insertionSort (· ≤ ·)) related.resolve found
    (packed_start s.sequence s.historyPages)
    (show Frugal engine _ [] 0 from ⟨0, 0, le_refl _, le_refl _, le_refl _⟩)
  rw [nil_append] at packed records bytes
  change Packed s.sequence s.historyPages a (rewritten s g.table) at packed
  change _ ≤ (rewritten s g.table).length at records
  change _ ≤ recordBytes engine (rewritten s g.table) at bytes
  obtain ⟨pages, pageFiles, pageNames, _⟩ := packed.pages
  rw [related.sequence] at pageFiles pageNames
  refine ⟨a, pages, result, ⟨?_, ?_, pageFiles, packed.names, ?_, packed.sorted⟩, ?_, ?_⟩
  · have low : g.snapshot ≤ g.sequence := Nat.le_add_right _ _
    rw [related.sequence, related.snapshotSequence] at advanced
    omega
  · have content := packed.content
    rwa [emptied, append_nil] at content
  · intro p hp
    rw [← related.sequence]
    rcases packed.bounds p hp with numbered | ⟨j, _, named⟩
    · exact .inl numbered
    · exact .inr ⟨j, named⟩
  · rw [packed.history, related.historyPages, pageNames, ← map_append]
    rfl
  · have byCount : full ≤ (rewritten s g.table).length / pageRecords :=
      (Nat.le_div_iff_mul_le (by decide)).mpr (by rw [Nat.mul_comm]; omega)
    have bySize : heavy ≤ recordBytes engine (rewritten s g.table) / pageBytes :=
      (Nat.le_div_iff_mul_le (by decide)).mpr (by rw [Nat.mul_comm]; omega)
    rw [length_insertionSort] at length
    unfold pageBudget
    omega

theorem compact_outcome (related : Related engine s d g)
    (advanced : s.sequence ≠ s.snapshotSequence) {a : Compaction δ}
    (result : compactBuckets engine s d (s.buckets.insertionSort (· ≤ ·))
      ⟨[], s.historyPages, [], false, [], 0⟩ = (a, none))
    (paged : Paged s g a.newPages pages) :
    ∃ s₁, compact engine s d =
        (publication engine s a.newPages ⟨a.pages, a.historyPages⟩ ++
          staleActions (performAll d (publication engine s a.newPages ⟨a.pages, a.historyPages⟩))
            (a.pages ++ a.historyPages),
          .ok { s₁ with snapshotSequence := s₁.sequence, journalCount := 0, journalBytes := 0 }) ∧
      Loaded (load engine s (performAll d (publication engine s a.newPages
        ⟨a.pages, a.historyPages⟩))) s₁ (g.publish a.newPages pages).files ∧
      Framed { s with historyPages := a.historyPages } s₁ := by
  have kept : ∀ p ∈ g.files, Stored engine (performAll d (publication engine s a.newPages
      ⟨a.pages, a.historyPages⟩)) g.version g.id p := by
    intro p hp
    apply (related.image.stored p hp).mono (le_refl _)
    apply publication_other
    · exact fun p' hp' => (paged.fresh related hp' hp).symm
    exact related.image.name_ne hp rfl
  obtain ⟨s₁, reloaded, loaded, framed⟩ := paged.reload related
    (fun p hp => paged.stored related hp) kept a.historyPages
  refine ⟨s₁, ?_, loaded, framed⟩
  rw [compact, if_neg advanced]
  simp only [result]
  rw [publication] at reloaded
  simp only [reloaded]
  rfl

theorem compact_related (related : Related engine s d g)
    (affordable : pageBudget engine s g.table < 10 ^ 6) :
    ∃ s' g', (compact engine s d).2 = .ok s' ∧
      Related engine s' (performAll d (compact engine s d).1) g' ∧ g'.ledger = g.ledger ∧
      Throughout (Stands engine g.table) d (compact engine s d).1 := by
  by_cases level : s.sequence = s.snapshotSequence
  · have nothing : compact engine s d = ([], .ok s) := by rw [compact, if_pos level]
    rw [nothing]
    exact ⟨s, g, rfl, related, rfl, throughout_nil ⟨g, related.image, rfl⟩⟩
  obtain ⟨a, pages, result, paged, manifest, length⟩ := compactBuckets_paged related level
  obtain ⟨s₁, outcome, loaded, framed⟩ := compact_outcome related level result paged
  have image := paged.image related (by omega)
  rw [← manifest] at image
  have live : ∀ p ∈ (g.publish a.newPages pages).files, p.1 ∈ a.pages ++ a.historyPages := by
    intro p hp
    have names := mem_map_of_mem (f := Prod.fst) (Paged.snapshotFiles_eq ▸ hp)
    obtain ⟨pageNames, historyNames⟩ := Manifest.mk.inj manifest
    rw [pageNames, historyNames]
    rw [Layout.snapshotFiles, map_append] at names
    exact mem_append.mpr (mem_append.mp names).symm
  have removing := image.removing rfl (a.pages ++ a.historyPages) live
  have table := paged.table related
  rw [outcome]
  have ledger : (g.publish a.newPages pages).ledger = g.ledger := by
    rw [Layout.ledger, table]
    rfl
  refine ⟨_, g.publish a.newPages pages, rfl, ?_, ledger, ?_⟩
  · rw [performAll_append]
    have final := removing.final
    refine ⟨final, ?_, framed.id.trans related.id,
      framed.envelopeVersion.trans related.envelopeVersion,
      framed.historyPages.trans (Manifest.mk.inj manifest).2,
      framed.sequence.trans related.sequence, framed.sequence.trans related.sequence,
      related.committed⟩
    have readable : ∀ {d'}, Image engine d' (g.publish a.newPages pages) →
        ∀ p ∈ (g.publish a.newPages pages).files, load engine s d' p.1 = some p.2 :=
      fun image p hp => related.load (image.stored p hp)
    have same : load engine { s₁ with
        snapshotSequence := s₁.sequence, journalCount := 0, journalBytes := 0 } = load engine s :=
      funext fun d' => load_congr d' framed.id framed.envelopeVersion
    rw [same]
    exact (loaded.rebase (readable image) (readable final)).congr (by rfl) (by rfl) (by rfl)
  · have writing : Throughout (Stands engine g.table) d (pageActions engine s a.newPages) :=
      (paged.writing related).imp (fun d h => ⟨g, h, rfl⟩)
    have published : Stands engine g.table (performAll d (publication engine s a.newPages
        ⟨a.pages, a.historyPages⟩)) := ⟨_, image, table⟩
    rw [publication, performAll_append] at published
    exact throughout_append
      (throughout_append writing (throughout_cons writing.final (throughout_nil published)))
      (removing.imp (fun d h => ⟨_, h, table⟩))

end Publishing

end Jolt.State
