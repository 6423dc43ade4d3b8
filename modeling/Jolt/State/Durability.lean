import Jolt.State.Compaction

/-! Runs of the store with crashes. Whatever operation a crash interrupts and wherever,
the directory opens again and holds every acknowledged transaction in order, possibly
followed by the one in flight, as long as the numbers of the format are not exhausted. -/
namespace Jolt.State
open Jolt.Base List

section Transactions

variable {δ σ : Type} {engine : Engine δ σ} {s : Store} {d : StateDir σ} {g : Layout δ}

theorem Image.putHeader (h : Image engine d g) {version : Nat} (newer : g.version ≤ version)
    (known : version ≤ currentEnvelopeVersion) :
    Image engine (d.insert .store
        (sealFile engine version g.id .store .header 0 (.header stateFormat)))
      { g with version := version } := by
  have valid := h.wf.valid
  have other : ∀ name, name ≠ Name.store → (d.insert Name.store (sealFile engine version g.id .store
      .header 0 (.header stateFormat))).lookup name = d.lookup name :=
    fun name ne => AList.lookup_insert_ne ne
  refine ⟨{ h.wf with valid := ⟨valid.positive.trans newer, known, valid.named⟩ },
    AList.lookup_insert d, ?_, ?_, ?_, ?_, ?_⟩
  · exact h.head.mono newer (other _ (by decide))
  · exact fun hp => (h.manifest hp).mono newer (other _ (by decide))
  · exact fun hp => (other _ (by decide)).trans (h.noManifest hp)
  · exact fun p hp => (h.stored p hp).mono newer (other _ (h.name_ne hp rfl))
  · exact fun q hq => (other _ (by simp)).trans (h.journalEnd q hq)

theorem ensureSecurityVersion_related (related : Related engine s d g) (v : SecurityVersion) :
    (ensureSecurityVersion engine s v).1 =
        { s with envelopeVersion := max s.envelopeVersion v.value } ∧
      Related engine (ensureSecurityVersion engine s v).1
        (performAll d (ensureSecurityVersion engine s v).2)
        { g with version := max s.envelopeVersion v.value } ∧
      Throughout (Stands engine g.table) d (ensureSecurityVersion engine s v).2 := by
  have stands : Stands engine g.table d := ⟨g, related.image, rfl⟩
  unfold ensureSecurityVersion
  split
  · rename_i recent
    have same : { g with version := s.envelopeVersion } = g := by rw [related.envelopeVersion]
    rw [max_eq_left recent, same]
    exact ⟨rfl, related, throughout_nil stands⟩
  · rename_i older
    have newer : g.version ≤ v.value := by
      rw [← related.envelopeVersion]
      omega
    have image := related.image.putHeader newer v.known
    have file : write engine { s with envelopeVersion := v.value } .store .header 0
        (.header stateFormat) =
        sealFile engine v.value g.id .store .header 0 (.header stateFormat) := by
      rw [write, related.id]
    rw [← file] at image
    rw [max_eq_right (by omega)]
    refine ⟨rfl, ⟨image, ?_, related.id, rfl, related.historyPages, related.sequence,
      related.snapshotSequence, related.committed⟩, throughout_cons stands (throughout_nil ⟨_, image, rfl⟩)⟩
    refine Loaded.congr (related.loaded.rebase (fun p hp => related.load (related.image.stored p hp)) ?_) (by rfl) (by rfl)
      (by rfl)
    intro p hp
    apply Stored.load
    · have stored := image.stored p hp
      rw [← related.id] at stored
      exact stored
    · rw [related.id]
      exact image.wf.valid

def raised (version : Nat) (raises : List SecurityVersion) : Nat :=
  raises.foldl (fun version v => max version v.value) version

theorem raiseAll_related (raises : List SecurityVersion) (related : Related engine s d g) :
    (raiseAll engine s raises).1 = { s with envelopeVersion := raised s.envelopeVersion raises } ∧
      Related engine (raiseAll engine s raises).1 (performAll d (raiseAll engine s raises).2)
        { g with version := raised s.envelopeVersion raises } ∧
      Throughout (Stands engine g.table) d (raiseAll engine s raises).2 := by
  induction raises generalizing s d g with
  | nil =>
    have same : { g with version := s.envelopeVersion } = g := by rw [related.envelopeVersion]
    refine ⟨rfl, ?_, throughout_nil ⟨g, related.image, rfl⟩⟩
    change Related engine s d { g with version := s.envelopeVersion }
    rw [same]
    exact related
  | cons v raises ih =>
    obtain ⟨store, related₁, throughout₁⟩ := ensureSecurityVersion_related related v
    obtain ⟨store', related', throughout'⟩ := ih related₁
    have version : (ensureSecurityVersion engine s v).1.envelopeVersion =
        max s.envelopeVersion v.value := by rw [store]
    rw [version] at store' related'
    refine ⟨?_, ?_, throughout_append throughout₁ throughout'⟩
    · rw [raiseAll, store', store]
      rfl
    · rw [raiseAll, performAll_append]
      exact related'

theorem checkRecords_ok {ρ : Type} {ix : Index ρ} (records : List (Record δ))
    {seen : List (String × String)} (checked : checkRecords ix seen records = .ok ()) :
    ∀ r ∈ records, r.bucket ≠ "" ∧ r.key ≠ "" ∧
      (historyBucket r.bucket = true → ix.refs r.bucket r.key = none) := by
  induction records generalizing seen with
  | nil => nofun
  | cons first records ih =>
    unfold checkRecords at checked
    split at checked
    · cases checked
    rename_i identified
    have named := not_or.mp identified
    split at checked
    · split at checked
      · cases checked
      rename_i fresh
      have absent : ix.refs first.bucket first.key = none := by
        simpa using (not_or.mp fresh).1
      intro r hr
      rcases mem_cons.mp hr with rfl | hr
      · exact ⟨named.1, named.2, fun _ => absent⟩
      · exact ih checked r hr
    · rename_i plain
      intro r hr
      rcases mem_cons.mp hr with rfl | hr
      · exact ⟨named.1, named.2, fun hist => absurd hist plain⟩
      · exact ih checked r hr

def Layout.append (g : Layout δ) (records : List (Record δ)) : Layout δ :=
  { g with journal := g.journal ++ [records] }

theorem Layout.append_files (g : Layout δ) (records : List (Record δ)) :
    (g.append records).files = g.files ++ [(.journal (g.sequence + 1), records)] := by
  have place : g.snapshot + 1 + g.journal.length = g.sequence + 1 := by
    rw [Layout.sequence]
    omega
  have journal : (g.append records).journalFiles =
      g.journalFiles ++ [(.journal (g.sequence + 1), records)] := by
    rw [Layout.journalFiles, Layout.append, numbered_append, place]
    rfl
  rw [Layout.files, journal, ← append_assoc]
  rfl

theorem Layout.append_table (g : Layout δ) (records : List (Record δ)) :
    (g.append records).table = g.table.applyAll records := by
  rw [Layout.table, Layout.append_files, contents_append]
  rfl

theorem Layout.append_sequence (g : Layout δ) (records : List (Record δ)) :
    (g.append records).sequence = g.sequence + 1 := by
  simp [Layout.sequence, Layout.append, Nat.add_assoc]

/-- The journal file that comes next. -/
abbrev Layout.entry (engine : Engine δ σ) (g : Layout δ) (records : List (Record δ)) : Envelope σ :=
  sealFile engine g.version g.id (.journal (g.sequence + 1)) .transaction (g.sequence + 1)
    (.document records)

theorem Image.putJournal (h : Image engine d g) {records : List (Record δ)}
    (bounded : g.sequence + 1 < 2 ^ 64)
    (identified : ∀ r ∈ records, r.bucket ≠ "" ∧ r.key ≠ "")
    (apart : ∀ p ∈ g.history, ∀ r' ∈ p.2, ∀ r ∈ records, r.identity ≠ r'.identity) :
    Image engine (d.insert (.journal (g.sequence + 1)) (g.entry engine records))
      (g.append records) := by
  have wf := h.wf
  have other : ∀ name, name ≠ Name.journal (g.sequence + 1) →
      (d.insert (Name.journal (g.sequence + 1)) (g.entry engine records)).lookup name =
        d.lookup name := fun name ne => AList.lookup_insert_ne ne
  have sequence := g.append_sequence records
  refine ⟨⟨wf.valid, by omega, by have := wf.committed_le; change g.committed ≤ _; omega,
    wf.unpublished, wf.historyNames, wf.historyNodup, wf.historyRecords, ?_, wf.distinct, wf.live,
    ?_⟩, ?_, ?_, ?_, ?_, ?_, ?_⟩
  · intro p hp
    rw [Layout.append_files] at hp
    rcases mem_append.mp hp with hp | hp
    · exact wf.identified p hp
    · rw [mem_singleton.mp hp]
      exact identified
  · intro p hp r' hr' doc hd
    rcases mem_append.mp hd with hd | hd
    · exact wf.appended p hp r' hr' doc hd
    · rw [mem_singleton.mp hd]
      exact apart p hp r' hr'
  · exact (other _ (by simp)).trans h.header
  · exact h.head.mono (le_refl _) (other _ (by simp))
  · exact fun hp => (h.manifest hp).mono (le_refl _) (other _ (by simp))
  · exact fun hp => (other _ (by simp)).trans (h.noManifest hp)
  · intro p hp
    rw [Layout.append_files] at hp
    rcases mem_append.mp hp with hp | hp
    · apply (h.stored p hp).mono (le_refl _)
      apply other
      intro same
      obtain ⟨_, _, _, v, _, _, found⟩ := h.stored p hp
      rw [same, h.journalEnd _ (Nat.lt_succ_self _)] at found
      cases found
    · rw [mem_singleton.mp hp]
      exact ⟨.transaction, g.sequence + 1, rfl, g.version, wf.valid.positive, le_refl _,
        AList.lookup_insert d⟩
  · intro q later
    rw [other _ (by simp; omega)]
    exact h.journalEnd q (by omega)

/-- Wherever the actions are interrupted, the content is still `t` or already `t'`. -/
def Atomic (engine : Engine δ σ) (t t' : Index (Record δ)) (d : StateDir σ)
    (actions : List (StateAction σ)) : Prop :=
  Throughout (fun d => Stands engine t d ∨ Stands engine t' d) d actions

theorem append_related (related : Related engine s d g) {records : List (Record δ)}
    (bounded : s.sequence + 1 < 2 ^ 64) (checked : checkRecords s.index [] records = .ok ()) :
    ∃ s', (append engine s records).2 = .ok s' ∧
      Related engine s' (performAll d (append engine s records).1)
        { g.append records with committed := g.sequence + 1 } ∧
      Atomic engine g.table (g.table.applyAll records) d (append engine s records).1 := by
  have facts := checkRecords_ok records checked
  have identified : ∀ r ∈ records, r.bucket ≠ "" ∧ r.key ≠ "" :=
    fun r hr => ⟨(facts r hr).1, (facts r hr).2.1⟩
  have apart : ∀ p ∈ g.files, p.1.isHistory = true → ∀ r' ∈ p.2, ∀ r ∈ records,
      r.identity ≠ r'.identity := by
    intro p hp hist r' hr' r hr same
    obtain ⟨i, found⟩ := mem_iff_getElem?.mp hr'
    have kept := related.loaded.kept p hp hist i r' found
    obtain ⟨hb, hk⟩ := Prod.mk.inj same
    have inHistory := mem_history_of_files hp hist
    have absent := (facts r hr).2.2
    rw [hb, hk, kept] at absent
    cases absent (related.image.wf.historyRecords p inHistory r' hr')
  have historyApart : ∀ p ∈ g.history, ∀ r' ∈ p.2, ∀ r ∈ records, r.identity ≠ r'.identity := by
    intro p hp
    obtain ⟨q, i, named, _, _⟩ := related.image.wf.historyNames p hp
    exact apart p (mem_files_of_history hp) (by rw [named]; rfl)
  have next : (s.sequence + 1) % 2 ^ 64 = g.sequence + 1 := by
    rw [Nat.mod_eq_of_lt bounded, related.sequence]
  rw [related.sequence] at bounded
  have image₁ := related.image.putJournal bounded identified historyApart
  have image₂ := image₁.putHead
  rw [Layout.append_sequence] at image₂
  have readable : ∀ p ∈ (g.append records).files, load engine s (performAll d
      [.put (.journal (g.sequence + 1)) (g.entry engine records),
      .put .head (sealFile engine g.version g.id .head .head (g.sequence + 1) .head)]) p.1 =
        some p.2 := by
    exact fun p hp => related.load (image₂.stored p hp)
  rw [Layout.append_files] at readable
  have before := related.loaded.rebase (fun p hp => related.load (related.image.stored p hp))
    (fun p hp => readable p (mem_append_left _ hp))
  have fit : Appendable g.files (.journal (g.sequence + 1)) records false :=
    ⟨identified, apart, nofun, nofun⟩
  obtain ⟨s₁, applied, loaded, framed⟩ := before.apply
    (readable (.journal (g.sequence + 1), records)
      (mem_append_right _ (mem_singleton.mpr rfl))) fit
  rw [← Layout.append_files] at loaded
  have outcome : append engine s records =
      ([.put (.journal (g.sequence + 1)) (g.entry engine records),
      .put .head (sealFile engine g.version g.id .head .head (g.sequence + 1) .head)],
      .ok { s₁ with
        sequence := g.sequence + 1
        journalCount := s₁.journalCount + 1
        journalBytes := s₁.journalBytes + engine.fileSize (g.entry engine records) }) := by
    simp only [append, write, next, related.id, related.envelopeVersion, applied]
  rw [outcome]
  refine ⟨_, rfl, ⟨image₂, ?_, framed.id.trans related.id,
    framed.envelopeVersion.trans related.envelopeVersion,
    framed.historyPages.trans related.historyPages, (Layout.append_sequence g records).symm,
    framed.snapshotSequence.trans related.snapshotSequence,
    (Layout.append_sequence g records).symm⟩, ?_⟩
  · have same : load engine { s₁ with
        sequence := g.sequence + 1
        journalCount := s₁.journalCount + 1
        journalBytes := s₁.journalBytes + engine.fileSize (g.entry engine records) } =
        load engine s := funext fun d' => load_congr d' framed.id framed.envelopeVersion
    rw [same]
    exact loaded.congr (by rfl) (by rfl) (by rfl)
  · have table := Layout.append_table g records
    exact throughout_cons (.inl ⟨g, related.image, rfl⟩)
      (throughout_cons (.inr ⟨_, image₁, table⟩) (throughout_nil (.inr ⟨_, image₂, table⟩)))

/- The condition is on the store in which a compaction starts, if one does. -/
theorem commit_related (related : Related engine s d g) {records : List (Record δ)}
    (bounded : s.sequence + 1 < 2 ^ 64) (checked : checkRecords s.index [] records = .ok ())
    (affordable : ∀ s', (append engine s records).2 = .ok s' →
      compactTransactions ≤ s'.journalCount ∨ compactBytes ≤ s'.journalBytes →
      pageBudget engine s' (g.table.applyAll records) < 10 ^ 6) :
    ∃ g', Related engine (commit engine s d records).store
        (performAll d (commit engine s d records).actions) g' ∧
      g'.ledger = ⟨g.table.applyAll records, g.sequence + 1, g.version⟩ ∧
      (commit engine s d records).answer = .ok () ∧
      Atomic engine g.table (g.table.applyAll records) d (commit engine s d records).actions := by
  obtain ⟨s₁, done, related₁, throughout₁⟩ := append_related related bounded checked
  have table₁ : ({ g.append records with committed := g.sequence + 1 } : Layout δ).table =
      g.table.applyAll records := Layout.append_table g records
  have ledger₁ : ({ g.append records with committed := g.sequence + 1 } : Layout δ).ledger =
      ⟨g.table.applyAll records, g.sequence + 1, g.version⟩ := by
    rw [Layout.ledger, table₁, ← Layout.append_sequence g records]
    rfl
  cases appended : append engine s records with
  | mk written result =>
    rw [appended] at done related₁ throughout₁
    cases done
    by_cases due : compactTransactions ≤ s₁.journalCount ∨ compactBytes ≤ s₁.journalBytes
    · have fits := affordable s₁ (by rw [appended]) due
      rw [← table₁] at fits
      obtain ⟨s₂, g₂, compacted, related₂, ledger₂, throughout₂⟩ := compact_related related₁ fits
      cases outcome : compact engine s₁ (performAll d written) with
      | mk actions result =>
        rw [outcome] at compacted related₂ throughout₂
        cases compacted
        have effect : commit engine s d records = ⟨written ++ actions, s₂, .ok ()⟩ := by
          simp only [commit, appended, due, if_true, outcome]
        rw [effect]
        refine ⟨g₂, ?_, ledger₂.trans ledger₁, rfl, throughout_append throughout₁ ?_⟩
        · rw [performAll_append]
          exact related₂
        · rw [← table₁]
          exact throughout₂.imp (fun d stands => .inr stands)
    · have effect : commit engine s d records = ⟨written, s₁, .ok ()⟩ := by
        simp only [commit, appended, due, if_false]
      rw [effect]
      exact ⟨_, related₁, ledger₁, rfl, throughout₁⟩

end Transactions

section Runs

variable {δ σ : Type} (engine : Engine δ σ)

inductive Operation (δ : Type) where
  | transact (fn : Index (Record δ) → Body δ)
  | compact

def Operation.run (s : Store) (d : StateDir σ) : Operation δ → Effect σ
  | .transact fn => update engine s d fn
  | .compact =>
    match Jolt.State.compact engine s d with
    | (actions, .ok s) => ⟨actions, s, .ok ()⟩
    | (actions, .error e) => ⟨actions, s, .error e⟩

def Operation.records (s : Store) (d : StateDir σ) : Operation δ → List (Record δ)
  | .transact fn => (fn (view engine s d)).result.toOption.getD []
  | .compact => []

def Operation.acknowledged (s : Store) (d : StateDir σ) (op : Operation δ) : List (Record δ) :=
  match (op.run engine s d).answer with
  | .ok () => op.records engine s d
  | .error _ => []

/-- The operation does not exhaust the numbers of the format: the sequence stays
below 2^64, and a compaction starts only on a store whose records outside the history
pages fit into less than a million pages. -/
def Operation.Fits (s : Store) (d : StateDir σ) : Operation δ → Prop
  | .transact fn => s.sequence + 1 < 2 ^ 64 ∧ ∀ s',
      (append engine (raiseAll engine s (fn (view engine s d)).raises).1
        ((Operation.transact fn).records engine s d)).2 = .ok s' →
      compactTransactions ≤ s'.journalCount ∨ compactBytes ≤ s'.journalBytes →
      pageBudget engine s' ((view engine s d).applyAll
        ((Operation.transact fn).records engine s d)) < 10 ^ 6
  | .compact => pageBudget engine s (view engine s d) < 10 ^ 6

variable {engine} {s : Store} {d : StateDir σ} {g : Layout δ}

def Ledger.update (l : Ledger δ) (body : Body δ) : Ledger δ × Except String Unit :=
  let l := { l with envelopeVersion := raised l.envelopeVersion body.raises }
  match body.result with
  | .error e => (l, .error e)
  | .ok [] => (l, .ok ())
  | .ok records =>
    match checkRecords l.table [] records with
    | .error e => (l, .error e)
    | .ok () => ({ l with table := l.table.applyAll records, sequence := l.sequence + 1 }, .ok ())

theorem Ledger.update_table (l : Ledger δ) (body : Body δ) :
    (l.update body).1.table = l.table.applyAll (match (l.update body).2 with
      | .ok () => body.result.toOption.getD []
      | .error _ => []) := by
  unfold Ledger.update
  cases body.result with
  | error e => rfl
  | ok records =>
    cases records with
    | nil => rfl
    | cons r rest =>
      dsimp only
      cases checkRecords l.table [] (r :: rest) with
      | error e => rfl
      | ok _ => rfl

theorem checkRecords_congr {ρ ρ' : Type} {ix : Index ρ} {ix' : Index ρ'}
    (same : ∀ b k, ix.refs b k = none ↔ ix'.refs b k = none) (records : List (Record δ))
    (seen : List (String × String)) : checkRecords ix seen records = checkRecords ix' seen records := by
  have known : ∀ b k, (ix.refs b k).isSome = (ix'.refs b k).isSome := by
    intro b k
    rw [Bool.eq_iff_iff, Option.isSome_iff_ne_none, Option.isSome_iff_ne_none]
    exact not_congr (same b k)
  induction records generalizing seen with
  | nil => rfl
  | cons r records ih => simp only [checkRecords, known, ih]

/-- `update` refines `Ledger.update`: it leaves the records, the count and the version
that a transaction leaves, with the same answer, and it does so in one step. -/
theorem update_related (fn : Index (Record δ) → Body δ) (related : Related engine s d g)
    (fits : (Operation.transact fn).Fits engine s d) :
    ∃ g', Related engine (update engine s d fn).store
        (performAll d (update engine s d fn).actions) g' ∧
      g'.ledger = (g.ledger.update (fn g.table)).1 ∧
      (update engine s d fn).answer = (g.ledger.update (fn g.table)).2 ∧
      Atomic engine g.table (g.table.applyAll ((Operation.transact fn).records engine s d)) d
        (update engine s d fn).actions := by
  obtain ⟨bounded, affordable⟩ := fits
  obtain ⟨store, related₁, throughout₁⟩ := raiseAll_related (fn (view engine s d)).raises related
  unfold Ledger.update update
  simp only [Operation.records] at affordable ⊢
  rw [related.view] at store related₁ throughout₁ affordable ⊢
  cases raise : raiseAll engine s (fn g.table).raises with
  | mk s₁ actions =>
    rw [raise] at store related₁ throughout₁ affordable
    dsimp only at store related₁ throughout₁ affordable
    have before : ∀ t', Atomic engine g.table t' d actions :=
      fun t' => throughout₁.imp (fun d stands => .inl stands)
    have raisedLedger : ({ g with version := raised s.envelopeVersion (fn g.table).raises } :
        Layout δ).ledger =
        { g.ledger with envelopeVersion := raised g.ledger.envelopeVersion (fn g.table).raises } := by
      rw [related.envelopeVersion]
      rfl
    cases result : (fn g.table).result with
    | error e => exact ⟨_, related₁, raisedLedger, rfl, before _⟩
    | ok records =>
      cases records with
      | nil => exact ⟨_, related₁, raisedLedger, rfl, before _⟩
      | cons r rest =>
        simp only [result, Except.toOption, Option.getD_some] at affordable ⊢
        have checks : checkRecords s₁.index [] (r :: rest) = checkRecords g.table [] (r :: rest) :=
          checkRecords_congr (fun b k => (related₁.loaded.toLocated.entry b k).none_iff) _ _
        simp only [checks, Layout.ledger]
        cases checked : checkRecords g.table [] (r :: rest) with
        | error e => exact ⟨_, related₁, raisedLedger, rfl, before _⟩
        | ok _ =>
          rw [checked] at checks
          obtain ⟨g', related', ledger, answer, atomic⟩ := commit_related related₁
            (by rw [store]; exact bounded) checks affordable
          refine ⟨g', ?_, ledger.trans ?_, answer, throughout_append (before _) atomic⟩
          · rw [performAll_append]
            exact related'
          · rw [related.envelopeVersion]
            rfl

theorem Operation.run_related (op : Operation δ) (related : Related engine s d g)
    (fits : op.Fits engine s d) :
    ∃ g', Related engine (op.run engine s d).store (performAll d (op.run engine s d).actions) g' ∧
      g'.table = g.table.applyAll (op.acknowledged engine s d) ∧
      Atomic engine g.table (g.table.applyAll (op.records engine s d)) d
        (op.run engine s d).actions := by
  cases op with
  | compact =>
    change pageBudget engine s (view engine s d) < 10 ^ 6 at fits
    rw [related.view] at fits
    obtain ⟨s', g', done, related', ledger, throughout⟩ := compact_related related fits
    have effect : Operation.compact.run engine s d =
        ⟨(Jolt.State.compact engine s d).1, s', .ok ()⟩ := by
      simp only [Operation.run]
      cases outcome : Jolt.State.compact engine s d with
      | mk actions result =>
        rw [outcome] at done
        cases done
        rfl
    rw [Operation.acknowledged, effect]
    exact ⟨g', related', congrArg Ledger.table ledger, throughout.imp (fun d stands => .inl stands)⟩
  | transact fn =>
    obtain ⟨g', related', ledger, answer, atomic⟩ := update_related fn related fits
    refine ⟨g', related', (congrArg Ledger.table ledger).trans ?_, atomic⟩
    rw [Operation.acknowledged, Operation.run, answer, Operation.records, related.view]
    exact Ledger.update_table g.ledger (fn g.table)

/-- The layout of a directory that `Open` has just initialised. -/
def Layout.first (δ : Type) (id : Identity) : Layout δ := ⟨1, id.text, 0, 0, false, [], [], []⟩

theorem first_image (engine : Engine δ σ) (id : Identity) :
    Image engine (performAll ∅ (firstActions engine (emptyStore id.text))) (Layout.first δ id) := by
  have header : (performAll ∅ (firstActions engine (emptyStore id.text))).lookup Name.store =
      some (sealFile engine 1 id.text .store .header 0 (.header stateFormat)) := rfl
  have other : ∀ name, name ≠ Name.store → name ≠ Name.head →
      (performAll ∅ (firstActions engine (emptyStore id.text))).lookup name = none := by
    intro name notStore notHead
    rw [performAll_lookup_other]
    · exact AList.lookup_empty name
    intro a ha
    simp only [firstActions, mem_cons, not_mem_nil, or_false] at ha
    rcases ha with rfl | rfl
    · exact notStore
    · exact notHead
  exact ⟨⟨⟨le_refl _, (by change 1 ≤ 8; decide), id.drawn⟩,
    (by change 0 < 2 ^ 64; decide), le_refl _, fun _ => ⟨rfl, rfl, rfl⟩, nofun,
    nodup_nil, nofun, nofun, nodup_nil, nofun, nofun⟩, header, ⟨1, le_refl _, le_refl _, rfl⟩,
    nofun, fun _ => other _ (by decide) (by decide), nofun, fun q _ => other _ (by simp) (by simp)⟩

theorem open_first (engine : Engine δ σ) (id : Identity) :
    ∃ s actions, openStore engine id ∅ = .ok (s, actions) ∧
      Related engine s (performAll ∅ actions) (Layout.first δ id) := by
  obtain ⟨s, repair, recovered, related⟩ := recover_related (first_image engine id)
  refine ⟨s, firstActions engine (emptyStore id.text) ++ repair, ?_, ?_⟩
  · have fresh : bare (Layout.first δ id) = emptyStore id.text := rfl
    rw [fresh] at recovered
    have absent : Name.store ∉ (∅ : StateDir σ) := AList.notMem_empty _
    have empty : ¬ (∅ : StateDir σ).keys ≠ [] := by simp
    rw [openStore, if_neg absent, if_neg empty]
    simp only [recovered, bind, Except.bind]
  · rw [performAll_append]
    exact related

theorem open_image {d : StateDir σ} (h : Image engine d g) (id : Identity) :
    ∃ s repair, openStore engine id d = .ok (s, repair) ∧
      Related engine s (performAll d repair) { g with committed := g.sequence } := by
  obtain ⟨s, repair, recovered, related⟩ := recover_related h
  refine ⟨s, repair, ?_, related⟩
  have present : Name.store ∈ d := AList.lookup_isSome.mp (by rw [h.header]; rfl)
  rw [openStore, if_pos present, readHeader_ok h.wf.valid h.header]
  exact recovered

variable (engine) in
/-- A run of the store: `history` collects the records of the transactions it has
acknowledged. A crash may fall between any two file changes of an operation; the
history then goes on with the content that the reopened store shows. -/
inductive Run : Store → StateDir σ → List (Record δ) → Prop where
  | first {id : Identity} {s : Store} {actions : List (StateAction σ)}
      (opened : openStore engine id ∅ = .ok (s, actions)) : Run s (performAll ∅ actions) []
  | step {s : Store} {d : StateDir σ} {history : List (Record δ)} (run : Run s d history)
      (op : Operation δ) (fits : op.Fits engine s d) :
      Run (op.run engine s d).store (performAll d (op.run engine s d).actions)
        (history ++ op.acknowledged engine s d)
  | crash {s s' : Store} {d : StateDir σ} {history history' : List (Record δ)}
      (run : Run s d history) (op : Operation δ) (fits : op.Fits engine s d) (k : Nat)
      (id : Identity) {repair : List (StateAction σ)}
      (reopened : openStore engine id (performAll d ((op.run engine s d).actions.take k)) =
        .ok (s', repair))
      (continued : history' = history ∨ history' = history ++ op.records engine s d)
      (shown : view engine s' (performAll (performAll d ((op.run engine s d).actions.take k))
        repair) = Index.empty.applyAll history') :
      Run s' (performAll (performAll d ((op.run engine s d).actions.take k)) repair) history'

theorem Operation.crash_stands (op : Operation δ) (related : Related engine s d g)
    (fits : op.Fits engine s d) (k : Nat) (id : Identity) :
    ∃ s' repair g', openStore engine id (performAll d ((op.run engine s d).actions.take k)) =
        .ok (s', repair) ∧
      Related engine s' (performAll (performAll d ((op.run engine s d).actions.take k)) repair) g' ∧
      (g'.table = g.table ∨ g'.table = g.table.applyAll (op.records engine s d)) := by
  obtain ⟨_, _, _, atomic⟩ := op.run_related related fits
  rcases atomic k with ⟨g', image, table⟩ | ⟨g', image, table⟩
  · obtain ⟨s', repair, opened, related'⟩ := open_image image id
    exact ⟨s', repair, _, opened, related', .inl table⟩
  · obtain ⟨s', repair, opened, related'⟩ := open_image image id
    exact ⟨s', repair, _, opened, related', .inr table⟩

theorem Run.related {history : List (Record δ)} (run : Run engine s d history) :
    ∃ g, Related engine s d g ∧ g.table = Index.empty.applyAll history := by
  induction run with
  | first opened =>
    rename_i id s actions
    obtain ⟨s', actions', opened', related⟩ := open_first engine id
    cases opened.symm.trans opened'
    exact ⟨_, related, rfl⟩
  | step run op fits ih =>
    obtain ⟨g, related, table⟩ := ih
    obtain ⟨g', related', table', _⟩ := op.run_related related fits
    refine ⟨g', related', ?_⟩
    rw [table', table, Index.applyAll_append]
  | crash run op fits k id reopened continued shown ih =>
    obtain ⟨g, related, table⟩ := ih
    obtain ⟨s', repair, g', opened, related', _⟩ := op.crash_stands related fits k id
    cases reopened.symm.trans opened
    exact ⟨g', related', related'.view.symm.trans shown⟩

end Runs

section Fixed

/-- An engine without encryption, for runs on fixed inputs: every file and every
value has the given length. -/
def plainEngine (fileBytes dataBytes : Nat) : Engine Unit (Plain Unit × Aad) where
  encrypt := fun plain aad => (plain, aad)
  decrypt := fun sealed aad => if sealed.2 = aad then some sealed.1 else none
  decrypt_encrypt := fun _ _ => if_pos rfl
  fileSize := fun _ => fileBytes
  dataSize := fun _ => dataBytes

def firstIdentity : Identity := ⟨"00", by decide⟩

def firstDir (fileBytes dataBytes : Nat) : StateDir (Plain Unit × Aad) :=
  performAll ∅ (firstActions (plainEngine fileBytes dataBytes) (emptyStore "00"))

theorem open_plain (fileBytes dataBytes : Nat) :
    openStore (plainEngine fileBytes dataBytes) firstIdentity ∅ =
      .ok (emptyStore "00", firstActions (plainEngine fileBytes dataBytes) (emptyStore "00")) := rfl

def addJob : Operation Unit :=
  .transact fun _ => ⟨[], .ok [⟨"jobs", "a", "", "", "", false, some ()⟩]⟩

end Fixed

section FirstStart

variable {δ σ : Type} (engine : Engine δ σ) (id : Identity)

theorem recover_first :
    recover engine (performAll ∅ (firstActions engine (emptyStore id.text))) (emptyStore id.text) =
      .ok (emptyStore id.text, []) := by
  have head : read engine (emptyStore id.text)
      (performAll ∅ (firstActions engine (emptyStore id.text))) .head .head maxUint64 =
        .ok (0, .head, emptyStore id.text) := by
    have lookup : (performAll ∅ (firstActions engine (emptyStore id.text))).lookup Name.head =
        some (sealFile engine 1 id.text .head .head 0 .head) := rfl
    rw [read, lookup]
    simp [sealFile, engine.decrypt_encrypt, id.drawn, emptyStore, currentEnvelopeVersion]
  have manifest : Name.manifest ∉ performAll ∅ (firstActions engine (emptyStore id.text)) := by
    rw [← AList.lookup_eq_none]
    rfl
  have journal : journalEntries (performAll ∅ (firstActions engine (emptyStore id.text))) = [] :=
    rfl
  simp only [recover, head, openManifest, if_neg manifest, journal, openJournal, bind, Except.bind]
  rfl

theorem openStore_empty : openStore engine id ∅ =
    .ok (emptyStore id.text, firstActions engine (emptyStore id.text)) := by
  rw [openStore, if_neg (AList.notMem_empty _), if_neg (by simp)]
  simp only [recover_first, bind, Except.bind, append_nil]

theorem openStore_headed {d : StateDir σ} (later : Identity)
    (header : d.lookup .store =
      some (sealFile engine 1 id.text .store .header 0 (.header stateFormat))) :
    openStore engine later d = recover engine d (emptyStore id.text) := by
  have valid : Valid 1 id.text := ⟨le_refl _, (by change 1 ≤ 8; decide), id.drawn⟩
  have present : Name.store ∈ d := AList.lookup_isSome.mp (by rw [header]; rfl)
  rw [openStore, if_pos present, readHeader_ok valid header]
  rfl

/-- A first start that is cut off after some of its file changes can be repeated exactly if the
crash did not fall between the header and the head. -/
theorem first_start_survives_iff (later : Identity) (k : Nat) :
    ∃ s actions, openStore engine id ∅ = .ok (s, actions) ∧
      ((∃ s' repair, openStore engine later (performAll ∅ (actions.take k)) = .ok (s', repair) ∧
        s'.index = Index.empty ∧ s'.sequence = 0) ↔ k ≠ 1) := by
  refine ⟨_, _, openStore_empty engine id, ?_⟩
  match k with
  | 0 => simp [openStore_empty, emptyStore]
  | 1 =>
    have cut : recover engine (performAll ∅ ((firstActions engine (emptyStore id.text)).take 1))
        (emptyStore id.text) = .error "file does not exist" := rfl
    rw [openStore_headed engine id later rfl, cut]
    simp
  | n + 2 =>
    rw [take_of_length_le (by simp [firstActions]), openStore_headed engine id later rfl,
      recover_first]
    simp [emptyStore]

/-- After a crash between the header and the head the directory never opens again. -/
theorem first_start_cut_off :
    openStore (plainEngine 100 10) firstIdentity (performAll ∅
      ((firstActions (plainEngine 100 10) (emptyStore "00")).take 1)) =
        .error "file does not exist" := rfl

end FirstStart

end Jolt.State
