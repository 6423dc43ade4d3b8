import Jolt.State.Documents

/-! Opening a state directory. An image says which files a directory must hold, and
from which documents; everything else in it is ignored. Opening an image succeeds and
loads exactly its documents. -/
namespace Jolt.State
open Jolt.Base List

section Reading

variable {δ σ : Type} {engine : Engine δ σ}
variable {d : StateDir σ} {kind : Kind} {p : Name × List (Record δ)}

/-- A version and an identity under which files can be written and read back. -/
structure Valid (version : Nat) (id : String) : Prop where
  positive : 1 ≤ version
  known : version ≤ currentEnvelopeVersion
  named : id ≠ ""

variable (engine) in
/-- The file `name` was written under this identity at a version up to `version`. -/
def Holds (d : StateDir σ) (version : Nat) (id : String) (name : Name) (kind : Kind) (seq : Nat)
    (plain : Plain δ) : Prop :=
  ∃ v, 1 ≤ v ∧ v ≤ version ∧ d.lookup name = some (sealFile engine v id name kind seq plain)

variable (engine) in
/-- The document of a journal file or a page, under the kind and sequence its name gives. -/
def Stored (d : StateDir σ) (version : Nat) (id : String) (p : Name × List (Record δ)) : Prop :=
  ∃ kind seq, p.1.contents = some (kind, seq) ∧
    Holds engine d version id p.1 kind seq (.document p.2)

theorem Holds.mono {d' : StateDir σ} {version version' : Nat} {id : String} {name : Name}
    {seq : Nat} {plain : Plain δ} (h : Holds engine d version id name kind seq plain)
    (newer : version ≤ version') (same : d'.lookup name = d.lookup name) :
    Holds engine d' version' id name kind seq plain := by
  obtain ⟨v, positive, older, found⟩ := h
  exact ⟨v, positive, older.trans newer, same.trans found⟩

theorem Stored.mono {d' : StateDir σ} {version version' : Nat} {id : String}
    (h : Stored engine d version id p) (newer : version ≤ version')
    (same : d'.lookup p.1 = d.lookup p.1) :
    Stored engine d' version' id p := by
  obtain ⟨kind, seq, named, holds⟩ := h
  exact ⟨kind, seq, named, holds.mono newer same⟩

theorem Name.contents_body {name : Name} {seq : Nat} (named : name.contents = some (kind, seq)) :
    kind ≠ .header := by
  cases name <;> cases named <;> decide

theorem Holds.read {s : Store} {name : Name} {seq want : Nat} {plain : Plain δ}
    (h : Holds engine d s.envelopeVersion s.id name kind seq plain)
    (valid : Valid s.envelopeVersion s.id) (body : kind ≠ .header)
    (asked : want = seq ∨ want = maxUint64) :
    Jolt.State.read engine s d name kind want = .ok (seq, plain, s) := by
  obtain ⟨v, positive, older, found⟩ := h
  have known := older.trans valid.known
  unfold Jolt.State.read
  simp only [found]
  rw [if_neg]
  · simp only [sealFile, engine.decrypt_encrypt, body, if_false]
  simp only [sealFile, not_or, not_and, not_not, ne_eq]
  refine ⟨by omega, by omega, fun _ => by omega, trivial, ?_, valid.named, fun _ => trivial⟩
  intro wild
  rcases asked with rfl | rfl
  · rfl
  · exact absurd rfl wild

theorem Framed.valid {s s' : Store} (framed : Framed s s') (valid : Valid s.envelopeVersion s.id) :
    Valid s'.envelopeVersion s'.id := by
  rw [framed.id, framed.envelopeVersion]
  exact valid

theorem Framed.stored {s s' : Store} (framed : Framed s s')
    (stored : Stored engine d s.envelopeVersion s.id p) :
    Stored engine d s'.envelopeVersion s'.id p := by
  rw [framed.id, framed.envelopeVersion]
  exact stored

theorem Stored.readDocument {s : Store} (h : Stored engine d s.envelopeVersion s.id p)
    (valid : Valid s.envelopeVersion s.id) {seq : Nat} (named : p.1.contents = some (kind, seq)) :
    Jolt.State.readDocument engine s d p.1 kind seq = .ok (p.2, s) := by
  obtain ⟨kind', seq', named', holds⟩ := h
  cases named.symm.trans named'
  unfold Jolt.State.readDocument
  rw [holds.read valid (Name.contents_body named) (.inl rfl)]
  rfl

theorem Stored.load {s : Store} (h : Stored engine d s.envelopeVersion s.id p)
    (valid : Valid s.envelopeVersion s.id) :
    Jolt.State.load engine s d p.1 = some p.2 := by
  obtain ⟨kind, seq, named, _⟩ := id h
  simp [Jolt.State.load, named, h.readDocument valid named]

end Reading

section Images

variable {δ σ : Type} (engine : Engine δ σ)
variable {docs : List (List (Record δ))}

def numbered (name : Nat → Name) : Nat → List (List (Record δ)) → List (Name × List (Record δ))
  | _, [] => []
  | i, doc :: rest => (name i, doc) :: numbered name (i + 1) rest

theorem numbered_append (name : Nat → Name) (i : Nat) (docs : List (List (Record δ)))
    (doc : List (Record δ)) :
    numbered name i (docs ++ [doc]) = numbered name i docs ++ [(name (i + docs.length), doc)] := by
  induction docs generalizing i with
  | nil => rfl
  | cons first docs ih =>
    simp only [cons_append, numbered, ih, length_cons]
    rw [Nat.add_right_comm, Nat.add_assoc]

theorem mem_numbered {name : Nat → Name} {i : Nat} {p : Name × List (Record δ)}
    (mem : p ∈ numbered name i docs) : ∃ j, p.1 = name j := by
  induction docs generalizing i with
  | nil => cases mem
  | cons doc docs ih =>
    rcases mem_cons.mp mem with rfl | mem
    · exact ⟨i, rfl⟩
    · exact ih mem

theorem mem_docs_numbered (name : Nat → Name) (i : Nat) {doc : List (Record δ)} (mem : doc ∈ docs) :
    ∃ p ∈ numbered name i docs, p.2 = doc := by
  induction docs generalizing i with
  | nil => cases mem
  | cons first docs ih =>
    rcases mem_cons.mp mem with rfl | mem
    · exact ⟨_, mem_cons_self, rfl⟩
    · obtain ⟨p, hp, same⟩ := ih (i + 1) mem
      exact ⟨p, mem_cons_of_mem _ hp, same⟩

theorem exists_numbered (name : Nat → Name) {i j : Nat} (low : i ≤ j) (high : j < i + docs.length) :
    ∃ p ∈ numbered name i docs, p.1 = name j := by
  induction docs generalizing i with
  | nil => simp at high; omega
  | cons doc docs ih =>
    rcases Nat.eq_or_lt_of_le low with rfl | low
    · exact ⟨_, mem_cons_self, rfl⟩
    rw [length_cons] at high
    obtain ⟨p, hp, named⟩ := ih (i := i + 1) low (by omega)
    exact ⟨p, mem_cons_of_mem _ hp, named⟩

/-- What a transaction can see of the store: its records, how many transactions came
before it and the version of its header. -/
structure Ledger (δ : Type) where
  table : Index (Record δ)
  sequence : Nat
  envelopeVersion : Nat

/-- The documents a directory holds and the numbers that say which of them count. -/
structure Layout (δ : Type) where
  version : Nat
  id : String
  committed : Nat
  snapshot : Nat
  published : Bool
  history : List (Name × List (Record δ))
  pages : List (List (Record δ))
  journal : List (List (Record δ))

namespace Layout

def sequence (g : Layout δ) : Nat := g.snapshot + g.journal.length

def pageFiles (g : Layout δ) : List (Name × List (Record δ)) :=
  numbered (Name.page g.snapshot) 0 g.pages

def journalFiles (g : Layout δ) : List (Name × List (Record δ)) :=
  numbered Name.journal (g.snapshot + 1) g.journal

def snapshotFiles (g : Layout δ) : List (Name × List (Record δ)) := g.history ++ g.pageFiles

def files (g : Layout δ) : List (Name × List (Record δ)) := g.snapshotFiles ++ g.journalFiles

def table (g : Layout δ) : Index (Record δ) := contents g.files

def ledger (g : Layout δ) : Ledger δ := ⟨g.table, g.sequence, g.version⟩

structure WellFormed (g : Layout δ) : Prop where
  valid : Valid g.version g.id
  bounded : g.sequence < 2 ^ 64
  committed_le : g.committed ≤ g.sequence
  unpublished : g.published = false → g.snapshot = 0 ∧ g.history = [] ∧ g.pages = []
  historyNames : ∀ p ∈ g.history, ∃ q i, p.1 = .historyPage q i ∧ q ≤ g.snapshot ∧ i < 10 ^ 6
  historyNodup : (g.history.map Prod.fst).Nodup
  historyRecords : ∀ p ∈ g.history, ∀ r ∈ p.2, historyBucket r.bucket = true
  identified : ∀ p ∈ g.files, ∀ r ∈ p.2, r.bucket ≠ "" ∧ r.key ≠ ""
  distinct : ((g.snapshotFiles.flatMap Prod.snd).map Record.identity).Nodup
  live : ∀ p ∈ g.snapshotFiles, ∀ r ∈ p.2, r.delete = false
  appended : ∀ p ∈ g.history, ∀ r' ∈ p.2, ∀ doc ∈ g.journal, ∀ r ∈ doc, r.identity ≠ r'.identity

inductive Relevant (g : Layout δ) : Name → Prop where
  | store : Relevant g .store
  | head : Relevant g .head
  | manifest : Relevant g .manifest
  | journal {q : Nat} (later : g.snapshot < q) : Relevant g (.journal q)
  | file {p : Name × List (Record δ)} (mem : p ∈ g.files) : Relevant g p.1

def manifestOf (g : Layout δ) : Manifest := ⟨g.pageFiles.map Prod.fst, g.history.map Prod.fst⟩

end Layout

/-- A directory from which the documents of `g` are recovered. -/
structure Image (d : StateDir σ) (g : Layout δ) : Prop where
  wf : g.WellFormed
  header : d.lookup .store =
    some (sealFile engine g.version g.id .store .header 0 (.header stateFormat))
  head : Holds engine d g.version g.id .head .head g.committed .head
  manifest : g.published = true →
    Holds engine d g.version g.id .manifest .manifest g.snapshot (.manifest g.manifestOf)
  noManifest : g.published = false → d.lookup .manifest = none
  stored : ∀ p ∈ g.files, Stored engine d g.version g.id p
  journalEnd : ∀ q, g.sequence < q → d.lookup (.journal q) = none

variable {engine}

theorem Image.of_agree {d d' : StateDir σ} {g : Layout δ} (h : Image engine d g)
    (agree : ∀ name, g.Relevant name → d'.lookup name = d.lookup name) : Image engine d' g where
  wf := h.wf
  header := (agree _ .store).trans h.header
  head := h.head.mono (le_refl _) (agree _ .head)
  manifest := fun hp => (h.manifest hp).mono (le_refl _) (agree _ .manifest)
  noManifest := fun hp => (agree _ .manifest).trans (h.noManifest hp)
  stored := fun p hp => (h.stored p hp).mono (le_refl _) (agree _ (.file hp))
  journalEnd := fun q hq => by
    rw [agree _ (.journal (lt_of_le_of_lt (Nat.le_add_right _ _) hq))]
    exact h.journalEnd q hq

theorem Image.of_untouched {d : StateDir σ} {g : Layout δ} (h : Image engine d g)
    (actions : List (StateAction σ)) (untouched : ∀ a ∈ actions, ¬ g.Relevant a.name) :
    Throughout (fun d => Image engine d g) d actions := by
  intro k
  apply h.of_agree
  intro name relevant
  apply performAll_lookup_other
  rintro a ha rfl
  exact untouched a (mem_of_mem_take ha) relevant

theorem Image.name_ne {d : StateDir σ} {g : Layout δ} {p : Name × List (Record δ)}
    (h : Image engine d g) (hp : p ∈ g.files) {name : Name} (plain : name.contents = none) :
    p.1 ≠ name := by
  intro same
  obtain ⟨_, _, named, _⟩ := h.stored p hp
  rw [same, plain] at named
  cases named

/-- The store before `open` has read anything but the header. -/
def bare (g : Layout δ) : Store := { emptyStore g.id with envelopeVersion := g.version }

/- Opening reads the header under the empty identity and takes its version over. -/
theorem readHeader_ok {d : StateDir σ} {version : Nat} {id : String} (valid : Valid version id)
    (header : d.lookup .store =
      some (sealFile engine version id .store .header 0 (.header stateFormat))) :
    readHeader engine d (emptyStore "") = .ok { emptyStore id with envelopeVersion := version } := by
  have positive := valid.positive
  have known := valid.known
  have result : read engine (emptyStore "") d .store .header 0 =
      .ok (0, .header stateFormat, { emptyStore id with envelopeVersion := version }) := by
    unfold read
    simp only [header]
    rw [if_neg]
    · simp only [sealFile, engine.decrypt_encrypt, if_true, emptyStore]
    simp only [sealFile, emptyStore, not_or, not_and, not_not, ne_eq]
    exact ⟨by omega, by omega, fun other => absurd trivial other, trivial, fun _ => trivial,
      valid.named, fun other => absurd trivial other⟩
  unfold readHeader
  rw [result]
  rfl

end Images

section Opening

variable {δ σ : Type} {engine : Engine δ σ} {docs : Name → Option (List (Record δ))}
variable {d : StateDir σ} {g : Layout δ}

theorem contents_refs_none {loaded : List (Name × List (Record δ))} {b k : String}
    (other : ∀ r ∈ loaded.flatMap Prod.snd, r.identity ≠ (b, k)) :
    (contents loaded).refs b k = none := by
  rw [contents, Index.applyAll_refs_other _ other]
  rfl

theorem appendable_snapshot {before rest : List (Name × List (Record δ))} {name : Name}
    {doc : List (Record δ)}
    (distinct : (((before ++ (name, doc) :: rest).flatMap Prod.snd).map Record.identity).Nodup)
    (identified : ∀ r ∈ doc, r.bucket ≠ "" ∧ r.key ≠ "") (live : ∀ r ∈ doc, r.delete = false) :
    Appendable before name doc true := by
  rw [flatMap_append, flatMap_cons, map_append, map_append,
    nodup_append, nodup_append] at distinct
  obtain ⟨_, ⟨own, _, _⟩, apart⟩ := distinct
  have other : ∀ r' ∈ before.flatMap Prod.snd, ∀ r ∈ doc, r'.identity ≠ r.identity := by
    intro r' hr' r hr
    exact apart _ (mem_map_of_mem hr') _ (mem_append_left _ (mem_map_of_mem hr))
  constructor
  · exact identified
  · intro p hp _ r' hr' r hr
    exact (other r' (mem_flatMap.mpr ⟨p, hp, hr'⟩) r hr).symm
  · exact fun _ => ⟨own, live⟩
  · exact fun _ => ⟨own, fun r hr => contents_refs_none (fun r' hr' => other r' hr' r hr)⟩

theorem openHistory_loaded {d : StateDir σ} {seq : Nat} (files : List (Name × List (Record δ)))
    {before : List (Name × List (Record δ))} {seen : List Name} {s : Store}
    (loaded : Loaded docs s before) (valid : Valid s.envelopeVersion s.id)
    (stored : ∀ p ∈ files, Stored engine d s.envelopeVersion s.id p)
    (held : ∀ p ∈ files, docs p.1 = some p.2)
    (named : ∀ p ∈ files, ∃ q i, p.1 = .historyPage q i ∧ q ≤ seq ∧ i < 10 ^ 6)
    (nodup : (files.map Prod.fst).Nodup) (unseen : ∀ p ∈ files, p.1 ∉ seen)
    (records : ∀ p ∈ files, ∀ r ∈ p.2,
      historyBucket r.bucket = true ∧ r.delete = false ∧ r.bucket ≠ "" ∧ r.key ≠ "")
    (distinct : (((before ++ files).flatMap Prod.snd).map Record.identity).Nodup) :
    ∃ s', openHistory engine d seq (files.map Prod.fst) seen s = .ok s' ∧
      Loaded docs s' (before ++ files) ∧ Framed s s' := by
  induction files generalizing before seen s with
  | nil => exact ⟨s, rfl, by simpa using loaded, Framed.refl s⟩
  | cons p files ih =>
    obtain ⟨name, doc⟩ := p
    have here : (name, doc) ∈ (name, doc) :: files := mem_cons_self
    obtain ⟨q, i, rfl, low, small⟩ := named _ here
    obtain ⟨s₁, applied, loaded₁, framed⟩ := loaded.apply (held _ here) (appendable_snapshot distinct
      (fun r hr => (records _ here r hr).2.2) (fun r hr => (records _ here r hr).2.1))
    rw [append_cons] at distinct
    obtain ⟨fresh, nodup⟩ := nodup_cons.mp nodup
    obtain ⟨s', opened, loaded', framed'⟩ := @ih _ (.historyPage q i :: seen) _ loaded₁
      (framed.valid valid) (fun p hp => framed.stored (stored p (mem_cons_of_mem _ hp)))
      (fun p hp => held p (mem_cons_of_mem _ hp))
      (fun p hp => named p (mem_cons_of_mem _ hp)) nodup
      (fun p hp mem => by
        rcases mem_cons.mp mem with same | mem
        · exact fresh (mem_map.mpr ⟨p, hp, same⟩)
        · exact unseen p (mem_cons_of_mem _ hp) mem)
      (fun p hp => records p (mem_cons_of_mem _ hp)) distinct
    refine ⟨s', ?_, by simpa using loaded', framed.trans framed'⟩
    have immutable : doc.any (fun r => !historyBucket r.bucket || r.delete) = false := by
      rw [any_eq_false]
      intro r hr
      simp [(records _ here r hr).1, (records _ here r hr).2.1]
    have admitted : ¬ (seq < q ∨ Name.historyPage q i ∈ seen) :=
      not_or.mpr ⟨Nat.not_lt.mpr low, unseen _ here⟩
    have pageRead : readDocument engine s d (.historyPage q i) .snapshot q = .ok (doc, s) :=
      (stored _ here).readDocument valid rfl
    simp only [map_cons, openHistory, historyPageIdentity, small, if_true, admitted, if_false]
    simp only [pageRead, bind, Except.bind, immutable, Bool.false_eq_true, if_false, applied]
    exact opened

theorem openPages_loaded {d : StateDir σ} {seq : Nat} (pages : List (List (Record δ))) {i : Nat}
    {before : List (Name × List (Record δ))} {s : Store}
    (loaded : Loaded docs s before) (valid : Valid s.envelopeVersion s.id)
    (stored : ∀ p ∈ numbered (Name.page seq) i pages, Stored engine d s.envelopeVersion s.id p)
    (held : ∀ p ∈ numbered (Name.page seq) i pages, docs p.1 = some p.2)
    (records : ∀ p ∈ numbered (Name.page seq) i pages, ∀ r ∈ p.2,
      r.delete = false ∧ r.bucket ≠ "" ∧ r.key ≠ "")
    (distinct : (((before ++ numbered (Name.page seq) i pages).flatMap Prod.snd).map
      Record.identity).Nodup) :
    ∃ s', openPages engine d seq i ((numbered (Name.page seq) i pages).map Prod.fst) s = .ok s' ∧
      Loaded docs s' (before ++ numbered (Name.page seq) i pages) ∧ Framed s s' := by
  induction pages generalizing before i s with
  | nil => exact ⟨s, rfl, by simpa [numbered] using loaded, Framed.refl s⟩
  | cons doc pages ih =>
    have here : (Name.page seq i, doc) ∈ numbered (Name.page seq) i (doc :: pages) :=
      mem_cons_self
    obtain ⟨s₁, applied, loaded₁, framed⟩ := loaded.apply (held _ here) (appendable_snapshot distinct
      (fun r hr => (records _ here r hr).2) (fun r hr => (records _ here r hr).1))
    rw [numbered, append_cons] at distinct
    obtain ⟨s', opened, loaded', framed'⟩ := ih (i := i + 1) loaded₁
      (framed.valid valid) (fun p hp => framed.stored (stored p (mem_cons_of_mem _ hp)))
      (fun p hp => held p (mem_cons_of_mem _ hp))
      (fun p hp => records p (mem_cons_of_mem _ hp)) distinct
    refine ⟨s', ?_, by simpa [numbered] using loaded', framed.trans framed'⟩
    have pageRead : readDocument engine s d (.page seq i) .snapshot seq = .ok (doc, s) :=
      (stored _ here).readDocument valid rfl
    simp only [numbered, map_cons, openPages, ne_eq, not_true_eq_false, if_false]
    simp only [pageRead, bind, Except.bind, applied]
    exact opened

theorem openJournal_skip (stale : List Nat) {rest : List Nat} {s : Store}
    (old : ∀ q ∈ stale, q ≤ s.snapshotSequence) :
    openJournal engine d (stale ++ rest) s = openJournal engine d rest s := by
  induction stale with
  | nil => rfl
  | cons q stale ih =>
    rw [cons_append, openJournal, if_pos (old q mem_cons_self)]
    exact ih (fun q' hq => old q' (mem_cons_of_mem q hq))

theorem openJournal_loaded {d : StateDir σ} (journal : List (List (Record δ)))
    {before : List (Name × List (Record δ))} {s : Store}
    (loaded : Loaded docs s before) (valid : Valid s.envelopeVersion s.id)
    (later : s.snapshotSequence ≤ s.sequence) (bounded : s.sequence + journal.length < 2 ^ 64)
    (stored : ∀ p ∈ numbered Name.journal (s.sequence + 1) journal,
      Stored engine d s.envelopeVersion s.id p)
    (held : ∀ p ∈ numbered Name.journal (s.sequence + 1) journal, docs p.1 = some p.2)
    (identified : ∀ doc ∈ journal, ∀ r ∈ doc, r.bucket ≠ "" ∧ r.key ≠ "")
    (untouched : ∀ p ∈ before, p.1.isHistory = true → ∀ r' ∈ p.2, ∀ doc ∈ journal, ∀ r ∈ doc,
      r.identity ≠ r'.identity) :
    ∃ s', openJournal engine d (List.range' (s.sequence + 1) journal.length) s = .ok s' ∧
      Loaded docs s' (before ++ numbered Name.journal (s.sequence + 1) journal) ∧
      s'.id = s.id ∧ s'.envelopeVersion = s.envelopeVersion ∧ s'.historyPages = s.historyPages ∧
      s'.snapshotSequence = s.snapshotSequence ∧ s'.sequence = s.sequence + journal.length := by
  induction journal generalizing before s with
  | nil => exact ⟨s, rfl, by simpa [numbered] using loaded, rfl, rfl, rfl, rfl, rfl⟩
  | cons doc journal ih =>
    have here : (Name.journal (s.sequence + 1), doc) ∈
        numbered Name.journal (s.sequence + 1) (doc :: journal) := mem_cons_self
    have fit : Appendable before (.journal (s.sequence + 1)) doc false :=
      ⟨identified doc mem_cons_self,
        fun p hp hist r' hr' r hr => untouched p hp hist r' hr' doc mem_cons_self r hr,
        nofun, nofun⟩
    obtain ⟨s₁, applied, loaded₁, framed⟩ := loaded.apply (held _ here) fit
    rw [length_cons] at bounded
    have next : (s.sequence + 1) % 2 ^ 64 = s.sequence + 1 := Nat.mod_eq_of_lt (by omega)
    have journalRead : readDocument engine s d (.journal (s.sequence + 1)) .transaction
        (s.sequence + 1) = .ok (doc, s) := (stored _ here).readDocument valid rfl
    obtain ⟨s', opened, loaded', hid, hversion, hpages, hsnapshot, hsequence⟩ := @ih
      (before ++ [(.journal (s.sequence + 1), doc)])
      { s₁ with
        sequence := s.sequence + 1
        journalCount := s₁.journalCount + 1
        journalBytes := s₁.journalBytes +
          ((d.lookup (.journal (s.sequence + 1))).map engine.fileSize).getD 0 }
      (loaded₁.congr (by rfl) (by rfl) (by rfl)) (framed.valid valid)
      (by
        change s₁.snapshotSequence ≤ s.sequence + 1
        rw [framed.snapshotSequence]
        omega)
      (by
        change s.sequence + 1 + journal.length < 2 ^ 64
        omega)
      (fun p hp => framed.stored (stored p (mem_cons_of_mem _ hp)))
      (fun p hp => held p (mem_cons_of_mem _ hp))
      (fun doc' hd => identified doc' (mem_cons_of_mem _ hd))
      (fun p hp hist r' hr' doc' hd r hr => by
        rcases mem_append.mp hp with hp | hp
        · exact untouched p hp hist r' hr' doc' (mem_cons_of_mem _ hd) r hr
        · cases mem_singleton.mp hp
          cases hist)
    refine ⟨s', ?_, by simpa [numbered] using loaded', hid.trans framed.id,
      hversion.trans framed.envelopeVersion, hpages.trans framed.historyPages,
      hsnapshot.trans framed.snapshotSequence, ?_⟩
    · rw [length_cons, range'_succ, openJournal, if_neg (by omega), next,
        if_neg (not_not.mpr rfl)]
      simp only [journalRead, bind, Except.bind, applied]
      exact opened
    · rw [hsequence, length_cons]
      change s.sequence + 1 + journal.length = _
      omega

/-- The running store and the directory below it, between two operations. -/
structure Related (engine : Engine δ σ) (s : Store) (d : StateDir σ) (g : Layout δ) : Prop where
  image : Image engine d g
  loaded : Loaded (load engine s d) s g.files
  id : s.id = g.id
  envelopeVersion : s.envelopeVersion = g.version
  historyPages : s.historyPages = g.history.map Prod.fst
  sequence : s.sequence = g.sequence
  snapshotSequence : s.snapshotSequence = g.snapshot
  committed : g.committed = g.sequence

theorem Related.valid {s : Store} (h : Related engine s d g) : Valid s.envelopeVersion s.id := by
  rw [h.id, h.envelopeVersion]
  exact h.image.wf.valid

theorem Related.load {s : Store} (h : Related engine s d g) {d' : StateDir σ}
    {p : Name × List (Record δ)} (stored : Stored engine d' g.version g.id p) :
    Jolt.State.load engine s d' p.1 = some p.2 := by
  apply Stored.load _ h.valid
  rw [h.id, h.envelopeVersion]
  exact stored

theorem view_eq {s : Store} {t : Index (Record δ)} (h : Located (load engine s d) s t) :
    view engine s d = t := by
  have refs : (view engine s d).refs = t.refs :=
    funext fun b => funext fun k => (h.entry b k).resolve
  have listings : (view engine s d).ordered = t.ordered := h.ordered
  cases t
  simp only at refs listings
  rw [← refs, ← listings]

theorem Related.view {s : Store} (h : Related engine s d g) :
    Jolt.State.view engine s d = g.table := view_eq h.loaded.toLocated

theorem journalEntries_image (h : Image engine d g) :
    ∃ stale, journalEntries d = stale ++ List.range' (g.snapshot + 1) g.journal.length ∧
      ∀ q ∈ stale, q ≤ g.snapshot := by
  have member : ∀ q, q ∈ journalEntries d ↔ .journal q ∈ d := by
    intro q
    unfold journalEntries
    rw [mem_insertionSort, mem_filterMap]
    constructor
    · rintro ⟨name, mem, eq⟩
      cases name with
      | journal q' => cases eq; exact mem
      | _ => cases eq
    · exact fun mem => ⟨_, mem, rfl⟩
  have nodup : (journalEntries d).Nodup := by
    apply (perm_insertionSort _ _).nodup_iff.mpr
    apply d.nodupKeys.filterMap
    intro name name' q hq hq'
    cases name <;> cases hq
    cases name' <;> cases hq'
    rfl
  have increasing : Ranked (id : Nat → Nat) (journalEntries d) :=
    ((pairwise_insertionSort _ _).and nodup).imp (fun both => lt_of_le_of_ne both.1 both.2)
  refine ⟨(journalEntries d).filter (fun q => q ≤ g.snapshot), ?_, ?_⟩
  · apply increasing.unique
    · unfold Ranked
      rw [pairwise_append]
      refine ⟨increasing.filter _, pairwise_lt_range', ?_⟩
      intro a ha b hb
      have low := (mem_filter.mp ha).2
      have high := (mem_range'_1.mp hb).1
      simp only [decide_eq_true_eq] at low
      exact lt_of_le_of_lt low high
    · intro q
      rw [mem_append, mem_filter, mem_range'_1, member, decide_eq_true_eq]
      constructor
      · intro mem
        by_cases old : q ≤ g.snapshot
        · exact .inl ⟨mem, old⟩
        refine .inr ⟨by omega, ?_⟩
        by_contra beyond
        have gone := h.journalEnd q (by unfold Layout.sequence; omega)
        exact AList.lookup_eq_none.mp gone mem
      · rintro (⟨mem, _⟩ | ⟨low, high⟩)
        · exact mem
        obtain ⟨p, hp, named⟩ := exists_numbered Name.journal low high
        obtain ⟨_, _, _, v, _, _, found⟩ := h.stored p (mem_append_right _ hp)
        rw [named] at found
        exact AList.lookup_isSome.mp (by rw [found]; rfl)
  · intro q hq
    simpa using (mem_filter.mp hq).2

/- Of the store, reading a file uses the identity and the version only. -/
theorem load_congr {s s' : Store} (d : StateDir σ) (sameId : s'.id = s.id)
    (sameVersion : s'.envelopeVersion = s.envelopeVersion) :
    load engine s' d = load engine s d := by
  funext name
  unfold load readDocument read
  cases name.contents with
  | none => rfl
  | some pair =>
    cases found : d.lookup name with
    | none => rfl
    | some e =>
      simp only [Option.bind_eq_bind, Option.bind_some, sameId, sameVersion]
      cases engine.decrypt e.ciphertext ⟨e.version, e.storageID, e.kind, e.sequence, name⟩ with
      | none => split_ifs <;> rfl
      | some plain => cases plain <;> split_ifs <;> rfl

theorem loaded_bare (docs : Name → Option (List (Record δ))) (g : Layout δ) :
    Loaded docs (bare g) [] := by
  refine ⟨⟨Index.empty_mirrors, contents_mirrors [], fun b k => .absent, nofun, nodup_nil, ?_⟩,
    nofun, nofun⟩
  intro b k
  constructor
  · exact fun mem => absurd mem (Finset.notMem_empty _)
  · rintro ⟨_, ref, href, _⟩
    cases href

theorem Image.held (h : Image engine d g) :
    ∀ p ∈ g.files, load engine (bare g) d p.1 = some p.2 :=
  fun p hp => Stored.load (h.stored p hp) h.wf.valid

theorem openManifest_image (h : Image engine d g) :
    ∃ s, openManifest engine d (bare g) = .ok s ∧
      Loaded (load engine (bare g) d) s g.snapshotFiles ∧ s.id = g.id ∧
      s.envelopeVersion = g.version ∧ s.historyPages = g.history.map Prod.fst ∧
      s.sequence = g.snapshot ∧ s.snapshotSequence = g.snapshot := by
  have start := loaded_bare (load engine (bare g) d) g
  cases hp : g.published with
  | false =>
    obtain ⟨zero, noHistory, noPages⟩ := h.wf.unpublished hp
    have absent : Name.manifest ∉ d := AList.lookup_eq_none.mp (h.noManifest hp)
    refine ⟨bare g, ?_, ?_, rfl, rfl, ?_, zero.symm, zero.symm⟩
    · rw [openManifest, if_neg absent]
    · have none : g.snapshotFiles = [] := by
        simp [Layout.snapshotFiles, Layout.pageFiles, noHistory, noPages, numbered]
      rw [none]
      exact start
    · rw [noHistory]
      rfl
  | true =>
    have holds := h.manifest hp
    have present : Name.manifest ∈ d := by
      obtain ⟨v, _, _, found⟩ := holds
      exact AList.lookup_isSome.mp (by rw [found]; rfl)
    have manifestRead : read engine (bare g) d .manifest .manifest maxUint64 =
        .ok (g.snapshot, .manifest g.manifestOf, bare g) :=
      Holds.read holds h.wf.valid (by decide) (.inr rfl)
    have inHistory : ∀ p ∈ g.history, p ∈ g.files := fun p hp =>
      mem_append_left _ (mem_append_left _ hp)
    have inPages : ∀ p ∈ g.pageFiles, p ∈ g.files := fun p hp =>
      mem_append_left _ (mem_append_right _ hp)
    have distinct := h.wf.distinct
    have front : ((([] ++ g.history).flatMap Prod.snd).map Record.identity).Nodup := by
      rw [Layout.snapshotFiles, flatMap_append, map_append] at distinct
      exact (nodup_append.mp distinct).1
    obtain ⟨s₁, opened₁, loaded₁, framed₁⟩ := @openHistory_loaded δ σ engine _ d g.snapshot g.history
      [] [] { bare g with sequence := g.snapshot, snapshotSequence := g.snapshot }
      (start.congr (by rfl) (by rfl) (by rfl)) h.wf.valid
      (fun p hp => h.stored p (inHistory p hp)) (fun p hp => h.held p (inHistory p hp))
      h.wf.historyNames h.wf.historyNodup (fun p _ => not_mem_nil)
      (fun p hp r hr => ⟨h.wf.historyRecords p hp r hr,
        h.wf.live p (mem_append_left _ hp) r hr, h.wf.identified p (inHistory p hp) r hr⟩)
      front
    obtain ⟨s₂, opened₂, loaded₂, framed₂⟩ := @openPages_loaded δ σ engine _ d g.snapshot g.pages 0
      g.history { s₁ with historyPages := g.history.map Prod.fst }
      (loaded₁.congr (by rfl) (by rfl) (by rfl))
      (framed₁.valid h.wf.valid) (fun p hp => framed₁.stored (h.stored p (inPages p hp)))
      (fun p hp => h.held p (inPages p hp))
      (fun p hp r hr => ⟨h.wf.live p (mem_append_right _ hp) r hr,
        h.wf.identified p (inPages p hp) r hr⟩)
      distinct
    refine ⟨s₂, ?_, loaded₂, framed₂.id.trans framed₁.id,
      framed₂.envelopeVersion.trans framed₁.envelopeVersion, framed₂.historyPages,
      framed₂.sequence.trans framed₁.sequence,
      framed₂.snapshotSequence.trans framed₁.snapshotSequence⟩
    simp only [openManifest, present, if_true, manifestRead, bind, Except.bind, Layout.manifestOf,
      opened₁]
    exact opened₂

theorem Image.putHead (h : Image engine d g) :
    Image engine (d.insert .head
        (sealFile engine g.version g.id .head .head g.sequence .head))
      { g with committed := g.sequence } := by
  have other : ∀ name, name ≠ Name.head → (d.insert Name.head (sealFile engine g.version g.id .head .head
      g.sequence .head)).lookup name = d.lookup name := fun name ne => AList.lookup_insert_ne ne
  refine ⟨{ h.wf with committed_le := le_refl _ }, ?_, ?_, ?_, ?_, ?_, ?_⟩
  · exact (other _ (by decide)).trans h.header
  · exact ⟨g.version, h.wf.valid.positive, le_refl _, AList.lookup_insert d⟩
  · exact fun hp => (h.manifest hp).mono (le_refl _) (other _ (by decide))
  · exact fun hp => (other _ (by decide)).trans (h.noManifest hp)
  · exact fun p hp => (h.stored p hp).mono (le_refl _) (other _ (h.name_ne hp rfl))
  · exact fun q hq => (other _ (by simp)).trans (h.journalEnd q hq)

/-- Every image is recovered: the store that `open` returns holds its documents, and
the head on disk names the last of them. -/
theorem recover_related (h : Image engine d g) :
    ∃ s repair, recover engine d (bare g) = .ok (s, repair) ∧
      Related engine s (performAll d repair) { g with committed := g.sequence } := by
  have headRead : read engine (bare g) d .head .head maxUint64 = .ok (g.committed, .head, bare g) :=
    Holds.read h.head h.wf.valid (by decide) (.inr rfl)
  obtain ⟨s₁, opened₁, loaded₁, id₁, version₁, pages₁, sequence₁, snapshot₁⟩ := openManifest_image h
  obtain ⟨stale, entries, old⟩ := journalEntries_image h
  have inJournal : ∀ p ∈ g.journalFiles, p ∈ g.files := fun p hp => mem_append_right _ hp
  obtain ⟨s₂, opened₂, loaded₂, id₂, version₂, pages₂, snapshot₂, sequence₂⟩ :=
    @openJournal_loaded δ σ engine _ d g.journal g.snapshotFiles s₁ loaded₁
      (by rw [id₁, version₁]; exact h.wf.valid) (by omega)
      (by rw [sequence₁]; exact h.wf.bounded)
      (fun p hp => by
        rw [id₁, version₁]
        rw [sequence₁] at hp
        exact h.stored p (inJournal p hp))
      (fun p hp => by
        rw [sequence₁] at hp
        exact h.held p (inJournal p hp))
      (fun doc hd r hr => by
        obtain ⟨p, hp, rfl⟩ := mem_docs_numbered Name.journal (g.snapshot + 1) hd
        exact h.wf.identified p (inJournal p hp) r hr)
      (fun p hp hist r' hr' doc hd r hr => by
        rcases mem_append.mp hp with hp | hp
        · exact h.wf.appended p hp r' hr' doc hd r hr
        obtain ⟨j, named⟩ := mem_numbered hp
        rw [named] at hist
        cases hist)
  have journalOpened : openJournal engine d (journalEntries d) s₁ = .ok s₂ := by
    rw [entries, openJournal_skip stale (by rw [snapshot₁]; exact old), ← sequence₁]
    exact opened₂
  have reached : s₂.sequence = g.sequence := by
    rw [sequence₂, sequence₁]
    rfl
  have allFiles : g.snapshotFiles ++ numbered Name.journal (s₁.sequence + 1) g.journal = g.files := by
    rw [sequence₁]
    rfl
  rw [allFiles] at loaded₂
  have ids : s₂.id = g.id := id₂.trans id₁
  have versions : s₂.envelopeVersion = g.version := version₂.trans version₁
  have related : ∀ d', (∀ p ∈ g.files, d'.lookup p.1 = d.lookup p.1) →
      Image engine d' { g with committed := g.sequence } →
      Related engine s₂ d' { g with committed := g.sequence } := by
    intro d' same image
    refine ⟨image, ?_, ids, versions, pages₂.trans pages₁, reached, snapshot₂.trans snapshot₁, rfl⟩
    apply loaded₂.rebase h.held
    intro p hp
    exact Stored.load (by rw [ids, versions]; exact (h.stored p hp).mono (le_refl _) (same p hp))
      (by rw [ids, versions]; exact h.wf.valid)
  have outcome : recover engine d (bare g) =
      if s₂.sequence < g.committed then .error "committed journal tail is missing"
      else if g.committed < s₂.sequence then
        .ok (s₂, [.put .head (write engine s₂ .head .head s₂.sequence .head)])
      else .ok (s₂, []) := by
    simp only [recover, headRead, bind, Except.bind, opened₁, journalOpened]
  have complete : ¬ s₂.sequence < g.committed := by
    rw [reached]
    exact Nat.not_lt.mpr h.wf.committed_le
  rw [outcome, if_neg complete]
  split
  · refine ⟨s₂, _, rfl, related _ ?_ ?_⟩
    · intro p hp
      apply performAll_lookup_other
      intro a ha
      cases mem_singleton.mp ha
      exact h.name_ne hp rfl
    · have headFile : write engine s₂ .head .head s₂.sequence .head =
          sealFile engine g.version g.id .head .head g.sequence .head := by
        rw [write, ids, versions, reached]
      rw [headFile]
      exact h.putHead
  · rename_i level
    refine ⟨s₂, [], rfl, related d (fun p _ => rfl) ?_⟩
    have same : g.committed = g.sequence := by
      have := h.wf.committed_le
      omega
    have unchanged : { g with committed := g.sequence } = g := by
      rw [← same]
    rw [unchanged]
    exact h

end Opening

end Jolt.State
