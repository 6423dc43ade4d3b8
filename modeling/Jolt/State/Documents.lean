import Jolt.State.Storage

/-! What a sequence of documents means. Applied to an empty table in order, their
records give the content of the store; applied to the running store, they give an
index whose every reference leads back to the record the table holds. -/
namespace Jolt.State
open List

section Table

variable {δ : Type}
variable {r : Record δ} {t : Index (Record δ)}

def Record.identity (r : Record δ) : String × String := (r.bucket, r.key)

theorem Record.identity_eq {b k : String} :
    r.identity = (b, k) ↔ b = r.bucket ∧ k = r.key := by
  simp only [Record.identity, Prod.mk.injEq]
  exact and_congr eq_comm eq_comm

/-- The table after the records of `rs`, one after another. -/
def Index.applyAll (t : Index (Record δ)) (rs : List (Record δ)) : Index (Record δ) :=
  rs.foldl (fun t r => t.applyRecord r r) t

@[simp] theorem Index.applyAll_nil (t : Index (Record δ)) : t.applyAll [] = t := rfl

@[simp] theorem Index.applyAll_cons (t : Index (Record δ)) (r : Record δ) (rs : List (Record δ)) :
    t.applyAll (r :: rs) = (t.applyRecord r r).applyAll rs := rfl

@[simp] theorem Index.applyAll_append (t : Index (Record δ)) (rs more : List (Record δ)) :
    t.applyAll (rs ++ more) = (t.applyAll rs).applyAll more := by
  simp [Index.applyAll]

theorem Index.applyAll_mirrors (h : t.Mirrors) (rs : List (Record δ)) :
    (t.applyAll rs).Mirrors := by
  induction rs generalizing t with
  | nil => exact h
  | cons r rs ih => exact ih (Index.applyRecord_mirrors h r r)

theorem Index.eq_of_refs {u : Index (Record δ)} (h : t.Mirrors) (h' : u.Mirrors)
    (refs : ∀ b k, t.refs b k = u.refs b k) : t = u := by
  have listings : t.ordered = u.ordered := by
    apply Index.ordered_unique h h'
    · intro b k
      rw [refs b k]
    intro b k r r' hr hr'
    rw [refs b k, hr'] at hr
    cases hr
    exact ⟨rfl, rfl, rfl⟩
  cases t
  cases u
  simp only [Index.mk.injEq]
  exact ⟨funext fun b => funext fun k => refs b k, listings⟩

theorem Index.applyAll_refs_other (rs : List (Record δ)) {b k : String}
    (other : ∀ r ∈ rs, r.identity ≠ (b, k)) : (t.applyAll rs).refs b k = t.refs b k := by
  induction rs generalizing t with
  | nil => rfl
  | cons r rs ih =>
    rw [Index.applyAll_cons, ih (fun r' hr => other r' (mem_cons_of_mem r hr)),
      Index.applyRecord_refs, if_neg]
    exact fun same => other r mem_cons_self (Record.identity_eq.mpr same)

theorem Index.applyAll_refs_mem (rs : List (Record δ)) (distinct : (rs.map Record.identity).Nodup)
    (mem : r ∈ rs) (live : r.delete = false) : (t.applyAll rs).refs r.bucket r.key = some r := by
  induction rs generalizing t with
  | nil => cases mem
  | cons first rs ih =>
    obtain ⟨fresh, distinct⟩ := nodup_cons.mp distinct
    rcases mem_cons.mp mem with rfl | mem
    · rw [Index.applyAll_cons, Index.applyAll_refs_other]
      · simp [Index.applyRecord_refs, live]
      · exact fun r' hr same => fresh (mem_map.mpr ⟨r', hr, same⟩)
    · exact ih distinct mem

theorem Index.applyRecord_held (held : t.refs r.bucket r.key = some r) (live : r.delete = false) :
    t.applyRecord r r = t := by
  have same : t.setRef r.bucket r.key (some r) = t := by
    unfold Index.setRef
    rw [← held]
    simp
  simp [Index.applyRecord, held, live, Index.changed, same]

theorem Index.applyAll_held (rs : List (Record δ))
    (held : ∀ r ∈ rs, t.refs r.bucket r.key = some r ∧ r.delete = false) : t.applyAll rs = t := by
  induction rs with
  | nil => rfl
  | cons r rs ih =>
    obtain ⟨found, live⟩ := held r mem_cons_self
    rw [Index.applyAll_cons, Index.applyRecord_held found live]
    exact ih (fun r' hr => held r' (mem_cons_of_mem r hr))

def contents (loaded : List (Name × List (Record δ))) : Index (Record δ) :=
  Index.empty.applyAll (loaded.flatMap Prod.snd)

theorem contents_mirrors (loaded : List (Name × List (Record δ))) : (contents loaded).Mirrors :=
  Index.applyAll_mirrors Index.empty_mirrors _

theorem contents_append (loaded : List (Name × List (Record δ))) (name : Name)
    (doc : List (Record δ)) :
    contents (loaded ++ [(name, doc)]) = (contents loaded).applyAll doc := by
  simp [contents]

theorem contents_refs_some {loaded : List (Name × List (Record δ))} {b k : String}
    (found : (contents loaded).refs b k = some r) :
    r.identity = (b, k) ∧ r.delete = false ∧ ∃ p ∈ loaded, r ∈ p.2 := by
  have general : ∀ (rs : List (Record δ)) (t : Index (Record δ)),
      (t.applyAll rs).refs b k = some r → t.refs b k = some r ∨
        (r.identity = (b, k) ∧ r.delete = false ∧ r ∈ rs) := by
    intro rs
    induction rs with
    | nil => exact fun t h => .inl h
    | cons first rs ih =>
      intro t h
      rcases ih _ h with earlier | ⟨at', live, mem⟩
      · rw [Index.applyRecord_refs] at earlier
        split at earlier
        · rename_i here
          split at earlier
          · cases earlier
          rename_i live
          cases earlier
          exact .inr ⟨Record.identity_eq.mpr here, by simpa using live, mem_cons_self⟩
        · exact .inl earlier
      · exact .inr ⟨at', live, mem_cons_of_mem first mem⟩
  rcases general _ _ found with absurd | ⟨at', live, mem⟩
  · cases absurd
  · exact ⟨at', live, mem_flatMap.mp mem⟩

end Table

section Loading

variable {δ : Type} {docs : Name → Option (List (Record δ))}
variable {doc : List (Record δ)} {loaded : List (Name × List (Record δ))} {name : Name}
  {r : Option (Record δ)} {ref : Option Reference} {s s' : Store} {slot : Nat} {snapshot : Bool}
  {t : Index (Record δ)}

def refer (name : Name) (slot : Nat) (r : Record δ) : Reference :=
  ⟨name, slot, r.group, r.order, r.state⟩

variable (docs) in
/-- A reference and the record it stands for, `docs` being the readable documents. -/
inductive Entry : Option Reference → Option (Record δ) → Prop where
  | absent : Entry none none
  | present {file : Name} {slot : Nat} {doc : List (Record δ)} {r : Record δ}
      (held : docs file = some doc) (found : doc[slot]? = some r) :
      Entry (some (refer file slot r)) (some r)

theorem Entry.none_iff (h : Entry docs ref r) :
    ref = none ↔ r = none := by
  cases h with
  | absent => simp
  | present _ _ => simp

theorem Entry.resolve (h : Entry docs ref r) :
    ref.bind (fun ref => (docs ref.file).bind (fun doc => doc[ref.slot]?)) = r := by
  cases h with
  | absent => rfl
  | present held found => simp [refer, held, found]

theorem Entry.mono {docs' : Name → Option (List (Record δ))} (h : Entry docs ref r)
    (kept : ∀ x, ref = some x → ∀ doc, docs x.file = some doc → docs' x.file = some doc) :
    Entry docs' ref r := by
  cases h with
  | absent => exact .absent
  | present held found => exact .present (kept _ rfl _ held) found

variable (docs) in
/-- The in-memory part of a store that holds the table `t`. -/
structure Located (s : Store) (t : Index (Record δ)) : Prop where
  mirrors : s.index.Mirrors
  table : t.Mirrors
  entry : ∀ b k, Entry docs (s.index.refs b k) (t.refs b k)
  bucket : ∀ b k ref, s.index.refs b k = some ref → b ∈ s.buckets
  nodup : s.buckets.Nodup
  pending : ∀ b k, (b, k) ∈ s.pendingHistory ↔
    historyBucket b = true ∧ ∃ ref, s.index.refs b k = some ref ∧ ref.file.isHistory = false

theorem Located.indexed (h : Located docs s t) {b k : String} {r : Record δ}
    (found : t.refs b k = some r) : ∃ ref, s.index.refs b k = some ref := by
  cases href : s.index.refs b k with
  | some ref => exact ⟨ref, rfl⟩
  | none =>
    rw [(h.entry b k).none_iff.mp href] at found
    cases found

theorem Located.ordered (h : Located docs s t) :
    s.index.ordered = t.ordered := by
  apply Index.ordered_unique h.mirrors h.table
  · exact fun b k => (h.entry b k).none_iff
  intro b k ref r href hr
  have entry := h.entry b k
  rw [href, hr] at entry
  cases entry
  exact ⟨rfl, rfl, rfl⟩

structure Framed (s s' : Store) : Prop where
  id : s'.id = s.id
  envelopeVersion : s'.envelopeVersion = s.envelopeVersion
  historyPages : s'.historyPages = s.historyPages
  sequence : s'.sequence = s.sequence
  snapshotSequence : s'.snapshotSequence = s.snapshotSequence

theorem Framed.refl (s : Store) : Framed s s := ⟨rfl, rfl, rfl, rfl, rfl⟩

theorem Framed.trans {s'' : Store} (h : Framed s s') (h' : Framed s' s'') : Framed s s'' :=
  ⟨h'.id.trans h.id, h'.envelopeVersion.trans h.envelopeVersion,
    h'.historyPages.trans h.historyPages, h'.sequence.trans h.sequence,
    h'.snapshotSequence.trans h.snapshotSequence⟩

theorem applyRecord_ok {r : Record δ} (done : applyRecord s name snapshot slot r = .ok s') :
    Framed s s' ∧ s'.index = s.index.applyRecord r (refer name slot r) := by
  unfold applyRecord at done
  split_ifs at done
  all_goals
    cases done
    exact ⟨⟨rfl, rfl, rfl, rfl, rfl⟩, rfl⟩

theorem applyRecord_located (h : Located docs s t) (held : docs name = some doc) {r : Record δ}
    (found : doc[slot]? = some r) (snapshot : Bool) (identified : r.bucket ≠ "" ∧ r.key ≠ "")
    (fresh : snapshot = true → t.refs r.bucket r.key = none) :
    ∃ s', applyRecord s name snapshot slot r = .ok s' ∧ Located docs s' (t.applyRecord r r) := by
  have vacant : ¬ (snapshot = true ∧ (s.index.refs r.bucket r.key).isSome = true) := by
    rintro ⟨hs, some⟩
    rw [(h.entry r.bucket r.key).none_iff.mpr (fresh hs)] at some
    cases some
  unfold applyRecord
  rw [if_neg (not_or.mpr identified), if_neg vacant]
  refine ⟨_, rfl, ?_⟩
  constructor
  · exact Index.applyRecord_mirrors h.mirrors r _
  · exact Index.applyRecord_mirrors h.table r r
  · intro b k
    simp only [Index.applyRecord_refs]
    split
    · cases r.delete with
      | true => exact .absent
      | false => exact .present held found
    · exact h.entry b k
  · intro b k ref href
    simp only [Index.applyRecord_refs] at href
    split at href
    · rename_i same
      split <;> simp_all
    have old := h.bucket b k ref href
    split
    · exact old
    · exact mem_append_left _ old
  · dsimp only
    split
    · exact h.nodup
    · rename_i absent
      exact List.Nodup.append h.nodup (nodup_singleton _) (by simpa using absent)
  · intro b k
    have before := h.pending b k
    simp only [Index.applyRecord_refs]
    by_cases same : b = r.bucket ∧ k = r.key
    · obtain ⟨rfl, rfl⟩ := same
      cases hb : historyBucket r.bucket with
      | false =>
        rw [hb] at before
        simpa using before
      | true =>
        cases hd : r.delete <;> cases hn : name.isHistory <;> simp [hn]
    · rw [if_neg same]
      have apart : (b, k) ≠ (r.bucket, r.key) := fun eq => same (Prod.mk.inj eq)
      split
      · split
        · rw [Finset.mem_erase]
          exact Iff.trans (and_iff_right apart) before
        · rw [Finset.mem_insert]
          exact Iff.trans (or_iff_right apart) before
      · exact before

theorem applyFrom_located (held : docs name = some doc) (snapshot : Bool) (rest : List (Record δ))
    (slot : Nat) (suffix : doc.drop slot = rest) (h : Located docs s t)
    (identified : ∀ r ∈ rest, r.bucket ≠ "" ∧ r.key ≠ "") (fresh : snapshot = true → (rest.map
      Record.identity).Nodup ∧ ∀ r ∈ rest, t.refs r.bucket r.key = none) :
    ∃ s', applyFrom s name snapshot slot rest = .ok s' ∧ Located docs s' (t.applyAll rest) := by
  induction rest generalizing slot s t with
  | nil => exact ⟨s, rfl, h⟩
  | cons r rest ih =>
    have found : doc[slot]? = some r := by
      rw [← head?_drop, suffix, head?_cons]
    have later : doc.drop (slot + 1) = rest := by
      rw [← tail_drop, suffix, tail_cons]
    obtain ⟨s₁, step, h₁⟩ := applyRecord_located h held found snapshot
      (identified r mem_cons_self) (fun hs => (fresh hs).2 r mem_cons_self)
    have fresh₁ : snapshot = true → (rest.map Record.identity).Nodup ∧
        ∀ r' ∈ rest, (t.applyRecord r r).refs r'.bucket r'.key = none := by
      intro hs
      obtain ⟨distinct, none⟩ := fresh hs
      obtain ⟨apart, distinct⟩ := nodup_cons.mp distinct
      refine ⟨distinct, fun r' hr => ?_⟩
      rw [Index.applyRecord_refs, if_neg]
      · exact none r' (mem_cons_of_mem r hr)
      · rintro ⟨hb, hk⟩
        exact apart (mem_map.mpr ⟨r', hr, Prod.ext hb hk⟩)
    obtain ⟨s', rest_ok, h'⟩ := ih (slot + 1) later h₁
      (fun r' hr => identified r' (mem_cons_of_mem r hr)) fresh₁
    refine ⟨s', ?_, h'⟩
    simp only [applyFrom, step]
    exact rest_ok

theorem applyFrom_framed (rest : List (Record δ))
    (done : applyFrom s name snapshot slot rest = .ok s') : Framed s s' := by
  induction rest generalizing slot s with
  | nil =>
    cases done
    exact Framed.refl _
  | cons r rest ih =>
    cases step : applyRecord s name snapshot slot r with
    | error e => simp [applyFrom, step, bind, Except.bind] at done
    | ok s₁ =>
      simp only [applyFrom, step] at done
      exact (applyRecord_ok step).1.trans (ih done)

theorem applyFrom_refs (rest : List (Record δ))
    (done : applyFrom s name snapshot slot rest = .ok s') (b k : String) :
    ((∀ r ∈ rest, r.identity ≠ (b, k)) ∧ s'.index.refs b k = s.index.refs b k) ∨
      ∃ i r, rest[i]? = some r ∧ r.identity = (b, k) ∧
        s'.index.refs b k = if r.delete then none else some (refer name (slot + i) r) := by
  induction rest generalizing slot s with
  | nil =>
    cases done
    exact .inl ⟨by simp, rfl⟩
  | cons r rest ih =>
    cases step : applyRecord s name snapshot slot r with
    | error e => simp [applyFrom, step, bind, Except.bind] at done
    | ok s₁ =>
      simp only [applyFrom, step] at done
      have first := (applyRecord_ok step).2
      rcases ih done with ⟨none, same⟩ | ⟨i, r', found, at', result⟩
      · by_cases here : b = r.bucket ∧ k = r.key
        · refine .inr ⟨0, r, rfl, Record.identity_eq.mpr here, ?_⟩
          rw [same, first, Index.applyRecord_refs, if_pos here]
          rfl
        · refine .inl ⟨?_, ?_⟩
          · intro r' hr
            rcases mem_cons.mp hr with rfl | hr
            · exact fun eq => here (Record.identity_eq.mp eq)
            · exact none r' hr
          · rw [same, first, Index.applyRecord_refs, if_neg here]
      · refine .inr ⟨i + 1, r', found, at', ?_⟩
        rw [result, Nat.add_right_comm, Nat.add_assoc]

variable (docs) in
/-- The store holds exactly the documents `loaded`, applied in this order. A history
page is never superseded: the references of its records still lead into it. -/
structure Loaded (s : Store) (loaded : List (Name × List (Record δ))) : Prop extends
    Located docs s (contents loaded) where
  file : ∀ b k ref, s.index.refs b k = some ref → ref.file ∈ loaded.map Prod.fst
  kept : ∀ p ∈ loaded, p.1.isHistory = true → ∀ i r, p.2[i]? = some r →
    s.index.refs r.bucket r.key = some (refer p.1 i r)

/-- What a document must meet to be applied after the documents `loaded`. -/
structure Appendable (loaded : List (Name × List (Record δ))) (name : Name)
    (doc : List (Record δ)) (snapshot : Bool) : Prop where
  identified : ∀ r ∈ doc, r.bucket ≠ "" ∧ r.key ≠ ""
  untouched : ∀ p ∈ loaded, p.1.isHistory = true → ∀ r' ∈ p.2, ∀ r ∈ doc,
    r.identity ≠ r'.identity
  history : name.isHistory = true → (doc.map Record.identity).Nodup ∧ ∀ r ∈ doc, r.delete = false
  fresh : snapshot = true → (doc.map Record.identity).Nodup ∧
    ∀ r ∈ doc, (contents loaded).refs r.bucket r.key = none

theorem getElem?_identity_unique (distinct : (doc.map Record.identity).Nodup) {i j : Nat}
    {r r' : Record δ} (hi : doc[i]? = some r) (hj : doc[j]? = some r')
    (same : r.identity = r'.identity) :
    i = j := by
  have bound : i < (doc.map Record.identity).length := by
    rw [length_map]
    exact (List.getElem?_eq_some_iff.mp hi).1
  apply (getElem?_inj bound distinct).mp
  rw [getElem?_map, getElem?_map, hi, hj, Option.map_some, Option.map_some, same]

theorem Loaded.apply (h : Loaded docs s loaded) (held : docs name = some doc)
    (fit : Appendable loaded name doc snapshot) :
    ∃ s', Jolt.State.apply s doc name snapshot = .ok s' ∧
      Loaded docs s' (loaded ++ [(name, doc)]) ∧ Framed s s' := by
  obtain ⟨s', done, located⟩ := applyFrom_located held snapshot doc 0 rfl h.toLocated
    fit.identified fit.fresh
  rw [← contents_append loaded name doc] at located
  refine ⟨s', done, ⟨located, ?_, ?_⟩, applyFrom_framed doc done⟩
  · intro b k ref href
    rw [map_append, mem_append]
    rcases applyFrom_refs doc done b k with ⟨_, same⟩ | ⟨i, r, _, _, result⟩
    · exact .inl (h.file b k ref (same ▸ href))
    rw [result] at href
    split at href
    · cases href
    · cases href
      exact .inr (mem_singleton.mpr rfl)
  · intro p hp hist i r found
    rcases mem_append.mp hp with hp | hp
    · have old := h.kept p hp hist i r found
      rcases applyFrom_refs doc done r.bucket r.key with ⟨_, same⟩ | ⟨j, r', hj, at', _⟩
      · rw [same, old]
      · exact absurd at' (fit.untouched p hp hist r (mem_of_getElem? found) r'
          (mem_of_getElem? hj))
    · cases mem_singleton.mp hp
      obtain ⟨distinct, live⟩ := fit.history hist
      rcases applyFrom_refs doc done r.bucket r.key with ⟨none, _⟩ | ⟨j, r', hj, at', result⟩
      · exact absurd rfl (none r (mem_of_getElem? found))
      cases getElem?_identity_unique distinct hj found at'
      cases Option.some.inj (hj.symm.trans found)
      rw [result, live r (mem_of_getElem? found), Nat.zero_add]
      rfl

theorem Loaded.rebase {docs' : Name → Option (List (Record δ))} (h : Loaded docs s loaded)
    (held : ∀ p ∈ loaded, docs p.1 = some p.2) (held' : ∀ p ∈ loaded, docs' p.1 = some p.2) :
    Loaded docs' s loaded := by
  have agree : ∀ b k ref, s.index.refs b k = some ref → ∀ doc, docs ref.file = some doc →
      docs' ref.file = some doc := by
    intro b k ref href doc found
    obtain ⟨p, hp, into⟩ := mem_map.mp (h.file b k ref href)
    rw [← into, held p hp] at found
    rw [← into, held' p hp, found]
  exact ⟨⟨h.mirrors, h.table, fun b k => (h.entry b k).mono (agree b k), h.bucket, h.nodup,
    h.pending⟩, h.file, h.kept⟩

/- Only the index, the buckets and the pending history take part. -/
theorem Loaded.congr (h : Loaded docs s loaded) (index : s'.index = s.index)
    (buckets : s'.buckets = s.buckets) (pending : s'.pendingHistory = s.pendingHistory) :
    Loaded docs s' loaded := by
  refine ⟨⟨?_, h.table, ?_, ?_, ?_, ?_⟩, ?_, ?_⟩
  · exact index ▸ h.mirrors
  · exact index ▸ h.entry
  · exact index ▸ buckets ▸ h.bucket
  · exact buckets ▸ h.nodup
  · exact index ▸ pending ▸ h.pending
  · exact index ▸ h.file
  · exact index ▸ h.kept

end Loading

section Listings

variable {δ : Type} {s s' : Store} {rs : List (Record δ)} {name : Name} {snapshot : Bool}

/-- The record last written for a key, unless that was a removal. -/
def current (rs : List (Record δ)) (bucket key : String) : Option (Record δ) :=
  rs.foldl (fun held r =>
    if bucket = r.bucket ∧ key = r.key then (if r.delete then none else some r) else held) none

def Selection.takes (sel : Selection) (r : Record δ) : Prop :=
  match sel.kind with
  | .all => sel.value = ""
  | .group => sel.value = r.group
  | .state => sel.value = r.state

/-- The store after these records, as far as its listings go. -/
structure Lists (s : Store) (rs : List (Record δ)) : Prop where
  mirrors : s.index.Mirrors
  placed : ∀ b k, (s.index.refs b k).map (fun ref => (ref.group, ref.order, ref.state)) =
    (current rs b k).map fun r => (r.group, r.order, r.state)

theorem Lists.applyFrom (doc : List (Record δ)) {slot : Nat} (lists : Lists s rs)
    (done : applyFrom s name snapshot slot doc = .ok s') : Lists s' (rs ++ doc) := by
  induction doc generalizing slot s rs with
  | nil =>
    cases done
    rwa [append_nil]
  | cons r doc ih =>
    cases step : applyRecord s name snapshot slot r with
    | error e => simp [State.applyFrom, step, bind, Except.bind] at done
    | ok s₁ =>
      simp only [State.applyFrom, step] at done
      have index := (applyRecord_ok step).2
      have next : Lists s₁ (rs ++ [r]) := by
        constructor
        · rw [index]
          exact Index.applyRecord_mirrors lists.mirrors r _
        · intro b k
          rw [index, Index.applyRecord_refs, current, foldl_append, foldl_cons, foldl_nil]
          split
          · split <;> rfl
          · exact lists.placed b k
      simpa using ih next done

theorem Lists.documents (docs : List (Name × Bool × List (Record δ))) (lists : Lists s rs)
    (done : docs.foldlM (fun s d => Jolt.State.apply s d.2.2 d.1 d.2.1) s = .ok s') :
    Lists s' (rs ++ docs.flatMap (·.2.2)) := by
  induction docs generalizing s rs with
  | nil =>
    cases done
    simpa using lists
  | cons d docs ih =>
    rw [foldlM_cons] at done
    cases step : Jolt.State.apply s d.2.2 d.1 d.2.1 with
    | error e => simp [step, bind, Except.bind] at done
    | ok s₁ =>
      rw [step] at done
      simpa using ih (lists.applyFrom d.2.2 step) done

/-- Whatever documents have been applied, a listing is in strictly increasing order and has exactly
the keys whose current record it is for. -/
theorem listings_mirror_records {id : String} (docs : List (Name × Bool × List (Record δ)))
    (done : docs.foldlM (fun s d => Jolt.State.apply s d.2.2 d.1 d.2.1) (emptyStore id) = .ok s)
    (sel : Selection) :
    let record := current (docs.flatMap (·.2.2)) sel.bucket
    let order key := ((record key).map Record.order).getD ""
    (s.index.ordered sel).Pairwise (fun a b => order a < order b ∨ order a = order b ∧ a < b) ∧
      ∀ key, key ∈ s.index.ordered sel ↔ ∃ r, record key = some r ∧ sel.takes r := by
  have start : Lists (emptyStore id) ([] : List (Record δ)) := ⟨Index.empty_mirrors, fun _ _ => rfl⟩
  obtain ⟨mirrors, placed⟩ := start.documents docs done
  rw [nil_append] at placed
  have orders (key : String) : s.index.orderOf sel.bucket key =
      ((current (docs.flatMap (·.2.2)) sel.bucket key).map Record.order).getD "" := by
    have same := congrArg (Option.map fun x => x.2.1) (placed sel.bucket key)
    simp only [Option.map_map, Function.comp_def] at same
    rw [Index.orderOf, ← same]
    rfl
  refine ⟨(mirrors.ranked sel).imp fun {a b} less => ?_, fun key => ?_⟩
  · simp only [← orders]
    exact Prod.Lex.toLex_lt_toLex.mp less
  · rw [mirrors.member sel key]
    have same := placed sel.bucket key
    cases found : s.index.refs sel.bucket key with
    | none =>
      rw [found, Option.map_none, eq_comm, Option.map_eq_none_iff] at same
      simp [same]
    | some ref =>
      rw [found, Option.map_some, eq_comm, Option.map_eq_some_iff] at same
      obtain ⟨r, held, facts⟩ := same
      simp only [Prod.mk.injEq] at facts
      obtain ⟨bucket, kind, value⟩ := sel
      cases kind <;> simp_all [Selection.takes, Index.selections, Placed.group, Placed.state]

/-- A record that changes its group. -/
def regrouped : List (Name × Bool × List (Record Unit)) :=
  [(.journal 1, false, [⟨"jobs", "j", "a", "2", "queued", false, some ()⟩]),
    (.journal 2, false, [⟨"jobs", "j", "b", "1", "queued", false, some ()⟩])]

theorem regrouped_listed : ∃ s : Store,
    regrouped.foldlM (fun s d => Jolt.State.apply s d.2.2 d.1 d.2.1) (emptyStore "00") = .ok s ∧
      "j" ∈ s.index.ordered ⟨"jobs", .group, "b"⟩ ∧ "j" ∉ s.index.ordered ⟨"jobs", .group, "a"⟩ := by
  refine ⟨_, rfl, ?_, ?_⟩
  · exact ((listings_mirror_records regrouped rfl _).2 "j").mpr ⟨_, rfl, rfl⟩
  · rw [(listings_mirror_records regrouped rfl _).2 "j"]
    rintro ⟨r, found, takes⟩
    cases found
    exact absurd takes (by decide : "a" ≠ "b")

end Listings

end Jolt.State
