import Mathlib
import Jolt.Base.Search

/-! The record index of the node state and its ordered listings. The index maps a
bucket and a key to a reference; every listing keeps the keys of one bucket, of
one group or of one job state in increasing (order, key). What a reference is
stays open here: the running store refers to a file and a slot, and the table a
transaction reads holds the record itself. -/
namespace Jolt.State
open Jolt.Base

/-- One change of a transaction. `data` is the encoded value, absent on a removal. -/
structure Record (δ : Type) where
  bucket : String
  key : String
  group : String := ""
  order : String := ""
  state : String := ""
  delete : Bool := false
  data : Option δ := none
  deriving DecidableEq

inductive SelectionKind where
  | all | group | state
  deriving DecidableEq, Repr

/-- Names one listing, as `indexSelection` does. -/
structure Selection where
  bucket : String
  kind : SelectionKind
  value : String
  deriving DecidableEq, Repr

/-- What a listing needs to know of a reference. -/
class Placed (ρ : Type) where
  group : ρ → String
  order : ρ → String
  state : ρ → String

instance {δ : Type} : Placed (Record δ) := ⟨Record.group, Record.order, Record.state⟩

structure Index (ρ : Type) where
  refs : String → String → Option ρ
  ordered : Selection → List String

namespace Index

variable {ρ : Type}
variable {bucket key : String} {ix : Index ρ}

def empty : Index ρ := ⟨fun _ _ => none, fun _ => []⟩

def setRef (ix : Index ρ) (bucket key : String) (r : Option ρ) : Index ρ :=
  { ix with refs := Function.update ix.refs bucket (Function.update (ix.refs bucket) key r) }

@[simp] theorem setRef_ordered (ix : Index ρ) (bucket key : String) (r : Option ρ) :
    (ix.setRef bucket key r).ordered = ix.ordered := rfl

theorem setRef_refs (ix : Index ρ) (bucket key : String) (r : Option ρ) (b k : String) :
    (ix.setRef bucket key r).refs b k = if b = bucket ∧ k = key then r else ix.refs b k := by
  unfold setRef
  by_cases hb : b = bucket
  · subst hb
    by_cases hk : k = key
    · subst hk
      simp
    · simp [hk]
  · simp [hb]

variable [Placed ρ]

def selections (bucket : String) (r : ρ) : List Selection :=
  [⟨bucket, .all, ""⟩, ⟨bucket, .group, Placed.group r⟩, ⟨bucket, .state, Placed.state r⟩]

/- A key the index does not hold reads as the zero reference, whose order is empty. -/
def orderOf (ix : Index ρ) (bucket id : String) : String :=
  ((ix.refs bucket id).map Placed.order).getD ""

def indexPosition (ix : Index ρ) (ids : List String) (bucket key order : String) : Nat :=
  position ids (fun id =>
    let other := ix.orderOf bucket id
    decide (order < other) || (decide (other = order) && decide (key ≤ id)))

/- Go writes each selection of the record in turn; the three differ in kind. -/
def adjust (change : List String → List String) (ordered : Selection → List String)
    (sels : List Selection) : Selection → List String :=
  sels.foldl (fun acc sel => Function.update acc sel (change (acc sel))) ordered

def removeOrdered (ix : Index ρ) (bucket key : String) (r : ρ) : Index ρ :=
  { ix with
    ordered := adjust (fun ids =>
      let i := ix.indexPosition ids bucket key (Placed.order r)
      if ids[i]? = some key then ids.eraseIdx i else ids) ix.ordered (selections bucket r) }

def insertOrdered (ix : Index ρ) (bucket key : String) (r : ρ) : Index ρ :=
  { ix with
    ordered := adjust (fun ids =>
      let i := ix.indexPosition ids bucket key (Placed.order r)
      ids.take i ++ key :: ids.drop i) ix.ordered (selections bucket r) }

def changed (old : Option ρ) (next : ρ) : Bool :=
  match old with
  | none => true
  | some old => decide (Placed.group old ≠ Placed.group next ∨
      Placed.order old ≠ Placed.order next ∨ Placed.state old ≠ Placed.state next)

/-- The index part of one turn of the loop in `apply`; `next` refers to `r`. -/
def applyRecord {δ : Type} (ix : Index ρ) (r : Record δ) (next : ρ) : Index ρ :=
  let old := ix.refs r.bucket r.key
  let removed := match old with
    | some ref => if r.delete || changed old next then ix.removeOrdered r.bucket r.key ref else ix
    | none => ix
  if r.delete then removed.setRef r.bucket r.key none
  else
    let stored := removed.setRef r.bucket r.key (some next)
    if changed old next then stored.insertOrdered r.bucket r.key next else stored

/-- `keys`: the listing of a whole bucket, or of one group of it. -/
def keys (ix : Index ρ) (bucket group : String) : List String :=
  ix.ordered ⟨bucket, if group = "" then .all else .group, group⟩

def rank (ix : Index ρ) (bucket id : String) : String ×ₗ String := toLex (ix.orderOf bucket id, id)

/-- Every listing is strictly increasing and holds exactly the keys it is for. -/
structure Mirrors (ix : Index ρ) : Prop where
  ranked : ∀ sel, Ranked (ix.rank sel.bucket) (ix.ordered sel)
  member : ∀ sel id, id ∈ ix.ordered sel ↔
    ∃ r, ix.refs sel.bucket id = some r ∧ sel ∈ selections sel.bucket r

theorem empty_mirrors : (empty : Index ρ).Mirrors := by
  constructor
  · intro sel
    exact List.Pairwise.nil
  · intro sel id
    simp [empty]

theorem adjust_apply (change : List String → List String) (ordered : Selection → List String)
    (sels : List Selection) (nodup : sels.Nodup) (sel : Selection) :
    adjust change ordered sels sel =
      if sel ∈ sels then change (ordered sel) else ordered sel := by
  unfold adjust
  induction sels generalizing ordered with
  | nil => simp
  | cons first rest ih =>
    obtain ⟨fresh, tail⟩ := List.nodup_cons.mp nodup
    rw [List.foldl_cons, ih _ tail]
    by_cases same : sel = first
    · subst same
      simp [fresh]
    · simp [same]

theorem selections_nodup (bucket : String) (r : ρ) : (selections bucket r).Nodup := by
  simp [selections]

theorem selections_bucket {r : ρ} {sel : Selection} (h : sel ∈ selections bucket r) :
    sel.bucket = bucket := by
  simp only [selections, List.mem_cons, List.not_mem_nil, or_false] at h
  rcases h with rfl | rfl | rfl <;> rfl

/- The source compares orders first and keys second; that is the rank comparison. -/
theorem indexPosition_eq (ix : Index ρ) (ids : List String) (bucket key order : String) :
    ix.indexPosition ids bucket key order =
      position ids (fun id => decide (toLex (order, key) ≤ ix.rank bucket id)) := by
  unfold indexPosition
  congr 1
  funext id
  rw [Bool.eq_iff_iff]
  simp only [Bool.or_eq_true, Bool.and_eq_true, decide_eq_true_eq, rank, Prod.Lex.toLex_le_toLex]
  exact or_congr Iff.rfl (and_congr_left fun _ => eq_comm)

theorem rank_injective (ix : Index ρ) (bucket : String) {a b : String}
    (same : ix.rank bucket a = ix.rank bucket b) : a = b :=
  congrArg (fun pair => (ofLex pair).2) same

theorem rank_of_ref {r : ρ} (found : ix.refs bucket key = some r) :
    ix.rank bucket key = toLex (Placed.order r, key) := by
  simp [rank, orderOf, found]

@[simp] theorem removeOrdered_refs (ix : Index ρ) (bucket key : String) (r : ρ) :
    (ix.removeOrdered bucket key r).refs = ix.refs := rfl

@[simp] theorem insertOrdered_refs (ix : Index ρ) (bucket key : String) (r : ρ) :
    (ix.insertOrdered bucket key r).refs = ix.refs := rfl

theorem setRef_rank (ix : Index ρ) (r : Option ρ) {b k : String}
    (other : ¬ (b = bucket ∧ k = key)) :
    (ix.setRef bucket key r).rank b k = ix.rank b k := by
  simp [rank, orderOf, setRef_refs, other]

/-- The listings hold every key of the index except one. -/
structure MirrorsExcept (ix : Index ρ) (bucket key : String) : Prop where
  ranked : ∀ sel, Ranked (ix.rank sel.bucket) (ix.ordered sel)
  member : ∀ sel id, id ∈ ix.ordered sel ↔
    (∃ r, ix.refs sel.bucket id = some r ∧ sel ∈ selections sel.bucket r) ∧
      ¬ (sel.bucket = bucket ∧ id = key)

theorem removeOrdered_mirrors (h : ix.Mirrors) {r : ρ} (found : ix.refs bucket key = some r) :
    (ix.removeOrdered bucket key r).MirrorsExcept bucket key := by
  have listing : ∀ sel, (ix.removeOrdered bucket key r).ordered sel =
      if sel ∈ selections bucket r then (ix.ordered sel).eraseIdx
        (position (ix.ordered sel) (fun id => decide (ix.rank bucket key ≤ ix.rank bucket id)))
      else ix.ordered sel := by
    intro sel
    simp only [removeOrdered, adjust_apply _ _ _ (selections_nodup bucket r)]
    by_cases hs : sel ∈ selections bucket r
    · have same := selections_bucket hs
      have mem : key ∈ ix.ordered sel :=
        (h.member sel key).mpr ⟨r, by rw [same]; exact found, by rw [same]; exact hs⟩
      have standing := (same ▸ h.ranked sel).position_self mem
      simp only [hs, if_true, indexPosition_eq, ← rank_of_ref found, standing]
    · simp only [hs, if_false]
  constructor
  · intro sel
    rw [listing sel]
    split
    · exact (h.ranked sel).erase _
    · exact h.ranked sel
  · intro sel id
    rw [listing sel]
    by_cases hs : sel ∈ selections bucket r
    · have same := selections_bucket hs
      have mem : key ∈ ix.ordered sel :=
        (h.member sel key).mpr ⟨r, by rw [same]; exact found, by rw [same]; exact hs⟩
      have standing := (same ▸ h.ranked sel).position_self mem
      rw [if_pos hs, (h.ranked sel).erase_mem standing id, h.member sel id]
      simp [same]
    · rw [if_neg hs, h.member sel id, removeOrdered_refs]
      constructor
      · rintro ⟨ref, href, hsel⟩
        refine ⟨⟨ref, href, hsel⟩, ?_⟩
        rintro ⟨hb, rfl⟩
        rw [hb, found] at href
        cases href
        exact hs (hb ▸ hsel)
      · exact fun both => both.1

theorem mirrors_except_of_absent (h : ix.Mirrors) (absent : ix.refs bucket key = none) :
    ix.MirrorsExcept bucket key := by
  refine ⟨h.ranked, fun sel id => ?_⟩
  rw [h.member sel id]
  constructor
  · rintro ⟨ref, href, hsel⟩
    refine ⟨⟨ref, href, hsel⟩, ?_⟩
    rintro ⟨hb, rfl⟩
    rw [hb, absent] at href
    cases href
  · exact fun both => both.1

theorem setRef_mirrorsExcept (h : ix.MirrorsExcept bucket key) (r : Option ρ) :
    (ix.setRef bucket key r).MirrorsExcept bucket key := by
  constructor
  · intro sel
    apply (h.ranked sel).congr
    intro id hid
    exact setRef_rank ix r ((h.member sel id).mp hid).2
  · intro sel id
    rw [setRef_ordered, h.member sel id]
    apply and_congr_left
    intro other
    simp only [setRef_refs, other, if_false]

theorem mirrors_of_absent (h : ix.MirrorsExcept bucket key) (absent : ix.refs bucket key = none) :
    ix.Mirrors := by
  refine ⟨h.ranked, fun sel id => ?_⟩
  rw [h.member sel id]
  constructor
  · exact fun both => both.1
  rintro ⟨ref, href, hsel⟩
  refine ⟨⟨ref, href, hsel⟩, ?_⟩
  rintro ⟨hb, rfl⟩
  rw [hb, absent] at href
  cases href

theorem insertOrdered_mirrors {r : ρ} (h : ix.MirrorsExcept bucket key)
    (found : ix.refs bucket key = some r) :
    (ix.insertOrdered bucket key r).Mirrors := by
  have fresh : ∀ sel, sel.bucket = bucket → key ∉ ix.ordered sel :=
    fun sel hb mem => ((h.member sel key).mp mem).2 ⟨hb, rfl⟩
  have listing : ∀ sel, (ix.insertOrdered bucket key r).ordered sel =
      if sel ∈ selections bucket r then
        (ix.ordered sel).take
          (position (ix.ordered sel) (fun id => decide (ix.rank bucket key ≤ ix.rank bucket id))) ++
        key :: (ix.ordered sel).drop
          (position (ix.ordered sel) (fun id => decide (ix.rank bucket key ≤ ix.rank bucket id)))
      else ix.ordered sel := by
    intro sel
    simp only [insertOrdered, adjust_apply _ _ _ (selections_nodup bucket r), indexPosition_eq,
      ← rank_of_ref found]
  have member_split : ∀ (ids : List String) (p : Nat) (id : String),
      id ∈ ids.take p ++ key :: ids.drop p ↔ id ∈ ids ∨ id = key := by
    intro ids p id
    rw [List.mem_append, List.mem_cons]
    conv_rhs => rw [← List.take_append_drop p ids, List.mem_append]
    tauto
  constructor
  · intro sel
    change Ranked (ix.rank sel.bucket) _
    rw [listing sel]
    split
    · rename_i hs
      have same := selections_bucket hs
      subst same
      exact (h.ranked sel).insert (fresh sel rfl) (fun a _ eq => ix.rank_injective _ eq)
    · exact h.ranked sel
  · intro sel id
    rw [listing sel, insertOrdered_refs]
    by_cases hs : sel ∈ selections bucket r
    · have same := selections_bucket hs
      rw [if_pos hs, member_split, h.member sel id]
      constructor
      · rintro (⟨whole, _⟩ | rfl)
        · exact whole
        · exact ⟨r, by rw [same]; exact found, by rw [same]; exact hs⟩
      · intro whole
        by_cases hk : id = key
        · exact .inr hk
        · exact .inl ⟨whole, fun both => hk both.2⟩
    · rw [if_neg hs, h.member sel id]
      constructor
      · exact fun both => both.1
      rintro ⟨ref, href, hsel⟩
      refine ⟨⟨ref, href, hsel⟩, ?_⟩
      rintro ⟨hb, rfl⟩
      rw [hb, found] at href
      cases href
      exact hs (hb ▸ hsel)

/- A replacement that keeps group, order and state leaves every listing right. -/
theorem setRef_mirrors_same (h : ix.Mirrors) {old next : ρ} (found : ix.refs bucket key = some old)
    (same : changed (some old) next = false) :
    (ix.setRef bucket key (some next)).Mirrors := by
  simp only [changed, decide_eq_false_iff_not, not_or, not_not] at same
  obtain ⟨hg, ho, hst⟩ := same
  have ranks : ∀ b k, (ix.setRef bucket key (some next)).rank b k = ix.rank b k := by
    intro b k
    by_cases other : b = bucket ∧ k = key
    · obtain ⟨rfl, rfl⟩ := other
      simp [rank, orderOf, setRef_refs, found, ho]
    · exact setRef_rank ix _ other
  constructor
  · intro sel
    exact (h.ranked sel).congr (fun id _ => ranks sel.bucket id)
  intro sel id
  rw [setRef_ordered, h.member sel id]
  by_cases other : sel.bucket = bucket ∧ id = key
  · obtain ⟨rfl, rfl⟩ := other
    simp [setRef_refs, found, selections, hg, hst]
  · simp only [setRef_refs, other, if_false]

variable {δ : Type}

theorem applyRecord_refs (ix : Index ρ) (r : Record δ) (next : ρ) (b k : String) :
    (ix.applyRecord r next).refs b k =
      if b = r.bucket ∧ k = r.key then (if r.delete then none else some next)
      else ix.refs b k := by
  unfold applyRecord
  have kept : ∀ old : Option ρ, (match old with
      | some ref => if r.delete || changed old next then ix.removeOrdered r.bucket r.key ref else ix
      | none => ix).refs = ix.refs := by
    intro old
    cases old with
    | none => rfl
    | some ref => dsimp only; split <;> rfl
  have read := kept (ix.refs r.bucket r.key)
  cases hd : r.delete with
  | true =>
    simp only [hd] at read ⊢
    simp only [if_true, setRef_refs, read]
  | false =>
    simp only [hd] at read ⊢
    simp only [Bool.false_eq_true, if_false]
    split <;> simp only [insertOrdered_refs, setRef_refs, read]

theorem applyRecord_mirrors (h : ix.Mirrors) (r : Record δ) (next : ρ) :
    (ix.applyRecord r next).Mirrors := by
  unfold applyRecord
  cases found : ix.refs r.bucket r.key with
  | none =>
    have except := mirrors_except_of_absent h found
    cases hd : r.delete with
    | true =>
      simp only [if_true]
      exact mirrors_of_absent (setRef_mirrorsExcept except none) (by simp [setRef_refs])
    | false =>
      simp only [Bool.false_eq_true, if_false, changed, if_true]
      exact insertOrdered_mirrors (setRef_mirrorsExcept except (some next)) (by simp [setRef_refs])
  | some old =>
    have except := removeOrdered_mirrors h found
    cases hd : r.delete with
    | true =>
      simp only [Bool.true_or, if_true]
      exact mirrors_of_absent (setRef_mirrorsExcept except none) (by simp [setRef_refs])
    | false =>
      cases hc : changed (some old) next with
      | true =>
        simp only [hc, Bool.or_true, if_true, Bool.false_eq_true, if_false]
        exact insertOrdered_mirrors (setRef_mirrorsExcept except (some next))
          (by simp [setRef_refs])
      | false =>
        simp only [hc, Bool.or_self, Bool.false_eq_true, if_false]
        exact setRef_mirrors_same h found hc

theorem ordered_unique {σ : Type} [Placed σ] {other : Index σ} (h : ix.Mirrors) (h' : other.Mirrors)
    (absent : ∀ b k, ix.refs b k = none ↔ other.refs b k = none) (alike : ∀ b k r s, ix.refs b k =
      some r → other.refs b k = some s → Placed.group r = Placed.group s ∧ Placed.order r =
      Placed.order s ∧ Placed.state r = Placed.state s) : ix.ordered = other.ordered := by
  have orders : ∀ b k, ix.orderOf b k = other.orderOf b k := by
    intro b k
    unfold orderOf
    cases hi : ix.refs b k with
    | none => rw [(absent b k).mp hi]; rfl
    | some r =>
      cases ho : other.refs b k with
      | none => rw [(absent b k).mpr ho] at hi; cases hi
      | some s => simp [(alike b k r s hi ho).2.1]
  funext sel
  apply (h.ranked sel).unique
  · apply (h'.ranked sel).congr
    intro id _
    simp only [rank, orders]
  · intro id
    rw [h.member sel id, h'.member sel id]
    cases hi : ix.refs sel.bucket id with
    | none => simp [(absent sel.bucket id).mp hi]
    | some r =>
      cases ho : other.refs sel.bucket id with
      | none => rw [(absent sel.bucket id).mpr ho] at hi; cases hi
      | some s =>
        obtain ⟨hg, _, hst⟩ := alike sel.bucket id r s hi ho
        simp [selections, hg, hst]

end Index

end Jolt.State
