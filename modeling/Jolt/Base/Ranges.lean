import Mathlib

/-! Stretches of a list and ranges of positions: a file that is written over piece by piece
until it agrees with a source, and ranges that tile an interval. -/
namespace Jolt.Base
open List

section Writing

variable {α : Type}

/-- A file with some of it written over from an offset on. -/
def writeAt (file : List α) (offset : Nat) (piece : List α) : List α :=
  file.take offset ++ piece ++ file.drop (offset + piece.length)

def stretch (source : List α) (start count : Nat) : List α := (source.drop start).take count

/-- A file cut to a length, or filled up to it. -/
def resize (fill : α) (file : List α) (length : Nat) : List α :=
  file.take length ++ List.replicate (length - file.length) fill

def AgreesOn (source file : List α) (lo hi : Int) : Prop :=
  ∀ i : Nat, lo ≤ i → (i : Int) < hi → file[i]? = source[i]?

variable {source file piece : List α} {fill : α} {lo mid hi : Int} {offset count length : Nat}

theorem length_writeAt (fits : offset + piece.length ≤ file.length) :
    (writeAt file offset piece).length = file.length := by
  simp only [writeAt, length_append, length_take, length_drop]
  omega

theorem writeAt_end (file piece : List α) : writeAt file file.length piece = file ++ piece := by
  simp [writeAt]

/-- A start of the source and the stretch behind it. -/
theorem prefix_append_stretch (start : file <+: source) (count : Nat) :
    file ++ stretch source file.length count <+: source := by
  obtain ⟨rest, rfl⟩ := start
  rw [stretch, drop_left, prefix_append_right_inj]
  exact take_prefix count rest

theorem getElem?_writeAt (inside : offset ≤ file.length) (i : Nat) :
    (writeAt file offset piece)[i]? =
      if i < offset then file[i]? else if i < offset + piece.length then piece[i - offset]?
      else file[i]? := by
  have front : (file.take offset).length = offset := length_take_of_le inside
  rw [writeAt, append_assoc, getElem?_append, front]
  split_ifs with before within
  · exact getElem?_take_of_lt before
  · exact getElem?_append_left (by omega)
  rw [getElem?_append_right (by omega), getElem?_drop]
  congr 1
  omega

theorem getElem?_stretch {i : Nat} (here : i < count) :
    (stretch source offset count)[i]? = source[offset + i]? := by
  rw [stretch, getElem?_take_of_lt here, getElem?_drop]

theorem length_stretch (fits : offset + count ≤ source.length) :
    (stretch source offset count).length = count := by
  simp only [stretch, length_take, length_drop]
  omega

/-- Writing what the source has there breaks no agreement. -/
theorem AgreesOn.write (agrees : AgreesOn source file lo hi)
    (fits : offset + count ≤ source.length) (inside : offset ≤ file.length) :
    AgreesOn source (writeAt file offset (stretch source offset count)) lo hi := by
  intro i from_ to_
  rw [getElem?_writeAt inside, length_stretch fits]
  split_ifs with before within
  · exact agrees i from_ to_
  · rw [getElem?_stretch (by omega)]
    congr 1
    omega
  · exact agrees i from_ to_

theorem agreesOn_written (fits : offset + count ≤ source.length) (inside : offset ≤ file.length) :
    AgreesOn source (writeAt file offset (stretch source offset count)) offset (offset + count) := by
  intro i from_ to_
  rw [getElem?_writeAt inside, length_stretch fits, if_neg (by omega), if_pos (by omega),
    getElem?_stretch (by omega)]
  congr 1
  omega

theorem AgreesOn.append (first : AgreesOn source file lo mid) (second : AgreesOn source file mid hi) :
    AgreesOn source file lo hi := by
  intro i from_ to_
  by_cases before : (i : Int) < mid
  · exact first i from_ before
  · exact second i (by omega) to_

theorem AgreesOn.mono {lo' hi' : Int} (agrees : AgreesOn source file lo hi) (later : lo ≤ lo')
    (sooner : hi' ≤ hi) : AgreesOn source file lo' hi' :=
  fun i from_ to_ => agrees i (by omega) (by omega)

theorem eq_of_agreesOn (same : file.length = source.length)
    (agrees : AgreesOn source file 0 source.length) : file = source := by
  refine ext_getElem? fun i => ?_
  by_cases inside : i < source.length
  · exact agrees i (by omega) (by omega)
  · rw [getElem?_eq_none (by omega), getElem?_eq_none (by omega)]

theorem length_resize : (resize fill file length).length = length := by
  simp only [resize, length_append, length_take, length_replicate]
  omega

/-- What is left of a file after a change of its length is as it was. -/
theorem AgreesOn.resize (agrees : AgreesOn source file lo hi) (within : hi ≤ length)
    (there : hi ≤ file.length) : AgreesOn source (resize fill file length) lo hi := by
  intro i from_ to_
  rw [Base.resize, getElem?_append_left (by rw [length_take]; omega),
    getElem?_take_of_lt (by omega)]
  exact agrees i from_ to_

theorem agreesOn_of_take {n : Nat} (same : file.take n = source.take n) :
    AgreesOn source file 0 n := by
  intro i _ to_
  have here : i < n := by omega
  rw [← getElem?_take_of_lt here, same, getElem?_take_of_lt here]

theorem take_of_agreesOn {n : Nat} (agrees : AgreesOn source file 0 n) :
    file.take n = source.take n := by
  refine ext_getElem? fun i => ?_
  rw [getElem?_take, getElem?_take]
  split_ifs with here
  · exact agrees i (by omega) (by omega)
  · rfl

end Writing

section Tiles

/-- Ranges that follow on each other from one position to another. -/
def Tiles : Int → List (Int × Int) → Int → Prop
  | lo, [], hi => lo = hi
  | lo, r :: rest, hi => r.1 = lo ∧ r.1 < r.2 ∧ Tiles r.2 rest hi

variable {lo mid hi : Int} {rs ss : List (Int × Int)}

theorem Tiles.le (tiles : Tiles lo rs hi) : lo ≤ hi := by
  induction rs generalizing lo with
  | nil => exact Int.le_of_eq tiles
  | cons r rest ih =>
    obtain ⟨rfl, proper, later⟩ := tiles
    exact Int.le_trans (Int.le_of_lt proper) (ih later)

theorem Tiles.append (first : Tiles lo rs mid) (second : Tiles mid ss hi) :
    Tiles lo (rs ++ ss) hi := by
  induction rs generalizing lo with
  | nil =>
    obtain rfl : lo = mid := first
    exact second
  | cons r rest ih =>
    obtain ⟨start, proper, later⟩ := first
    exact ⟨start, proper, ih later⟩

theorem Tiles.concat (tiles : Tiles lo rs mid) (proper : mid < hi) :
    Tiles lo (rs ++ [(mid, hi)]) hi :=
  tiles.append ⟨rfl, proper, rfl⟩

theorem Tiles.inside (tiles : Tiles lo rs hi) : ∀ r ∈ rs, lo ≤ r.1 ∧ r.1 < r.2 ∧ r.2 ≤ hi := by
  induction rs generalizing lo with
  | nil => simp
  | cons r rest ih =>
    obtain ⟨rfl, proper, later⟩ := tiles
    have bound := later.le
    refine forall_mem_cons.mpr ⟨⟨Int.le_refl _, proper, bound⟩, fun s inside => ?_⟩
    obtain ⟨after, before⟩ := ih later s inside
    exact ⟨by omega, before⟩

/-- No position is in two of the ranges. -/
theorem Tiles.disjoint (tiles : Tiles lo rs hi) : rs.Pairwise fun r s => r.2 ≤ s.1 := by
  induction rs generalizing lo with
  | nil => exact .nil
  | cons r rest ih =>
    obtain ⟨_, _, later⟩ := tiles
    exact .cons (fun s inside => (later.inside s inside).1) (ih later)

/-- Every position is in one of the ranges. -/
theorem Tiles.cover (tiles : Tiles lo rs hi) {x : Int} (after : lo ≤ x) (before : x < hi) :
    ∃ r ∈ rs, r.1 ≤ x ∧ x < r.2 := by
  induction rs generalizing lo with
  | nil =>
    have same : lo = hi := tiles
    omega
  | cons r rest ih =>
    obtain ⟨rfl, proper, later⟩ := tiles
    by_cases here : x < r.2
    · exact ⟨r, mem_cons_self, after, here⟩
    · obtain ⟨s, inside, found⟩ := ih later (by omega)
      exact ⟨s, mem_cons_of_mem r inside, found⟩

/-- A file that agrees with its source on each of the ranges agrees on all of them. -/
theorem Tiles.agreesOn {α : Type} {source file : List α} (tiles : Tiles lo rs hi)
    (each : ∀ r ∈ rs, AgreesOn source file r.1 r.2) : AgreesOn source file lo hi := by
  intro i from_ to_
  obtain ⟨r, inside, after, before⟩ := tiles.cover from_ to_
  exact each r inside i after before

end Tiles

end Jolt.Base
