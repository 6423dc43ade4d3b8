import Jolt.Base.Ranges

/-! A source copied into a file in batches of ranges, the ranges of a batch by workers that
write in any order. Positions are 64-bit integers that wrap around. A copy whose positions
wrap can come to no end without a worker that reads before the start of the source, and such
a worker never finishes; so a copy that ends has tiled the source. -/
namespace Jolt.Base
open List

section Engine

/-- The 64-bit value of an integer. -/
def wrap (n : Int) : Int := (n + 2 ^ 63) % 2 ^ 64 - 2 ^ 63

/-- The copy of one range; one that is not ready has yet to be given its data. -/
structure Worker where
  start : Int
  stop : Int
  offset : Int
  ready : Bool
  ended : Bool := false
  deriving DecidableEq

def Worker.range (w : Worker) : Int × Int := (w.start, w.stop)

/-- A batch up to `stop`; the ranges from `next` on have not been made yet. -/
structure RangeBatch where
  stop : Int
  next : Int
  workers : List Worker
  deriving DecidableEq

structure RangedCopy where
  size : Int
  chunk : Int
  parallel : Int
  completed : Int
  batch : Option RangeBatch := none
  copied : List (Int × Int) := []
  deriving DecidableEq

namespace RangedCopy

variable (c : RangedCopy)

/-- How far a batch reaches. -/
def span : Int := wrap (c.chunk * c.parallel)

def openBatch : Option RangedCopy :=
  if c.completed < c.size ∧ c.batch = none then
    some { c with
      batch := some ⟨min c.size (wrap (c.completed + c.span)), c.completed, []⟩ }
  else none

/-- One more range of the batch. -/
def spawn (ready : Bool) : Option RangedCopy :=
  match c.batch with
  | none => none
  | some b =>
    if b.next < b.stop then
      some { c with batch := some { b with
        next := wrap (b.next + c.chunk)
        workers := b.workers ++
          [⟨b.next, min b.stop (wrap (b.next + c.chunk)), b.next, ready, false⟩] } }
    else none

/-- A worker, once the ranges of the batch have all been made. -/
def worker (i : Nat) : Option Worker :=
  match c.batch with
  | none => none
  | some b => if b.next < b.stop then none else b.workers[i]?

def set (i : Nat) (w : Worker) : RangedCopy :=
  { c with batch := c.batch.map fun b => { b with workers := b.workers.set i w } }

/-- A worker is given its data. -/
def supply (i : Nat) : Option RangedCopy :=
  match c.worker i with
  | none => none
  | some w => if w.ready ∨ w.ended then none else some (c.set i { w with ready := true })

/-- A worker writes so much of the source where it stands. -/
def write {α : Type} (source file : List α) (i count : Nat) : Option (List α × RangedCopy) :=
  match c.worker i with
  | none => none
  | some w =>
    if w.ready ∧ w.ended = false ∧ 0 ≤ w.offset ∧ w.offset + count ≤ w.stop then
      some (writeAt file w.offset.toNat (stretch source w.offset.toNat count),
        c.set i { w with offset := w.offset + count })
    else none

def finish (i : Nat) : Option RangedCopy :=
  match c.worker i with
  | none => none
  | some w =>
    if w.ready ∧ w.ended = false ∧ w.stop ≤ w.offset then some (c.set i { w with ended := true })
    else none

def closeBatch : Option RangedCopy :=
  match c.batch with
  | none => none
  | some b =>
    if b.next < b.stop then none
    else if b.workers.all Worker.ended then
      some { c with
        completed := b.stop, batch := none
        copied := c.copied ++ b.workers.map Worker.range }
    else none

end RangedCopy

end Engine

section Invariant

variable {c' : RangedCopy} {i : Nat}

theorem wrap_range (n : Int) : -2 ^ 63 ≤ wrap n ∧ wrap n < 2 ^ 63 := by
  unfold wrap
  omega

theorem wrap_small {n : Int} (low : -2 ^ 63 ≤ n) (high : n < 2 ^ 63) : wrap n = n := by
  unfold wrap
  omega

theorem wrap_large {n : Int} (low : 2 ^ 63 ≤ n) (high : n < 2 ^ 64) : wrap n < 0 := by
  unfold wrap
  omega

/-- Only a step forwards leads forwards. -/
theorem pos_of_lt_wrap {n s : Int} (after : 0 ≤ n ∧ n < 2 ^ 63) (range : -2 ^ 63 ≤ s ∧ s < 2 ^ 63)
    (ahead : n < wrap (n + s)) : 0 < s := by
  by_contra back
  have still := wrap_small (n := n + s) (by omega) (by omega)
  omega

/-- A step forwards that leads back has wrapped. -/
theorem wrap_neg {n s : Int} (after : 0 ≤ n ∧ n < 2 ^ 63) (range : -2 ^ 63 ≤ s ∧ s < 2 ^ 63)
    (forwards : 0 < s) (back : wrap (n + s) < n) : wrap (n + s) < 0 := by
  refine wrap_large ?_ (by omega)
  by_contra near
  have still := wrap_small (n := n + s) (by omega) (by omega)
  omega

variable {α : Type} (source file : List α) (accepted : Int) (c : RangedCopy)

/-- What has been copied follows on the position the copy started from. -/
structure Ahead : Prop where
  after : accepted ≤ c.completed
  inside : c.completed ≤ c.size
  tiles : Tiles accepted c.copied c.completed
  agrees : AgreesOn source file 0 c.completed
  moves : 0 < c.span ∨ c.completed = accepted

/-- The position has wrapped, or batches do not reach forwards. -/
structure Lost : Prop where
  behind : c.completed < accepted
  stuck : c.completed < 0 ∨ c.span ≤ 0

variable (b : RangeBatch)

/-- The ranges made so far follow on each other, and each worker has written what lies
behind it. -/
structure Tiled : Prop where
  after : 0 ≤ c.completed
  proper : c.completed < b.stop
  cursor : c.completed ≤ b.next
  tiles : Tiles c.completed (b.workers.map Worker.range) (min b.next b.stop)
  written : ∀ w ∈ b.workers, AgreesOn source file w.start w.offset ∧
    (w.ended = true → w.stop ≤ w.offset)

structure Idle : Prop where
  reached : b.stop ≤ c.completed
  cursor : b.next = c.completed
  workers : b.workers = []

/-- A worker has been sent before the start of the source, or will be. -/
def Astray : Prop :=
  b.next < 0 ∧ b.next < b.stop ∨
    ∃ w ∈ b.workers, w.offset < 0 ∧ w.offset < w.stop ∧ w.ended = false

structure Batched : Prop where
  unfinished : c.completed < c.size
  low : -2 ^ 63 ≤ b.next
  reach : b.stop = min c.size (wrap (c.completed + c.span))
  stops : ∀ w ∈ b.workers, w.stop ≤ c.size
  state : Tiled source file c b ∨ Idle c b ∨ Astray b

structure Copying : Prop where
  size : c.size = source.length
  length : file.length = source.length
  short : c.size < 2 ^ 63
  chunk : 0 < c.chunk ∧ c.chunk < 2 ^ 63
  low : -2 ^ 63 ≤ c.completed
  start : 0 ≤ accepted ∧ accepted ≤ c.size
  kept : AgreesOn source file 0 accepted
  progress : Ahead source file accepted c ∨ Lost accepted c
  batch : ∀ b ∈ c.batch, Batched source file c b

variable {source file accepted c b}

/-- A step that only changes the batch, and breaks no agreement of the file. -/
theorem Copying.rebatch {file' : List α} {batch : Option RangeBatch}
    (copying : Copying source file accepted c) (length : file'.length = file.length)
    (keeps : ∀ lo hi, AgreesOn source file lo hi → AgreesOn source file' lo hi)
    (fits : ∀ b ∈ batch, Batched source file' { c with batch := batch } b) :
    Copying source file' accepted { c with batch := batch } where
  size := copying.size
  length := length.trans copying.length
  short := copying.short
  chunk := copying.chunk
  low := copying.low
  start := copying.start
  kept := keeps _ _ copying.kept
  progress := copying.progress.imp
    (fun ahead => ⟨ahead.after, ahead.inside, ahead.tiles, keeps _ _ ahead.agrees, ahead.moves⟩)
    fun lost => ⟨lost.behind, lost.stuck⟩
  batch := fits

theorem Copying.openBatch (copying : Copying source file accepted c)
    (opened : c.openBatch = some c') : Copying source file accepted c' := by
  simp only [RangedCopy.openBatch] at opened
  split_ifs at opened with free
  cases opened
  refine copying.rebatch rfl (fun _ _ agrees => agrees) ?_
  rintro b ⟨⟩
  refine ⟨free.1, copying.low, rfl, by simp, ?_⟩
  by_cases reached : min c.size (wrap (c.completed + c.span)) ≤ c.completed
  · exact .inr (.inl ⟨reached, rfl, rfl⟩)
  by_cases before : c.completed < 0
  · exact .inr (.inr (.inl ⟨before, by simpa using reached⟩))
  refine .inl ⟨by simpa using before, by simpa using reached, Int.le_refl _, ?_, by simp⟩
  have here : min c.completed (min c.size (wrap (c.completed + c.span))) = c.completed :=
    Int.min_eq_left (by omega)
  exact here.symm

theorem Copying.spawn {ready : Bool} (copying : Copying source file accepted c)
    (spawned : c.spawn ready = some c') : Copying source file accepted c' := by
  cases running : c.batch with
  | none => simp [RangedCopy.spawn, running] at spawned
  | some b =>
    simp only [RangedCopy.spawn, running] at spawned
    split_ifs at spawned with more
    cases spawned
    obtain ⟨unfinished, low, reach, stops, state⟩ := copying.batch b running
    have chunk := copying.chunk
    have short := copying.short
    refine copying.rebatch rfl (fun _ _ agrees => agrees) ?_
    rintro _ ⟨⟩
    refine ⟨unfinished, (wrap_range _).1, reach, ?_, ?_⟩
    · intro w inside
      rcases mem_append.mp inside with old | new
      · exact stops w old
      obtain rfl := mem_singleton.mp new
      simp only
      omega
    · rcases state with tiled | idle | astray
      · obtain ⟨after, proper, cursor, tiles, written⟩ := tiled
        by_cases fits : b.next + c.chunk < 2 ^ 63
        · have moved : wrap (b.next + c.chunk) = b.next + c.chunk := wrap_small (by omega) fits
          have here : min b.next b.stop = b.next := by omega
          have last : min (b.next + c.chunk) b.stop = min b.stop (b.next + c.chunk) := by omega
          rw [moved]
          rw [here] at tiles
          refine .inl ⟨after, proper, ?_, ?_, ?_⟩
          · simp only
            omega
          · simp only [map_append, map_singleton, Worker.range]
            rw [last]
            exact tiles.concat (by omega)
          · intro w inside
            rcases mem_append.mp inside with old | new
            · exact written w old
            · obtain rfl := mem_singleton.mp new
              exact ⟨fun i from_ to_ => by simp only at from_ to_; omega, nofun⟩
        · -- the position wraps, and the next range starts before the source
          have wrapped := wrap_large (n := b.next + c.chunk) (by omega) (by omega)
          exact .inr (.inr (.inl ⟨wrapped, by simp only; omega⟩))
      · have cursor := idle.cursor
        have reached := idle.reached
        omega
      · refine .inr (.inr (.inr ?_))
        rcases astray with ⟨before, _⟩ | ⟨w, inside, bad⟩
        · have moved : wrap (b.next + c.chunk) = b.next + c.chunk := by
            exact wrap_small (by omega) (by omega)
          exact ⟨_, mem_append_right _ (mem_singleton_self _), before,
            by simp only [moved]; omega, rfl⟩
        · exact ⟨w, mem_append_left _ inside, bad⟩

/-- A worker that goes on: it keeps its range, moves forwards, and ends only behind it. -/
structure Worker.Goes (source file : List α) (w w' : Worker) : Prop where
  start : w'.start = w.start
  stop : w'.stop = w.stop
  offset : w.offset < 0 → w'.offset = w.offset
  written : AgreesOn source file w.start w.offset → AgreesOn source file w'.start w'.offset
  ended : w'.ended = true → w'.stop ≤ w'.offset

theorem RangedCopy.worker_some {w : Worker} (found : c.worker i = some w) :
    ∃ b, c.batch = some b ∧ b.stop ≤ b.next ∧ b.workers[i]? = some w := by
  cases running : c.batch with
  | none => simp [RangedCopy.worker, running] at found
  | some b =>
    simp only [RangedCopy.worker, running] at found
    split_ifs at found with more
    exact ⟨b, rfl, by omega, found⟩

section

variable (copying : Copying source file accepted c)
include copying

theorem Copying.set {file' : List α} {w w' : Worker} (found : c.worker i = some w)
    (length : file'.length = file.length)
    (keeps : ∀ lo hi, AgreesOn source file lo hi → AgreesOn source file' lo hi)
    (goes : w.Goes source file' w') :
    Copying source file' accepted (c.set i w') := by
  obtain ⟨b, running, whole, there⟩ := RangedCopy.worker_some found
  obtain ⟨unfinished, low, reach, stops, state⟩ := copying.batch b running
  have known : w ∈ b.workers := mem_of_getElem? there
  refine copying.rebatch length keeps ?_
  rw [running]
  rintro _ ⟨⟩
  refine ⟨unfinished, low, reach, ?_, ?_⟩
  · intro other inside
    rcases mem_or_eq_of_mem_set inside with old | rfl
    · exact stops other old
    · exact goes.stop ▸ stops w known
  · rcases state with tiled | idle | astray
    · refine .inl ⟨tiled.after, tiled.proper, tiled.cursor, ?_, ?_⟩
      · have range : w'.range = w.range := Prod.ext goes.start goes.stop
        have same : (b.workers.set i w').map Worker.range = b.workers.map Worker.range := by
          obtain ⟨bound, rfl⟩ := List.getElem?_eq_some_iff.mp there
          rw [map_set, range, ← getElem_map Worker.range]
          · exact set_getElem_self _
          · simpa using bound
        rw [same]
        exact tiled.tiles
      · intro other inside
        rcases mem_or_eq_of_mem_set inside with old | rfl
        · exact ⟨keeps _ _ (tiled.written other old).1, (tiled.written other old).2⟩
        · exact ⟨goes.written (keeps _ _ (tiled.written w known).1), goes.ended⟩
    · rw [idle.workers] at known
      cases known
    · rcases astray with early | ⟨bad, inside, before, short, busy⟩
      · exact .inr (.inr (.inl early))
      refine .inr (.inr (.inr ?_))
      obtain ⟨j, place⟩ := mem_iff_getElem?.mp inside
      by_cases same : j = i
      · obtain rfl : w = bad := Option.some.inj (there.symm.trans (same ▸ place))
        have bound := (List.getElem?_eq_some_iff.mp there).choose
        have still := goes.offset before
        refine ⟨w', mem_set bound w', by omega, by have := goes.stop; omega, ?_⟩
        by_contra ended
        have reached := goes.ended (by simpa using ended)
        have := goes.stop
        omega
      · refine ⟨bad, mem_of_getElem? (i := j) ?_, before, short, busy⟩
        rw [getElem?_set_ne (Ne.symm same)]
        exact place

theorem Copying.supply (supplied : c.supply i = some c') :
    Copying source file accepted c' := by
  cases found : c.worker i with
  | none => simp [RangedCopy.supply, found] at supplied
  | some w =>
    simp only [RangedCopy.supply, found] at supplied
    split_ifs at supplied with done
    cases supplied
    simp only [not_or, Bool.not_eq_true] at done
    refine copying.set found rfl (fun _ _ agrees => agrees) ⟨rfl, rfl, fun _ => rfl, id, ?_⟩
    simp [done.2]

theorem Copying.finish (finished : c.finish i = some c') :
    Copying source file accepted c' := by
  cases found : c.worker i with
  | none => simp [RangedCopy.finish, found] at finished
  | some w =>
    simp only [RangedCopy.finish, found] at finished
    split_ifs at finished with reached
    cases finished
    exact copying.set found rfl (fun _ _ agrees => agrees)
      ⟨rfl, rfl, fun _ => rfl, id, fun _ => reached.2.2⟩

theorem Copying.write {file' : List α} {count : Nat}
    (wrote : c.write source file i count = some (file', c')) :
    Copying source file' accepted c' := by
  cases found : c.worker i with
  | none => simp [RangedCopy.write, found] at wrote
  | some w =>
    simp only [RangedCopy.write, found] at wrote
    split_ifs at wrote with able
    cases wrote
    obtain ⟨b, running, _, there⟩ := RangedCopy.worker_some found
    have stop := (copying.batch b running).stops w (mem_of_getElem? there)
    have size := copying.size
    have length := copying.length
    have fits : w.offset.toNat + count ≤ source.length := by omega
    have inside : w.offset.toNat ≤ file.length := by omega
    refine copying.set found ?_ (fun _ _ agrees => agrees.write fits inside) ⟨rfl, rfl, ?_, ?_, ?_⟩
    · exact length_writeAt (by rw [length_stretch fits]; omega)
    · intro before
      omega
    · intro agrees
      have here : ((w.offset.toNat : Nat) : Int) = w.offset := by omega
      have more := agreesOn_written fits inside
      rw [here] at more
      exact agrees.append more
    · simp [able.2.1]

theorem Copying.closeBatch (closed : c.closeBatch = some c') : Copying source file accepted c' := by
  cases running : c.batch with
  | none => simp [RangedCopy.closeBatch, running] at closed
  | some b =>
    simp only [RangedCopy.closeBatch, running] at closed
    split_ifs at closed with more ended
    cases closed
    obtain ⟨unfinished, low, reach, stops, state⟩ := copying.batch b running
    have ended := all_eq_true.mp ended
    have bound := wrap_range (c.completed + c.span)
    have span : -2 ^ 63 ≤ c.span ∧ c.span < 2 ^ 63 := wrap_range (c.chunk * c.parallel)
    have size := copying.size
    have short := copying.short
    refine ⟨size, copying.length, short, copying.chunk, ?_, copying.start, copying.kept, ?_, nofun⟩
    · simp only
      omega
    rcases state with tiled | idle | astray
    · obtain ⟨after, proper, _, tiles, written⟩ := tiled
      have forwards : 0 < c.span := pos_of_lt_wrap (n := c.completed) (by omega) span
        (by omega)
      rcases copying.progress with ahead | ⟨_, before | back⟩
      · have here : min b.next b.stop = b.stop := by omega
        rw [here] at tiles
        have agrees : AgreesOn source file c.completed b.stop := tiles.agreesOn fun r inside => by
          obtain ⟨w, known, rfl⟩ := mem_map.mp inside
          exact (written w known).1.mono (Int.le_refl _) ((written w known).2 (ended w known))
        exact .inl ⟨by have := ahead.after; simp only; omega, by simp only; omega,
          ahead.tiles.append tiles, ahead.agrees.append agrees, .inl forwards⟩
      · omega
      · omega
    · obtain ⟨reached, _, none⟩ := idle
      rcases copying.progress with ahead | lost
      · by_cases same : b.stop = c.completed
        · refine .inl ⟨?_, ?_, ?_, ?_, ?_⟩
          all_goals simp only [same, none, map_nil, append_nil]
          · exact ahead.after
          · exact ahead.inside
          · exact ahead.tiles
          · exact ahead.agrees
          · exact ahead.moves
        · have after := ahead.after
          have start := copying.start
          by_cases forwards : 0 < c.span
          · have wrapped := wrap_neg (n := c.completed) (by omega) span forwards (by omega)
            exact .inr ⟨by simp only; omega, .inl (by simp only; omega)⟩
          · have same := ahead.moves.resolve_left forwards
            exact .inr ⟨by simp only; omega, .inr (Int.not_lt.mp forwards)⟩
      · have behind := lost.behind
        refine .inr ⟨by simp only; omega, ?_⟩
        rcases lost.stuck with before | back
        · exact .inl (by simp only; omega)
        · exact .inr back
    · rcases astray with early | ⟨w, inside, _, _, busy⟩
      · omega
      · rw [ended w inside] at busy
        cases busy

/-- Up to where the copy has come, the file is as the source. -/
theorem Copying.agrees {hi : Int} (upto : hi ≤ c.completed) : AgreesOn source file 0 hi := by
  rcases copying.progress with ahead | lost
  · exact ahead.agrees.mono (Int.le_refl 0) upto
  · have := lost.behind
    exact copying.kept.mono (Int.le_refl 0) (by omega)

end

/-- The start of a copy from a file that is as the source up to some position. -/
theorem Copying.start_at (size : c.size = source.length) (length : file.length = source.length)
    (short : c.size < 2 ^ 63) (chunk : 0 < c.chunk ∧ c.chunk < 2 ^ 63) (fresh : c.copied = [])
    (start : 0 ≤ c.completed ∧ c.completed ≤ c.size) (none : c.batch = none)
    (kept : AgreesOn source file 0 c.completed) : Copying source file c.completed c where
  size := size
  length := length
  short := short
  chunk := chunk
  low := by omega
  start := start
  kept := kept
  progress := .inl ⟨Int.le_refl _, start.2, by rw [fresh]; rfl, kept, .inr rfl⟩
  batch := by simp [none]

/-- A copy that has come to its end has copied the source, in ranges that tile it. -/
theorem Copying.done (copying : Copying source file accepted c) (ended : c.size ≤ c.completed) :
    file = source ∧ Tiles accepted c.copied source.length := by
  have size := copying.size
  rcases copying.progress with ahead | lost
  · have whole : c.completed = source.length := by
      have := ahead.inside
      omega
    refine ⟨eq_of_agreesOn copying.length ?_, whole ▸ ahead.tiles⟩
    exact whole ▸ ahead.agrees
  · have := lost.behind
    have := copying.start
    omega


end Invariant

end Jolt.Base
