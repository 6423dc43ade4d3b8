import Jolt.Transfers.Batch

/-! What a move deletes it has saved. The sources of a batch are deleted on the word of the
stored items, so what those words stand for must hold of the tree until then. -/
namespace Jolt.Transfers
open Jolt.Base Jolt.Jobs List

/-- The part of an item that only planning and a user's decision set. -/
structure ItemScope where
  ordinal : Int
  source : String
  destination : String
  type : ItemType
  action : ItemAction

def scope (item : JobItem) : ItemScope :=
  ⟨item.ordinal, item.sourcePath, item.destinationPath, item.type, item.action⟩

def Saved (remote : Remote) (t : Tree) (i : ItemScope) : Prop :=
  ∃ bytes, t i.destination = some (.file bytes) ∧
    remote.sha256 bytes = remote.sha256 (remote.content i.source)

def pulls : ItemAction → Bool
  | .copy | .overwrite | .rename => true
  | _ => false

def Apart (policy : ConflictPolicy) (scopes : List ItemScope) : Prop :=
  ∀ i ∈ scopes, ∀ k ∈ scopes, i.ordinal ≠ k.ordinal → i.destination = k.destination →
    policy ≠ .skip ∧ i.action ≠ .overwrite ∧ k.action ≠ .overwrite

/-- The items as a whole: numbered, out of each other's way, and directories are not
pulled. -/
structure Laid (job : Job) (scopes : List ItemScope) : Prop where
  verified : job.verifyChecksum = true
  numbered : (scopes.map ItemScope.ordinal).Nodup
  apart : Apart job.conflictPolicy scopes
  typed : ∀ i ∈ scopes, i.type = .file → i.action ≠ .create ∧ i.action ≠ .merge

/-- The file of the item counts as saved: it was completed, or planning found it equal. -/
def Trusted (job : Job) (item : JobItem) : Prop :=
  item.state = .completed ∨ (job.conflictPolicy = .checksum ∧ item.action = .skip)

section Scopes

variable {i : ItemScope}

theorem Laid.unique {job : Job} {scopes : List ItemScope} (laid : Laid job scopes) {k : ItemScope}
    (hi : i ∈ scopes) (hk : k ∈ scopes) (same : i.ordinal = k.ordinal) : i = k :=
  inj_on_of_nodup_map laid.numbered hi hk same

theorem mem_storeItem {items : List JobItem} {x i : JobItem} (h : i ∈ storeItem items x) :
    (i = x ∧ ∃ y ∈ items, y.ordinal = x.ordinal) ∨ (i ∈ items ∧ i.ordinal ≠ x.ordinal) := by
  obtain ⟨y, inside, rfl⟩ := mem_map.mp h
  by_cases here : y.ordinal = x.ordinal
  · rw [if_pos here]
    exact .inl ⟨rfl, y, inside, here⟩
  · rw [if_neg here]
    exact .inr ⟨inside, here⟩

theorem forall_storeItem {P : JobItem → Prop} {items : List JobItem} {x : JobItem} (new : P x)
    (old : ∀ i ∈ items, P i) : ∀ i ∈ storeItem items x, P i := by
  intro i inside
  rcases mem_storeItem inside with ⟨rfl, _⟩ | ⟨earlier, _⟩
  · exact new
  · exact old i earlier

theorem scopes_storeItem {job : Job} {items : List JobItem} {x : JobItem}
    (laid : Laid job (items.map scope)) (known : scope x ∈ items.map scope) :
    (storeItem items x).map scope = items.map scope := by
  rw [storeItem, map_map]
  refine map_congr_left fun y inside => ?_
  by_cases here : y.ordinal = x.ordinal
  · simp only [Function.comp, if_pos here]
    exact laid.unique known (mem_map_of_mem inside) here.symm
  · simp only [Function.comp, if_neg here]

theorem Saved.put_same {remote : Remote} {t : Tree} {bytes : Bytes}
    (equal : remote.sha256 bytes = remote.sha256 (remote.content i.source)) :
    Saved remote (t.put i.destination (.file bytes)) i :=
  ⟨bytes, if_pos rfl, equal⟩

theorem Saved.congr {remote : Remote} {t t' : Tree} (saved : Saved remote t i)
    (same : t' i.destination = t i.destination) : Saved remote t' i := by
  obtain ⟨bytes, found, equal⟩ := saved
  exact ⟨bytes, same.trans found, equal⟩

theorem Saved.put {remote : Remote} {t : Tree} {path : String} {entry : Entry}
    (saved : Saved remote t i) (free : t path = none ∨ i.destination ≠ path) :
    Saved remote (t.put path entry) i := by
  refine saved.congr (if_neg ?_)
  rcases free with empty | other
  · rintro rfl
    obtain ⟨bytes, found, _⟩ := saved
    rw [empty] at found
    cases found
  · exact other

end Scopes

section Core

variable (remote : Remote) (job : Job) (items : List JobItem) (t : Tree)
variable {p : Puller}

structure Core : Prop where
  laid : Laid job (items.map scope)
  saved : ∀ item ∈ items, item.type = .file → Trusted job item → Saved remote t (scope item)
  absent : job.conflictPolicy = .skip → ∀ item ∈ items, item.type = .file →
    pulls item.action = true → t item.destinationPath = none ∨ Saved remote t (scope item)
  skipped : ∀ item ∈ items, item.state = .skipped → item.action = .skip

def PullSafe (p : Puller) : Prop :=
  match p.pull with
  | .opened expected | .receiving expected =>
    expected = remote.sha256 (remote.content p.item.sourcePath) ∧ expected ≠ ""
  | .received bytes => remote.sha256 bytes = remote.sha256 (remote.content p.item.sourcePath)
  | .returned (.ok _) => p.item.type = .file → Saved remote t (scope p.item)
  | _ => True

/-- An attempt works on the stored items, forgets none of them, and deletes only the
sources of trusted ones. -/
structure Kept (a : Attempt) : Prop where
  todo : ∀ x ∈ a.todo, scope x ∈ items.map scope
  pullers : ∀ p ∈ a.pullers,
    scope p.item ∈ items.map scope ∧ pulls p.item.action = true ∧ PullSafe remote t p
  covered : a.warnings = 0 → a.failed = false → ∀ item ∈ items, isFinished item = true ∨
    (∃ x ∈ a.todo, x.ordinal = item.ordinal) ∨ ∃ p ∈ a.pullers, p.item.ordinal = item.ordinal
  quiet : a.cleaning.isSome = true → a.todo = [] ∧ a.pullers = []
  cleaning : ∀ list, a.cleaning = some list → ∀ c ∈ list, Trusted job c ∧ isFinished c = true ∧
    ∃ item ∈ items, scope item = scope c ∧ Trusted job item

structure Safe (s : MoveRun) : Prop where
  core : Core remote s.job s.items s.tree
  attempt : ∀ a, s.attempt = some a → Kept remote s.job s.items s.tree a

variable {remote job items t}

theorem Core.comparedAt {x : JobItem} (core : Core remote job items t) (known : scope x ∈ items.map scope)
    (file : x.type = .file) (compared : job.conflictPolicy = .checksum ∧ x.action = .skip) :
    Saved remote t (scope x) := by
  obtain ⟨y, inside, same⟩ := mem_map.mp known
  have type : y.type = x.type := congrArg ItemScope.type same
  have action : y.action = x.action := congrArg ItemScope.action same
  rw [← same]
  exact core.saved y inside (type.trans file) (.inr ⟨compared.1, action.trans compared.2⟩)

theorem Core.absentAt {x : JobItem} (core : Core remote job items t) (known : scope x ∈ items.map scope)
    (action : pulls x.action = true) (policy : job.conflictPolicy = .skip) (file : x.type = .file) :
    t x.destinationPath = none ∨ Saved remote t (scope x) := by
  obtain ⟨y, inside, same⟩ := mem_map.mp known
  have fields := same
  simp only [scope, ItemScope.mk.injEq] at fields
  obtain ⟨_, _, destination, type, act⟩ := fields
  have free := core.absent policy y inside (type.trans file) (act.symm ▸ action)
  rwa [same, destination] at free

theorem Core.store (core : Core remote job items t) {x : JobItem}
    (known : scope x ∈ items.map scope)
    (trusted : x.type = .file → Trusted job x → Saved remote t (scope x))
    (skipped : x.state = .skipped → x.action = .skip) :
    Core remote job (storeItem items x) t := by
  refine ⟨scopes_storeItem core.laid known ▸ core.laid, forall_storeItem trusted core.saved, ?_,
    forall_storeItem skipped core.skipped⟩
  intro policy
  exact forall_storeItem (fun file action => core.absentAt known action policy file)
    (core.absent policy)

theorem Core.setTree (core : Core remote job items t) {t' : Tree}
    (kept : ∀ item ∈ items, item.type = .file → Trusted job item → Saved remote t (scope item) →
      Saved remote t' (scope item))
    (free : job.conflictPolicy = .skip → ∀ item ∈ items, item.type = .file →
      pulls item.action = true → t item.destinationPath = none ∨ Saved remote t (scope item) →
      t' item.destinationPath = none ∨ Saved remote t' (scope item)) :
    Core remote job items t' := by
  refine ⟨core.laid, ?_, ?_, core.skipped⟩
  · exact fun item inside file trusted =>
      kept item inside file trusted (core.saved item inside file trusted)
  · exact fun policy item inside file action =>
      free policy item inside file action (core.absent policy item inside file action)

theorem Laid.publish_keeps {scopes : List ItemScope} (laid : Laid job scopes) {i k : ItemScope}
    (hi : i ∈ scopes) (hk : k ∈ scopes) (clear : i.action = .overwrite ∨ t i.destination = none)
    {bytes : Bytes} (equal : remote.sha256 bytes = remote.sha256 (remote.content i.source))
    (saved : Saved remote t k) : Saved remote (t.put i.destination (.file bytes)) k := by
  by_cases same : i.ordinal = k.ordinal
  · cases laid.unique hi hk same
    exact .put_same equal
  by_cases here : i.destination = k.destination
  · obtain ⟨_, other, _⟩ := laid.apart i hi k hk same here
    exact saved.put (.inl (clear.resolve_left other))
  · exact saved.put (.inr (Ne.symm here))

theorem Core.publish (core : Core remote job items t) {i : ItemScope} (hi : i ∈ items.map scope)
    (clear : i.action = .overwrite ∨ t i.destination = none) {bytes : Bytes}
    (equal : remote.sha256 bytes = remote.sha256 (remote.content i.source)) :
    Core remote job items (t.put i.destination (.file bytes)) := by
  refine core.setTree ?_ ?_
  · intro item inside _ _ saved
    exact core.laid.publish_keeps hi (mem_map_of_mem inside) clear equal saved
  intro policy item inside _ _ free
  have hk : scope item ∈ items.map scope := mem_map_of_mem inside
  rcases free with none | saved
  · by_cases here : i.destination = item.destinationPath
    · by_cases same : i.ordinal = item.ordinal
      · cases core.laid.unique hi hk same
        exact .inr (.put_same equal)
      · exact absurd policy (core.laid.apart i hi _ hk same here).1
    · exact .inl ((if_neg (Ne.symm here)).trans none)
  · exact .inr (core.laid.publish_keeps hi hk clear equal saved)

theorem Core.makeDirectory (core : Core remote job items t) {i : ItemScope}
    (hi : i ∈ items.map scope) (create : i.action = .create) (none : t i.destination = none) :
    Core remote job items (t.put i.destination .directory) := by
  refine core.setTree ?_ ?_
  · exact fun item inside _ _ saved => saved.put (.inl none)
  intro policy item inside _ action free
  have hk : scope item ∈ items.map scope := mem_map_of_mem inside
  by_cases here : i.destination = item.destinationPath
  · by_cases same : i.ordinal = item.ordinal
    · cases core.laid.unique hi hk same
      have acts : item.action = .create := create
      rw [acts] at action
      cases action
    · exact absurd policy (core.laid.apart i hi _ hk same here).1
  · refine free.imp (fun empty => ?_) (fun saved => saved.put (.inl none))
    exact (if_neg (Ne.symm here)).trans empty

theorem PullSafe.mono {t' : Tree} (safe : PullSafe remote t p) (kept : (∃ n, p.pull = .returned (.ok
      n)) → p.item.type = .file → Saved remote t (scope p.item) → Saved remote t' (scope p.item)) :
    PullSafe remote t' p := by
  unfold PullSafe at safe ⊢
  split at safe
  · exact safe
  · exact safe
  · exact safe
  · rename_i n stage
    exact fun file => kept ⟨n, stage⟩ file (safe file)
  · trivial

theorem executePullFile_safe (verified : job.verifyChecksum = true) (absent : job.conflictPolicy =
      .skip → p.item.type = .file → t p.item.destinationPath = none ∨ Saved remote t (scope p.item))
    (safe : PullSafe remote t p) {input : PullInput} {pull : Pull} {t' : Tree}
    (step : executePullFile remote job t p.item p.pull input = some (pull, t')) :
    (t' = t ∧ PullSafe remote t ⟨p.item, pull⟩) ∨
      ∃ bytes, t' = t.put p.item.destinationPath (.file bytes) ∧
        remote.sha256 bytes = remote.sha256 (remote.content p.item.sourcePath) ∧
        (p.item.action = .overwrite ∨ t p.item.destinationPath = none) ∧
        pull = .returned (.ok bytes.length) := by
  obtain ⟨item, stage⟩ := p
  cases input with
  | fail => cases stage <;> cases step <;> exact .inl ⟨rfl, trivial⟩
  | receive bytes =>
    cases stage with
    | receiving expected =>
      simp only [executePullFile] at step
      split_ifs at step with mismatch <;> cases step
      · exact .inl ⟨rfl, trivial⟩
      obtain ⟨same, named⟩ := safe
      refine .inl ⟨rfl, ?_⟩
      by_contra differs
      exact mismatch ⟨named, fun equal => differs (equal.trans same)⟩
    | _ => cases step
  | proceed =>
    cases stage with
    | queued | returned | receiving => cases step
    | started =>
      simp only [executePullFile] at step
      split_ifs at step with found <;> cases step
      · refine .inl ⟨rfl, fun file => ?_⟩
        rcases absent found.1 file with none | saved
        · rw [none] at found
          cases found.2
        · exact saved
      · exact .inl ⟨rfl, trivial⟩
    | admitted =>
      cases step
      refine .inl ⟨rfl, ?_⟩
      unfold openPull
      dsimp only
      have asks : ¬ verifies job = false := by simp [verifies, verified]
      rw [if_neg asks]
      split_ifs with empty compares
      · trivial
      · split
        · exact ⟨rfl, empty⟩
        · trivial
        rename_i bytes found
        split_ifs with equal
        · exact fun _ => ⟨bytes, found, equal⟩
        · exact ⟨rfl, empty⟩
      · exact ⟨rfl, empty⟩
    | opened expected =>
      simp only [executePullFile] at step
      split_ifs at step <;> cases step
      · exact .inl ⟨rfl, trivial⟩
      · exact .inl ⟨rfl, safe⟩
    | received bytes =>
      simp only [executePullFile, publish] at step
      by_cases overwrites : item.action = .overwrite
      · simp only [overwrites, if_true] at step
        split_ifs at step <;> cases step
        · exact .inl ⟨rfl, trivial⟩
        · exact .inr ⟨bytes, rfl, safe, .inl overwrites, rfl⟩
      · simp only [if_neg overwrites] at step
        split_ifs at step with found <;> cases step
        · exact .inl ⟨rfl, trivial⟩
        · exact .inr ⟨bytes, rfl, safe, .inr (Option.not_isSome_iff_eq_none.mp found), rfl⟩

variable {a : Attempt}

theorem Kept.working (todo : ∀ x ∈ a.todo, scope x ∈ items.map scope)
    (pullers : ∀ p ∈ a.pullers,
      scope p.item ∈ items.map scope ∧ pulls p.item.action = true ∧ PullSafe remote t p)
    (covered : a.warnings = 0 → a.failed = false → ∀ item ∈ items, isFinished item = true ∨
      (∃ x ∈ a.todo, x.ordinal = item.ordinal) ∨ ∃ p ∈ a.pullers, p.item.ordinal = item.ordinal)
    (idle : a.cleaning = none) : Kept remote job items t a := by
  refine ⟨todo, pullers, covered, ?_, ?_⟩
  · rw [idle]
    nofun
  · rw [idle]
    nofun

theorem Attempt.find_mem {ordinal : Int} (found : a.find ordinal = some p) :
    p ∈ a.pullers ∧ p.item.ordinal = ordinal := by
  refine ⟨mem_of_find?_eq_some found, ?_⟩
  simpa using find?_some found

theorem Kept.not_cleaning (kept : Kept remote job items t a)
    (busy : a.todo ≠ [] ∨ a.pullers ≠ []) : a.cleaning = none := by
  cases cleaning : a.cleaning with
  | none => rfl
  | some list => exact absurd (kept.quiet (by rw [cleaning]; rfl)) (not_and_or.mpr busy)

theorem Attempt.mem_others {ordinal : Int} (h : p ∈ a.others ordinal) :
    p ∈ a.pullers ∧ p.item.ordinal ≠ ordinal := by
  simpa [Attempt.others] using h

theorem Attempt.advance_covers {q : Puller} (inside : q ∈ a.pullers) :
    ∃ r ∈ (a.advance p).pullers, r.item.ordinal = q.item.ordinal := by
  by_cases here : q.item.ordinal = p.item.ordinal
  · exact ⟨p, mem_cons_self, here.symm⟩
  refine ⟨q, mem_cons_of_mem p ?_, rfl⟩
  simp only [Attempt.others, mem_filter, bne_iff_ne]
  exact ⟨inside, here⟩

end Core

section Steps

variable {remote : Remote} {s : MoveRun}
variable {action : ItemAction} {denied : Option String} {destination : String} {item x : JobItem}
  {items : List JobItem} {job : Job} {t : Tree}

theorem scanItem_spec (job : Job) (t : Tree) (item : JobItem) (denied : Option String)
    (created : Bool) (now : Time) :
    match scanItem job t item denied created now with
    | .stored x warning t' => scope x = scope item ∧
      (t' = t ∨ (item.action = .create ∧ t item.destinationPath = none ∧
        t' = t.put item.destinationPath .directory)) ∧
      (x.state = .completed → item.action = .merge ∨ item.action = .create) ∧
      (x.state = .skipped → item.action = .skip) ∧ (warning = false → isFinished x = true)
    | .queued x => scope x = scope item ∧ pulls x.action = true
    | .ended x => scope x = scope item ∧ x.state ≠ .completed ∧ x.state ≠ .skipped
    | .unsupported => True := by
  unfold scanItem
  cases denied with
  | some text => exact ⟨rfl, .inl rfl, nofun, nofun, nofun⟩
  | none =>
    cases item
    cases ‹ItemAction› with
    | skip => exact ⟨rfl, .inl rfl, nofun, fun _ => rfl, fun _ => rfl⟩
    | conflict =>
      dsimp only [takeUp]
      split_ifs
      · exact ⟨rfl, nofun, nofun⟩
      · exact ⟨rfl, .inl rfl, nofun, nofun, nofun⟩
    | fail => exact ⟨rfl, .inl rfl, nofun, nofun, nofun⟩
    | merge => exact ⟨rfl, .inl rfl, fun _ => .inl rfl, nofun, fun _ => rfl⟩
    | create =>
      dsimp only [takeUp]
      split_ifs with made
      · exact ⟨rfl, .inr ⟨rfl, made.2, rfl⟩, fun _ => .inr rfl, nofun, fun _ => rfl⟩
      · exact ⟨rfl, nofun, nofun⟩
    | copy | overwrite | rename => exact ⟨rfl, rfl⟩
    | other => trivial

theorem Core.storeOpen (core : Core remote job items t) (known : scope x ∈ items.map scope)
    (running : x.state ≠ .completed) (unskipped : x.state = .skipped → x.action = .skip) :
    Core remote job (storeItem items x) t := by
  refine core.store known (fun file trusted => ?_) unskipped
  exact core.comparedAt known file (trusted.resolve_left running)

/-- The files whose destinations others must leave alone: those that count as saved,
those a pull has just saved, and under the skip policy all that are to be pulled. -/
def Watched (s : MoveRun) (item : JobItem) : Prop :=
  Trusted s.job item ∨ (s.job.conflictPolicy = .skip ∧ pulls item.action = true) ∨
    ∃ a p n, s.attempt = some a ∧ p ∈ a.pullers ∧ p.item.ordinal = item.ordinal ∧
      p.pull = .returned (.ok n)

/-- Others leave the watched destinations alone, and a decision about a conflict does not
put two items in each other's way. -/
def Undisturbed (s : MoveRun) : MoveEvent → MoveRun → Prop
  | .change tree, _ => ∀ item ∈ s.items, item.type = .file → Watched s item →
      tree item.destinationPath = s.tree item.destinationPath
  | .overrideItem ordinal action destination, _ =>
      Apart s.job.conflictPolicy ((overridden s.items ordinal action destination).map scope)
  | _, _ => True

theorem Safe.idle (core : Core remote job items t) :
    Safe remote ⟨job, items, t, none⟩ :=
  ⟨core, nofun⟩

theorem Safe.change (safe : Safe remote s) {tree : Tree}
    (calm : ∀ item ∈ s.items, item.type = .file → Watched s item →
      tree item.destinationPath = s.tree item.destinationPath) :
    Safe remote { s with tree := tree } := by
  constructor
  · refine safe.core.setTree ?_ ?_
    · exact fun item inside file trusted saved =>
        saved.congr (calm item inside file (.inl trusted))
    intro policy item inside file action free
    have same := calm item inside file (.inr (.inl ⟨policy, action⟩))
    exact free.imp same.trans (fun saved => saved.congr same)
  · intro a under
    have kept := safe.attempt a under
    refine ⟨kept.todo, fun p inside => ?_, kept.covered, kept.quiet, kept.cleaning⟩
    obtain ⟨known, action, pull⟩ := kept.pullers p inside
    refine ⟨known, action, pull.mono fun ⟨n, returned⟩ file saved => ?_⟩
    obtain ⟨item, there, same⟩ := mem_map.mp known
    have fields := same
    simp only [scope, ItemScope.mk.injEq] at fields
    obtain ⟨ordinal, _, destination, type, _⟩ := fields
    refine saved.congr ?_
    have watched : Watched s item := .inr (.inr ⟨a, p, n, under, inside, ordinal.symm, returned⟩)
    have kept := calm item there (type.trans file) watched
    rwa [destination] at kept

theorem mem_overridden {ordinal : Int} {i : JobItem}
    (h : i ∈ overridden items ordinal action destination) :
    i ∈ items ∨ (i.action = action ∧ i.state = .pending) := by
  obtain ⟨item, inside, rfl⟩ := mem_map.mp h
  by_cases here : item.ordinal = ordinal ∧ item.action = .conflict
  · rw [if_pos here]
    exact .inr ⟨rfl, rfl⟩
  · rw [if_neg here]
    exact .inl inside

theorem Core.overridden (core : Core remote s.job s.items s.tree) {ordinal : Int}
    (policy : s.job.conflictPolicy = .ask)
    (permitted : mayOverride s.items s.tree ordinal action destination = true)
    (apart : Apart s.job.conflictPolicy ((overridden s.items ordinal action destination).map scope)) :
    Core remote s.job (overridden s.items ordinal action destination) s.tree := by
  refine ⟨⟨core.laid.verified, ?_, apart, ?_⟩, ?_, ?_, ?_⟩
  · have same : ((Transfers.overridden s.items ordinal action destination).map scope).map
        ItemScope.ordinal = (s.items.map scope).map ItemScope.ordinal := by
      simp only [Transfers.overridden, map_map]
      refine map_congr_left fun item _ => ?_
      simp only [Function.comp]
      split_ifs <;> rfl
    exact same ▸ core.laid.numbered
  · intro i inside file
    obtain ⟨item, there, rfl⟩ := mem_map.mp inside
    rcases mem_overridden there with earlier | ⟨acts, _⟩
    · exact core.laid.typed _ (mem_map_of_mem earlier) file
    have decided : item.action ≠ .create ∧ item.action ≠ .merge := by
      rw [acts]
      constructor <;> rintro rfl <;> cases permitted
    exact decided
  · intro item inside file trusted
    rcases mem_overridden inside with earlier | ⟨_, pending⟩
    · exact core.saved item earlier file trusted
    rcases trusted with completed | ⟨checksum, _⟩
    · rw [pending] at completed
      cases completed
    · rw [policy] at checksum
      cases checksum
  · intro skip
    rw [policy] at skip
    cases skip
  · intro item inside skipped
    rcases mem_overridden inside with earlier | ⟨_, pending⟩
    · exact core.skipped item earlier skipped
    · rw [pending] at skipped
      cases skipped

theorem Safe.begin (safe : Safe remote s) :
    Safe remote { s with attempt := some (.over s.items) } := by
  refine ⟨safe.core, fun a now => ?_⟩
  cases now
  refine .working ?_ (fun p inside => by cases inside) ?_ rfl
  · intro x inside
    exact mem_map_of_mem (mem_of_mem_filter inside)
  intro _ _ item inside
  by_cases finished : isFinished item = true
  · exact .inl finished
  refine .inr (.inl ⟨item, ?_, rfl⟩)
  simp only [Attempt.over, mem_filter]
  exact ⟨inside, by simpa using finished⟩

section Attempt

variable {a : Attempt}
variable {items : List JobItem}

theorem Safe.scan (safe : Safe remote s) (under : s.attempt = some a) {item : JobItem}
    {rest : List JobItem} (todo : a.todo = item :: rest) {denied : Option String} {created : Bool}
    {now : Time} {s' : MoveRun} {answer : Option JobItem}
    (moved : s.next remote (.scan denied created now) = some (s', answer)) : Safe remote s' := by
  have kept := safe.attempt a under
  have idle := kept.not_cleaning (.inl (by simp [todo]))
  have known : scope item ∈ s.items.map scope := kept.todo item (by rw [todo]; exact mem_cons_self)
  have later : ∀ x ∈ rest, scope x ∈ s.items.map scope :=
    fun x inside => kept.todo x (by rw [todo]; exact mem_cons_of_mem item inside)
  have spec := scanItem_spec s.job s.tree item denied created now
  simp only [MoveRun.next, under, todo] at moved
  split at moved <;> cases moved
  · rename_i x warning tree scanned
    rw [scanned] at spec
    obtain ⟨same, change, completes, skips, finishes⟩ := spec
    have fields := same
    simp only [scope, ItemScope.mk.injEq] at fields
    obtain ⟨ordinal, _, _, type, action⟩ := fields
    have known' : scope x ∈ s.items.map scope := same ▸ known
    have core : Core remote s.job s.items tree := by
      rcases change with rfl | ⟨create, none, rfl⟩
      · exact safe.core
      · exact safe.core.makeDirectory known create none
    have pulled : ∀ p ∈ a.pullers, PullSafe remote tree p := by
      intro p inside
      have pull := (kept.pullers p inside).2.2
      rcases change with rfl | ⟨_, none, rfl⟩
      · exact pull
      · exact pull.mono fun _ _ saved => saved.put (.inl none)
    have scopes := scopes_storeItem safe.core.laid known'
    refine ⟨core.store known' (fun file trusted => ?_) (fun skipped => action.trans (skips skipped)),
      fun a' now' => ?_⟩
    · -- a file is neither made nor merged, so it can only have been found equal before
      have typed := safe.core.laid.typed _ known (type.symm.trans file)
      rcases trusted with completed | compared
      · exact absurd (completes completed) (not_or.mpr typed.symm)
      · exact core.comparedAt known' file compared
    · cases now'
      refine .working ?_ ?_ ?_ idle
      · exact fun x inside => scopes.symm ▸ later x inside
      · exact fun p inside => ⟨scopes.symm ▸ (kept.pullers p inside).1, (kept.pullers p inside).2.1,
          pulled p inside⟩
      intro none succeeded i inside
      have unwarned : warning = false ∧ a.warnings = 0 := by
        cases warning with
        | true => exact absurd none (Nat.succ_ne_zero _)
        | false => exact ⟨rfl, none⟩
      rcases mem_storeItem inside with ⟨rfl, _⟩ | ⟨earlier, other⟩
      · exact .inl (finishes unwarned.1)
      · rcases kept.covered unwarned.2 succeeded i earlier with finished | ⟨x', there, number⟩ | pull
        · exact .inl finished
        · rw [todo] at there
          rcases mem_cons.mp there with rfl | there
          · exact absurd (number.symm.trans ordinal.symm) other
          · exact .inr (.inl ⟨x', there, number⟩)
        · exact .inr (.inr pull)
  · rename_i x scanned
    rw [scanned] at spec
    obtain ⟨same, action⟩ := spec
    refine ⟨safe.core, fun a' now' => ?_⟩
    cases now'
    refine .working later ?_ ?_ idle
    · intro p inside
      rcases mem_cons.mp inside with rfl | inside
      · exact ⟨same ▸ known, action, trivial⟩
      · exact kept.pullers p inside
    · intro none succeeded i inside
      rcases kept.covered none succeeded i inside with finished | ⟨x', there, number⟩ | ⟨p, there, number⟩
      · exact .inl finished
      · rw [todo] at there
        rcases mem_cons.mp there with rfl | there
        · refine .inr (.inr ⟨_, mem_cons_self, ?_⟩)
          exact (congrArg ItemScope.ordinal same).trans number
        · exact .inr (.inl ⟨x', there, number⟩)
      · exact .inr (.inr ⟨p, mem_cons_of_mem _ there, number⟩)
  · rename_i x scanned
    rw [scanned] at spec
    obtain ⟨same, running, unskipped⟩ := spec
    exact .idle (safe.core.storeOpen (same ▸ known) running (fun skipped => absurd skipped unskipped))
  · exact .idle safe.core

variable {ordinal : Int} {item : JobItem} {p : Puller}

theorem Kept.advance {t t' : Tree} (kept : Kept remote s.job items t a) (q : Puller)
    (found : a.find ordinal = some p) (same : scope q.item = scope p.item)
    (pull : PullSafe remote t' q) (others : ∀ r ∈ a.pullers, PullSafe remote t' r)
    {items' : List JobItem} (scopes : items'.map scope = items.map scope)
    (states : ∀ i ∈ items', i ∈ items ∨ i.ordinal = q.item.ordinal) :
    Kept remote s.job items' t' (a.advance q) := by
  obtain ⟨inside, _⟩ := Attempt.find_mem found
  obtain ⟨known, action, _⟩ := kept.pullers p inside
  have act : q.item.action = p.item.action := congrArg ItemScope.action same
  refine .working ?_ ?_ ?_ (kept.not_cleaning (.inr (ne_nil_of_mem inside)))
  · exact fun x there => scopes ▸ kept.todo x there
  · intro r there
    rcases mem_cons.mp there with rfl | there
    · exact ⟨scopes ▸ same ▸ known, act ▸ action, pull⟩
    · have earlier := (Attempt.mem_others there).1
      exact ⟨scopes ▸ (kept.pullers r earlier).1, (kept.pullers r earlier).2.1, others r earlier⟩
  · intro none succeeded i there
    rcases states i there with earlier | number
    · rcases kept.covered none succeeded i earlier with finished | waits | ⟨r, pulling, number⟩
      · exact .inl finished
      · exact .inr (.inl waits)
      · obtain ⟨r', there', number'⟩ := Attempt.advance_covers (p := q) pulling
        exact .inr (.inr ⟨r', there', number'.trans number⟩)
    · exact .inr (.inr ⟨q, mem_cons_self, number.symm⟩)

theorem Safe.pick (safe : Safe remote s) (under : s.attempt = some a)
    (found : a.find ordinal = some ⟨item, .queued⟩) :
    Safe remote { s with
      items := storeItem s.items (picked item)
      attempt := some (a.advance ⟨picked item, .started⟩) } := by
  have kept := safe.attempt a under
  obtain ⟨inside, _⟩ := Attempt.find_mem found
  have known : scope (picked item) ∈ s.items.map scope := (kept.pullers _ inside).1
  refine ⟨safe.core.storeOpen known nofun nofun, fun a' now => ?_⟩
  cases now
  refine kept.advance ⟨picked item, .started⟩ found rfl trivial (fun r there => (kept.pullers r there).2.2)
    (scopes_storeItem safe.core.laid known) (forall_storeItem (.inr rfl) fun _ => .inl)

theorem Safe.pull (safe : Safe remote s) (under : s.attempt = some a)
    (found : a.find ordinal = some p) {input : PullInput} {stage : Pull} {t' : Tree}
    (step : executePullFile remote s.job s.tree p.item p.pull input = some (stage, t')) :
    Safe remote { s with tree := t', attempt := some (a.advance ⟨p.item, stage⟩) } := by
  have kept := safe.attempt a under
  obtain ⟨inside, _⟩ := Attempt.find_mem found
  obtain ⟨known, action, pull⟩ := kept.pullers p inside
  have absent := safe.core.absentAt known action
  rcases executePullFile_safe safe.core.laid.verified absent pull step with
    ⟨rfl, next⟩ | ⟨bytes, rfl, equal, clear, rfl⟩
  · refine ⟨safe.core, fun a' now => ?_⟩
    cases now
    exact kept.advance ⟨p.item, stage⟩ found rfl next (fun r there => (kept.pullers r there).2.2) rfl
      (fun i there => .inl there)
  · refine ⟨safe.core.publish (i := scope p.item) known clear equal, fun a' now => ?_⟩
    cases now
    refine kept.advance ⟨p.item, .returned (.ok bytes.length)⟩ found rfl
      (fun _ => Saved.put_same (i := scope p.item) equal) (fun r there => ?_) rfl
      (fun i there => .inl there)
    obtain ⟨known', _, pull'⟩ := kept.pullers r there
    exact pull'.mono fun _ _ saved =>
      safe.core.laid.publish_keeps (i := scope p.item) known known' clear equal saved

theorem Kept.drop {t : Tree} (kept : Kept remote s.job items t a) (found : a.find ordinal = some p)
    {items' : List JobItem} {failed : Bool} (scopes : items'.map scope = items.map scope)
    (succeeded : failed = false → a.failed = false) (states : failed = false → ∀ i ∈ items',
      isFinished i = true ∨ (i ∈ items ∧ i.ordinal ≠ ordinal)) :
    Kept remote s.job items' t { a with pullers := a.others ordinal, failed := failed } := by
  refine .working ?_ ?_ ?_ (kept.not_cleaning (.inr (ne_nil_of_mem (Attempt.find_mem found).1)))
  · exact fun x there => scopes ▸ kept.todo x there
  · intro r there
    have earlier := (Attempt.mem_others there).1
    exact ⟨scopes ▸ (kept.pullers r earlier).1, (kept.pullers r earlier).2⟩
  · intro none fine i there
    rcases states fine i there with finished | ⟨earlier, other⟩
    · exact .inl finished
    rcases kept.covered none (succeeded fine) i earlier with finished | waits | ⟨r, pulling, number⟩
    · exact .inl finished
    · exact .inr (.inl waits)
    refine .inr (.inr ⟨r, ?_, number⟩)
    simp only [Attempt.others, mem_filter, bne_iff_ne]
    exact ⟨pulling, fun same => other (number.symm.trans same)⟩

theorem Safe.record (safe : Safe remote s) (under : s.attempt = some a)
    {result : Except OperationError Int}
    (found : a.find ordinal = some ⟨item, .returned result⟩) (now : Time) :
    Safe remote { s with
      items := storeItem s.items (Puller.outcome ⟨item, .returned result⟩ result now)
      attempt := some { a with
        pullers := a.others ordinal, failed := a.failed || !result.isOk } } := by
  have kept := safe.attempt a under
  obtain ⟨inside, number⟩ := Attempt.find_mem found
  obtain ⟨known, action, pull⟩ := kept.pullers _ inside
  have same : scope (Puller.outcome ⟨item, .returned result⟩ result now) = scope item := by
    cases result with
    | ok => rfl
    | error err => simp only [Puller.outcome]; split_ifs <;> rfl
  have known' := same ▸ known
  have scopes := scopes_storeItem safe.core.laid known'
  refine ⟨?_, fun a' now' => ?_⟩
  · cases result with
    | ok written =>
      refine safe.core.store known' (fun file _ => ?_) nofun
      exact pull file
    | error err =>
      refine safe.core.storeOpen known' ?_ ?_
      · simp only [Puller.outcome]
        split_ifs <;> exact nofun
      · simp only [Puller.outcome]
        split_ifs <;> exact nofun
  · cases now'
    refine kept.drop found scopes (fun fine => (Bool.or_eq_false_iff.mp fine).1) ?_
    intro fine i there
    rcases mem_storeItem there with ⟨rfl, _⟩ | ⟨earlier, other⟩
    · cases result with
      | ok => exact .inl rfl
      | error => cases (Bool.or_eq_false_iff.mp fine).2
    · refine .inr ⟨earlier, fun here => other ?_⟩
      exact (here.trans number.symm).trans (congrArg ItemScope.ordinal same).symm

theorem Safe.lose (safe : Safe remote s) (under : s.attempt = some a)
    (found : a.find ordinal = some p) :
    Safe remote { s with
      attempt := some { a with pullers := a.others ordinal, failed := true } } := by
  have kept := safe.attempt a under
  refine ⟨safe.core, fun a' now => ?_⟩
  cases now
  exact kept.drop found rfl nofun nofun

theorem mem_cleanupList {job : Job} {list : List JobItem}
    (made : cleanupList job items = some list) :
    (∀ item ∈ items, item.action = .skip → job.conflictPolicy = .checksum) ∧
      ∀ c ∈ list, c ∈ items := by
  unfold cleanupList at made
  split_ifs at made with unverified rootless
  cases made
  constructor
  · intro item inside skip
    by_contra other
    exact unverified (any_eq_true.mpr ⟨item, inside, by simp [skip, other]⟩)
  · intro c inside
    exact mem_of_mem_filter ((mem_insertionSort _).mp inside)

theorem Safe.finalize (safe : Safe remote s) (under : s.attempt = some a) (todo : a.todo = [])
    (pullers : a.pullers = []) (succeeded : a.failed = false) (unwarned : a.warnings = 0)
    {list : List JobItem} (made : cleanupList s.job s.items = some list) :
    Safe remote { s with attempt := some { a with cleaning := some list } } := by
  have kept := safe.attempt a under
  obtain ⟨compared, listed⟩ := mem_cleanupList made
  have finished : ∀ item ∈ s.items, isFinished item = true := by
    intro item inside
    rcases kept.covered unwarned succeeded item inside with done | ⟨x, there, _⟩ | ⟨p, there, _⟩
    · exact done
    · rw [todo] at there
      cases there
    · rw [pullers] at there
      cases there
  have trusted : ∀ item ∈ s.items, Trusted s.job item := by
    intro item inside
    have done := finished item inside
    simp only [isFinished, Bool.or_eq_true, beq_iff_eq] at done
    rcases done with completed | skipped
    · exact .inl completed
    · have skip := safe.core.skipped item inside skipped
      exact .inr ⟨compared item inside skip, skip⟩
  refine ⟨safe.core, fun a' now => ?_⟩
  cases now
  refine ⟨kept.todo, kept.pullers, kept.covered, fun _ => ⟨todo, pullers⟩, fun list' same c inside => ?_⟩
  cases same
  exact ⟨trusted c (listed c inside), finished c (listed c inside), c, listed c inside, rfl,
    trusted c (listed c inside)⟩

theorem Trusted.cleaned {job : Job} {c : JobItem} (trusted : Trusted job c) (err : Option String)
    (now : Time) : Trusted job (cleaned c err now) := trusted

theorem Safe.delete (safe : Safe remote s) (under : s.attempt = some a) {c : JobItem}
    {rest : List JobItem} (cleaning : a.cleaning = some (c :: rest)) (err : Option String)
    (now : Time) :
    Safe remote { s with
      items := storeItem s.items (cleaned c err now)
      attempt := if err = none then some { a with cleaning := some rest } else none } := by
  have kept := safe.attempt a under
  obtain ⟨trusted, finished, item, inside, same, stored⟩ :=
    kept.cleaning _ cleaning c mem_cons_self
  have known : scope (cleaned c err now) ∈ s.items.map scope :=
    same ▸ mem_map_of_mem inside
  have scopes := scopes_storeItem safe.core.laid known
  have type : item.type = c.type := congrArg ItemScope.type same
  refine ⟨safe.core.store known (fun file _ => ?_) (fun skipped => ?_), fun a' now' => ?_⟩
  · have saved := safe.core.saved item inside (type.trans file) stored
    rw [same] at saved
    exact saved
  · rcases trusted with completed | ⟨_, skip⟩
    · have state : c.state = .skipped := skipped
      rw [completed] at state
      cases state
    · exact skip
  · split_ifs at now'
    cases now'
    obtain ⟨todo, pullers⟩ := kept.quiet (by rw [cleaning]; rfl)
    refine ⟨?_, ?_, ?_, fun _ => ⟨todo, pullers⟩, ?_⟩
    · exact fun x there => scopes.symm ▸ kept.todo x there
    · exact fun p there => scopes.symm ▸ kept.pullers p there
    · exact fun none succeeded => forall_storeItem (.inl finished) (kept.covered none succeeded)
    · intro list same' c' there
      cases same'
      obtain ⟨trusted', finished', item', inside', same', stored'⟩ :=
        kept.cleaning _ cleaning c' (mem_cons_of_mem c there)
      refine ⟨trusted', finished', ?_⟩
      by_cases here : item'.ordinal = c.ordinal
      · refine ⟨cleaned c err now, ?_, ?_, trusted.cleaned err now⟩
        · exact mem_map.mpr ⟨item', inside', if_pos here⟩
        have one : scope item' = scope item :=
          safe.core.laid.unique (mem_map_of_mem inside') (mem_map_of_mem inside)
            (here.trans (congrArg ItemScope.ordinal same).symm)
        exact (same.symm.trans one.symm).trans same'
      · exact ⟨item', mem_map.mpr ⟨item', inside', if_neg here⟩, same', stored'⟩

end Attempt

theorem Safe.next (safe : Safe remote s) {e : MoveEvent} {s' : MoveRun} {answer : Option JobItem}
    (moved : s.next remote e = some (s', answer)) (calm : Undisturbed s e s') : Safe remote s' := by
  cases e with
  | change tree =>
    cases moved
    exact safe.change calm
  | overrideItem ordinal action destination =>
    simp only [MoveRun.next] at moved
    split_ifs at moved with may
    cases moved
    obtain ⟨idle, policy, permitted⟩ := may
    refine ⟨safe.core.overridden policy permitted calm, fun a under => ?_⟩
    have none : s.attempt = none := Option.isNone_iff_eq_none.mp idle
    cases none.symm.trans under
  | begin =>
    simp only [MoveRun.next] at moved
    split at moved <;> cases moved
    exact safe.begin
  | scan denied created now =>
    cases under : s.attempt with
    | none =>
      simp only [MoveRun.next, under] at moved
      cases moved
    | some a =>
      cases todo : a.todo with
      | nil =>
        simp only [MoveRun.next, under, todo] at moved
        cases moved
      | cons item rest => exact safe.scan under todo moved
  | pick ordinal =>
    simp only [MoveRun.next] at moved
    split at moved
    · rename_i a under
      split at moved <;> cases moved
      rename_i found
      exact safe.pick under found
    · cases moved
  | pull ordinal input =>
    simp only [MoveRun.next] at moved
    split at moved
    · rename_i a under
      split at moved
      · rename_i p found
        split at moved <;> cases moved
        rename_i step
        exact safe.pull under found step
      · cases moved
    · cases moved
  | record ordinal lost now =>
    simp only [MoveRun.next] at moved
    split at moved
    · rename_i a under
      split at moved
      · rename_i found
        split_ifs at moved <;> cases moved
        · exact safe.lose under found
        · exact safe.record under found now
      · cases moved
    · cases moved
  | finalize =>
    simp only [MoveRun.next] at moved
    split at moved
    · rename_i a under
      split_ifs at moved with ready move
      · obtain ⟨todo, pullers, succeeded, unwarned, _⟩ := ready
        split at moved <;> cases moved
        · rename_i list made
          exact safe.finalize under todo (List.isEmpty_iff.mp pullers) succeeded unwarned made
        · exact .idle safe.core
      · cases moved
        exact .idle safe.core
    · cases moved
  | delete err now =>
    simp only [MoveRun.next] at moved
    split at moved
    · rename_i a under
      split at moved
      · rename_i item rest cleaning
        by_cases rooted : hasRoot s.items item = true
        · rw [if_pos rooted] at moved
          cases moved
          exact safe.delete under cleaning err now
        · rw [if_neg rooted] at moved
          cases moved
      · cases moved
    · cases moved
  | stop =>
    cases moved
    exact .idle safe.core

theorem planRemoteAction_ok {permitted : String → Bool} {policy : ConflictPolicy}
    (planned : planRemoteAction remote permitted t item policy = .ok (action, destination)) :
    (item.type ≠ .directory → action ≠ .create ∧ action ≠ .merge) ∧
      (policy = .checksum → action = .skip → destination = item.destinationPath ∧
        ∃ bytes, t destination = some (.file bytes) ∧ remote.sha256 bytes = item.checksum) ∧
      (policy = .skip → pulls action = true → t destination = none) := by
  unfold planRemoteAction at planned
  by_cases directory : item.type = .directory
  · simp only [directory, if_true] at planned
    refine ⟨fun other => absurd directory other, ?_⟩
    split at planned <;> cases planned <;>
      exact ⟨fun _ => nofun, fun _ => nofun⟩
  · simp only [if_neg directory] at planned
    split at planned
    · rename_i empty
      cases planned
      exact ⟨fun _ => ⟨nofun, nofun⟩, fun _ => nofun, fun _ _ => empty⟩
    · cases planned
      exact ⟨fun _ => ⟨nofun, nofun⟩, fun _ => nofun, fun _ => nofun⟩
    · rename_i bytes found
      cases policy with
      | checksum =>
        simp only at planned
        split_ifs at planned with missing equal <;> cases planned
        · exact ⟨fun _ => ⟨nofun, nofun⟩, fun _ _ => ⟨rfl, bytes, found, equal⟩,
            nofun⟩
        · exact ⟨fun _ => ⟨nofun, nofun⟩, fun _ => nofun, nofun⟩
      | rename =>
        simp only at planned
        split at planned <;> cases planned
        exact ⟨fun _ => ⟨nofun, nofun⟩, nofun, nofun⟩
      | skip =>
        cases planned
        exact ⟨fun _ => ⟨nofun, nofun⟩, nofun, fun _ => nofun⟩
      | overwrite | fail | ask | other =>
        cases planned
        exact ⟨fun _ => ⟨nofun, nofun⟩, nofun, nofun⟩

theorem planItem_ok {permitted : String → Bool} {policy : ConflictPolicy} {blocked : Bool}
    {entry : JobItem} (planned : planItem remote permitted t policy blocked entry = .ok item) :
    item.state = .pending ∧ (item.type = .file → item.action ≠ .create ∧ item.action ≠ .merge) ∧
      (policy = .checksum → item.action = .skip → Saved remote t (scope item)) ∧
      (policy = .skip → pulls item.action = true → t item.destinationPath = none) := by
  unfold planItem at planned
  dsimp only at planned
  split_ifs at planned
  · cases planned
    exact ⟨rfl, fun _ => ⟨nofun, nofun⟩, fun _ => nofun, fun _ => nofun⟩
  split at planned <;> cases planned
  rename_i action destination decided
  obtain ⟨typed, compared, absent⟩ := planRemoteAction_ok decided
  refine ⟨rfl, fun file => typed fun directory => ?_, fun policy skip => ?_, absent⟩
  · cases directory.symm.trans file
  · obtain ⟨_, bytes, found, equal⟩ := compared policy skip
    exact ⟨bytes, found, equal⟩

theorem Safe.start (plan : MovePlan remote)
    (apart : Apart plan.job.conflictPolicy (plan.items.map scope)) : Safe remote plan.start := by
  refine .idle ⟨⟨?_, ?_, apart, ?_⟩, ?_, ?_, ?_⟩
  · obtain ⟨requested, verified⟩ := plan.verified
    rw [verified, batchVerifies, plan.isMove]
    simp
  · rw [map_map]
    exact plan.numbered
  · intro i inside
    obtain ⟨item, there, rfl⟩ := mem_map.mp inside
    obtain ⟨_, _, _, planned⟩ := plan.planned item there
    exact (planItem_ok planned).2.1
  · intro item inside _ trusted
    obtain ⟨_, _, _, planned⟩ := plan.planned item inside
    rcases trusted with completed | ⟨policy, skip⟩
    · rw [(planItem_ok planned).1] at completed
      cases completed
    · exact (planItem_ok planned).2.2.1 policy skip
  · intro policy item inside _ action
    obtain ⟨_, _, _, planned⟩ := plan.planned item inside
    exact .inl ((planItem_ok planned).2.2.2 policy action)
  · intro item inside skipped
    obtain ⟨_, _, _, planned⟩ := plan.planned item inside
    rw [(planItem_ok planned).1] at skipped
    cases skipped

theorem next_delete {e : MoveEvent} {s' : MoveRun}
    (moved : s.next remote e = some (s', some item)) :
    ∃ a rest, s.attempt = some a ∧ a.cleaning = some (item :: rest) := by
  cases e with
  | delete err now =>
    simp only [MoveRun.next] at moved
    split at moved
    · rename_i a under
      split at moved
      · rename_i c rest cleaning
        by_cases rooted : hasRoot s.items c = true
        · rw [if_pos rooted] at moved
          cases moved
          exact ⟨a, rest, under, cleaning⟩
        · rw [if_neg rooted] at moved
          cases moved
      · cases moved
    · cases moved
  | _ =>
    simp only [MoveRun.next] at moved
    repeat' split at moved
    all_goals cases moved

/-- Whenever the source of a file is to be deleted, its destination holds a file with the
checksum of the source: in every run of a planned move that others do not disturb. -/
theorem move_deletes_only_saved (plan : MovePlan remote)
    (apart : Apart plan.job.conflictPolicy (plan.items.map scope)) {e : MoveEvent} {s' : MoveRun}
    {item : JobItem} (run : Run (MoveRun.next remote) Undisturbed plan.start s)
    (moved : s.next remote e = some (s', some item)) (file : item.type = .file) :
    ∃ bytes, s.tree item.destinationPath = some (.file bytes) ∧
      remote.sha256 bytes = remote.sha256 (remote.content item.sourcePath) := by
  have safe := run.keeps (fun s e u a moved calm safe => Safe.next safe moved calm)
    (Safe.start plan apart)
  obtain ⟨a, rest, under, cleaning⟩ := next_delete moved
  obtain ⟨_, _, stored, inside, same, trusted⟩ :=
    (safe.attempt a under).cleaning _ cleaning item mem_cons_self
  have type : stored.type = item.type := congrArg ItemScope.type same
  have saved := safe.core.saved stored inside (type.trans file) trusted
  rw [same] at saved
  exact saved

end Steps

section Sample

def sampleRemote : Remote where
  sha256 bytes := "sha-" ++ String.ofList (bytes.map fun b => Char.ofNat b.toNat)
  content _ := [1, 2]

def sampleTime : Time := Time.ofUnix 110

def sampleMove (policy : ConflictPolicy) : Job :=
  { id := "t", type := .transferMoveBatch, state := .running, mountID := "m", destination := "d"
    conflictPolicy := policy, verifyChecksum := true, maxAttempts := 3 }

def sampleEntry : JobItem :=
  { jobID := "t", ordinal := 0, relativePath := "a", sourcePath := "a", destinationPath := "d/a"
    type := .file, sourceRoot := true, sourceCleanupState := .pending, action := .copy }

def samplePlan (policy : ConflictPolicy) : MovePlan sampleRemote where
  job := sampleMove policy
  items := [manifestItem sampleRemote sampleEntry]
  tree := fun _ => none
  isMove := rfl
  verified := ⟨true, rfl⟩
  numbered := by simp
  planned item inside := by
    cases mem_singleton.mp inside
    exact ⟨fun _ => true, false, sampleEntry, rfl⟩

theorem samplePlan_apart (policy : ConflictPolicy) :
    Apart policy ((samplePlan policy).items.map scope) := by
  intro i hi k hk other
  cases mem_singleton.mp hi
  cases mem_singleton.mp hk
  exact absurd rfl other

/-- The file is pulled, published and recorded; then the sources are to be deleted. -/
def sampleEvents : List MoveEvent :=
  [.begin, .scan none true sampleTime, .pick 0, .pull 0 .proceed, .pull 0 .proceed,
    .pull 0 .proceed, .pull 0 (.receive [1, 2]), .pull 0 .proceed, .record 0 false sampleTime, .finalize]

def samplePeace : MoveEvent → Bool
  | .change _ | .overrideItem .. => false
  | _ => true

theorem samplePeace_undisturbed (s : MoveRun) (e : MoveEvent) (s' : MoveRun)
    (peace : samplePeace e = true) : Undisturbed s e s' := by
  cases e <;> trivial

def sampleReady : MoveRun :=
  (replay (MoveRun.next sampleRemote) (fun _ e _ => samplePeace e) (samplePlan .fail).start
    sampleEvents).getD (samplePlan .fail).start

/-- The source of the sample file is deleted when its bytes have arrived. -/
theorem sample_deleted_after_save :
    ∃ bytes, sampleReady.tree "d/a" = some (.file bytes) ∧
      sampleRemote.sha256 bytes = sampleRemote.sha256 (sampleRemote.content "a") := by
  have run : Run (MoveRun.next sampleRemote) Undisturbed (samplePlan .fail).start sampleReady :=
    Run.of_possible samplePeace_undisturbed (by decide +kernel) _
  have asked : ((sampleReady.next sampleRemote (.delete none sampleTime)).bind Prod.snd).map
      (fun item => (item.destinationPath, item.sourcePath, item.type)) = some ("d/a", "a", .file) := by
    decide +kernel
  obtain ⟨item, found, same⟩ := Option.map_eq_some_iff.mp asked
  obtain ⟨⟨s', answer⟩, moved, rfl⟩ := Option.bind_eq_some_iff.mp found
  obtain ⟨destination, source, file⟩ := Prod.mk.inj same |>.imp_right Prod.mk.inj
  have saved := move_deletes_only_saved (samplePlan .fail) (samplePlan_apart .fail) run moved file
  rwa [destination, source] at saved

/-- Somebody else's file turns up at the destination before the job starts. The skip policy
leaves it there and the item still counts as completed. -/
def intrudedEvents : List MoveEvent :=
  [.change fun path => if path = "d/a" then some (.file [9]) else none, .begin,
    .scan none true sampleTime, .pick 0, .pull 0 .proceed, .record 0 false sampleTime, .finalize]

def intruded : MoveRun :=
  (replay (MoveRun.next sampleRemote) (fun _ _ _ => true) (samplePlan .skip).start
    intrudedEvents).getD (samplePlan .skip).start

theorem move_deletes_under_intruder :
    Run (MoveRun.next sampleRemote) (fun _ _ _ => True) (samplePlan .skip).start intruded ∧
    ((intruded.next sampleRemote (.delete none sampleTime)).bind Prod.snd).map
      (fun item => (item.sourcePath, item.destinationPath, item.type)) = some ("a", "d/a", .file) ∧
    intruded.tree "d/a" = some (.file [9]) ∧
    sampleRemote.sha256 [9] ≠ sampleRemote.sha256 (sampleRemote.content "a") := by
  refine ⟨Run.of_possible (fun _ _ _ _ => trivial) (by decide +kernel) _, ?_, ?_, ?_⟩
  · decide +kernel
  · decide +kernel
  · decide +kernel

end Sample

end Jolt.Transfers
