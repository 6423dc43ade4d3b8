import Jolt.Approvals.Pending
import Mathlib.Data.List.Nodup

/-! A request that waits for approval is decided at most once. Every call of the store only
moves the rows it keeps along a fixed order of states, and only a new row is waiting again;
what holds of the table's past follows by induction over the run. -/
namespace Jolt.Approvals
open Jolt.Base List

section Moves

/-- The order of the states: a request waits, then runs, and then is decided for good. -/
def PendingState.Leads : PendingState → PendingState → Prop
  | .pending, _ => True
  | .executing, later => later ≠ .pending
  | state, later => later = state

theorem PendingState.Leads.refl (state : PendingState) : state.Leads state := by
  cases state <;> simp [Leads]

theorem PendingState.Leads.trans {a b c : PendingState} (first : a.Leads b) (second : b.Leads c) :
    a.Leads c := by
  cases a <;> cases b <;> simp_all [Leads]

theorem PendingState.Leads.waiting {state : PendingState} (leads : state.Leads .pending) :
    state = .pending := by
  cases state <;> simp_all [Leads]

theorem PendingState.Leads.final {state later : PendingState} (leads : state.Leads later)
    (decided : state.decided = true) : later = state := by
  cases state <;> simp_all [Leads, PendingState.decided]

def PendingOperation.key (op : PendingOperation) : String × Instant := (op.id, op.expiresAt)

/-- Rows of an earlier table, some of them gone, each in its own or a later state. -/
structure Follows (rows later : Table) : Prop where
  keys : (later.map PendingOperation.key).Sublist (rows.map PendingOperation.key)
  moved : ∀ op' ∈ later, ∃ op ∈ rows, op.key = op'.key ∧ op.state.Leads op'.state

variable {rows later : Table}

theorem Follows.refl (rows : Table) : Follows rows rows where
  keys := List.Sublist.refl _
  moved op inside := ⟨op, inside, rfl, .refl _⟩

theorem Follows.trans {last : Table} (first : Follows rows later) (second : Follows later last) :
    Follows rows last where
  keys := second.keys.trans first.keys
  moved op'' inside := by
    obtain ⟨op', there, same', leads'⟩ := second.moved op'' inside
    obtain ⟨op, here, same, leads⟩ := first.moved op' there
    exact ⟨op, here, same.trans same', leads.trans leads'⟩

theorem Follows.map {f : PendingOperation → PendingOperation}
    (step : ∀ op ∈ rows, (f op).key = op.key ∧ op.state.Leads (f op).state) :
    Follows rows (rows.map f) := by
  constructor
  · have same : (rows.map f).map PendingOperation.key = rows.map PendingOperation.key := by
      rw [map_map]
      exact map_congr_left fun op inside => (step op inside).1
    rw [same]
  · intro op' inside
    obtain ⟨op, here, rfl⟩ := mem_map.mp inside
    exact ⟨op, here, (step op here).1.symm, (step op here).2⟩

theorem Follows.filter (keep : PendingOperation → Bool) : Follows rows (rows.filter keep) where
  keys := filter_sublist.map _
  moved op inside := ⟨op, (mem_filter.mp inside).1, rfl, .refl _⟩

theorem expirePending_follows (now : Instant) (rows : Table) :
    Follows rows (expirePending now rows) := by
  apply Follows.trans (Follows.map _) (Follows.filter _)
  intro op _
  split
  · rename_i late
    constructor
    · rfl
    · rw [late.1]
      trivial
  · exact ⟨rfl, .refl _⟩

theorem update_follows {id : String} {state : PendingState}
    {change : PendingOperation → PendingOperation}
    (step : ∀ op, op.state = state → (change op).key = op.key ∧ state.Leads (change op).state) :
    Follows rows (rows.update id state change) := by
  apply Follows.map
  intro op _
  split
  · rename_i here
    rw [here.2]
    exact step op here.2
  · exact ⟨rfl, .refl _⟩

theorem row_some {id : String} {op : PendingOperation} (found : rows.row id = some op) :
    op ∈ rows ∧ op.id = id := by
  have same := find?_some found
  exact ⟨mem_of_find?_eq_some found, of_decide_eq_true same⟩

theorem row_none {id : String} (missing : rows.row id = none) : ∀ op ∈ rows, op.id ≠ id := by
  intro op inside same
  have other := find?_eq_none.mp missing op inside
  exact other (decide_eq_true same)

theorem update_not_waiting {id : String} {change : PendingOperation → PendingOperation}
    (step : ∀ op, (change op).state ≠ .pending) :
    ∀ op ∈ rows.update id .pending change, op.id = id → op.state ≠ .pending := by
  intro op' inside same
  obtain ⟨op, _, rfl⟩ := mem_map.mp inside
  split at same
  · rename_i here
    rw [if_pos here]
    exact step op
  · rename_i other
    rw [if_neg other]
    exact fun waits => other ⟨same, waits⟩

end Moves

section Calls

variable {digest : Digest} {rows later : Table}

theorem error_ne_ok {α : Type} {err : StoreError} {a : α} :
    (Except.error err : Except StoreError α) ≠ .ok a :=
  nofun

theorem create_cases {ask : Ask} {maxPerRequester : Int} {random : String} {now : Instant}
    {result : Except StoreError (PendingOperation × Bool)}
    (done : createPendingOperation digest rows ask maxPerRequester random now = (result, later)) :
    (later = rows ∧ ∀ op, result ≠ .ok (op, false)) ∨
      ∃ kind, result = .ok (newOperation digest ask kind ("pop_" ++ random) now, false) ∧
        later = expirePending now rows ++ [newOperation digest ask kind ("pop_" ++ random) now] ∧
        ∀ op ∈ expirePending now rows, op.id ≠ "pop_" ++ random := by
  unfold createPendingOperation at done
  dsimp only at done
  split at done
  · cases done
    exact .inl ⟨rfl, fun _ => error_ne_ok⟩
  rename_i kind _
  split at done
  · cases done
    refine .inl ⟨rfl, fun op same => ?_⟩
    have existing := (Prod.mk.inj (Except.ok.inj same)).2
    cases existing
  · split at done
    · cases done
      exact .inl ⟨rfl, fun _ => error_ne_ok⟩
    split at done
    · cases done
      exact .inl ⟨rfl, fun _ => error_ne_ok⟩
    rename_i missing
    cases done
    have none := Option.not_isSome_iff_eq_none.mp missing
    exact .inr ⟨kind, rfl, rfl, row_none none⟩

theorem get_follows (rows : Table) (id : String) (now : Instant) :
    Follows rows (getPendingOperation rows id now).2 := by
  unfold getPendingOperation
  dsimp only
  split
  · exact .refl rows
  · exact expirePending_follows now rows

theorem claim_cases (once : (rows.map PendingOperation.id).Nodup) {id byType byID : String}
    {now : Instant} {result : Except StoreError PendingOperation}
    (done : claimPendingOperation digest rows id byType byID now = (result, later)) :
    Follows rows later ∧ ∀ claimed, result = .ok claimed →
      (∃ op ∈ rows, op.id = id ∧ op.state = .pending ∧ now < op.expiresAt) ∧
        ∀ op ∈ later, op.id = id → op.state ≠ .pending := by
  unfold claimPendingOperation at done
  split at done
  · cases done
    exact ⟨.refl rows, fun _ failed => absurd failed error_ne_ok⟩
  rename_i op found
  split at done
  · cases done
    exact ⟨update_follows fun op _ => ⟨rfl, trivial⟩, fun _ failed => absurd failed error_ne_ok⟩
  rename_i timely
  split at done
  · cases done
    exact ⟨.refl rows, fun _ failed => absurd failed error_ne_ok⟩
  split at done
  · cases done
    exact ⟨.refl rows, fun _ failed => absurd failed error_ne_ok⟩
  rename_i one
  cases done
  refine ⟨update_follows fun op _ => ⟨rfl, trivial⟩, fun _ _ => ⟨?_, ?_⟩⟩
  · obtain ⟨here, same⟩ := row_some found
    have changed : 0 < rows.changed id .pending := by omega
    obtain ⟨op', there, waits⟩ := countP_pos_iff.mp changed
    have waits := of_decide_eq_true waits
    have equal := inj_on_of_nodup_map once there here (waits.1.trans same.symm)
    rw [equal] at waits
    refine ⟨op, here, same, waits.2, ?_⟩
    by_contra late
    exact timely ⟨waits.2, late⟩
  · exact update_not_waiting (by simp)

theorem finish_follows (rows : Table) (id : String) (status : Int) (body : Bytes) :
    Follows rows (finishPendingOperation rows id status body).2 := by
  unfold finishPendingOperation
  dsimp only
  split
  · exact .refl rows
  apply update_follows
  intro op _
  constructor
  · rfl
  · dsimp only
    split <;> simp [PendingState.Leads]

theorem reject_cases {id byType byID note : String} {now : Instant}
    {result : Except StoreError PendingOperation}
    (done : rejectPendingOperation rows id byType byID note now = (result, later)) :
    Follows rows later ∧ ∀ rejected, result = .ok rejected →
      (∃ op ∈ rows, op.id = id ∧ op.state = .pending) ∧
        ∀ op ∈ later, op.id = id → op.state ≠ .pending := by
  unfold rejectPendingOperation at done
  dsimp only at done
  split at done
  · cases done
    exact ⟨.refl rows, fun _ failed => absurd failed error_ne_ok⟩
  rename_i op found
  split at done
  · cases done
    exact ⟨.refl rows, fun _ failed => absurd failed error_ne_ok⟩
  rename_i waits
  cases done
  have swept := expirePending_follows now rows
  refine ⟨swept.trans (update_follows fun op _ => ⟨rfl, trivial⟩), fun _ _ => ⟨?_, ?_⟩⟩
  · obtain ⟨there, same⟩ := row_some found
    obtain ⟨before, here, key, leads⟩ := swept.moved op there
    rw [not_not.mp waits] at leads
    exact ⟨before, here, (congrArg Prod.fst key).trans same, leads.waiting⟩
  · exact update_not_waiting (by simp)

theorem recover_follows (rows : Table) : Follows rows (recoverPendingOperations rows) := by
  apply Follows.map
  intro op _
  split
  · rename_i running
    constructor
    · rfl
    · simp [running, PendingState.Leads]
  · exact ⟨rfl, .refl _⟩

end Calls

section Runs

variable {digest : Digest} {h h' : History}

/-- What a call does to the table and its past: it moves rows along, decides a request that
waits, or adds a request with a new identifier. -/
inductive Effect (h : History) : History → Prop where
  | follow {rows : Table} (follows : Follows h.rows rows) : Effect h { h with rows }
  | decide {rows : Table} {op : PendingOperation} {d : Decision} (follows : Follows h.rows rows)
      (here : op ∈ h.rows) (waits : op.state = .pending) (about : d.id = op.id)
      (timely : ∀ id now, d = .claimed id now → now < op.expiresAt)
      (decided : ∀ op' ∈ rows, op'.id = op.id → op'.state ≠ .pending) :
      Effect h ⟨rows, h.issued, d :: h.decisions⟩
  | create {rows : Table} {op : PendingOperation} (follows : Follows h.rows rows)
      (new : op.id ∉ h.issued.map Prod.fst) (absent : ∀ op' ∈ rows, op'.id ≠ op.id) :
      Effect h ⟨rows ++ [op], op.key :: h.issued, h.decisions⟩

theorem next_effect (once : (h.rows.map PendingOperation.id).Nodup) {call : Call}
    {a : Option Answer} (moved : h.next digest call = some (h', a)) (met : Unrepeated h call h') :
    Effect h h' := by
  cases call with
  | create ask maxPerRequester random now =>
    simp only [History.next] at moved
    split at moved
    · rename_i op rows done
      cases moved
      rcases create_cases done with ⟨_, refused⟩ | ⟨kind, same, rfl, absent⟩
      · exact absurd rfl (refused op)
      obtain rfl := (Prod.mk.inj (Except.ok.inj same)).1
      refine .create (expirePending_follows now h.rows) (fun inside => ?_) absent
      obtain ⟨issue, there, same⟩ := mem_map.mp inside
      exact met issue there same
    · rename_i result rows created done
      cases moved
      rcases create_cases done with ⟨rfl, _⟩ | ⟨kind, same, _, _⟩
      · exact .follow (.refl _)
      · exact absurd same (created _)
  | get id now =>
    cases moved
    exact .follow (get_follows h.rows id now)
  | list now =>
    cases moved
    exact .follow (expirePending_follows now h.rows)
  | claim id byType byID now =>
    simp only [History.next] at moved
    split at moved
    · rename_i claimed rows done
      cases moved
      obtain ⟨follows, taken⟩ := claim_cases once done
      obtain ⟨⟨op, here, rfl, waits, early⟩, decided⟩ := taken claimed rfl
      exact .decide follows here waits rfl (fun id now same => by cases same; exact early) decided
    · rename_i err rows done
      cases moved
      exact .follow (claim_cases once done).1
  | finish id status body =>
    cases moved
    exact .follow (finish_follows h.rows id status body)
  | reject id byType byID note now =>
    simp only [History.next] at moved
    split at moved
    · rename_i rejected rows done
      cases moved
      obtain ⟨follows, taken⟩ := reject_cases done
      obtain ⟨⟨op, here, rfl, waits⟩, decided⟩ := taken rejected rfl
      exact .decide follows here waits rfl nofun decided
    · rename_i err rows done
      cases moved
      exact .follow (reject_cases done).1
  | rolledBack =>
    cases moved
    exact .follow (.refl h.rows)
  | restart =>
    cases moved
    exact .follow (recover_follows h.rows)

structure Sound (h : History) : Prop where
  issuedOnce : (h.issued.map Prod.fst).Nodup
  once : (h.rows.map PendingOperation.id).Nodup
  known : ∀ op ∈ h.rows, op.key ∈ h.issued
  decidedOnce : (h.decisions.map Decision.id).Nodup
  decidedKnown : ∀ d ∈ h.decisions, d.id ∈ h.issued.map Prod.fst
  timely : ∀ id now, .claimed id now ∈ h.decisions →
    ∃ expiresAt, (id, expiresAt) ∈ h.issued ∧ now < expiresAt
  waiting : ∀ op ∈ h.rows, op.state = .pending → op.id ∉ h.decisions.map Decision.id

theorem Sound.empty : Sound .empty := by
  constructor <;> simp [History.empty]

theorem Follows.once {rows later : Table} (follows : Follows rows later)
    (once : (rows.map PendingOperation.id).Nodup) : (later.map PendingOperation.id).Nodup := by
  have ids : ∀ rows : Table, rows.map PendingOperation.id =
      (rows.map PendingOperation.key).map Prod.fst := by
    intro rows
    rw [map_map]
    rfl
  rw [ids] at once ⊢
  exact once.sublist (follows.keys.map Prod.fst)

theorem Sound.follow (sound : Sound h) {rows : Table} (follows : Follows h.rows rows) :
    Sound { h with rows } where
  issuedOnce := sound.issuedOnce
  once := follows.once sound.once
  known op' inside := by
    obtain ⟨op, here, same, _⟩ := follows.moved op' inside
    exact same ▸ sound.known op here
  decidedOnce := sound.decidedOnce
  decidedKnown := sound.decidedKnown
  timely := sound.timely
  waiting op' inside waits := by
    obtain ⟨op, here, same, leads⟩ := follows.moved op' inside
    rw [waits] at leads
    have id : op.id = op'.id := congrArg Prod.fst same
    exact id ▸ sound.waiting op here leads.waiting

theorem Sound.decide (sound : Sound h) {rows : Table} (follows : Follows h.rows rows)
    {op : PendingOperation} (here : op ∈ h.rows) (waits : op.state = .pending) {d : Decision}
    (about : d.id = op.id) (timely : ∀ id now, d = .claimed id now → now < op.expiresAt)
    (decided : ∀ op' ∈ rows, op'.id = op.id → op'.state ≠ .pending) :
    Sound ⟨rows, h.issued, d :: h.decisions⟩ := by
  have followed := sound.follow follows
  have first := sound.waiting op here waits
  have key := sound.known op here
  constructor
  · exact sound.issuedOnce
  · exact followed.once
  · exact followed.known
  · rw [map_cons, nodup_cons, about]
    exact ⟨first, sound.decidedOnce⟩
  · rw [forall_mem_cons, about]
    exact ⟨mem_map_of_mem key, sound.decidedKnown⟩
  · intro id now claimed
    rcases mem_cons.mp claimed with now_ | before
    · have same : id = op.id := by rw [← about, ← now_]; rfl
      exact ⟨op.expiresAt, same ▸ key, timely id now now_.symm⟩
    · exact sound.timely id now before
  · intro op' inside waits'
    rw [map_cons, mem_cons, not_or, about]
    exact ⟨fun same => decided op' inside same waits', followed.waiting op' inside waits'⟩

theorem Sound.create (sound : Sound h) {rows : Table} (follows : Follows h.rows rows)
    {op : PendingOperation} (new : op.id ∉ h.issued.map Prod.fst)
    (absent : ∀ op' ∈ rows, op'.id ≠ op.id) :
    Sound ⟨rows ++ [op], op.key :: h.issued, h.decisions⟩ := by
  have followed := sound.follow follows
  constructor
  · rw [map_cons, nodup_cons]
    exact ⟨new, sound.issuedOnce⟩
  · rw [map_append, nodup_append]
    refine ⟨followed.once, by simp, ?_⟩
    intro id inside id' last same
    obtain ⟨op', here, rfl⟩ := mem_map.mp inside
    have there : id' = op.id := by simpa using last
    exact absent op' here (same.trans there)
  · rw [forall_mem_append]
    refine ⟨fun op' inside => mem_cons_of_mem _ (followed.known op' inside), ?_⟩
    simp
  · exact sound.decidedOnce
  · exact fun d inside => mem_cons_of_mem _ (sound.decidedKnown d inside)
  · intro id now claimed
    obtain ⟨expiresAt, known, before⟩ := sound.timely id now claimed
    exact ⟨expiresAt, mem_cons_of_mem _ known, before⟩
  · rw [forall_mem_append]
    refine ⟨followed.waiting, ?_⟩
    intro op' last _ inside
    obtain ⟨d, there, same⟩ := mem_map.mp inside
    rw [mem_singleton.mp last] at same
    exact new (same ▸ sound.decidedKnown d there)

theorem Effect.sound (effect : Effect h h') (sound : Sound h) : Sound h' := by
  cases effect with
  | follow follows => exact sound.follow follows
  | decide follows here waits about timely decided =>
    exact sound.decide follows here waits about timely decided
  | create follows new absent => exact sound.create follows new absent

theorem run_sound (run : Run (History.next digest) Unrepeated h h') (sound : Sound h) : Sound h' :=
  run.keeps (fun _ _ _ _ moved met sound => (next_effect sound.once moved met).sound sound) sound

def Settled (id : String) (state : PendingState) (h : History) : Prop :=
  id ∈ h.issued.map Prod.fst ∧ ∀ op ∈ h.rows, op.id = id → op.state = state

theorem Effect.settled (effect : Effect h h') {id : String} {state : PendingState}
    (decided : state.decided = true) (settled : Settled id state h) : Settled id state h' := by
  have kept : ∀ rows, Follows h.rows rows → ∀ op ∈ rows, op.id = id → op.state = state := by
    intro rows follows op' inside same
    obtain ⟨op, here, key, leads⟩ := follows.moved op' inside
    have before := settled.2 op here ((congrArg Prod.fst key).trans same)
    rw [before] at leads
    exact leads.final decided
  cases effect with
  | follow follows => exact ⟨settled.1, kept _ follows⟩
  | decide follows => exact ⟨settled.1, kept _ follows⟩
  | create follows new absent =>
    refine ⟨mem_cons_of_mem _ settled.1, ?_⟩
    rw [forall_mem_append, forall_mem_singleton]
    exact ⟨kept _ follows, fun same => absurd (same ▸ settled.1) new⟩

theorem run_settled (run : Run (History.next digest) Unrepeated h h') (sound : Sound h)
    {id : String} {state : PendingState} (decided : state.decided = true)
    (settled : Settled id state h) : Settled id state h' := by
  have both := run.keeps (P := fun h => Sound h ∧ Settled id state h)
    (fun s e u a moved met holds =>
      have effect := next_effect holds.1.once moved met
      ⟨effect.sound holds.1, effect.settled decided holds.2⟩) ⟨sound, settled⟩
  exact both.2

/-- In every run each request is claimed or rejected at most once, and never both; a claim
comes before the request expires; and a request that is decided stays as it is. -/
theorem kept_request_runs_at_most_once (digest : Digest) (h h' : History)
    (run : Run (History.next digest) Unrepeated .empty h)
    (later : Run (History.next digest) Unrepeated h h') :
    (h.issued.map Prod.fst).Nodup ∧ (h.decisions.map Decision.id).Nodup ∧
      (∀ id now, .claimed id now ∈ h.decisions →
        ∃ expiresAt, (id, expiresAt) ∈ h.issued ∧ now < expiresAt) ∧
      ∀ op ∈ h.rows, op.state.decided = true →
        ∀ op' ∈ h'.rows, op'.id = op.id → op'.state = op.state := by
  have sound := run_sound run .empty
  refine ⟨sound.issuedOnce, sound.decidedOnce, sound.timely, ?_⟩
  intro op here decided
  have settled : Settled op.id op.state h := by
    refine ⟨mem_map_of_mem (sound.known op here), ?_⟩
    intro other there same
    rw [inj_on_of_nodup_map sound.once there here same]
  exact (run_settled later sound decided settled).2

end Runs

section Sample

def sampleAsk : Ask where
  kind := ""
  credentialID := ""
  requesterType := "user"
  requesterID := "u"
  method := "DELETE"
  nodeID := "n"
  resource := "mounts/m/files"
  rawQuery := "path=f"
  body := []
  summary := ""
  requirements := [⟨"nodes/n/files/mounts/m/f", "delete"⟩]

def sampleCheck (h : History) : Call → History → Bool
  | .create _ _ random _, _ => h.issued.all fun issue => issue.1 != "pop_" ++ random
  | _, _ => true

theorem sampleCheck_sound (h : History) (call : Call) (h' : History)
    (checked : sampleCheck h call h' = true) : Unrepeated h call h' := by
  cases call with
  | create =>
    intro issue inside
    simpa using all_eq_true.mp checked issue inside
  | _ => trivial

def sampleDone : History :=
  (replay (History.next fun _ => "") sampleCheck .empty
    [.create sampleAsk 5 "1" 0, .get "pop_1" 1, .claim "pop_1" "user" "a" 1,
      .finish "pop_1" 200 []]).getD .empty

/-- Then it is claimed, finished and rejected once more, and control restarts. -/
def sampleAfter : History :=
  (replay (History.next fun _ => "") sampleCheck sampleDone
    [.claim "pop_1" "user" "b" 2, .finish "pop_1" 500 [], .reject "pop_1" "user" "b" "" 3,
      .restart]).getD .empty

theorem sample_request_stays_executed :
    sampleDone.decisions = [.claimed "pop_1" 1] ∧
      ∃ op ∈ sampleDone.rows, op.state = .executed ∧
        ∀ op' ∈ sampleAfter.rows, op'.id = op.id → op'.state = op.state := by
  have run : Run (History.next fun _ => "") Unrepeated .empty sampleDone :=
    Run.of_possible sampleCheck_sound (by decide +kernel) .empty
  have later : Run (History.next fun _ => "") Unrepeated sampleDone sampleAfter :=
    Run.of_possible sampleCheck_sound (by decide +kernel) .empty
  have once := kept_request_runs_at_most_once (fun _ => "") sampleDone sampleAfter run later
  obtain ⟨op, row⟩ : ∃ op, sampleDone.rows = [op] ∧ op.state = .executed :=
    ⟨_, rfl, by decide +kernel⟩
  have here : op ∈ sampleDone.rows := row.1 ▸ mem_cons_self
  refine ⟨by decide +kernel, op, here, row.2, ?_⟩
  exact once.2.2.2 op here (by rw [row.2]; rfl)

end Sample

end Jolt.Approvals
