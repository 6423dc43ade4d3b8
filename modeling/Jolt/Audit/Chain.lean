import Jolt.Base.Chains
import Jolt.Base.Runs

/-! Control's audit trail: appended records, the hash chain that can be started over them, and
retention, which deletes by record time but never past the first record that has to stay. -/
namespace Jolt.Audit
open Jolt.Base List

section Model

structure AuditRecord where
  actorID : String := ""
  actorType : String := ""
  action : String := ""
  resource : String := ""
  result : String := ""
  correlationID : String := ""
  createdAt : String := ""
  policyIDs : String := ""
  evaluatedPath : String := ""
  capability : String := ""
  sourceIP : String := ""
  detail : String := ""
  deriving DecidableEq

/-- A row of `audit_events`; one that is not chained has empty chain columns. -/
structure AuditEvent where
  id : Int
  record : AuditRecord
  chainData : String := ""
  chainHash : String := ""
  deriving DecidableEq

structure ChainState where
  lastID : Int
  lastHash : String
  deriving DecidableEq

structure AuditCheckpoint where
  eventID : Int
  eventHash : String
  createdAt : String
  reason : String
  deriving DecidableEq

/-- The tables, and the last identifier SQLite has handed out for an event. -/
structure Store where
  events : List AuditEvent
  state : Option ChainState
  checkpoints : List AuditCheckpoint
  sequence : Int
  deriving DecidableEq

/-- What the store takes from outside: JSON of a list of texts, SHA-256 as hexadecimal digits,
and SQLite's `julianday`, on some scale. -/
structure Library where
  marshal : List String → String
  sum : String → String
  sum_nonempty : ∀ data, sum data ≠ ""
  julianday : String → Option Int

variable (lib : Library)

def zeroHash : String := String.ofList (List.replicate 64 '0')

/-- `ORDER BY id DESC LIMIT 1` -/
def newest : List AuditEvent → Option AuditEvent
  | [] => none
  | e :: rest =>
    match newest rest with
    | none => some e
    | some f => if f.id < e.id then some e else some f

def Store.maxID (s : Store) : Int := ((newest s.events).map AuditEvent.id).getD 0

def Store.enableAuditChain (s : Store) (now : String) : Store :=
  match s.state with
  | some _ => s
  | none =>
    { s with state := some ⟨s.maxID, zeroHash⟩,
             checkpoints := s.checkpoints ++ [⟨s.maxID, zeroHash, now, "activation"⟩] }

def AuditRecord.filled (record : AuditRecord) (now : String) : AuditRecord :=
  { record with createdAt := if record.createdAt = "" then now else record.createdAt,
                policyIDs := if record.policyIDs = "" then "[]" else record.policyIDs,
                detail := if record.detail = "" then "\x7b\x7d" else record.detail }

def chainFields (previous : String) (id : Int) (record : AuditRecord) : List String :=
  ["jolt-audit-v1", previous, toString id, record.actorID, record.actorType, record.action,
    record.resource, record.result, record.correlationID, record.createdAt, record.policyIDs,
    record.evaluatedPath, record.capability, record.sourceIP, record.detail]

/-- `id` is the one SQLite hands out for the new row. -/
def Store.appendAudit (s : Store) (record : AuditRecord) (now : String) (id : Int) : Store :=
  let record := record.filled now
  match s.state with
  | none => { s with events := s.events ++ [⟨id, record, "", ""⟩], sequence := id }
  | some state =>
    let payload := lib.marshal (chainFields state.lastHash id record)
    let hash := lib.sum payload
    { s with events := s.events ++ [⟨id, record, payload, hash⟩],
             state := some ⟨id, hash⟩, sequence := id }

/-- `julianday(created_at) IS NULL OR julianday(created_at)>=julianday(?)` -/
def stays (cutoff : String) (e : AuditEvent) : Bool :=
  match lib.julianday e.record.createdAt with
  | none => true
  | some created =>
    match lib.julianday cutoff with
    | none => false
    | some limit => limit ≤ created

def Store.boundary (s : Store) (cutoff : String) : Int :=
  (((s.events.filter (stays lib cutoff)).map AuditEvent.id).min?).getD (s.maxID + 1)

def Store.purgeAuditBefore (s : Store) (cutoff now : String) : Store :=
  let boundary := s.boundary lib cutoff
  let checkpoints :=
    match newest (s.events.filter fun e => e.id < boundary && e.chainHash != "") with
    | none => s.checkpoints
    | some last => s.checkpoints ++ [⟨last.id, last.chainHash, now, "retention"⟩]
  { s with events := s.events.filter fun e => !decide (e.id < boundary),
           checkpoints := checkpoints }

inductive Call where
  | enable (now : String)
  | append (record : AuditRecord) (now : String) (id : Int)
  | purge (cutoff now : String)

def Store.next (s : Store) : Call → Option (Store × Option Unit)
  | .enable now => some (s.enableAuditChain now, none)
  | .append record now id =>
    if s.sequence < id then some (s.appendAudit lib record now id, none) else none
  | .purge cutoff now => some (s.purgeAuditBefore lib cutoff now, none)

end Model

section Verification

variable {lib : Library} {s t : Store}

/-- The chain data of the event is made of this hash, its identifier and its record. -/
def Names (lib : Library) (e : AuditEvent) (previous : String) : Prop :=
  e.chainData = lib.marshal (chainFields previous e.id e.record)

def AuditEvent.chained (e : AuditEvent) : Bool := e.chainHash != ""

structure Verifiable (lib : Library) (s : Store) : Prop where
  order : s.events.Pairwise fun e f => e.id < f.id
  hashes : ∀ e ∈ s.events, e.chained = true → e.chainHash = lib.sum e.chainData
  links : (s.events.filter AuditEvent.chained).IsChain fun e f => Names lib f e.chainHash
  first : ∀ e ∈ (s.events.filter AuditEvent.chained).head?,
    ∃ c ∈ s.checkpoints.getLast?, Names lib e c.eventHash
  unbroken : s.events.Pairwise fun e f => e.chained = true → f.chained = true

/-- The events before the chain, the chain, and the checkpoint it starts from. -/
structure Chained (lib : Library) (s : Store) (old chain : List AuditEvent) (c : AuditCheckpoint)
    (last : String) : Prop where
  events : s.events = old ++ chain
  before : ∀ e ∈ old, e.chained = false
  inside : ∀ e ∈ chain, e.chained = true
  checkpoint : s.checkpoints.getLast? = some c
  linked : Linked AuditEvent.chainHash (Names lib) c.eventHash chain
  last : last = endHash AuditEvent.chainHash c.eventHash chain

structure Sound (lib : Library) (s : Store) : Prop where
  order : s.events.Pairwise fun e f => e.id < f.id
  below : ∀ e ∈ s.events, e.id ≤ s.sequence
  hashes : ∀ e ∈ s.events, e.chained = true → e.chainHash = lib.sum e.chainData
  unchained : s.state = none → ∀ e ∈ s.events, e.chained = false
  chained : ∀ state, s.state = some state →
    ∃ old chain c, Chained lib s old chain c state.lastHash

theorem newest_growing {l : List AuditEvent} (growing : l.Pairwise fun e f => e.id < f.id) :
    newest l = l.getLast? := by
  induction growing with
  | nil => rfl
  | @cons e l above _ ih =>
    cases l with
    | nil => rfl
    | cons f l =>
      have last := getLast?_eq_some_getLast (cons_ne_nil f l)
      generalize (f :: l).getLast (cons_ne_nil f l) = g at last
      have later := above g (mem_of_getLast? last)
      rw [newest, ih, getLast?_cons_cons, last]
      simp [Int.not_lt.mpr (Int.le_of_lt later)]

theorem Chained.filter {old chain : List AuditEvent} {c : AuditCheckpoint} {last : String}
    (parts : Chained lib s old chain c last) : s.events.filter AuditEvent.chained = chain := by
  rw [parts.events, filter_append, filter_eq_self.mpr parts.inside]
  rw [filter_eq_nil_iff.mpr (by simpa using parts.before), nil_append]

theorem Sound.verifiable (sound : Sound lib s) : Verifiable lib s := by
  have none (unchained : ∀ e ∈ s.events, e.chained = false) :
      s.events.filter AuditEvent.chained = [] :=
    filter_eq_nil_iff.mpr (by simpa using unchained)
  cases state : s.state with
  | none =>
    have unchained := sound.unchained state
    refine ⟨sound.order, sound.hashes, ?_, ?_, ?_⟩
    · rw [none unchained]
      exact .nil
    · rw [none unchained]
      exact nofun
    apply sound.order.imp_of_mem
    intro e f known _ _ chained
    rw [unchained e known] at chained
    cases chained
  | some state' =>
    obtain ⟨old, chain, c, parts⟩ := sound.chained state' state
    refine ⟨sound.order, sound.hashes, ?_, ?_, ?_⟩
    · rw [parts.filter]
      exact parts.linked.isChain
    · rw [parts.filter]
      exact fun e head => ⟨c, parts.checkpoint, parts.linked.head e head⟩
    rw [parts.events, pairwise_append]
    refine ⟨?_, ?_, fun _ _ f known _ => parts.inside f known⟩
    · exact pairwise_of_forall_mem_list fun e known _ _ chained => by
        rw [parts.before e known] at chained
        cases chained
    · exact pairwise_of_forall_mem_list fun _ _ f known _ => parts.inside f known

theorem Sound.enables (sound : Sound lib s) (now : String) : Sound lib (s.enableAuditChain now) := by
  unfold Store.enableAuditChain
  cases state : s.state with
  | some _ => exact sound
  | none =>
    refine ⟨sound.order, sound.below, sound.hashes, nofun, ?_⟩
    rintro _ ⟨⟩
    refine ⟨s.events, [], ⟨s.maxID, zeroHash, now, "activation"⟩, ?_⟩
    exact ⟨(append_nil _).symm, sound.unchained state, nofun, getLast?_concat .., trivial,
      rfl⟩

theorem Sound.grows (sound : Sound lib s) {e : AuditEvent} (later : s.sequence < e.id) :
    (s.events ++ [e]).Pairwise (fun e f => e.id < f.id) ∧ ∀ f ∈ s.events ++ [e], f.id ≤ e.id := by
  have before (f : AuditEvent) (known : f ∈ s.events) : f.id < e.id :=
    Int.lt_of_le_of_lt (sound.below f known) later
  constructor
  · rw [pairwise_append]
    refine ⟨sound.order, pairwise_singleton _ _, ?_⟩
    simpa using before
  · intro f known
    rcases mem_append.mp known with old | new
    · exact Int.le_of_lt (before f old)
    · obtain rfl := mem_singleton.mp new
      exact Int.le_refl _

theorem Sound.appends (sound : Sound lib s) (record : AuditRecord) (now : String) {id : Int}
    (later : s.sequence < id) : Sound lib (s.appendAudit lib record now id) := by
  unfold Store.appendAudit
  cases state : s.state with
  | none =>
    dsimp only
    obtain ⟨order, below⟩ := sound.grows (e := ⟨id, record.filled now, "", ""⟩) later
    have unchained : ∀ e ∈ s.events ++ [⟨id, record.filled now, "", ""⟩], e.chained = false := by
      intro e known
      rcases mem_append.mp known with old | new
      · exact sound.unchained state e old
      · rw [mem_singleton.mp new]
        rfl
    refine ⟨order, below, ?_, fun _ => unchained, ?_⟩
    · intro e known chained
      rw [unchained e known] at chained
      cases chained
    · exact nofun
  | some last =>
    obtain ⟨old, chain, c, parts⟩ := sound.chained last state
    dsimp only
    generalize payload : lib.marshal (chainFields last.lastHash id (record.filled now)) = data
    obtain ⟨order, below⟩ := sound.grows (e := ⟨id, record.filled now, data, lib.sum data⟩) later
    refine ⟨order, below, ?_, nofun, ?_⟩
    · intro e known chained
      rcases mem_append.mp known with before | new
      · exact sound.hashes e before chained
      · rw [mem_singleton.mp new]
    · rintro _ ⟨⟩
      refine ⟨old, chain ++ [⟨id, record.filled now, data, lib.sum data⟩], c, ?_⟩
      constructor
      · simp [parts.events]
      · exact parts.before
      · intro e known
        rcases mem_append.mp known with before | new
        · exact parts.inside e before
        · rw [mem_singleton.mp new]
          simp [AuditEvent.chained, lib.sum_nonempty]
      · exact parts.checkpoint
      · rw [linked_append, ← parts.last]
        exact ⟨parts.linked, payload.symm, trivial⟩
      · rw [endHash_concat]

theorem Chained.purged {old chain : List AuditEvent} {c : AuditCheckpoint} {last : String}
    (parts : Chained lib s old chain c last) (order : s.events.Pairwise fun e f => e.id < f.id)
    (cutoff now : String) :
    ∃ c', Chained lib (s.purgeAuditBefore lib cutoff now)
      (old.filter fun e => !decide (e.id < s.boundary lib cutoff))
      (chain.filter fun e => !decide (e.id < s.boundary lib cutoff)) c' last := by
  unfold Store.purgeAuditBefore
  generalize s.boundary lib cutoff = boundary
  have chainOrder : chain.Pairwise fun e f => e.id < f.id := by
    rw [parts.events, pairwise_append] at order
    exact order.2.1
  have cut : s.events.filter (fun e => e.id < boundary && e.chainHash != "") =
      chain.filter fun e => e.id < boundary := by
    have same : (fun e : AuditEvent => decide (e.id < boundary) && e.chainHash != "") =
        fun e => decide (e.id < boundary) && e.chained := rfl
    rw [same, ← filter_filter, parts.filter]
  have growing := chainOrder.filter fun e => decide (e.id < boundary)
  have split : chain.filter (fun e => decide (e.id < boundary)) ++
      chain.filter (fun e => !decide (e.id < boundary)) = chain := by
    apply filter_append_filter_not
    apply chainOrder.imp
    intro e f less there
    exact decide_eq_true (Int.lt_trans less (of_decide_eq_true there))
  have linked := parts.linked
  have ends := parts.last
  dsimp only
  rw [cut, newest_growing growing]
  rw [← split] at linked ends
  rw [linked_append] at linked
  rw [endHash_append] at ends
  have events : s.events.filter (fun e => !decide (e.id < boundary)) =
      old.filter (fun e => !decide (e.id < boundary)) ++
        chain.filter fun e => !decide (e.id < boundary) := by
    rw [parts.events, filter_append]
  have before (e : AuditEvent) (known : e ∈ old.filter fun e => !decide (e.id < boundary)) :
      e.chained = false := parts.before e (mem_of_mem_filter known)
  have inside (e : AuditEvent) (known : e ∈ chain.filter fun e => !decide (e.id < boundary)) :
      e.chained = true := parts.inside e (mem_of_mem_filter known)
  rcases eq_nil_or_concat (chain.filter fun e => decide (e.id < boundary)) with
    none | ⟨gone, newest, some⟩
  · rw [none] at linked ends ⊢
    exact ⟨c, events, before, inside, parts.checkpoint, linked.2, ends⟩
  rw [some, concat_eq_append] at linked ends ⊢
  rw [endHash_concat] at linked ends
  refine ⟨⟨newest.id, newest.chainHash, now, "retention"⟩, events, before, inside, ?_, linked.2,
    ends⟩
  simp

theorem Sound.purges (sound : Sound lib s) (cutoff now : String) :
    Sound lib (s.purgeAuditBefore lib cutoff now) := by
  have kept {e : AuditEvent} (known : e ∈ (s.purgeAuditBefore lib cutoff now).events) :
      e ∈ s.events := mem_of_mem_filter known
  constructor
  · exact sound.order.filter _
  · exact fun e known => sound.below e (kept known)
  · exact fun e known => sound.hashes e (kept known)
  · exact fun state e known => sound.unchained state e (kept known)
  · intro state same
    obtain ⟨old, chain, c, parts⟩ := sound.chained state same
    obtain ⟨c', purged⟩ := parts.purged sound.order cutoff now
    exact ⟨_, _, c', purged⟩

theorem Sound.next (sound : Sound lib s) {call : Call} {r : Option Unit}
    (moved : s.next lib call = some (t, r)) : Sound lib t := by
  cases call with
  | enable now =>
    cases moved
    exact sound.enables now
  | append record now id =>
    simp only [Store.next] at moved
    split_ifs at moved with later
    cases moved
    exact sound.appends record now later
  | purge cutoff now =>
    cases moved
    exact sound.purges cutoff now

def emptyStore (sequence : Int) : Store := ⟨[], none, [], sequence⟩

/-- After any calls, with any record times and cutoffs, the trail verifies. -/
theorem audit_chain_verifies (sequence : Int)
    (run : Run (Store.next lib) (fun _ _ _ => True) (emptyStore sequence) t) : Verifiable lib t := by
  have start : Sound lib (emptyStore sequence) :=
    ⟨.nil, nofun, nofun, fun _ => nofun, nofun⟩
  have sound : Sound lib t := run.keeps (fun _ _ _ _ moved _ before => before.next moved) start
  exact sound.verifiable

def sampleLibrary : Library where
  marshal := String.join
  sum data := "h" ++ data
  sum_nonempty data := by simp
  julianday time := if time = "" then none else some time.length

/-- Two unchained and three chained events, the clock going back before the last; retention
stops at the fourth event, which is too new, and keeps the fifth. -/
def sampleCalls : List Call :=
  [.append {} "a" 1, .append {} "a" 2, .enable "a", .append {} "aa" 3, .append {} "aaaa" 4,
    .append {} "a" 6, .purge "aaa" "aaaaa"]

def sampleTrail : Store :=
  (replay (Store.next sampleLibrary) (fun _ _ _ => true) (emptyStore 0) sampleCalls).getD
    (emptyStore 0)

theorem sample_trail_verifies :
    sampleTrail.events.map AuditEvent.id = [4, 6] ∧ Verifiable sampleLibrary sampleTrail := by
  refine ⟨by decide +kernel, ?_⟩
  exact audit_chain_verifies 0
    (Run.of_possible (fun _ _ _ _ => trivial) (by decide +kernel) (emptyStore 0))

end Verification

end Jolt.Audit
