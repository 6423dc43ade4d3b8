import Jolt.Access.PolicyRequests
import Jolt.Base.Runs

/-! The rotation of a node's operational token: `rotateNodeToken` at control, the two
requests it makes, and what the node keeps. Control stores its candidate before it sends
anything, so a call that was cut off is taken up by the next one with the same candidate. -/
namespace Jolt.Tokens
open Jolt.Base
open Jolt.Access (Text ascii hexText length_hexText)

section Model

-- `operationalTokenDigest`: the hash of a token, as text.
variable (digest : Text → Text)

structure OperationalTokenState where
  stagedHash : Text := []
  activeHash : Text := []
  envTokenDisabled : Bool := false
  deriving DecidableEq

/-- A node: its stored token state, and what its configuration says. -/
structure Node where
  record : Option OperationalTokenState
  controlTowerToken : Text
  certificateOnly : Bool := false
  controlTowerPresented : Bool := false
  deriving DecidableEq

def Node.acceptOperationalToken (n : Node) (token : Text) : Bool :=
  if token = [] then false
  else
    match n.record with
    | none => token == n.controlTowerToken
    | some state =>
      if state.stagedHash ≠ [] ∧ digest token = state.stagedHash then true
      else if state.activeHash ≠ [] ∧ digest token = state.activeHash then true
      else !state.envTokenDisabled && token == n.controlTowerToken

def Node.opens (n : Node) (token : Text) : Bool :=
  !n.certificateOnly && n.acceptOperationalToken digest token

def Node.auth (n : Node) (token : Text) : Bool :=
  if n.certificateOnly then n.controlTowerPresented else n.acceptOperationalToken digest token

inductive StoreError where
  | inUse
  | notFound
  deriving DecidableEq

def stageOperationalToken (record : Option OperationalTokenState) (hash : Text) :
    Except StoreError (Option OperationalTokenState) :=
  let v := record.getD {}
  if v.stagedHash ≠ [] ∧ v.stagedHash ≠ hash then .error .inUse
  else if v.stagedHash = hash then .ok record
  else .ok (some { v with stagedHash := hash })

def commitOperationalToken (record : Option OperationalTokenState) (hash : Text) :
    Except StoreError (Option OperationalTokenState) :=
  match record with
  | none => .error .notFound
  | some v =>
    if hash ≠ [] ∧ v.activeHash = hash ∧ v.stagedHash = [] then .ok record
    else if hash = [] ∨ v.stagedHash ≠ hash then .error .notFound
    else .ok (some { v with activeHash := hash, stagedHash := [], envTokenDisabled := true })

inductive Request where
  | prepare (authorization newToken : Text)
  | commit (authorization : Text)
  deriving DecidableEq

def Request.authorization : Request → Text
  | .prepare a _ | .commit a => a

/-- The statuses the node answers with: 200, 202, 400, 401, 409 and 500. -/
inductive Answer where
  | ok
  | accepted
  | badRequest
  | unauthorized
  | conflict
  | internal
  deriving DecidableEq

def Node.prepareOperationalToken (n : Node) (authorization newToken : Text) : Node × Answer :=
  if newToken.length < 32 then (n, .badRequest)
  else if newToken = authorization then (n, .badRequest)
  else
    match stageOperationalToken n.record (digest newToken) with
    | .ok record => ({ n with record := record }, .accepted)
    | .error .inUse => (n, .conflict)
    | .error .notFound => (n, .internal)

def Node.commitOperationalToken (n : Node) (authorization : Text) : Node × Answer :=
  match Tokens.commitOperationalToken n.record (digest authorization) with
  | .ok record => ({ n with record := record }, .ok)
  | .error .notFound => (n, .conflict)
  | .error .inUse => (n, .internal)

/-- A request as the node's handlers take it, behind `auth` and `withoutCertificateOnlyAuth`. -/
def Node.handle (n : Node) : Request → Node × Answer
  | .prepare authorization newToken =>
    if !n.auth digest authorization then (n, .unauthorized)
    else if n.certificateOnly then (n, .conflict)
    else n.prepareOperationalToken digest authorization newToken
  | .commit authorization =>
    if !n.auth digest authorization then (n, .unauthorized)
    else if n.certificateOnly then (n, .conflict)
    else n.commitOperationalToken digest authorization

/-- The calls `rotateNodeToken` makes to the node; a reused candidate is committed first. -/
inductive Leg where
  | reconcile
  | prepare
  | commit
  deriving DecidableEq

/-- How far a call of `rotateNodeToken` is with its candidate. -/
inductive Stage where
  | idle
  | calling (candidate : Text) (leg : Leg)
  | waiting (candidate : Text) (leg : Leg) (tag : Nat)
  | finishing (candidate : Text)
  deriving DecidableEq

def Stage.candidate : Stage → Option Text
  | .idle => none
  | .calling c _ | .waiting c _ _ | .finishing c => some c

def Leg.request (token candidate : Text) : Leg → Request
  | .prepare => .prepare token candidate
  | .reconcile | .commit => .commit candidate

/-- What a call does with an answer. Any 2xx is a success; only 401 and 409 to the first
commit start a prepare. -/
def Leg.after (candidate : Text) : Leg → Answer → Stage
  | .reconcile, .ok | .reconcile, .accepted => .finishing candidate
  | .reconcile, .unauthorized | .reconcile, .conflict => .calling candidate .prepare
  | .prepare, .ok | .prepare, .accepted => .calling candidate .commit
  | .commit, .ok | .commit, .accepted => .finishing candidate
  | _, _ => .idle

/-- Control's stored token and candidate for the node, its one call in progress, and the
requests that are on their way. -/
structure System where
  node : Node
  token : Text
  candidate : Option Text
  stage : Stage
  flying : List (Nat × Request)
  sent : Nat
  deriving DecidableEq

/-- A call begins with 32 random bytes. A request that was sent is handled at any later time,
even after the call or the process that sent it, or it never is. `handle` with `answered` off
is a lost response, `internal` a request the node's storage fails on. `abandon` is a crash of
control, or any error that ends the call: no answer, a cancelled request, a failing store. -/
inductive Event where
  | rotate (raw : Text)
  | send
  | handle (tag : Nat) (answered : Bool)
  | internal (tag : Nat) (answered : Bool)
  | lose (tag : Nat)
  | abandon
  | finish
  deriving DecidableEq

def nodeToken (raw : Text) : Text := ascii "jolt_node_" ++ hexText raw

/-- `BeginNodeTokenRotation`: a stored candidate stays, and is reported as reused. -/
def beginNodeTokenRotation (stored : Option Text) (candidate : Text) : Text × Bool :=
  match stored with
  | none => (candidate, false)
  | some stored => (stored, true)

def System.rotate (s : System) (raw : Text) : System :=
  let (candidate, reused) := beginNodeTokenRotation s.candidate (nodeToken raw)
  { s with candidate := some candidate,
           stage := .calling candidate (if reused then .reconcile else .prepare) }

def System.dropped (s : System) (tag : Nat) : System :=
  { s with flying := s.flying.filter fun p => p.1 != tag }

def System.answer (s : System) (tag : Nat) (answer : Answer) : System :=
  match s.stage with
  | .waiting candidate leg waited =>
    if waited = tag then { s with stage := leg.after candidate answer } else s
  | _ => s

def System.request (s : System) (tag : Nat) : Option Request :=
  (s.flying.find? fun p => p.1 == tag).map Prod.snd

def System.served (s : System) (tag : Nat) (node : Node) (answer : Answer) (answered : Bool) :
    System :=
  let s := { s.dropped tag with node := node }
  if answered then s.answer tag answer else s

/-- `FinishNodeTokenRotation`: the stored candidate becomes the token if it is this one. -/
def System.finish (s : System) (candidate : Text) : System :=
  if s.candidate = some candidate then
    { s with token := candidate, candidate := none, stage := .idle }
  else { s with stage := .idle }

def System.next (s : System) : Event → Option (System × Option Unit)
  | .rotate raw =>
    if s.stage = .idle ∧ raw.length = 32 then some (s.rotate raw, none) else none
  | .send =>
    match s.stage with
    | .calling candidate leg =>
      some ({ s with stage := .waiting candidate leg s.sent,
                     flying := (s.sent, leg.request s.token candidate) :: s.flying,
                     sent := s.sent + 1 }, none)
    | _ => none
  | .handle tag answered =>
    (s.request tag).map fun request =>
      let (node, answer) := s.node.handle digest request
      (s.served tag node answer answered, none)
  | .internal tag answered =>
    (s.request tag).map fun _ => (s.served tag s.node .internal answered, none)
  | .lose tag => some (s.dropped tag, none)
  | .abandon => some ({ s with stage := .idle }, none)
  | .finish =>
    match s.stage with
    | .finishing candidate => some (s.finish candidate, some ())
    | _ => none

def Stage.step : Stage → Option Event
  | .idle => none
  | .calling _ _ => some .send
  | .waiting _ _ tag => some (.handle tag true)
  | .finishing _ => some .finish

def System.carryOn (s : System) : Nat → Option System
  | 0 => if s.stage = .idle then some s else none
  | fuel + 1 =>
    match s.stage.step with
    | none => some s
    | some event => (s.next digest event).bind fun p => p.1.carryOn fuel

/-- One call of `rotateNodeToken` in which no message is lost and no crash happens. -/
def System.rotateNodeToken (s : System) (raw : Text) : Option System :=
  (s.next digest (.rotate raw)).bind fun p => p.1.carryOn digest 8

end Model

section Handlers

/-- What is taken of the hash: it tells tokens apart and is never empty. -/
structure Digests (digest : Text → Text) : Prop where
  injective : Function.Injective digest
  nonempty : ∀ token, digest token ≠ []

def Node.staged (n : Node) : Text := (n.record.getD {}).stagedHash

def Node.active (n : Node) : Text := (n.record.getD {}).activeHash

def Node.stage (n : Node) (hash : Text) : Node :=
  { n with record := some { n.record.getD {} with stagedHash := hash } }

def Node.committed (n : Node) (hash : Text) : Node := { n with record := some ⟨[], hash, true⟩ }

/-- The node opens to a token by its active hash or by its configuration, whatever is staged. -/
def Node.Keeps (digest : Text → Text) (n : Node) (token : Text) : Prop :=
  n.certificateOnly = false ∧ token ≠ [] ∧
    (n.active ≠ [] ∧ digest token = n.active ∨
      (n.record.getD {}).envTokenDisabled = false ∧ token = n.controlTowerToken)

variable {digest : Text → Text} {n n' : Node} {a c x : Text} {answer : Answer}

theorem Node.opens_iff : n.opens digest x = true ↔
    n.Keeps digest x ∨
      n.certificateOnly = false ∧ x ≠ [] ∧ n.staged ≠ [] ∧ digest x = n.staged := by
  unfold Node.opens Node.acceptOperationalToken Node.Keeps Node.active Node.staged
  cases n.record with
  | none => by_cases empty : x = [] <;> simp [empty]
  | some v =>
    by_cases empty : x = []
    · simp [empty]
    · simp only [empty, Option.getD_some]
      grind

theorem Node.keeps_stage (hash : Text) : (n.stage hash).Keeps digest x ↔ n.Keeps digest x :=
  Iff.rfl

@[simp] theorem Node.staged_stage (hash : Text) : (n.stage hash).staged = hash := rfl

theorem Node.opens_committed (laws : Digests digest) :
    (n.committed (digest c)).opens digest x = true ↔
      n.certificateOnly = false ∧ x ≠ [] ∧ x = c := by
  have tells : digest x = digest c ↔ x = c := laws.injective.eq_iff
  have proper := laws.nonempty c
  simp [Node.opens_iff, Node.Keeps, Node.committed, Node.active, Node.staged, tells, proper]

theorem Node.auth_of_token (token : n.certificateOnly = false) :
    n.auth digest x = n.opens digest x := by
  simp [Node.auth, Node.opens, token]

theorem Node.handle_prepare (handled : n.handle digest (.prepare a c) = (n', answer)) :
    n' = n ∨ n.opens digest a = true ∧ n.staged = [] ∧ n' = n.stage (digest c) := by
  unfold Node.handle Node.prepareOperationalToken stageOperationalToken at handled
  dsimp only at handled
  split_ifs at handled with refused certified
  all_goals obtain ⟨rfl, _⟩ := Prod.mk.inj handled
  any_goals exact .inl rfl
  -- the request is let in, and nothing else is staged
  rw [Node.auth_of_token (by simpa using certified)] at refused
  refine .inr ⟨by simpa using refused, ?_, rfl⟩
  rw [Node.staged]
  grind

theorem Node.handle_commit (laws : Digests digest)
    (handled : n.handle digest (.commit a) = (n', answer)) :
    (n' = n ∧ (answer = .ok ∨ answer = .accepted → n.active = digest a)) ∨
      n.staged = digest a ∧ n' = n.committed (digest a) := by
  have proper := laws.nonempty a
  unfold Node.handle Node.commitOperationalToken at handled
  dsimp only at handled
  split_ifs at handled with refused certified
  any_goals
    cases handled
    exact .inl ⟨rfl, by simp⟩
  unfold Tokens.commitOperationalToken at handled
  cases record : n.record with
  | none =>
    simp only [record] at handled
    cases handled
    exact .inl ⟨rfl, by simp⟩
  | some v =>
    simp only [record] at handled
    split_ifs at handled with done other
    · have active : n.active = digest a := by simp [Node.active, record, done.2.1]
      cases handled
      exact .inl ⟨by simp [← record], fun _ => active⟩
    · cases handled
      exact .inl ⟨rfl, by simp⟩
    · have staged : n.staged = digest a := by
        rw [Node.staged, record]
        exact not_not.mp fun differs => other (.inr differs)
      cases handled
      exact .inr ⟨staged, rfl⟩

theorem Node.token_of_opens (opened : n.opens digest x = true) : n.certificateOnly = false := by
  grind [Node.opens]

theorem Node.handle_opened (opened : n.opens digest a = true) :
    n.handle digest (.prepare a c) = n.prepareOperationalToken digest a c ∧
      n.handle digest (.commit a) = n.commitOperationalToken digest a := by
  have token := Node.token_of_opens opened
  simp [Node.handle, Node.auth_of_token token, opened, token]

theorem Node.prepare_stages (laws : Digests digest) (opened : n.opens digest a = true)
    (long : 32 ≤ c.length) (other : c ≠ a) (free : n.staged = [] ∨ n.staged = digest c) :
    n.handle digest (.prepare a c) = (n.stage (digest c), .accepted) := by
  have proper := laws.nonempty c
  have size : ¬ c.length < 32 := by omega
  rw [(Node.handle_opened opened).1, Node.prepareOperationalToken, if_neg size, if_neg other]
  unfold stageOperationalToken
  unfold Node.staged at free
  unfold Node.stage
  cases record : n.record with
  | none => simp [proper.symm]
  | some v =>
    simp only [record, Option.getD_some] at free ⊢
    rcases free with none | same
    · simp [none, proper.symm]
    · rw [← same]
      simp

theorem Node.commit_commits (laws : Digests digest) (token : n.certificateOnly = false)
    (proper : c ≠ []) (staged : n.staged = digest c) :
    n.handle digest (.commit c) = (n.committed (digest c), .ok) := by
  have hash := laws.nonempty c
  have opened : n.opens digest c = true :=
    Node.opens_iff.mpr (.inr ⟨token, proper, staged ▸ hash, staged.symm⟩)
  rw [(Node.handle_opened opened (c := c)).2, Node.commitOperationalToken]
  unfold Node.staged at staged
  cases record : n.record with
  | none => simp [record, hash.symm] at staged
  | some v =>
    simp only [record, Option.getD_some] at staged
    simp [Tokens.commitOperationalToken, staged, hash, Node.committed]

theorem Node.commit_again (laws : Digests digest) (token : n.certificateOnly = false)
    (proper : c ≠ []) :
    (n.committed (digest c)).handle digest (.commit c) = (n.committed (digest c), .ok) := by
  have hash := laws.nonempty c
  have opened : (n.committed (digest c)).opens digest c = true :=
    (Node.opens_committed laws).mpr ⟨token, proper, rfl⟩
  rw [(Node.handle_opened opened (c := c)).2, Node.commitOperationalToken]
  simp [Tokens.commitOperationalToken, Node.committed, hash]

theorem Node.handle_unauthorized (token : n.certificateOnly = false)
    (closed : n.opens digest c = false) : n.handle digest (.commit c) = (n, .unauthorized) := by
  simp [Node.handle, Node.auth_of_token token, closed]

end Handlers

section Invariant

variable {digest : Text → Text} {s u : System} {e : Event} {c : Text}
variable {answer : Answer} {n node : Node} {tag : Nat}

/-- Control and the node agree on a token, and no rotation has been begun. -/
structure Agreed (digest : Text → Text) (s : System) : Prop where
  opened : s.node.opens digest s.token = true
  unstaged : s.node.staged = []
  settled : s.candidate = none
  idle : s.stage = .idle
  quiet : s.flying = []

/-- Random bytes: the token made of them is none that the node or a request still knows. -/
structure FreshToken (digest : Text → Text) (s : System) (c : Text) : Prop where
  token : c ≠ s.token
  configured : c ≠ s.node.controlTowerToken
  active : digest c ≠ s.node.active
  flying : ∀ p ∈ s.flying, c ≠ p.2.authorization

def Fresh (digest : Text → Text) (s : System) (e : Event) (_ : System) : Prop :=
  match e with
  | .rotate raw => FreshToken digest s (nodeToken raw)
  | _ => True

/-- The candidate is not committed: the node keeps the token, and stages at most its hash. -/
structure Open (digest : Text → Text) (n : Node) (token c : Text) : Prop where
  keeps : n.Keeps digest token
  staged : n.staged = [] ∨ n.staged = digest c
  active : n.active ≠ digest c
  configured : c ≠ n.controlTowerToken

/-- The candidate is committed: its hash is all the node knows. -/
structure Closed (digest : Text → Text) (n : Node) (c : Text) : Prop where
  token : n.certificateOnly = false
  record : n.record = some ⟨[], digest c, true⟩

/-- A token that opens nothing and that control has no more. -/
structure Dead (digest : Text → Text) (n : Node) (token : Text) (candidate : Option Text)
    (a : Text) : Prop where
  shut : n.opens digest a = false
  token : a ≠ token
  candidate : candidate ≠ some a

structure Candidate (digest : Text → Text) (n : Node) (token c : Text) : Prop where
  long : 32 ≤ c.length
  other : c ≠ token
  node : Open digest n token c ∨ Closed digest n c

/-- What holds of control, the node and the requests on their way, at any time. -/
structure Sound (digest : Text → Text) (s : System) : Prop where
  settled : s.candidate = none → s.node.Keeps digest s.token ∧ s.node.staged = []
  pending : ∀ c, s.candidate = some c → Candidate digest s.node s.token c
  stage : ∀ c, s.stage.candidate = some c → s.candidate = some c
  finishing : ∀ c, s.stage = .finishing c → Closed digest s.node c
  waiting : ∀ c leg tag, s.stage = .waiting c leg tag →
    tag < s.sent ∧ ∀ r, (tag, r) ∈ s.flying → leg = .prepare ∨ r = .commit c
  flying : ∀ tag r, (tag, r) ∈ s.flying → tag < s.sent
  prepares : ∀ tag a n, (tag, Request.prepare a n) ∈ s.flying →
    s.candidate = some n ∧ a = s.token ∨ Dead digest s.node s.token s.candidate a

theorem Closed.of_committed (token : n.certificateOnly = false) :
    Closed digest (n.committed (digest c)) c := ⟨token, rfl⟩

theorem Closed.eq_committed (closed : Closed digest n c) :
    n = n.committed (digest c) := by
  obtain ⟨_, record⟩ := closed
  cases n
  cases record
  rfl

theorem Closed.opens_iff (laws : Digests digest) {x : Text} (closed : Closed digest n c) :
    n.opens digest x = true ↔ x ≠ [] ∧ x = c := by
  rw [closed.eq_committed, Node.opens_committed laws]
  simp [closed.token]

theorem Closed.keeps (laws : Digests digest) (closed : Closed digest n c) (proper : c ≠ []) :
    n.Keeps digest c ∧ n.staged = [] := by
  have hash := laws.nonempty c
  constructor
  · refine ⟨closed.token, proper, .inl ?_⟩
    simp [Node.active, closed.record, hash]
  · simp [Node.staged, closed.record]

theorem Open.not_closed {t : Text} (opened : Open digest n t c) (closed : Closed digest n c) :
    False :=
  opened.active (by simp [Node.active, closed.record])

theorem Candidate.proper {t : Text} (candidate : Candidate digest n t c) : c ≠ [] := by
  have long := candidate.long
  intro empty
  simp [empty] at long

inductive Moved (digest : Text → Text) (s : System) (n : Node) : Prop where
  | still (same : n = s.node)
  | staged (c : Text) (pending : s.candidate = some c) (before : Open digest s.node s.token c)
      (after : n = s.node.stage (digest c))
  | committed (c : Text) (pending : s.candidate = some c) (after : Closed digest n c)

section

variable (laws : Digests digest) (sound : Sound digest s)
include laws sound

theorem Sound.prepared {a n : Text} (inside : (tag, Request.prepare a n) ∈ s.flying)
    (handled : s.node.handle digest (.prepare a n) = (node, answer)) : Moved digest s node := by
  rcases Node.handle_prepare handled with same | ⟨opened, _, staged⟩
  · exact .still same
  rcases sound.prepares tag a n inside with ⟨pending, rfl⟩ | dead
  · have candidate := sound.pending n pending
    rcases candidate.node with open' | closed
    · exact .staged n pending open' staged
    · exact absurd ((closed.opens_iff laws).mp opened).2.symm candidate.other
  · rw [dead.shut] at opened
    cases opened

theorem Sound.committed {a : Text} (staged : s.node.staged = digest a) :
    s.candidate = some a ∧ Closed digest (s.node.committed (digest a)) a := by
  have hash := laws.nonempty a
  cases pending : s.candidate with
  | none => exact absurd ((sound.settled pending).2.symm.trans staged).symm hash
  | some c =>
    rcases (sound.pending c pending).node with open' | closed
    · rcases open'.staged with none | same
      · exact absurd (none.symm.trans staged).symm hash
      · obtain rfl : c = a := laws.injective (same.symm.trans staged)
        exact ⟨rfl, .of_committed open'.keeps.1⟩
    · rw [Node.staged, closed.record] at staged
      exact absurd staged.symm hash

theorem Sound.handled {r : Request} (inside : (tag, r) ∈ s.flying)
    (handled : s.node.handle digest r = (node, answer)) :
    Moved digest s node := by
  cases r with
  | prepare a n => exact sound.prepared laws inside handled
  | commit a =>
    rcases Node.handle_commit laws handled with ⟨same, _⟩ | ⟨staged, rfl⟩
    · exact .still same
    · obtain ⟨pending, closed⟩ := sound.committed laws staged
      exact .committed a pending closed

theorem Sound.confirmed (pending : s.candidate = some c)
    (handled : s.node.handle digest (.commit c) = (node, answer))
    (good : answer = .ok ∨ answer = .accepted) : Closed digest node c := by
  rcases Node.handle_commit laws handled with ⟨rfl, active⟩ | ⟨staged, rfl⟩
  · rcases (sound.pending c pending).node with open' | closed
    · exact absurd (active good) open'.active
    · exact closed
  · exact (sound.committed laws staged).2

end

theorem Moved.dead (laws : Digests digest) (moved : Moved digest s node) {a : Text}
    (dead : Dead digest s.node s.token s.candidate a) : node.opens digest a = false := by
  have other (c : Text) (pending : s.candidate = some c) : a ≠ c := by
    rintro rfl
    exact dead.candidate pending
  rw [Bool.eq_false_iff]
  intro opened
  cases moved with
  | still same =>
    rw [same, dead.shut] at opened
    cases opened
  | staged c pending before after =>
    have shut := dead.shut
    rw [Bool.eq_false_iff, ne_eq, Node.opens_iff] at shut
    rw [after, Node.opens_iff, Node.keeps_stage, Node.staged_stage] at opened
    rcases opened with keeps | ⟨_, _, _, same⟩
    · exact shut (.inl keeps)
    · exact other c pending (laws.injective same)
  | committed c pending after =>
    exact other c pending ((after.opens_iff laws).mp opened).2

theorem Moved.candidate (moved : Moved digest s node) (pending : s.candidate = some c)
    (before : Candidate digest s.node s.token c) :
    Candidate digest node s.token c := by
  refine ⟨before.long, before.other, ?_⟩
  cases moved with
  | still same =>
    subst same
    exact before.node
  | staged d pending' open' after =>
    cases pending.symm.trans pending'
    subst after
    exact .inl ⟨open'.keeps, .inr rfl, open'.active, open'.configured⟩
  | committed d pending' after =>
    cases pending.symm.trans pending'
    exact .inr after

theorem Moved.closed (moved : Moved digest s node) (pending : s.candidate = some c)
    (before : Closed digest s.node c) : Closed digest node c := by
  cases moved with
  | still same => exact same ▸ before
  | staged d pending' open' after =>
    cases pending.symm.trans pending'
    exact absurd before open'.not_closed
  | committed d pending' after =>
    cases pending.symm.trans pending'
    exact after

theorem Sound.moved (laws : Digests digest) (sound : Sound digest s) (moved : Moved digest s node) :
    Sound digest { s with node := node } := by
  refine { sound with settled := ?_, pending := ?_, finishing := ?_, prepares := ?_ }
  · intro none
    cases moved with
    | still same => exact same ▸ sound.settled none
    | staged c pending _ _ | committed c pending _ => cases none.symm.trans pending
  · intro c pending
    exact moved.candidate pending (sound.pending c pending)
  · intro c finishing
    have stage : s.stage.candidate = some c := by
      rw [show s.stage = .finishing c from finishing]
      rfl
    exact moved.closed (sound.stage c stage) (sound.finishing c finishing)
  · intro tag a n inside
    rcases sound.prepares tag a n inside with live | dead
    · exact .inl live
    · exact .inr ⟨moved.dead laws dead, dead.token, dead.candidate⟩

theorem Sound.dropped (sound : Sound digest s) (tag : Nat) : Sound digest (s.dropped tag) := by
  have kept {p : Nat × Request} (inside : p ∈ (s.dropped tag).flying) : p ∈ s.flying :=
    List.mem_of_mem_filter inside
  refine { sound with waiting := ?_, flying := ?_, prepares := ?_ }
  · intro c leg waited waits
    obtain ⟨before, matches'⟩ := sound.waiting c leg waited waits
    exact ⟨before, fun r inside => matches' r (kept inside)⟩
  · exact fun other r inside => sound.flying other r (kept inside)
  · exact fun other a n inside => sound.prepares other a n (kept inside)

theorem Sound.turned (sound : Sound digest s) {stage : Stage}
    (same : ∀ c, stage.candidate = some c → s.candidate = some c)
    (closed : ∀ c, stage = .finishing c → Closed digest s.node c)
    (sends : ∀ c leg tag, stage ≠ .waiting c leg tag) : Sound digest { s with stage := stage } :=
  { sound with
    stage := same
    finishing := closed
    waiting := fun c leg tag waits => absurd waits (sends c leg tag) }

theorem Sound.idle (sound : Sound digest s) : Sound digest { s with stage := .idle } :=
  sound.turned nofun nofun nofun

theorem Leg.after_candidate {leg : Leg} {d : Text}
    (carries : (leg.after c answer).candidate = some d) : d = c := by
  cases leg <;> cases answer <;> cases carries <;> rfl

theorem Leg.after_finishing {leg : Leg} {d : Text} (done : leg.after c answer = .finishing d) :
    leg ≠ .prepare ∧ (answer = .ok ∨ answer = .accepted) := by
  cases leg <;> cases answer <;> cases done <;> simp

theorem Leg.after_settles {leg : Leg} {d : Text} {leg' : Leg} :
    leg.after c answer ≠ .waiting d leg' tag := by
  cases leg <;> cases answer <;> exact nofun

theorem Sound.served (laws : Digests digest) (sound : Sound digest s) (answered : Bool)
    (moved : Moved digest s node) (confirms : ∀ c leg, s.stage = .waiting c leg tag → leg ≠ .prepare
      → (answer = .ok ∨ answer = .accepted) → Closed digest node c) :
    Sound digest (s.served tag node answer answered) := by
  have handled : Sound digest { s.dropped tag with node := node } :=
    (sound.moved laws moved).dropped tag
  unfold System.served
  cases answered with
  | false => exact handled
  | true =>
    simp only [if_true]
    unfold System.answer
    split
    · rename_i c leg waited waits
      split_ifs with same
      · subst same
        have waits : s.stage = .waiting c leg waited := waits
        have pending : s.candidate = some c := sound.stage c (by rw [waits]; rfl)
        apply handled.turned
        · intro d carries
          rw [Leg.after_candidate carries]
          exact pending
        · intro d done
          obtain ⟨commits, good⟩ := Leg.after_finishing done
          obtain rfl : d = c := Leg.after_candidate (by rw [done]; rfl)
          exact confirms d leg waits commits good
        · exact fun _ _ _ => Leg.after_settles
      · exact handled
    · exact handled

theorem Sound.sent (sound : Sound digest s) {leg : Leg} (calls : s.stage = .calling c leg) :
    Sound digest { s with stage := .waiting c leg s.sent,
                          flying := (s.sent, leg.request s.token c) :: s.flying,
                          sent := s.sent + 1 } := by
  have pending : s.candidate = some c := sound.stage c (by rw [calls]; rfl)
  constructor
  · exact sound.settled
  · exact sound.pending
  · intro d carries
    obtain rfl : c = d := Option.some.inj carries
    exact pending
  · exact nofun
  · intro d leg' tag waits
    cases waits
    refine ⟨Nat.lt_succ_self _, fun r inside => ?_⟩
    rcases List.mem_cons.mp inside with first | later
    · obtain rfl := (Prod.mk.inj first).2
      cases leg <;> simp [Leg.request]
    · exact absurd (sound.flying _ r later) (Nat.lt_irrefl _)
  · intro tag r inside
    rcases List.mem_cons.mp inside with first | later
    · cases first
      exact Nat.lt_succ_self _
    · exact Nat.lt_succ_of_lt (sound.flying tag r later)
  · intro tag a n inside
    rcases List.mem_cons.mp inside with first | later
    · cases leg <;> cases first
      exact .inl ⟨pending, rfl⟩
    · exact sound.prepares tag a n later

theorem length_nodeToken (raw : Text) : (nodeToken raw).length = 10 + 2 * raw.length := by
  have name : (ascii "jolt_node_").length = 10 := by decide
  rw [nodeToken, List.length_append, name, length_hexText]

theorem Sound.rotated (sound : Sound digest s) {raw : Text} (drawn : raw.length = 32)
    (fresh : FreshToken digest s (nodeToken raw)) :
    Sound digest (s.rotate raw) := by
  unfold System.rotate beginNodeTokenRotation
  cases stored : s.candidate with
  | none =>
    obtain ⟨keeps, unstaged⟩ := sound.settled stored
    have long : 32 ≤ (nodeToken raw).length := by
      rw [length_nodeToken]
      omega
    have begun : Candidate digest s.node s.token (nodeToken raw) :=
      ⟨long, fresh.token, .inl ⟨keeps, .inl unstaged, fresh.active.symm, fresh.configured⟩⟩
    constructor
    · exact nofun
    · rintro c ⟨⟩
      exact begun
    · exact fun c carries => carries
    · exact nofun
    · exact nofun
    · exact sound.flying
    · intro tag a n inside
      rcases sound.prepares tag a n inside with ⟨pending, _⟩ | dead
      · cases stored.symm.trans pending
      · refine .inr ⟨dead.shut, dead.token, fun same => ?_⟩
        exact fresh.flying _ inside (Option.some.inj same)
  | some c =>
    have turned : Sound digest { s with stage := .calling c .reconcile } :=
      sound.turned (fun d carries => stored.trans carries) nofun nofun
    rwa [stored] at turned

theorem Sound.finished (laws : Digests digest) (sound : Sound digest s)
    (finishing : s.stage = .finishing c) :
    s.finish c = { s with token := c, candidate := none, stage := .idle } ∧
      Sound digest (s.finish c) ∧ Closed digest (s.finish c).node c := by
  have pending : s.candidate = some c := sound.stage c (by rw [finishing]; rfl)
  have closed := sound.finishing c finishing
  have candidate := sound.pending c pending
  have shape : s.finish c = { s with token := c, candidate := none, stage := .idle } :=
    if_pos pending
  have shut {a : Text} (other : a ≠ c) : s.node.opens digest a = false := by
    rw [Bool.eq_false_iff, ne_eq, closed.opens_iff laws]
    exact fun both => other both.2
  refine ⟨shape, ?_, shape ▸ closed⟩
  rw [shape]
  refine ⟨fun _ => closed.keeps laws candidate.proper, nofun, nofun, nofun, nofun, sound.flying, ?_⟩
  intro tag a n inside
  have other : a ≠ c := by
    rcases sound.prepares tag a n inside with ⟨_, rfl⟩ | dead
    · exact candidate.other.symm
    · rintro rfl
      exact dead.candidate pending
  exact .inr ⟨shut other, other, nofun⟩

theorem System.request_mem {r : Request} (found : s.request tag = some r) :
    (tag, r) ∈ s.flying := by
  unfold System.request at found
  obtain ⟨p, first, rfl⟩ := Option.map_eq_some_iff.mp found
  have same : p.1 = tag := by simpa using List.find?_some first
  exact same ▸ List.mem_of_find?_eq_some first

theorem Sound.next (laws : Digests digest) (sound : Sound digest s) {result : Option Unit}
    (moved : s.next digest e = some (u, result)) (fresh : Fresh digest s e u) : Sound digest u := by
  cases e with
  | rotate raw =>
    simp only [System.next] at moved
    split_ifs at moved with ready
    cases moved
    exact sound.rotated ready.2 fresh
  | send =>
    simp only [System.next] at moved
    split at moved
    · rename_i c leg calls
      cases moved
      exact sound.sent calls
    · cases moved
  | handle tag answered =>
    simp only [System.next, Option.map_eq_some_iff] at moved
    obtain ⟨r, found, served⟩ := moved
    have inside := System.request_mem found
    cases handled : s.node.handle digest r with
    | mk node answer =>
      rw [handled] at served
      cases served
      apply sound.served laws answered (sound.handled laws inside handled)
      intro c leg waits commits good
      have pending : s.candidate = some c := sound.stage c (by rw [waits]; rfl)
      rcases (sound.waiting c leg tag waits).2 r inside with same | rfl
      · exact absurd same commits
      · exact sound.confirmed laws pending handled good
  | internal tag answered =>
    simp only [System.next, Option.map_eq_some_iff] at moved
    obtain ⟨r, found, served⟩ := moved
    cases served
    apply sound.served laws answered (.still rfl)
    intro c leg _ _ good
    rcases good with h | h <;> cases h
  | lose tag =>
    cases moved
    exact sound.dropped tag
  | abandon =>
    cases moved
    exact sound.idle
  | finish =>
    simp only [System.next] at moved
    split at moved
    · rename_i c finishing
      cases moved
      exact (sound.finished laws finishing).2.1
    · cases moved

theorem Agreed.sound (agreed : Agreed digest s) : Sound digest s := by
  have keeps : s.node.Keeps digest s.token := by
    rcases Node.opens_iff.mp agreed.opened with keeps | ⟨_, _, staged, _⟩
    · exact keeps
    · exact absurd agreed.unstaged staged
  constructor
  · exact fun _ => ⟨keeps, agreed.unstaged⟩
  · simp [agreed.settled]
  · simp [agreed.idle, Stage.candidate]
  · simp [agreed.idle]
  · simp [agreed.idle]
  · simp [agreed.quiet]
  · simp [agreed.quiet]

end Invariant

section Completion

variable {digest : Text → Text} {s u : System} {c : Text} {leg : Leg}

/-- A call has ended with the node opening to its candidate alone. -/
structure Rotated (digest : Text → Text) (u : System) (c : Text) : Prop where
  idle : u.stage = .idle
  settled : u.candidate = none
  token : u.token = c
  closed : Closed digest u.node c

theorem System.carryOn_idle (idle : s.stage = .idle) (fuel : Nat) :
    s.carryOn digest fuel = some s := by
  cases fuel with
  | zero => simp [System.carryOn, idle]
  | succ fuel => simp [System.carryOn, idle, Stage.step]

theorem System.carryOn_call {node : Node} {answer : Answer} (calls : s.stage = .calling c leg)
    (handled : s.node.handle digest (leg.request s.token c) = (node, answer)) (fuel : Nat) :
    s.carryOn digest (fuel + 2) = System.carryOn digest
      { s with node := node, stage := leg.after c answer,
               flying := s.flying.filter fun p => p.1 != s.sent, sent := s.sent + 1 } fuel := by
  simp [System.carryOn, calls, Stage.step, System.next, System.request, handled, System.served,
    System.dropped, System.answer]

theorem System.carryOn_finish (finishing : s.stage = .finishing c)
    (pending : s.candidate = some c) (closed : Closed digest s.node c) (fuel : Nat) :
    ∃ u, s.carryOn digest (fuel + 1) = some u ∧ Rotated digest u c := by
  refine ⟨{ s with token := c, candidate := none, stage := .idle }, ?_, rfl, rfl, rfl, closed⟩
  simp [System.carryOn, finishing, Stage.step, System.next, System.finish, pending,
    System.carryOn_idle]

theorem System.carryOn_commit (calls : s.stage = .calling c leg) (commits : leg ≠ .prepare)
    (pending : s.candidate = some c) {node : Node}
    (handled : s.node.handle digest (.commit c) = (node, .ok)) (closed : Closed digest node c)
    (fuel : Nat) : ∃ u, s.carryOn digest (fuel + 3) = some u ∧ Rotated digest u c := by
  have request : leg.request s.token c = .commit c := by
    cases leg <;> simp [Leg.request] at commits ⊢
  have done : leg.after c .ok = .finishing c := by
    cases leg <;> simp [Leg.after] at commits ⊢
  rw [← request] at handled
  rw [show fuel + 3 = fuel + 1 + 2 from rfl, System.carryOn_call calls handled]
  apply System.carryOn_finish
  · exact done
  · exact pending
  · exact closed

theorem System.carryOn_prepare (laws : Digests digest) (calls : s.stage = .calling c .prepare)
    (pending : s.candidate = some c) (candidate : Candidate digest s.node s.token c)
    (opened : Open digest s.node s.token c) (fuel : Nat) :
    ∃ u, s.carryOn digest (fuel + 5) = some u ∧ Rotated digest u c := by
  have token := opened.keeps.1
  have prepared : s.node.handle digest (Leg.request s.token c .prepare) =
      (s.node.stage (digest c), .accepted) :=
    Node.prepare_stages laws (Node.opens_iff.mpr (.inl opened.keeps)) candidate.long
      candidate.other opened.staged
  rw [show fuel + 5 = fuel + 3 + 2 from rfl, System.carryOn_call calls prepared]
  apply System.carryOn_commit
  · rfl
  · exact nofun
  · exact pending
  · exact Node.commit_commits laws token candidate.proper rfl
  · exact .of_committed token

theorem System.carryOn_reconcile (laws : Digests digest)
    (calls : s.stage = .calling c .reconcile) (pending : s.candidate = some c)
    (candidate : Candidate digest s.node s.token c) (fuel : Nat) :
    ∃ u, s.carryOn digest (fuel + 7) = some u ∧ Rotated digest u c := by
  rcases candidate.node with opened | closed
  · have token := opened.keeps.1
    rcases opened.staged with unstaged | staged
    · -- Nothing is staged, so the candidate is refused and prepared with the stored token.
      have shut : s.node.opens digest c = false := by
        rw [Bool.eq_false_iff, ne_eq, Node.opens_iff]
        rintro (⟨_, _, ⟨_, active⟩ | ⟨_, configured⟩⟩ | ⟨_, _, staged, _⟩)
        · exact opened.active active.symm
        · exact opened.configured configured
        · exact staged unstaged
      have refused : s.node.handle digest (Leg.request s.token c .reconcile) =
          (s.node, .unauthorized) := Node.handle_unauthorized token shut
      rw [show fuel + 7 = fuel + 5 + 2 from rfl, System.carryOn_call calls refused]
      apply System.carryOn_prepare laws
      · rfl
      · exact pending
      · exact candidate
      · exact opened
    · exact System.carryOn_commit calls nofun pending
        (Node.commit_commits laws token candidate.proper staged) (.of_committed token) (fuel + 4)
  · have again : s.node.handle digest (.commit c) = (s.node, .ok) := by
      rw [closed.eq_committed]
      exact Node.commit_again laws closed.token candidate.proper
    exact System.carryOn_commit calls nofun pending again closed (fuel + 4)

theorem Sound.rotates (laws : Digests digest) (sound : Sound digest s) (idle : s.stage = .idle)
    {raw : Text} (drawn : raw.length = 32) (fresh : FreshToken digest s (nodeToken raw)) :
    ∃ u c, s.rotateNodeToken digest raw = some u ∧ c ≠ [] ∧ Rotated digest u c := by
  have rotated := sound.rotated drawn fresh
  have start : s.rotateNodeToken digest raw = (s.rotate raw).carryOn digest 8 := by
    simp [System.rotateNodeToken, System.next, idle, drawn]
  rw [start]
  unfold System.rotate beginNodeTokenRotation at rotated ⊢
  cases stored : s.candidate with
  | none =>
    simp only [stored] at rotated ⊢
    have candidate := rotated.pending (nodeToken raw) rfl
    obtain ⟨keeps, unstaged⟩ := sound.settled stored
    have opened : Open digest s.node s.token (nodeToken raw) :=
      ⟨keeps, .inl unstaged, fresh.active.symm, fresh.configured⟩
    obtain ⟨u, done, ends⟩ := System.carryOn_prepare laws rfl rfl candidate opened 3
    exact ⟨u, _, done, candidate.proper, ends⟩
  | some c =>
    simp only [stored] at rotated ⊢
    have candidate := rotated.pending c rfl
    obtain ⟨u, done, ends⟩ := System.carryOn_reconcile laws rfl rfl candidate 1
    exact ⟨u, c, done, candidate.proper, ends⟩

theorem Sound.reachable (laws : Digests digest) (sound : Sound digest s) :
    s.node.opens digest s.token = true ∨
      ∃ c, s.candidate = some c ∧ s.node.opens digest c = true := by
  cases pending : s.candidate with
  | none => exact .inl (Node.opens_iff.mpr (.inl (sound.settled pending).1))
  | some c =>
    have candidate := sound.pending c pending
    rcases candidate.node with opened | closed
    · exact .inl (Node.opens_iff.mpr (.inl opened.keeps))
    · exact .inr ⟨c, rfl, (closed.opens_iff laws).mpr ⟨candidate.proper, rfl⟩⟩

theorem Sound.staged (sound : Sound digest s) (staged : s.node.staged ≠ []) :
    ∃ c, s.candidate = some c ∧ s.node.staged = digest c := by
  cases pending : s.candidate with
  | none => exact absurd (sound.settled pending).2 staged
  | some c =>
    rcases (sound.pending c pending).node with opened | closed
    · exact ⟨c, rfl, opened.staged.resolve_left staged⟩
    · rw [Node.staged, closed.record] at staged
      exact absurd rfl staged

def sampleDigest (token : Text) : Text := 1 :: token

theorem sampleDigests : Digests sampleDigest :=
  ⟨fun _ _ same => (List.cons.inj same).2, fun _ => List.cons_ne_nil _ _⟩

def sampleSystem : System :=
  ⟨{ record := none, controlTowerToken := ascii "configured" }, ascii "configured", none, .idle,
    [], 0⟩

theorem sampleSystem_agreed : Agreed sampleDigest sampleSystem :=
  ⟨by decide +kernel, rfl, rfl, rfl, rfl⟩

instance (s : System) (c : Text) : Decidable (FreshToken sampleDigest s c) :=
  decidable_of_iff
    (c ≠ s.token ∧ c ≠ s.node.controlTowerToken ∧ sampleDigest c ≠ s.node.active ∧
      ∀ p ∈ s.flying, c ≠ p.2.authorization)
    ⟨fun ⟨token, configured, active, flying⟩ => ⟨token, configured, active, flying⟩,
      fun fresh => ⟨fresh.token, fresh.configured, fresh.active, fresh.flying⟩⟩

def freshCheck (s : System) (e : Event) (_ : System) : Bool :=
  match e with
  | .rotate raw => decide (FreshToken sampleDigest s (nodeToken raw))
  | _ => true

theorem freshCheck_sound (s : System) (e : Event) (u : System) (checked : freshCheck s e u = true) :
    Fresh sampleDigest s e u := by
  cases e with
  | rotate raw =>
    have fresh : FreshToken sampleDigest s (nodeToken raw) := of_decide_eq_true checked
    exact fresh
  | _ => trivial

/-- The prepare is handled but its response lost; the second call loses the response to its
second commit, so that the node has committed and control has not. -/
def sampleEvents : List Event :=
  [.rotate (List.replicate 32 7), .send, .handle 0 false, .abandon,
    .rotate (List.replicate 32 9), .send, .handle 1 false, .abandon]

def sampleEnd : System :=
  (replay (System.next sampleDigest) freshCheck sampleSystem sampleEvents).getD sampleSystem

end Completion

end Jolt.Tokens
