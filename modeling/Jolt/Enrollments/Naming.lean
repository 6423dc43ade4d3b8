import Jolt.Enrollments.Registration

/-! Whom a join token enrolls. The token binds the name of a node; the records are written under
the node identifier the request asks for. -/
namespace Jolt.Enrollments
open Jolt.Base List

section Names

variable {h' : Option Handler} {now : Instant}

def Known (db : DB) (id name : String) : Prop :=
  ∃ token ∈ db.tokens, token.id = id ∧ token.nodeName = name

def Bound (db : DB) (token : JoinToken) : Prop :=
  ∃ e, db.enrollment token.enrollmentID = some e ∧ e.nodeName = token.nodeName

structure Consistent (db : DB) : Prop where
  once : ∀ t ∈ db.tokens, ∀ u ∈ db.tokens, t.id = u.id → t = u
  spent : ∀ token ∈ db.tokens, token.usedAt.isSome = true → Bound db token

def Handler.Named (db : DB) : Handler → Prop
  | .replaying token _ => Bound db token ∧ Known db token.id token.nodeName
  | .completing c =>
    (∀ id, c.decidedBy = .token id → Known db id c.enrollment.nodeName) ∧
      ∀ certificate bundle node, c.stage = .saving certificate bundle node →
        node.id = c.enrollment.nodeID
  | _ => True

structure Named (s : System) : Prop where
  consistent : Consistent s.db
  handlers : ∀ i h, s.handler i = some h → h.Named s.db

/-- No token and no enrollment goes away or changes its name. -/
structure Grows (db db' : DB) : Prop where
  enrollments : ∀ id e, db.enrollment id = some e →
    ∃ e', db'.enrollment id = some e' ∧ e'.nodeName = e.nodeName
  tokens : ∀ id name, Known db id name → Known db' id name

variable {lib : Library} {s t : System} {db db' : DB} {i : Nat} {c : Completion} {id name : String}
  {token : JoinToken}

theorem Grows.of_rows (enrollments : db'.enrollments = db.enrollments)
    (tokens : db'.tokens = db.tokens) : Grows db db' := by
  constructor
  · intro id e found
    exact ⟨e, by rwa [DB.enrollment, enrollments], rfl⟩
  · intro id name known
    rwa [Known, tokens]

theorem Grows.bound (grows : Grows db db') (bound : Bound db token) : Bound db' token := by
  obtain ⟨e, found, same⟩ := bound
  obtain ⟨e', found', same'⟩ := grows.enrollments _ e found
  exact ⟨e', found', same'.trans same⟩

theorem Grows.named (grows : Grows db db') {h : Handler} (named : h.Named db) : h.Named db' := by
  cases h with
  | replaying token csrHash => exact ⟨grows.bound named.1, grows.tokens _ _ named.2⟩
  | completing c => exact ⟨fun id by' => grows.tokens _ _ (named.1 id by'), named.2⟩
  | _ => trivial

theorem Consistent.of_tokens (consistent : Consistent db) (grows : Grows db db')
    (tokens : db'.tokens = db.tokens) : Consistent db' := by
  constructor
  · rw [tokens]
    exact consistent.once
  · intro token inside used
    exact grows.bound (consistent.spent token (tokens ▸ inside) used)

theorem Grows.decide {state : EnrollmentState} {by' : Decider} {note : String}
    {response : Option EnrollPayload} :
    Grows db (db.decideEnrollment lib id state by' note response now).1 := by
  constructor
  · intro other e found
    rw [enrollment_decide, found]
    refine ⟨_, rfl, ?_⟩
    dsimp only
    split <;> rfl
  · exact fun _ _ known => known

theorem Grows.expire : Grows db (db.expireEnrollments lib now) := by
  constructor
  · intro other e found
    rw [enrollment_expire, found]
    refine ⟨_, rfl, ?_⟩
    dsimp only
    split <;> rfl
  · exact fun _ _ known => known

theorem Consistent.start (consistent : Consistent db) {secretHash : String} {new : Enrollment}
    (started : db.startEnrollment lib secretHash new now = .ok (db', token)) :
    Consistent db' ∧ Grows db db' ∧ Known db' token.id new.nodeName := by
  obtain ⟨_, _, rows, absent, old, inside, name, sameID, sameName, enrolls, tokens⟩ :=
    startEnrollment_ok started
  have place : db'.enrollment new.id = some { new with tokenID := token.id } := by
    rw [DB.enrollment] at absent
    rw [DB.enrollment, rows, find?_append, absent]
    simp
  have swap (t : JoinToken) (known : t ∈ db.tokens) :
      (if t.id = old.id then token else t).id = t.id ∧
        (if t.id = old.id then token else t).nodeName = t.nodeName := by
    split_ifs with same
    · obtain rfl := consistent.once t known old inside same
      exact ⟨sameID, sameName⟩
    · exact ⟨rfl, rfl⟩
  have grows : Grows db db' := by
    constructor
    · exact fun id e found => ⟨e, enrollment_append rows found, rfl⟩
    rintro id name ⟨t, known, rfl, rfl⟩
    obtain ⟨keptID, keptName⟩ := swap t known
    refine ⟨_, ?_, keptID, keptName⟩
    rw [tokens]
    exact mem_map_of_mem known
  have bound : Bound db' token := by
    refine ⟨{ new with tokenID := token.id }, ?_, name.symm.trans sameName.symm⟩
    rw [enrolls]
    exact place
  refine ⟨⟨?_, ?_⟩, grows, grows.tokens _ _ ⟨old, inside, sameID.symm, name⟩⟩
  · intro t known u known' same
    rw [tokens] at known known'
    obtain ⟨t, before, rfl⟩ := mem_map.mp known
    obtain ⟨u, before', rfl⟩ := mem_map.mp known'
    have equal : t = u := by
      apply consistent.once t before u before'
      rw [← (swap t before).1, ← (swap u before').1, same]
    rw [equal]
  · intro t known used
    rw [tokens] at known
    obtain ⟨t, before, rfl⟩ := mem_map.mp known
    by_cases same : t.id = old.id
    · rw [if_pos same]
      exact bound
    · rw [if_neg same] at used ⊢
      exact grows.bound (consistent.spent t before used)

theorem Consistent.create (consistent : Consistent db)
    (created : db.createJoinToken token = some db') :
    Consistent db' ∧ Grows db db' := by
  unfold DB.createJoinToken at created
  split_ifs at created with taken
  have made := Option.some.inj created
  have fresh (t : JoinToken) (known : t ∈ db.tokens) : t.id ≠ token.id := by
    intro same
    exact taken (any_eq_true.mpr ⟨t, known, by simp [same]⟩)
  have grows : Grows db db' := by
    rw [← made]
    constructor
    · exact fun id e found => ⟨e, found, rfl⟩
    · rintro id name ⟨t, known, same⟩
      exact ⟨t, mem_append_left _ known, same⟩
  refine ⟨⟨?_, ?_⟩, grows⟩
  · intro t known u known' same
    simp only [← made, mem_append, mem_singleton] at known known'
    rcases known with known | rfl <;> rcases known' with known' | rfl
    · exact consistent.once t known u known' same
    · exact absurd same (fresh t known)
    · exact absurd same.symm (fresh u known')
    · rfl
  · intro t known used
    simp only [← made, mem_append, mem_singleton] at known
    rcases known with known | rfl
    · exact grows.bound (consistent.spent t known used)
    · cases used

theorem Named.replaced (named : Named s) (replaced : Replaced s t i h')
    (consistent : Consistent t.db) (grows : Grows s.db t.db)
    (fresh : ∀ h, h' = some h → h.Named t.db) : Named t := by
  refine ⟨consistent, fun j h present => ?_⟩
  by_cases same : j = i
  · subst same
    exact fresh h (replaced.here.symm.trans present)
  · rw [replaced.others j same] at present
    exact grows.named (named.handlers j h present)

theorem Named.grown (named : Named s) (consistent : Consistent db') (grows : Grows s.db db') :
    Named { s with db := db' } :=
  ⟨consistent, fun i h present => grows.named (named.handlers i h present)⟩

theorem begin_named {e : Enrollment} {by' : Decider}
    (known : ∀ id, by' = .token id → Known db id e.nodeName) : (begin e by' now).Named db :=
  ⟨known, nofun⟩

theorem getEnrollment_name {e : Enrollment} (found : db.getEnrollment id now = some e) :
    ∃ e', db.enrollment id = some e' ∧ e'.nodeName = e.nodeName := by
  obtain ⟨e', found', rfl⟩ := Option.map_eq_some_iff.mp found
  refine ⟨e', found', ?_⟩
  split <;> rfl

theorem Completion.at_named {stage : Stage} (named : Handler.Named db (.completing c))
    (formed : ∀ certificate bundle node, stage = .saving certificate bundle node →
      node.id = c.enrollment.nodeID) (h : Handler) (same : c.at stage = some h) : h.Named db := by
  cases same
  exact ⟨named.1, formed⟩

theorem Named.completes (named : Handler.Named db (.completing c)) (consistent : Consistent db)
    {input : Input} (done : c.step lib db input = (db', h')) :
    Grows db db' ∧ Consistent db' ∧ ∀ h, h' = some h → h.Named db' := by
  have same : Grows db db := .of_rows rfl rfl
  unfold Completion.step at done
  cases stage : c.stage with
  | issuing =>
    simp only [stage] at done
    split at done <;> cases done
    · exact ⟨same, consistent, fun _ ends => by cases ends⟩
    · exact ⟨same, consistent, Completion.at_named named nofun⟩
    · exact ⟨same, consistent, Completion.at_named named nofun⟩
  | refusing =>
    simp only [stage] at done
    cases done
    exact ⟨.decide, consistent.of_tokens .decide rfl, fun _ ends => by cases ends⟩
  | looking certificate =>
    simp only [stage] at done
    cases done
    refine ⟨same, consistent, Completion.at_named named ?_⟩
    rintro _ _ node ⟨⟩
    exact (Completion.node_formed _ _).1
  | saving certificate bundle node =>
    simp only [stage] at done
    cases done
    have grows : Grows db (db.saveNode node) := .of_rows rfl rfl
    exact ⟨grows, consistent.of_tokens grows rfl,
      Completion.at_named (grows.named named) nofun⟩
  | managing certificate bundle =>
    simp only [stage] at done
    split at done
    · cases done
      exact ⟨same, consistent, fun _ ends => by cases ends⟩
    rename_i saved
    cases done
    obtain ⟨_, enrollments, tokens, _⟩ := saveManagedNode_some saved
    have grows := Grows.of_rows enrollments tokens
    exact ⟨grows, consistent.of_tokens grows tokens,
      Completion.at_named (grows.named named) nofun⟩
  | deciding certificate bundle =>
    simp only [stage] at done
    cases done
    exact ⟨.decide, consistent.of_tokens .decide rfl, fun _ ends => by cases ends⟩

theorem Named.steps {h : Handler} (named : h.Named db) (consistent : Consistent db) {input : Input}
    (done : h.step lib db input = (db', h')) :
    Grows db db' ∧ Consistent db' ∧ ∀ x, h' = some x → x.Named db' := by
  have same : Grows db db := .of_rows rfl rfl
  cases h with
  | replaying token csrHash =>
    cases done
    refine ⟨same, consistent, fun x goes => ?_⟩
    rcases replay_begins token csrHash input.now with ends | ⟨e, found, begins⟩
    · cases ends.symm.trans goes
    cases begins.symm.trans goes
    obtain ⟨e', found', name⟩ := getEnrollment_name found
    obtain ⟨⟨row, found'', bound⟩, known⟩ := named
    cases found'.symm.trans found''
    apply begin_named
    rintro id ⟨⟩
    rw [← name, bound]
    exact known
  | completing c => exact Named.completes named consistent done
  | approving id user now =>
    unfold Handler.step at done
    cases found : db.getEnrollment id now with
    | none =>
      simp only [found] at done
      cases done
      exact ⟨same, consistent, fun _ ends => by cases ends⟩
    | some e =>
      simp only [found] at done
      cases done
      refine ⟨same, consistent, fun x goes => ?_⟩
      split_ifs at goes
      cases goes
      exact begin_named nofun
  | rejecting id user note now =>
    cases done
    refine ⟨same, consistent, fun x goes => ?_⟩
    split_ifs at goes
    cases goes
    trivial
  | closing id user note now =>
    cases done
    exact ⟨.decide, consistent.of_tokens .decide rfl, fun _ ends => by cases ends⟩

theorem Named.enrolls (named : Named s) {request : EnrollRequest} {sealed : String}
    {h : Option Handler} (done : s.db.enroll lib request id sealed now = (db', h)) :
    Named ({ s with db := db' }.starts h) := by
  rcases enroll_cases done with ⟨rfl, again⟩ | ⟨new, token, secretHash, started, ends⟩
  · apply named.replaced (Replaced.starts h)
    · exact named.consistent
    · exact .of_rows rfl rfl
    rintro x rfl
    rcases again with ends | ⟨token, csrHash, inside, used, begins⟩
    · cases ends
    · cases begins
      exact ⟨named.consistent.spent token inside used, token, inside, rfl, rfl⟩
  · obtain ⟨consistent, grows, known⟩ := named.consistent.start started
    apply named.replaced (Replaced.starts h) consistent grows
    rintro x rfl
    rcases ends with ends | begins
    · cases ends
    cases begins
    apply begin_named
    rintro id ⟨⟩
    exact known

theorem Named.next (named : Named s) {e : Event} {r : Option Unit}
    (moved : s.next lib e = some (t, r)) : Named t := by
  have same : Grows s.db s.db := .of_rows rfl rfl
  cases e with
  | createToken token =>
    simp only [System.next, Option.map_eq_some_iff] at moved
    obtain ⟨db, created, done⟩ := moved
    cases done
    obtain ⟨consistent, grows⟩ := named.consistent.create created
    exact named.grown consistent grows
  | createNode node =>
    cases moved
    have grows : Grows s.db (s.db.saveNode { node with writer := none }) := .of_rows rfl rfl
    exact named.grown (named.consistent.of_tokens grows rfl) grows
  | enroll request id sealed now =>
    cases done : s.db.enroll lib request id sealed now with
    | mk db h =>
      simp only [System.next, done] at moved
      cases moved
      exact named.enrolls done
  | approve id user now =>
    cases moved
    show Named ({ s with db := s.db }.starts _)
    apply named.replaced (Replaced.starts _) named.consistent same
    rintro x ⟨⟩
    trivial
  | reject id user note now =>
    cases moved
    show Named ({ s with db := s.db }.starts _)
    apply named.replaced (Replaced.starts _) named.consistent same
    rintro x ⟨⟩
    trivial
  | sweep now =>
    cases moved
    exact named.grown (named.consistent.of_tokens .expire rfl) .expire
  | step i input =>
    simp only [System.next, Option.map_eq_some_iff] at moved
    obtain ⟨h, present, done⟩ := moved
    cases stepped : h.step lib s.db input with
    | mk db h' =>
      rw [stepped] at done
      cases done
      obtain ⟨grows, consistent, fresh⟩ :=
        Named.steps (named.handlers i h present) named.consistent stepped
      exact named.replaced (Replaced.set present) consistent grows fresh
  | fail i =>
    cases moved
    exact named.replaced Replaced.clear named.consistent same (fun _ ends => by cases ends)
  | crash =>
    cases moved
    exact ⟨named.consistent, fun i h present => by cases present⟩

end Names

section Tokens

variable {lib : Library} {s t u : System} {i : Nat} {c : Completion} {id : String}

/-- Nodes registered under other names keep their endpoint, their token and their certificate. -/
def OthersKept (db db' : DB) (name : String) : Prop :=
  ∀ n row, db.nodes n = some row → row.name ≠ name →
    (∃ row', db'.nodes n = some row' ∧ row'.endpoint = row.endpoint ∧
      row'.tokenEncrypted = row.tokenEncrypted) ∧ db'.managed n = db.managed n

def Completion.registering (c : Completion) : Bool :=
  match c.stage with
  | .saving _ _ _ | .managing _ _ => true
  | _ => false

/-- A node that is already registered under the identifier a completion writes has the name
the enrollment was started with. -/
def Rightful (db : DB) (c : Completion) : Prop :=
  c.registering = true → ∀ row, db.nodes c.enrollment.nodeID = some row →
    row.name = c.enrollment.nodeName

theorem Completion.step_keeps {db db' : DB} {input : Input} {h' : Option Handler}
    (formed : ∀ certificate bundle node, c.stage = .saving certificate bundle node →
      node.id = c.enrollment.nodeID)
    (rightful : Rightful db c) (done : c.step lib db input = (db', h')) :
    OthersKept db db' c.enrollment.nodeName := by
  intro n row found other
  have kept (nodes : db'.nodes n = db.nodes n) (managed : db'.managed n = db.managed n) :
      (∃ row', db'.nodes n = some row' ∧ row'.endpoint = row.endpoint ∧
        row'.tokenEncrypted = row.tokenEncrypted) ∧ db'.managed n = db.managed n :=
    ⟨⟨row, nodes.trans found, rfl, rfl⟩, managed⟩
  have elsewhere (registers : c.registering = true) : n ≠ c.enrollment.nodeID := by
    rintro rfl
    exact other (rightful registers row found)
  unfold Completion.step at done
  cases stage : c.stage with
  | issuing =>
    simp only [stage] at done
    split at done <;> cases done <;> exact kept rfl rfl
  | saving certificate bundle node =>
    simp only [stage] at done
    cases done
    have apart := elsewhere (by simp [Completion.registering, stage])
    exact kept (saveNode_other (formed certificate bundle node stage ▸ apart)) rfl
  | managing certificate bundle =>
    simp only [stage] at done
    split at done
    · cases done
      exact kept rfl rfl
    rename_i saved
    cases done
    obtain ⟨nodes, _, _, managed, _⟩ := saveManagedNode_some saved
    exact kept (by rw [nodes]) (managed n (elsewhere (by simp [Completion.registering, stage])))
  | _ =>
    simp only [stage] at done
    cases done
    exact kept rfl rfl

/-- In every run, a step of an enrollment that its token completes, for an identifier that is
free or registered under the token's name, leaves the nodes of other names as they are. -/
theorem token_enrolls_its_name (begins : s.handlers = []) (consistent : Consistent s.db)
    (run : Run (System.next lib) (fun _ _ _ => True) s t)
    (present : t.handler i = some (.completing c)) (auto : c.decidedBy = .token id)
    (rightful : Rightful t.db c) {input : Input} {r : Option Unit}
    (moved : t.next lib (.step i input) = some (u, r)) :
    ∃ token ∈ t.db.tokens, token.id = id ∧ OthersKept t.db u.db token.nodeName := by
  have start : Named s :=
    ⟨consistent, fun i h present => by simp [System.handler, begins] at present⟩
  have named : Named t := run.keeps (fun _ _ _ _ moved _ before => before.next moved) start
  obtain ⟨knows, formed⟩ := named.handlers i _ present
  obtain ⟨token, inside, same, name⟩ := knows id auto
  refine ⟨token, inside, same, ?_⟩
  simp only [System.next, Option.map_eq_some_iff] at moved
  obtain ⟨h, present', done⟩ := moved
  cases present.symm.trans present'
  cases stepped : c.step lib t.db input with
  | mk db h' =>
    rw [Handler.step, stepped] at done
    cases done
    rw [name]
    exact Completion.step_keeps formed rightful stepped

/-- A node "b" is registered, and a token for a node "a" that nobody has to approve. -/
def registeredEvents : List Event :=
  [.createNode ⟨"node-1", "b", "https://b.example", "sealed-b", 0, none⟩,
    .createToken (sampleToken "a" .auto)]

def takeoverEvents : List Event :=
  registeredEvents ++ [.enroll (sampleRequest "a") "enr_1" "sealed" 0, .step 0 sampleInput,
    .step 0 sampleInput, .step 0 sampleInput, .step 0 sampleInput, .step 0 sampleInput]

def anyEvent (_ : System) (_ : Event) (_ : System) : Bool := true

/-- The node "b" ends with the endpoint, the token and the certificate of the request. -/
theorem token_takes_other_node :
    Run (System.next sampleLibrary) (fun _ _ _ => True) emptySystem
      (sampleEnd anyEvent registeredEvents) ∧
    Run (System.next sampleLibrary) (fun _ _ _ => True) emptySystem
      (sampleEnd anyEvent takeoverEvents) ∧
    (sampleEnd anyEvent registeredEvents).db.tokens = [sampleToken "a" .auto] ∧
    ((sampleEnd anyEvent takeoverEvents).db.enrollment "enr_1").bind Enrollment.decidedBy =
      some (.token "jt_1") ∧
    ¬ OthersKept (sampleEnd anyEvent registeredEvents).db (sampleEnd anyEvent takeoverEvents).db
      "a" := by
  have any : ∀ s e u, anyEvent s e u = true → True := fun _ _ _ _ => trivial
  refine ⟨Run.of_possible any (by decide +kernel) emptySystem,
    Run.of_possible any (by decide +kernel) emptySystem, by decide +kernel, by decide +kernel, ?_⟩
  intro kept
  have before : (sampleEnd anyEvent registeredEvents).db.nodes "node-1" =
      some ⟨"node-1", "b", "https://b.example", "sealed-b", 0, none⟩ := by decide +kernel
  have after : ((sampleEnd anyEvent takeoverEvents).db.nodes "node-1").map Node.endpoint =
      some "https://other.example" := by decide +kernel
  obtain ⟨⟨row, found, endpoint, _⟩, _⟩ := kept _ _ before (by decide)
  rw [found, Option.map_some, endpoint] at after
  exact absurd after (by decide)

def renewalEvents : List Event :=
  [.createNode ⟨"node-1", "b", "https://b.example", "sealed-b", 0, none⟩,
    .createToken (sampleToken "b" .auto), .enroll (sampleRequest "b") "enr_1" "sealed" 0,
    .step 0 sampleInput, .step 0 sampleInput]

def renewal : Completion where
  enrollment :=
    { id := "enr_1", nodeName := "b", nodeID := "node-1", nodeFingerprint := "",
      apiEndpoint := "https://other.example", csrPEM := "node-1", csrHash := "node-1",
      operationalEncrypted := "sealed", expiresAt := 900000000000 }
  decidedBy := .token "jt_1"
  now := 0
  stage := .saving ⟨"chain", "serial", "fingerprint", 0, 1, "issuer"⟩ ⟨1, "bundle"⟩
    ⟨"node-1", "b", "https://other.example", "sealed", 0, some "enr_1"⟩

abbrev renewing : System := sampleEnd anyEvent renewalEvents

theorem own_token_keeps_others :
    ∃ p, renewing.next sampleLibrary (.step 0 sampleInput) = some p ∧
      ∃ token ∈ renewing.db.tokens, token.id = "jt_1" ∧
        OthersKept renewing.db p.1.db token.nodeName := by
  have any : ∀ s e u, anyEvent s e u = true → True := fun _ _ _ _ => trivial
  have run : Run (System.next sampleLibrary) (fun _ _ _ => True) emptySystem renewing :=
    Run.of_possible any (by decide +kernel) emptySystem
  have present : renewing.handler 0 = some (.completing renewal) := by
    decide +kernel
  have rightful : Rightful renewing.db renewal := by
    intro _ row found
    have name : (renewing.db.nodes "node-1").map Node.name = some "b" := by
      decide +kernel
    rw [show renewal.enrollment.nodeID = "node-1" from rfl] at found
    rw [found] at name
    exact Option.some.inj name
  have moves : (renewing.next sampleLibrary (.step 0 sampleInput)).isSome = true := by
    decide +kernel
  obtain ⟨p, moved⟩ := Option.isSome_iff_exists.mp moves
  have empty : Consistent emptySystem.db := ⟨by simp [emptySystem], by simp [emptySystem]⟩
  exact ⟨p, moved, token_enrolls_its_name rfl empty run present rfl rightful moved⟩

end Tokens

end Jolt.Enrollments
