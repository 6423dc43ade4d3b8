import Jolt.Base.Runs
import Mathlib.Data.List.Basic

/-! How a node joins: join tokens, enrollments, and the handlers that start, complete, approve
and reject them. Each call of the store is one step; between two of them other handlers may run
and control may crash. -/
namespace Jolt.Enrollments

section Tables

abbrev Instant := Int

inductive EnrollmentState where
  | pending | issued | rejected | expired
  deriving DecidableEq

inductive Approval where
  | auto | manual
  deriving DecidableEq

/-- A certificate control issued: the PEM chain, its leaf, and the serial of the issuer. -/
structure Certificate where
  chain : String
  serial : String
  fingerprint : String
  notBefore : Instant
  notAfter : Instant
  issuer : String
  deriving DecidableEq

structure Bundle where
  version : Int
  encoded : String
  deriving DecidableEq

structure EnrollPayload where
  certificate : Certificate
  bundle : Bundle
  deriving DecidableEq

/-- Who decided an enrollment: the token it was started with, or a user. -/
inductive Decider where
  | token (id : String)
  | user (id : String)
  deriving DecidableEq

structure JoinToken where
  id : String
  secretHash : String
  nodeName : String
  approval : Approval
  expiresAt : Instant
  usedAt : Option Instant := none
  enrollmentID : String := ""
  deriving DecidableEq

structure Enrollment where
  id : String
  tokenID : String := ""
  state : EnrollmentState := .pending
  nodeName : String
  nodeID : String
  nodeFingerprint : String
  apiEndpoint : String
  csrPEM : String
  csrHash : String
  operationalEncrypted : String
  decidedBy : Option Decider := none
  note : String := ""
  response : Option EnrollPayload := none
  expiresAt : Instant
  decidedAt : Option Instant := none
  deriving DecidableEq

/-- A registered node. `writer` is no column: it names the enrollment the row was written for. -/
structure Node where
  id : String
  name : String
  endpoint : String
  tokenEncrypted : String
  createdAt : Instant
  writer : Option String := none
  deriving DecidableEq

structure ManagedNode where
  nodeID : String
  enrolledAt : Instant
  bundleVersion : Int
  certSerial : String
  certNotBefore : Instant
  certNotAfter : Instant
  certFingerprint : String
  certIssuer : String
  writer : Option String := none
  deriving DecidableEq

structure DB where
  tokens : List JoinToken
  enrollments : List Enrollment
  nodes : String → Option Node
  managed : String → Option ManagedNode

/-- What the handlers take from outside: the checks on texts, the parsing of endpoints and
certificate requests, hashing, and the text a time is stored and compared as. -/
structure Library where
  validNodeName : String → Bool
  validKeyID : String → Bool
  validUTF8 : String → Bool
  /-- An accepted API endpoint, written without slashes at its end. -/
  apiEndpoint : String → Option String
  /-- The common name of a well-formed certificate request with a good signature. -/
  commonName : String → Option String
  /-- The hash of a certificate request without the space around it. -/
  csrHash : String → String
  digest : String → String
  formatTime : Instant → String

end Tables

section Store

variable (lib : Library)

def enrollmentLifetime : Int := 900000000000

def maxPendingEnroll : Nat := 20

/-- `a > b` as the database compares times. -/
def Library.after (a b : Instant) : Bool := decide (lib.formatTime b < lib.formatTime a)

def DB.enrollment (db : DB) (id : String) : Option Enrollment :=
  db.enrollments.find? fun e => e.id = id

def DB.getEnrollment (db : DB) (id : String) (now : Instant) : Option Enrollment :=
  (db.enrollment id).map fun e =>
    if e.state = .pending ∧ ¬ now < e.expiresAt then { e with state := .expired } else e

inductive StartError where
  | notFound
  | tokenUsed (token : JoinToken)
  | tooMany
  | constraint
  deriving DecidableEq

def DB.pendingCount (db : DB) (now : Instant) : Nat :=
  db.enrollments.countP fun e => e.state = .pending && lib.after e.expiresAt now

def DB.startEnrollment (db : DB) (secretHash : String) (enrollment : Enrollment) (now : Instant) :
    Except StartError (DB × JoinToken) :=
  match db.tokens.find? fun t => t.secretHash = secretHash with
  | none => .error .notFound
  | some token =>
    if token.nodeName ≠ enrollment.nodeName then .error .notFound
    else if token.usedAt.isSome then .error (.tokenUsed token)
    else if ¬ now < token.expiresAt then .error .notFound
    else if enrollment.state = .pending ∧ maxPendingEnroll ≤ db.pendingCount lib now then
      .error .tooMany
    else if (db.enrollment enrollment.id).isSome then .error .constraint
    else
      let enrollment := { enrollment with tokenID := token.id }
      let token' := { token with usedAt := some now, enrollmentID := enrollment.id }
      .ok ({ db with enrollments := db.enrollments ++ [enrollment],
                     tokens := db.tokens.map fun t => if t.id = token.id then token' else t },
        token')

/-- `UPDATE enrollments … WHERE id=? AND state='pending' AND expires_at>?` -/
def decides (id : String) (now : Instant) (e : Enrollment) : Bool :=
  e.id = id && e.state = .pending && lib.after e.expiresAt now

def decided (state : EnrollmentState) (decidedBy : Decider) (note : String)
    (response : Option EnrollPayload) (now : Instant) (e : Enrollment) : Enrollment :=
  { e with state := state, decidedBy := some decidedBy, note := note, response := response,
           decidedAt := some now, csrPEM := if state = .issued then "" else e.csrPEM }

def DB.decideEnrollment (db : DB) (id : String) (state : EnrollmentState) (decidedBy : Decider)
    (note : String) (response : Option EnrollPayload) (now : Instant) : DB × Bool :=
  ({ db with enrollments := db.enrollments.map fun e =>
      if decides lib id now e then decided state decidedBy note response now e else e },
    db.enrollments.any (decides lib id now))

def expires (now : Instant) (e : Enrollment) : Bool :=
  e.state = .pending && !lib.after e.expiresAt now

def expired (now : Instant) (e : Enrollment) : Enrollment :=
  { e with state := .expired, csrPEM := "", operationalEncrypted := "", decidedAt := some now }

def DB.expireEnrollments (db : DB) (now : Instant) : DB :=
  { db with enrollments := db.enrollments.map fun e =>
      if expires lib now e then expired now e else e }

def DB.saveNode (db : DB) (node : Node) : DB :=
  let row := match db.nodes node.id with
    | none => node
    | some old => { node with createdAt := old.createdAt }
  { db with nodes := fun id => if id = node.id then some row else db.nodes id }

/-- An upsert keeps the time of the first enrollment; a node that is not registered is refused. -/
def DB.saveManagedNode (db : DB) (node : ManagedNode) : Option DB :=
  match db.nodes node.nodeID with
  | none => none
  | some _ =>
    let row := match db.managed node.nodeID with
      | none => node
      | some old => { node with enrolledAt := old.enrolledAt }
    some { db with managed := fun id => if id = node.nodeID then some row else db.managed id }

def DB.createJoinToken (db : DB) (token : JoinToken) : Option DB :=
  if db.tokens.any fun t => t.id = token.id || t.secretHash = token.secretHash then none
  else some { db with tokens := db.tokens ++ [{ token with usedAt := none, enrollmentID := "" }] }

end Store

section Handlers

variable (lib : Library)

structure EnrollRequest where
  secret : String
  nodeName : String
  nodeID : String
  nodeFingerprint : String
  apiEndpoint : String
  csr : String
  operationalToken : String

def EnrollRequest.valid (request : EnrollRequest) : Bool :=
  20 ≤ request.secret.utf8ByteSize && request.secret.utf8ByteSize ≤ 128 &&
    lib.validNodeName request.nodeName && lib.validKeyID request.nodeID &&
    request.nodeFingerprint.utf8ByteSize ≤ 200 && lib.validUTF8 request.nodeFingerprint &&
    32 ≤ request.operationalToken.utf8ByteSize && request.operationalToken.utf8ByteSize ≤ 128 &&
    (lib.apiEndpoint request.apiEndpoint).isSome && lib.commonName request.csr = some request.nodeID

/-- Where `completeEnrollment` is: before the certificate is asked for, before a refused one is
recorded, and before `GetNode`, `SaveNode`, `SaveManagedNode` and `DecideEnrollment`. -/
inductive Stage where
  | issuing
  | refusing
  | looking (certificate : Certificate)
  | saving (certificate : Certificate) (bundle : Bundle) (node : Node)
  | managing (certificate : Certificate) (bundle : Bundle)
  | deciding (certificate : Certificate) (bundle : Bundle)
  deriving DecidableEq

structure Completion where
  enrollment : Enrollment
  decidedBy : Decider
  now : Instant
  stage : Stage
  deriving DecidableEq

/-- A request in progress, at the store call it makes next. -/
inductive Handler where
  | replaying (token : JoinToken) (csrHash : String)
  | completing (c : Completion)
  | approving (id user : String) (now : Instant)
  | rejecting (id user note : String) (now : Instant)
  | closing (id user note : String) (now : Instant)
  deriving DecidableEq

/-- What a step takes from outside: the time, and what the authority answers. -/
structure Input where
  now : Instant
  certificate : Option Certificate
  bundle : Bundle

def begin (enrollment : Enrollment) (decidedBy : Decider) (now : Instant) : Handler :=
  .completing ⟨enrollment, decidedBy, now, .issuing⟩

/-- The `enroll` handler up to its first store call. -/
def DB.enroll (db : DB) (request : EnrollRequest) (id sealed : String) (now : Instant) :
    DB × Option Handler :=
  if !request.valid lib then (db, none)
  else
    let csrHash := lib.csrHash request.csr
    let enrollment : Enrollment :=
      { id := id, nodeName := request.nodeName, nodeID := request.nodeID,
        nodeFingerprint := request.nodeFingerprint,
        apiEndpoint := (lib.apiEndpoint request.apiEndpoint).getD "", csrPEM := request.csr,
        csrHash := csrHash, operationalEncrypted := sealed, expiresAt := now + enrollmentLifetime }
    match db.startEnrollment lib (lib.digest request.secret) enrollment now with
    | .error (.tokenUsed token) => (db, some (.replaying token csrHash))
    | .error _ => (db, none)
    | .ok (db', token) =>
      (db', if token.approval = .manual then none
        else some (begin enrollment (.token token.id) now))

def DB.replay (db : DB) (token : JoinToken) (csrHash : String) (now : Instant) : Option Handler :=
  match db.getEnrollment token.enrollmentID now with
  | none => none
  | some existing =>
    if existing.csrHash ≠ csrHash then none
    else
      match existing.state with
      | .pending =>
        if token.approval = .manual then none else some (begin existing (.token token.id) now)
      | _ => none

/-- The row `completeEnrollment` registers; a node that is known keeps its name. -/
def Completion.node (c : Completion) (endpoint : String) (existing : Option Node) : Node :=
  let node : Node :=
    { id := c.enrollment.nodeID, name := c.enrollment.nodeName, endpoint := endpoint,
      tokenEncrypted := c.enrollment.operationalEncrypted, createdAt := c.now,
      writer := some c.enrollment.id }
  match existing with
  | none => node
  | some old => { node with name := old.name, createdAt := old.createdAt }

def Completion.managedNode (c : Completion) (certificate : Certificate) (bundle : Bundle) :
    ManagedNode where
  nodeID := c.enrollment.nodeID
  enrolledAt := c.now
  bundleVersion := bundle.version
  certSerial := certificate.serial
  certNotBefore := certificate.notBefore
  certNotAfter := certificate.notAfter
  certFingerprint := certificate.fingerprint
  certIssuer := certificate.issuer
  writer := some c.enrollment.id

def Completion.at (c : Completion) (stage : Stage) : Option Handler :=
  some (.completing { c with stage := stage })

/-- The next step of `completeEnrollment`. -/
def Completion.step (db : DB) (input : Input) (c : Completion) : DB × Option Handler :=
  match c.stage with
  | .issuing =>
    match lib.apiEndpoint c.enrollment.apiEndpoint, input.certificate with
    | none, _ => (db, none)
    | some _, none => (db, c.at .refusing)
    | some _, some certificate => (db, c.at (.looking certificate))
  | .refusing =>
    ((db.decideEnrollment lib c.enrollment.id .rejected c.decidedBy
      "o pedido de certificado foi recusado" none c.now).1, none)
  | .looking certificate =>
    let endpoint := (lib.apiEndpoint c.enrollment.apiEndpoint).getD ""
    (db, c.at (.saving certificate input.bundle (c.node endpoint (db.nodes c.enrollment.nodeID))))
  | .saving certificate bundle node => (db.saveNode node, c.at (.managing certificate bundle))
  | .managing certificate bundle =>
    match db.saveManagedNode (c.managedNode certificate bundle) with
    | none => (db, none)
    | some db' => (db', c.at (.deciding certificate bundle))
  | .deciding certificate bundle =>
    ((db.decideEnrollment lib c.enrollment.id .issued c.decidedBy ""
      (some ⟨certificate, bundle⟩) c.now).1, none)

def Handler.step (db : DB) (input : Input) : Handler → DB × Option Handler
  | .replaying token csrHash => (db, db.replay token csrHash input.now)
  | .completing c => c.step lib db input
  | .approving id user now =>
    match db.getEnrollment id now with
    | none => (db, none)
    | some enrollment =>
      (db, if enrollment.state = .pending then some (begin enrollment (.user user) now) else none)
  | .rejecting id user note now =>
    (db, if (db.getEnrollment id now).isSome then some (.closing id user note now) else none)
  | .closing id user note now =>
    ((db.decideEnrollment lib id .rejected (.user user) note none now).1, none)

/-- The database and the requests in progress; one that is done leaves its place empty. -/
structure System where
  db : DB
  handlers : List (Option Handler)

/-- `fail` ends a request at any point: a store call that fails, a cancelled request. The other
events are the public and the administrators' requests, the expiry sweep, one step of a request
in progress, and a crash of control. -/
inductive Event where
  | createToken (token : JoinToken)
  | createNode (node : Node)
  | enroll (request : EnrollRequest) (id sealed : String) (now : Instant)
  | approve (id user : String) (now : Instant)
  | reject (id user note : String) (now : Instant)
  | sweep (now : Instant)
  | step (i : Nat) (input : Input)
  | fail (i : Nat)
  | crash

def System.handler (s : System) (i : Nat) : Option Handler := s.handlers[i]?.join

def System.starts (s : System) (h : Option Handler) : System :=
  { s with handlers := s.handlers ++ [h] }

def System.next (s : System) : Event → Option (System × Option Unit)
  | .createToken token => (s.db.createJoinToken token).map fun db => ({ s with db := db }, none)
  | .createNode node =>
    some ({ s with db := s.db.saveNode { node with writer := none } }, none)
  | .enroll request id sealed now =>
    let (db, h) := s.db.enroll lib request id sealed now
    some ({ s with db := db }.starts h, none)
  | .approve id user now => some (s.starts (some (.approving id user now)), none)
  | .reject id user note now => some (s.starts (some (.rejecting id user note now)), none)
  | .sweep now => some ({ s with db := s.db.expireEnrollments lib now }, none)
  | .step i input =>
    (s.handler i).map fun h =>
      let (db, h') := h.step lib s.db input
      (⟨db, s.handlers.set i h'⟩, none)
  | .fail i => some ({ s with handlers := s.handlers.set i none }, none)
  | .crash => some ({ s with handlers := [] }, none)

end Handlers

end Jolt.Enrollments
