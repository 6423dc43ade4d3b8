import Jolt.Enrollments.Handlers

/-! What is registered for an enrollment, and whom a join token registers. A completion writes
the node's two records before the enrollment is decided, so the records agree with the
enrollment only where nothing comes between the first write and the decision. -/
namespace Jolt.Enrollments
open Jolt.Base List

section Tables

variable {lib : Library} {db db' : DB} {id : String} {e : Enrollment}
variable {now : Instant}

theorem find_map {g : Enrollment → Enrollment} (same : ∀ e, (g e).id = e.id)
    (rows : List Enrollment) (id : String) :
    (rows.map g).find? (fun e => e.id = id) = (rows.find? fun e => e.id = id).map g := by
  induction rows with
  | nil => rfl
  | cons e rest ih =>
    simp only [map_cons, find?_cons, same]
    split
    · rfl
    · exact ih

theorem enrollment_id (found : db.enrollment id = some e) : e.id = id := by
  simpa using find?_some found

theorem enrollment_decide {state : EnrollmentState} {by' : Decider} {note : String}
    {response : Option EnrollPayload} (other : String) :
    (db.decideEnrollment lib id state by' note response now).1.enrollment other =
      (db.enrollment other).map fun e =>
        if decides lib id now e then decided state by' note response now e else e := by
  apply find_map
  intro e
  split <;> rfl

theorem enrollment_expire (other : String) :
    (db.expireEnrollments lib now).enrollment other = (db.enrollment other).map fun e =>
      if expires lib now e then expired now e else e := by
  apply find_map
  intro e
  split <;> rfl

def Keeps (db db' : DB) : Prop :=
  ∀ id e, db.enrollment id = some e → e.state ≠ .pending → db'.enrollment id = some e

theorem Keeps.decide {state : EnrollmentState} {by' : Decider} {note : String}
    {response : Option EnrollPayload} :
    Keeps db (db.decideEnrollment lib id state by' note response now).1 := by
  intro other e found closed
  rw [enrollment_decide, found]
  simp [decides, closed]

theorem Keeps.expire : Keeps db (db.expireEnrollments lib now) := by
  intro other e found closed
  rw [enrollment_expire, found]
  simp [expires, closed]

theorem startEnrollment_ok {secretHash : String} {new : Enrollment} {token : JoinToken}
    (started : db.startEnrollment lib secretHash new now = .ok (db', token)) :
    db'.nodes = db.nodes ∧ db'.managed = db.managed ∧
      db'.enrollments = db.enrollments ++ [{ new with tokenID := token.id }] ∧
      db.enrollment new.id = none ∧
      ∃ old ∈ db.tokens, old.nodeName = new.nodeName ∧ token.id = old.id ∧
        token.nodeName = old.nodeName ∧ token.enrollmentID = new.id ∧
        db'.tokens = db.tokens.map fun t => if t.id = old.id then token else t := by
  unfold DB.startEnrollment at started
  split at started
  · cases started
  rename_i old found
  split_ifs at started with name used late many exists'
  cases started
  have inside := mem_of_find?_eq_some found
  simp only [Option.not_isSome_iff_eq_none] at exists'
  exact ⟨rfl, rfl, rfl, exists', old, inside, not_not.mp name, rfl, rfl, rfl, rfl⟩

theorem startEnrollment_used {secretHash : String} {new : Enrollment} {token : JoinToken}
    (used : db.startEnrollment lib secretHash new now = .error (.tokenUsed token)) :
    token ∈ db.tokens ∧ token.usedAt.isSome = true := by
  unfold DB.startEnrollment at used
  split at used
  · cases used
  rename_i old found
  split_ifs at used with _ spent <;> cases used
  exact ⟨mem_of_find?_eq_some found, spent⟩

end Tables

section Registration

variable {certificate : Certificate} {db' : DB} {h : Handler} {h' : Option Handler} {now : Instant}

def WrittenFor (db : DB) (n id : String) : Prop :=
  (∃ row, db.nodes n = some row ∧ row.writer = some id) ∨
    ∃ m, db.managed n = some m ∧ m.writer = some id

/-- The enrollment was issued, and the node's certificate on record is that of its response. -/
def Recorded (db : DB) (n id : String) : Prop :=
  ∃ e payload m, db.enrollment id = some e ∧ e.state = .issued ∧ e.response = some payload ∧
    db.managed n = some m ∧ m.certSerial = payload.certificate.serial ∧
    m.certFingerprint = payload.certificate.fingerprint

def Completion.writing (c : Completion) : Bool :=
  match c.stage with
  | .managing _ _ | .deciding _ _ => true
  | _ => false

def Handler.writing : Handler → Bool
  | .completing c => c.writing
  | _ => false

def System.Writes (s : System) (i : Nat) (c : Completion) : Prop :=
  s.handler i = some (.completing c) ∧ c.writing = true

/-- The enrollment still waits, at the time of the request that completes it. -/
def Undecided (lib : Library) (db : DB) (c : Completion) : Prop :=
  ∃ e, db.enrollment c.enrollment.id = some e ∧ decides lib c.enrollment.id c.now e = true

/-- A completion writes its first record while the enrollment waits, and until it has decided
nothing else decides that enrollment, registers that node or ends the request. -/
def Undisturbed (lib : Library) (s : System) (e : Event) (_ : System) : Prop :=
  match e with
  | .crash => ∀ i c, ¬ s.Writes i c
  | .fail i => ∀ c, ¬ s.Writes i c
  | .sweep now => ∀ i c, s.Writes i c →
      ∀ e, s.db.enrollment c.enrollment.id = some e → expires lib now e = false
  | .step i _ =>
    match s.handler i with
    | some (.completing c) =>
      match c.stage with
      | .saving _ _ _ => Undecided lib s.db c ∧ ∀ j d, s.Writes j d →
          d.enrollment.id ≠ c.enrollment.id ∧ d.enrollment.nodeID ≠ c.enrollment.nodeID
      | .refusing => ∀ j d, s.Writes j d → d.enrollment.id ≠ c.enrollment.id
      | _ => True
    | some (.closing id _ _ _) => ∀ j d, s.Writes j d → d.enrollment.id ≠ id
    | _ => True
  | _ => True

variable {lib : Library} {s t : System} {db : DB} {i j : Nat} {c d : Completion} {n id : String}

structure Underway (lib : Library) (db : DB) (c : Completion) : Prop where
  undecided : Undecided lib db c
  node : ∃ row, db.nodes c.enrollment.nodeID = some row ∧
    ∀ id, row.writer = some id → id = c.enrollment.id
  managed : ∀ certificate bundle, c.stage = .deciding certificate bundle →
    ∃ m, db.managed c.enrollment.nodeID = some m ∧ m.certSerial = certificate.serial ∧
      m.certFingerprint = certificate.fingerprint ∧ m.writer = some c.enrollment.id

structure Sound (lib : Library) (s : System) : Prop where
  formed : ∀ i c certificate bundle node, s.handler i = some (.completing c) →
    c.stage = .saving certificate bundle node →
    node.id = c.enrollment.nodeID ∧ node.writer = some c.enrollment.id
  settled : ∀ n id, (∀ i c, s.Writes i c → c.enrollment.nodeID ≠ n) →
    WrittenFor s.db n id → Recorded s.db n id
  underway : ∀ i c, s.Writes i c → Underway lib s.db c
  alone : ∀ i j c d, s.Writes i c → s.Writes j d → i ≠ j →
    d.enrollment.id ≠ c.enrollment.id ∧ d.enrollment.nodeID ≠ c.enrollment.nodeID

theorem handler_set (present : s.handler i = some h) :
    System.handler ⟨db, s.handlers.set i h'⟩ j = if j = i then h' else s.handler j := by
  have inside : i < s.handlers.length := by
    by_contra outside
    simp [System.handler, getElem?_eq_none (Nat.le_of_not_lt outside)] at present
  simp only [System.handler, getElem?_set]
  by_cases same : j = i
  · subst same
    simp [inside]
  · simp [same, Ne.symm same]

theorem handler_mem (present : s.handler i = some h) : some h ∈ s.handlers :=
  mem_of_getElem? (Option.join_eq_some_iff.mp present)

theorem handler_starts (h : Option Handler) :
    (s.starts h).handler j = if j = s.handlers.length then h else s.handler j := by
  simp only [System.handler, System.starts, getElem?_append]
  split_ifs with before last last
  · omega
  · rfl
  · subst last
    simp
  · simp [getElem?_eq_none (Nat.le_of_not_lt before),
      getElem?_eq_none (l := [h]) (i := j - s.handlers.length) (by simp; omega)]

theorem Recorded.keeps (recorded : Recorded db n id) (keeps : Keeps db db')
    (managed : db'.managed n = db.managed n) : Recorded db' n id := by
  obtain ⟨e, payload, m, found, issued, response, row, serial, fingerprint⟩ := recorded
  have kept := keeps id e found (by simp [issued])
  exact ⟨e, payload, m, kept, issued, response, managed.trans row, serial, fingerprint⟩

theorem Underway.keeps (underway : Underway lib db c) (undecided : Undecided lib db' c)
    (nodes : db'.nodes = db.nodes) (managed : db'.managed = db.managed) : Underway lib db' c :=
  ⟨undecided, nodes ▸ underway.node, managed ▸ underway.managed⟩

/-- What a handler is about to save is the record of its own node. -/
def Forms (h' : Option Handler) : Prop :=
  ∀ c certificate bundle node, h' = some (.completing c) → c.stage = .saving certificate bundle node →
    node.id = c.enrollment.nodeID ∧ node.writer = some c.enrollment.id

theorem Sound.quiet (sound : Sound lib s) (nodes : t.db.nodes = s.db.nodes)
    (managed : t.db.managed = s.db.managed) (keeps : Keeps s.db t.db)
    (writes : ∀ i c, t.Writes i c ↔ s.Writes i c)
    (undecided : ∀ i c, s.Writes i c → Undecided lib s.db c → Undecided lib t.db c)
    (formed : ∀ i, Forms (t.handler i)) : Sound lib t := by
  constructor
  · exact formed
  · intro n id idle written
    have before : WrittenFor s.db n id := by
      unfold WrittenFor at written ⊢
      rwa [nodes, managed] at written
    have recorded := sound.settled n id (fun i c w => idle i c ((writes i c).mpr w)) before
    exact recorded.keeps keeps (by rw [managed])
  · intro i c w
    have underway := sound.underway i c ((writes i c).mp w)
    exact underway.keeps (undecided i c ((writes i c).mp w) underway.undecided) nodes managed
  · intro i j c d first second
    exact sound.alone i j c d ((writes i c).mp first) ((writes j d).mp second)

/-- The handler that takes the place of another: where the new one is, and which others stay. -/
structure Replaced (s t : System) (i : Nat) (h' : Option Handler) : Prop where
  here : t.handler i = h'
  others : ∀ j, j ≠ i → t.handler j = s.handler j

theorem Replaced.set (present : s.handler i = some h) :
    Replaced s ⟨db, s.handlers.set i h'⟩ i h' := by
  constructor
  · rw [handler_set present, if_pos rfl]
  · intro j other
    rw [handler_set present, if_neg other]

theorem Replaced.clear : Replaced s { s with handlers := s.handlers.set i none } i none := by
  constructor
  · simp only [System.handler, getElem?_set_self']
    cases s.handlers[i]? <;> rfl
  · intro j other
    simp [System.handler, getElem?_set_ne (Ne.symm other)]

theorem Replaced.starts (h : Option Handler) :
    Replaced s ({ s with db := db }.starts h) s.handlers.length h := by
  constructor
  · rw [handler_starts, if_pos rfl]
  intro j other
  rw [handler_starts, if_neg other]
  rfl

theorem handler_length : s.handler s.handlers.length = none := by
  simp [System.handler]

theorem Replaced.writes (replaced : Replaced s t i h') (before : ∀ c, ¬ s.Writes i c)
    (after : ∀ h, h' = some h → h.writing = false) (j : Nat) (d : Completion) :
    t.Writes j d ↔ s.Writes j d := by
  by_cases same : j = i
  · subst same
    constructor
    · rintro ⟨present, writing⟩
      have silent := after _ (replaced.here.symm.trans present)
      exact absurd writing (by simpa [Handler.writing] using silent)
    · exact fun w => absurd w (before d)
  · rw [System.Writes, System.Writes, replaced.others j same]

structure Quiet (h' : Option Handler) : Prop where
  silent : ∀ h, h' = some h → h.writing = false
  formed : Forms h'

theorem Quiet.ended : Quiet none := by
  constructor <;> intro _ <;> simp

theorem Quiet.goes (silent : h.writing = false) (formed : Forms (some h)) : Quiet (some h) := by
  refine ⟨?_, formed⟩
  rintro _ ⟨⟩
  exact silent

theorem Quiet.other (other : ∀ c, h ≠ .completing c) : Quiet (some h) := by
  refine .goes ?_ fun c _ _ _ same => absurd (Option.some.inj same) (other c)
  cases h with
  | completing c => exact absurd rfl (other c)
  | _ => rfl

theorem Quiet.begins (e : Enrollment) (by' : Decider) (now : Instant) :
    Quiet (some (begin e by' now)) :=
  .goes rfl (by rintro _ _ _ _ ⟨⟩ ⟨⟩)

theorem Replaced.formed (replaced : Replaced s t i h') (sound : Sound lib s) (formed : Forms h')
    (j : Nat) : Forms (t.handler j) := by
  by_cases same : j = i
  · rw [same, replaced.here]
    exact formed
  · rw [replaced.others j same]
    exact sound.formed j

theorem Sound.replaced (sound : Sound lib s) (replaced : Replaced s t i h')
    (before : ∀ c, ¬ s.Writes i c) (quiet : Quiet h') (nodes : t.db.nodes = s.db.nodes)
    (managed : t.db.managed = s.db.managed) (keeps : Keeps s.db t.db)
    (undecided : ∀ i c, s.Writes i c → Undecided lib s.db c → Undecided lib t.db c) :
    Sound lib t :=
  sound.quiet nodes managed keeps (replaced.writes before quiet.silent) undecided
    (replaced.formed sound quiet.formed)

theorem Sound.resting (absent : ∀ i, s.handler i = none)
    (settled : ∀ n id, WrittenFor s.db n id → Recorded s.db n id) : Sound lib s := by
  have idle (i : Nat) (c : Completion) : ¬ s.Writes i c := by
    rintro ⟨present, _⟩
    cases (absent i).symm.trans present
  refine ⟨fun i c _ _ _ present => ?_, fun n id _ => settled n id, fun i c w => absurd w (idle i c),
    fun i _ c _ w => absurd w (idle i c)⟩
  cases (absent i).symm.trans present

theorem not_writes (present : s.handler i = some h) (before : h.writing = false) (c : Completion) :
    ¬ s.Writes i c := by
  rintro ⟨found, writing⟩
  cases present.symm.trans found
  exact absurd writing (by simpa [Handler.writing] using before)

theorem Keeps.refl (db : DB) : Keeps db db := fun _ _ found _ => found

theorem Undecided.decide {state : EnrollmentState} {by' : Decider} {note : String}
    {response : Option EnrollPayload} (undecided : Undecided lib db c)
    (other : c.enrollment.id ≠ id) :
    Undecided lib (db.decideEnrollment lib id state by' note response now).1 c := by
  obtain ⟨e, found, waits⟩ := undecided
  have same := enrollment_id found
  have skipped : decides lib id now e = false := by simp [decides, same, other]
  refine ⟨e, ?_, waits⟩
  rw [enrollment_decide, found]
  simp [skipped]

theorem Undecided.expire (undecided : Undecided lib db c)
    (stays : ∀ e, db.enrollment c.enrollment.id = some e → expires lib now e = false) :
    Undecided lib (db.expireEnrollments lib now) c := by
  obtain ⟨e, found, waits⟩ := undecided
  refine ⟨e, ?_, waits⟩
  rw [enrollment_expire, found]
  simp [stays e found]

theorem enrollment_append {new : Enrollment} (rows : db'.enrollments = db.enrollments ++ [new])
    {e : Enrollment} (found : db.enrollment id = some e) : db'.enrollment id = some e := by
  rw [DB.enrollment, rows, find?_append]
  rw [DB.enrollment] at found
  rw [found]
  rfl

theorem saveNode_here (db : DB) (node : Node) : ∃ row, (db.saveNode node).nodes node.id = some row ∧
    row.writer = node.writer ∧ row.name = node.name := by
  unfold DB.saveNode
  cases found : db.nodes node.id with
  | none => exact ⟨node, by simp, rfl, rfl⟩
  | some old => exact ⟨{ node with createdAt := old.createdAt }, by simp, rfl, rfl⟩

theorem saveNode_other {node : Node} (other : n ≠ node.id) :
    (db.saveNode node).nodes n = db.nodes n := if_neg other

theorem saveManagedNode_some {node : ManagedNode} (saved : db.saveManagedNode node = some db') :
    db'.nodes = db.nodes ∧ db'.enrollments = db.enrollments ∧ db'.tokens = db.tokens ∧
      (∀ n, n ≠ node.nodeID → db'.managed n = db.managed n) ∧
      ∃ m, db'.managed node.nodeID = some m ∧ m.certSerial = node.certSerial ∧
        m.certFingerprint = node.certFingerprint ∧ m.writer = node.writer := by
  unfold DB.saveManagedNode at saved
  split at saved
  · cases saved
  cases saved
  refine ⟨rfl, rfl, rfl, fun n other => if_neg other, ?_⟩
  cases found : db.managed node.nodeID with
  | none => exact ⟨node, by simp, rfl, rfl, rfl⟩
  | some old => exact ⟨{ node with enrolledAt := old.enrolledAt }, by simp, rfl, rfl, rfl⟩

theorem Replaced.writes_iff (replaced : Replaced s t i h') (j : Nat) (d : Completion) :
    t.Writes j d ↔
      j = i ∧ h' = some (.completing d) ∧ d.writing = true ∨ j ≠ i ∧ s.Writes j d := by
  by_cases same : j = i
  · subst same
    simp [System.Writes, replaced.here]
  · simp [System.Writes, replaced.others j same, same]

theorem Underway.elsewhere (underway : Underway lib db c)
    (enrollments : db'.enrollments = db.enrollments)
    (nodes : db'.nodes c.enrollment.nodeID = db.nodes c.enrollment.nodeID)
    (managed : db'.managed c.enrollment.nodeID = db.managed c.enrollment.nodeID) :
    Underway lib db' c := by
  constructor
  · unfold Undecided DB.enrollment
    rw [enrollments]
    exact underway.undecided
  · rw [nodes]
    exact underway.node
  · rw [managed]
    exact underway.managed

theorem Replaced.idle (replaced : Replaced s t i h') (present : s.handler i = some (.completing c))
    (other : c.enrollment.nodeID ≠ n) (idle : ∀ j d, t.Writes j d → d.enrollment.nodeID ≠ n)
    (j : Nat) (d : Completion) (w : s.Writes j d) : d.enrollment.nodeID ≠ n := by
  by_cases same : j = i
  · subst same
    cases present.symm.trans w.1
    exact other
  · exact idle j d ((replaced.writes_iff j d).mpr (.inr ⟨same, w⟩))

section

variable (sound : Sound lib s) (present : s.handler i = some (.completing c))
include sound present

theorem Sound.registers {stage : Stage} (replaced : Replaced s t i (c.at stage))
    (writing : Completion.writing { c with stage := stage } = true)
    (enrollments : t.db.enrollments = s.db.enrollments)
    (nodes : ∀ n, n ≠ c.enrollment.nodeID → t.db.nodes n = s.db.nodes n)
    (managed : ∀ n, n ≠ c.enrollment.nodeID → t.db.managed n = s.db.managed n)
    (underway : Underway lib t.db { c with stage := stage }) (alone : ∀ j d, j ≠ i → s.Writes j d →
      d.enrollment.id ≠ c.enrollment.id ∧ d.enrollment.nodeID ≠ c.enrollment.nodeID) :
    Sound lib t := by
  have here : t.Writes i { c with stage := stage } :=
    (replaced.writes_iff _ _).mpr (.inl ⟨rfl, rfl, writing⟩)
  constructor
  · apply replaced.formed sound
    intro d _ _ _ same saving
    cases same
    dsimp only at saving
    subst saving
    cases writing
  · intro n id idle written
    have other : n ≠ c.enrollment.nodeID := (idle i _ here).symm
    have before : WrittenFor s.db n id := by
      unfold WrittenFor at written ⊢
      rwa [nodes n other, managed n other] at written
    have quiet := replaced.idle present other.symm idle
    have keeps : Keeps s.db t.db := by
      intro other e found _
      rwa [DB.enrollment, enrollments]
    exact (sound.settled n id quiet before).keeps keeps (managed n other)
  · intro j d w
    rcases (replaced.writes_iff j d).mp w with ⟨_, same, _⟩ | ⟨differ, before⟩
    · cases same
      exact underway
    · have other := (alone j d differ before).2
      exact (sound.underway j d before).elsewhere enrollments (nodes _ other) (managed _ other)
  · intro j k d f first second differ
    rcases (replaced.writes_iff j d).mp first with ⟨rfl, same, _⟩ | ⟨apart, before⟩
    · cases same
      rcases (replaced.writes_iff k f).mp second with ⟨again, _, _⟩ | ⟨apart, later⟩
      · exact absurd again.symm differ
      · exact alone k f apart later
    · rcases (replaced.writes_iff k f).mp second with ⟨rfl, same, _⟩ | ⟨_, later⟩
      · cases same
        exact ⟨(alone j d apart before).1.symm, (alone j d apart before).2.symm⟩
      · exact sound.alone j k d f before later differ

theorem Sound.saves {bundle : Bundle} {node : Node}
    (saving : c.stage = .saving certificate bundle node) (undecided : Undecided lib s.db c) (alone :
      ∀ j d, s.Writes j d → d.enrollment.id ≠ c.enrollment.id ∧ d.enrollment.nodeID ≠
      c.enrollment.nodeID) :
    Sound lib ⟨s.db.saveNode node, s.handlers.set i (c.at (.managing certificate bundle))⟩ := by
  obtain ⟨place, writer⟩ := sound.formed i c certificate bundle node present saving
  apply sound.registers present (Replaced.set present)
  · rfl
  · rfl
  · exact fun n other => saveNode_other (place ▸ other)
  · exact fun n other => rfl
  · obtain ⟨row, found, by', _⟩ := saveNode_here s.db node
    refine ⟨undecided, ⟨row, place ▸ found, fun id wrote => ?_⟩, nofun⟩
    exact Option.some.inj (wrote.symm.trans (by'.trans writer))
  · exact fun j d _ w => alone j d w

theorem Sound.manages {bundle : Bundle} (managing : c.stage = .managing certificate bundle)
    (saved : s.db.saveManagedNode (c.managedNode certificate bundle) = some db') :
    Sound lib ⟨db', s.handlers.set i (c.at (.deciding certificate bundle))⟩ := by
  have writes : s.Writes i c := ⟨present, by simp [Completion.writing, managing]⟩
  have underway := sound.underway i c writes
  obtain ⟨nodes, enrollments, _, others, m, row, serial, fingerprint, writer⟩ :=
    saveManagedNode_some saved
  apply sound.registers present (Replaced.set present)
  · rfl
  · exact enrollments
  · exact fun n _ => by rw [nodes]
  · exact others
  · constructor
    · unfold Undecided DB.enrollment
      rw [enrollments]
      exact underway.undecided
    · rw [nodes]
      exact underway.node
    · rintro certificate' bundle' ⟨⟩
      exact ⟨m, row, serial, fingerprint, writer⟩
  · exact fun j d differ w => sound.alone i j c d writes w (Ne.symm differ)

theorem Sound.issues {bundle : Bundle} (deciding : c.stage = .deciding certificate bundle) :
    Sound lib ⟨(s.db.decideEnrollment lib c.enrollment.id .issued c.decidedBy ""
      (some ⟨certificate, bundle⟩) c.now).1, s.handlers.set i none⟩ := by
  have writes : s.Writes i c := ⟨present, by simp [Completion.writing, deciding]⟩
  have underway := sound.underway i c writes
  have replaced : Replaced s ⟨(s.db.decideEnrollment lib c.enrollment.id .issued c.decidedBy ""
      (some ⟨certificate, bundle⟩) c.now).1, s.handlers.set i none⟩ i none := Replaced.set present
  constructor
  · exact replaced.formed sound Quiet.ended.formed
  · intro n id idle written
    by_cases own : n = c.enrollment.nodeID
    · subst own
      obtain ⟨e, found, waits⟩ := underway.undecided
      obtain ⟨m, row, serial, fingerprint, writer⟩ := underway.managed certificate bundle deciding
      obtain ⟨node, registered, owner⟩ := underway.node
      have same : id = c.enrollment.id := by
        rcases written with ⟨node', found', wrote⟩ | ⟨m', found', wrote⟩
        · cases registered.symm.trans found'
          exact owner id wrote
        · cases row.symm.trans found'
          exact Option.some.inj (wrote.symm.trans writer)
      refine ⟨decided .issued c.decidedBy "" (some ⟨certificate, bundle⟩) c.now e,
        ⟨certificate, bundle⟩, m, ?_, rfl, rfl, row, serial, fingerprint⟩
      rw [enrollment_decide, same, found]
      simp [waits]
    · have quiet := replaced.idle present (Ne.symm own) idle
      exact (sound.settled n id quiet written).keeps Keeps.decide rfl
  · intro j d w
    rcases (replaced.writes_iff j d).mp w with ⟨_, same, _⟩ | ⟨differ, before⟩
    · cases same
    have other := (sound.alone i j c d writes before (Ne.symm differ)).1
    have later := sound.underway j d before
    exact later.keeps (later.undecided.decide other) rfl rfl
  · intro j k d f first second differ
    rcases (replaced.writes_iff j d).mp first with ⟨_, same, _⟩ | ⟨_, before⟩
    · cases same
    rcases (replaced.writes_iff k f).mp second with ⟨_, same, _⟩ | ⟨_, later⟩
    · cases same
    · exact sound.alone j k d f before later differ

end

theorem Sound.creates (sound : Sound lib s) {node : Node} (unclaimed : node.writer = none) :
    Sound lib { s with db := s.db.saveNode node } := by
  obtain ⟨row, found, writer, _⟩ := saveNode_here s.db node
  constructor
  · exact sound.formed
  · intro n id idle written
    have before : WrittenFor s.db n id := by
      rcases written with ⟨row', found', wrote⟩ | managed
      · by_cases same : n = node.id
        · subst same
          cases found.symm.trans found'
          rw [writer, unclaimed] at wrote
          cases wrote
        · exact .inl ⟨row', (saveNode_other same).symm.trans found', wrote⟩
      · exact .inr managed
    exact (sound.settled n id idle before).keeps (Keeps.refl _) rfl
  · intro i c w
    have underway := sound.underway i c w
    refine ⟨underway.undecided, ?_, underway.managed⟩
    by_cases same : c.enrollment.nodeID = node.id
    · refine ⟨row, same ▸ found, fun id wrote => ?_⟩
      rw [writer, unclaimed] at wrote
      cases wrote
    · obtain ⟨old, registered, owner⟩ := underway.node
      exact ⟨old, (saveNode_other same).trans registered, owner⟩
  · exact sound.alone

theorem enroll_cases {h : Option Handler} {request : EnrollRequest} {sealed : String}
    (done : db.enroll lib request id sealed now = (db', h)) :
    (db' = db ∧ (h = none ∨ ∃ token csrHash, token ∈ db.tokens ∧
      token.usedAt.isSome = true ∧ h = some (.replaying token csrHash))) ∨
    ∃ new token secretHash, db.startEnrollment lib secretHash new now = .ok (db', token) ∧
      (h = none ∨ h = some (begin new (.token token.id) now)) := by
  unfold DB.enroll at done
  split_ifs at done with invalid
  · cases done
    exact .inl ⟨rfl, .inl rfl⟩
  dsimp only at done
  split at done
  · rename_i token used
    cases done
    obtain ⟨inside, spent⟩ := startEnrollment_used used
    exact .inl ⟨rfl, .inr ⟨token, _, inside, spent, rfl⟩⟩
  · cases done
    exact .inl ⟨rfl, .inl rfl⟩
  · rename_i token started
    cases done
    refine .inr ⟨_, token, _, started, ?_⟩
    split_ifs
    · exact .inl rfl
    · exact .inr rfl

section

variable (sound : Sound lib s)
include sound

theorem Sound.starts {h : Option Handler} (quiet : Quiet h) (nodes : db'.nodes = s.db.nodes)
    (managed : db'.managed = s.db.managed)
    (rows : ∀ id e, s.db.enrollment id = some e → db'.enrollment id = some e) :
    Sound lib ({ s with db := db' }.starts h) := by
  apply sound.replaced (Replaced.starts h) _ quiet nodes managed
  · exact fun id e found _ => rows id e found
  · rintro i c _ ⟨e, found, waits⟩
    exact ⟨e, rows _ e found, waits⟩
  rintro c ⟨present, _⟩
  rw [handler_length] at present
  cases present

theorem Sound.enrolls {request : EnrollRequest} {sealed : String} {h : Option Handler}
    (done : s.db.enroll lib request id sealed now = (db', h)) :
    Sound lib ({ s with db := db' }.starts h) := by
  rcases enroll_cases done with
    ⟨rfl, rfl | ⟨token, csrHash, _, _, rfl⟩⟩ | ⟨new, token, secretHash, started, ends⟩
  · exact sound.starts .ended rfl rfl fun _ _ found => found
  · exact sound.starts (.other (by simp)) rfl rfl fun _ _ found => found
  · obtain ⟨nodes, managed, rows, _⟩ := startEnrollment_ok started
    have quiet : Quiet h := by
      rcases ends with rfl | rfl
      · exact .ended
      · exact .begins ..
    exact sound.starts quiet nodes managed fun id e found => enrollment_append rows found

section

variable (present : s.handler i = some h) (before : h.writing = false)
include present before

theorem Sound.reads (quiet : Quiet h') : Sound lib ⟨s.db, s.handlers.set i h'⟩ :=
  sound.replaced (Replaced.set present) (not_writes present before) quiet rfl rfl (Keeps.refl _)
    (fun _ _ _ undecided => undecided)

theorem Sound.begins (begins : h' = none ∨ ∃ e by' now, h' = some (begin e by' now)) :
    Sound lib ⟨s.db, s.handlers.set i h'⟩ := by
  apply sound.reads present before
  rcases begins with rfl | ⟨_, _, _, rfl⟩
  · exact .ended
  · exact .begins ..

theorem Sound.refuses {by' : Decider} {note : String}
    (others : ∀ j d, s.Writes j d → d.enrollment.id ≠ id) :
    Sound lib ⟨(s.db.decideEnrollment lib id .rejected by' note none now).1,
      s.handlers.set i none⟩ := by
  exact sound.replaced (Replaced.set present) (not_writes present before) .ended rfl rfl
    Keeps.decide fun j d w undecided => undecided.decide (others j d w)

end

end

theorem replay_begins (token : JoinToken) (csrHash : String) (now : Instant) :
    db.replay token csrHash now = none ∨
      ∃ e, db.getEnrollment token.enrollmentID now = some e ∧
        db.replay token csrHash now = some (begin e (.token token.id) now) := by
  unfold DB.replay
  cases found : db.getEnrollment token.enrollmentID now with
  | none => exact .inl rfl
  | some e =>
    by_cases other : e.csrHash ≠ csrHash
    · simp [other]
    · by_cases manual : token.approval = .manual <;> cases state : e.state <;>
        simp [other, manual, state]

theorem Completion.node_formed (endpoint : String) (existing : Option Node) :
    (c.node endpoint existing).id = c.enrollment.nodeID ∧
      (c.node endpoint existing).writer = some c.enrollment.id := by
  cases existing <;> exact ⟨rfl, rfl⟩

theorem Sound.completes (sound : Sound lib s) {input : Input}
    (present : s.handler i = some (.completing c)) (done : c.step lib s.db input = (db', h'))
    (undisturbed : Undisturbed lib s (.step i input) t) :
    Sound lib ⟨db', s.handlers.set i h'⟩ := by
  simp only [Undisturbed, present] at undisturbed
  unfold Completion.step at done
  cases stage : c.stage with
  | issuing =>
    have before : Handler.writing (.completing c) = false := by
      simp [Handler.writing, Completion.writing, stage]
    simp only [stage] at done
    split at done <;> cases done <;> apply sound.reads present before
    · exact .ended
    · exact .goes rfl (by rintro _ _ _ _ ⟨⟩ ⟨⟩)
    · exact .goes rfl (by rintro _ _ _ _ ⟨⟩ ⟨⟩)
  | refusing =>
    simp only [stage] at done undisturbed
    cases done
    exact sound.refuses present (by simp [Handler.writing, Completion.writing, stage]) undisturbed
  | looking certificate =>
    simp only [stage] at done
    cases done
    apply sound.reads present (by simp [Handler.writing, Completion.writing, stage])
    refine .goes rfl ?_
    rintro d _ _ _ ⟨⟩ ⟨⟩
    exact Completion.node_formed _ _
  | saving certificate bundle node =>
    simp only [stage] at done undisturbed
    cases done
    exact sound.saves present stage undisturbed.1 undisturbed.2
  | managing certificate bundle =>
    simp only [stage] at done
    cases saved : s.db.saveManagedNode (c.managedNode certificate bundle) with
    | none =>
      have writes : s.Writes i c := ⟨present, by simp [Completion.writing, stage]⟩
      obtain ⟨row, registered, _⟩ := (sound.underway i c writes).node
      simp [DB.saveManagedNode, Completion.managedNode, registered] at saved
    | some db'' =>
      simp only [saved] at done
      cases done
      exact sound.manages present stage saved
  | deciding certificate bundle =>
    simp only [stage] at done
    cases done
    exact sound.issues present stage

theorem Sound.step (sound : Sound lib s) {input : Input} (present : s.handler i = some h)
    (done : h.step lib s.db input = (db', h')) (undisturbed : Undisturbed lib s (.step i input) t) :
    Sound lib ⟨db', s.handlers.set i h'⟩ := by
  cases h with
  | replaying token csrHash =>
    cases done
    apply sound.begins present rfl
    rcases replay_begins token csrHash input.now with same | ⟨e, _, same⟩
    · exact .inl same
    · exact .inr ⟨e, _, _, same⟩
  | completing c => exact sound.completes present done undisturbed
  | approving id user now =>
    unfold Handler.step at done
    cases found : s.db.getEnrollment id now with
    | none =>
      simp only [found] at done
      cases done
      exact sound.begins present rfl (.inl rfl)
    | some e =>
      simp only [found] at done
      cases done
      apply sound.begins present rfl
      split_ifs
      · exact .inr ⟨e, _, _, rfl⟩
      · exact .inl rfl
  | rejecting id user note now =>
    cases done
    apply sound.reads present rfl
    split_ifs
    · exact .other (by simp)
    · exact .ended
  | closing id user note now =>
    cases done
    simp only [Undisturbed, present] at undisturbed
    exact sound.refuses present rfl undisturbed

theorem Sound.next (sound : Sound lib s) {e : Event} {r : Option Unit}
    (moved : s.next lib e = some (t, r)) (undisturbed : Undisturbed lib s e t) : Sound lib t := by
  cases e with
  | createToken token =>
    simp only [System.next, Option.map_eq_some_iff] at moved
    obtain ⟨db, created, same⟩ := moved
    cases same
    unfold DB.createJoinToken at created
    split_ifs at created
    cases created
    exact sound.quiet rfl rfl (Keeps.refl _) (fun _ _ => Iff.rfl) (fun _ _ _ u => u) sound.formed
  | createNode node =>
    cases moved
    exact sound.creates rfl
  | enroll request id sealed now =>
    cases done : s.db.enroll lib request id sealed now with
    | mk db h =>
      simp only [System.next, done] at moved
      cases moved
      exact sound.enrolls done
  | approve | reject =>
    cases moved
    show Sound lib ({ s with db := s.db }.starts _)
    exact sound.starts (.other (by simp)) rfl rfl fun _ _ found => found
  | sweep now =>
    cases moved
    apply sound.quiet
    · rfl
    · rfl
    · exact Keeps.expire
    · exact fun _ _ => Iff.rfl
    · exact fun i c w undecided => undecided.expire (undisturbed i c w)
    · exact sound.formed
  | step i input =>
    simp only [System.next, Option.map_eq_some_iff] at moved
    obtain ⟨h, present, same⟩ := moved
    cases done : h.step lib s.db input with
    | mk db h' =>
      rw [done] at same
      cases same
      exact sound.step present done undisturbed
  | fail i =>
    cases moved
    exact sound.replaced Replaced.clear undisturbed .ended rfl rfl (Keeps.refl _) (fun _ _ _ u => u)
  | crash =>
    cases moved
    exact .resting (fun _ => rfl) fun n id => sound.settled n id fun i c w =>
      absurd w (undisturbed i c)

/-- In a run of enrollments that nothing disturbs between a completion's first write and its
decision, what is registered at rest was issued, with the certificate of the response. -/
theorem registered_only_if_issued (begins : s.handlers = [])
    (settled : ∀ n id, WrittenFor s.db n id → Recorded s.db n id)
    (run : Run (System.next lib) (Undisturbed lib) s t) (rest : ∀ h ∈ t.handlers, h = none)
    (written : WrittenFor t.db n id) : Recorded t.db n id := by
  have start : Sound lib s := .resting (fun i => by simp [System.handler, begins]) settled
  have sound : Sound lib t :=
    run.keeps (fun _ _ _ _ moved undisturbed before => before.next moved undisturbed) start
  apply sound.settled n id _ written
  rintro i c ⟨present, _⟩
  cases rest _ (handler_mem present)

end Registration

section Samples

def sampleLibrary : Library where
  validNodeName _ := true
  validKeyID _ := true
  validUTF8 _ := true
  apiEndpoint := some
  commonName := some
  csrHash csr := csr
  digest secret := secret
  formatTime t := if t < enrollmentLifetime then "1" else "2"

def sampleRequest (name : String) : EnrollRequest where
  secret := "a secret of twenty bytes"
  nodeName := name
  nodeID := "node-1"
  nodeFingerprint := ""
  apiEndpoint := "https://other.example"
  csr := "node-1"
  operationalToken := "an operational token of 32 bytes"

def sampleToken (name : String) (approval : Approval) : JoinToken :=
  ⟨"jt_1", "a secret of twenty bytes", name, approval, 1000, none, ""⟩

def sampleInput : Input :=
  ⟨1, some ⟨"chain", "serial", "fingerprint", 0, 1, "issuer"⟩, ⟨1, "bundle"⟩⟩

def emptySystem : System := ⟨⟨[], [], fun _ => none, fun _ => none⟩, []⟩

/-- A request is started and an administrator approves it, up to the decision. -/
def approvalEvents : List Event :=
  [.createToken (sampleToken "a" .manual), .enroll (sampleRequest "a") "enr_1" "sealed" 0,
    .approve "enr_1" "u_1" 1, .step 1 sampleInput, .step 1 sampleInput, .step 1 sampleInput,
    .step 1 sampleInput, .step 1 sampleInput]

def sampleEnd (check : System → Event → System → Bool) (events : List Event) : System :=
  (replay (System.next sampleLibrary) check emptySystem events).getD emptySystem

def rejectedEvents : List Event :=
  approvalEvents ++ [.reject "enr_1" "u_2" "" 2, .step 2 sampleInput, .step 2 sampleInput,
    .step 1 sampleInput]

abbrev rejectedEnd : System := sampleEnd (fun _ _ _ => true) rejectedEvents

/-- Another administrator rejects the enrollment while it is being approved: the node stays. -/
theorem rejected_stays_registered :
    ∃ t, Run (System.next sampleLibrary) (fun _ _ _ => True) emptySystem t ∧
      (∀ h ∈ t.handlers, h = none) ∧ WrittenFor t.db "node-1" "enr_1" ∧
      ¬ Recorded t.db "node-1" "enr_1" := by
  have run : Run (System.next sampleLibrary) (fun _ _ _ => True) emptySystem
      rejectedEnd :=
    Run.of_possible (fun _ _ _ _ => trivial) (by decide +kernel) emptySystem
  have rest : ∀ h ∈ rejectedEnd.handlers, h = none := by decide +kernel
  have written : (rejectedEnd.db.nodes "node-1").bind Node.writer = some "enr_1" := by
    decide +kernel
  have rejected : (rejectedEnd.db.enrollment "enr_1").map Enrollment.state = some .rejected := by
    decide +kernel
  refine ⟨_, run, rest, .inl (Option.bind_eq_some_iff.mp written), ?_⟩
  rintro ⟨e, _, _, found, issued, _⟩
  rw [found, Option.map_some, issued] at rejected
  cases rejected

def System.aloneCheck (s : System) : Bool :=
  s.handlers.all fun h => h.all fun x => !x.writing

/-- A run in which no step comes while a completion is writing, other than its own. -/
def undisturbedCheck (s : System) (e : Event) (_ : System) : Bool :=
  match e with
  | .crash | .fail _ | .sweep _ => s.aloneCheck
  | .step i _ =>
    match s.handler i with
    | some (.completing c) =>
      match c.stage with
      | .saving _ _ _ => s.aloneCheck && (s.db.enrollment c.enrollment.id).any
          (decides sampleLibrary c.enrollment.id c.now)
      | .refusing => s.aloneCheck
      | _ => true
    | some (.closing _ _ _ _) => s.aloneCheck
    | _ => true
  | _ => true

theorem System.alone_of_check {s : System} (checked : s.aloneCheck = true) (i : Nat)
    (c : Completion) : ¬ s.Writes i c := by
  rintro ⟨present, writing⟩
  have silent := all_eq_true.mp checked _ (handler_mem present)
  simp [Handler.writing, writing] at silent

theorem undisturbedCheck_sound (s : System) (e : Event) (t : System)
    (checked : undisturbedCheck s e t = true) : Undisturbed sampleLibrary s e t := by
  cases e with
  | crash => exact fun i c => System.alone_of_check checked i c
  | fail i => exact fun c => System.alone_of_check checked i c
  | sweep now => exact fun i c w => absurd w (System.alone_of_check checked i c)
  | step i input =>
    simp only [undisturbedCheck] at checked
    simp only [Undisturbed]
    split
    · rename_i c present
      simp only [present] at checked
      split
      · rename_i stage
        simp only [stage, Bool.and_eq_true] at checked
        refine ⟨?_, fun j d w => absurd w (System.alone_of_check checked.1 j d)⟩
        obtain ⟨e, found, waits⟩ := (Option.any_eq_true ..).mp checked.2
        exact ⟨e, found, waits⟩
      · rename_i stage
        simp only [stage] at checked
        exact fun j d w => absurd w (System.alone_of_check checked j d)
      · trivial
    · rename_i id user note now present
      simp only [present] at checked
      exact fun j d w => absurd w (System.alone_of_check checked j d)
    · trivial
  | _ => trivial

theorem approved_node_recorded :
    Recorded (sampleEnd undisturbedCheck (approvalEvents ++ [.step 1 sampleInput])).db
      "node-1" "enr_1" := by
  have run : Run (System.next sampleLibrary) (Undisturbed sampleLibrary) emptySystem
      (sampleEnd undisturbedCheck (approvalEvents ++ [.step 1 sampleInput])) :=
    Run.of_possible undisturbedCheck_sound (by decide +kernel) emptySystem
  have written : ((sampleEnd undisturbedCheck (approvalEvents ++ [.step 1 sampleInput])).db.nodes
      "node-1").bind Node.writer = some "enr_1" := by decide +kernel
  apply registered_only_if_issued rfl _ run (by decide +kernel)
    (.inl (Option.bind_eq_some_iff.mp written))
  rintro n id (⟨row, found, _⟩ | ⟨m, found, _⟩) <;> cases found

end Samples

end Jolt.Enrollments
