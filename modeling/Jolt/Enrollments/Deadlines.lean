import Jolt.Base.Loops
import Jolt.Enrollments.Registration

/-! When an enrollment runs out. The handlers compare instants, and the database compares the texts
they are stored as, which leave out the zeros at the end of a fraction. -/
namespace Jolt.Enrollments
open Jolt.Base List

section Texts

/-- The date and the time of day of a second, for the years of four digits. -/
structure Clock where
  first : Int
  last : Int
  text : Int → List Char
  width : ∀ s, first ≤ s → s ≤ last → (text s).length = 19
  ordered : ∀ s t, first ≤ s → s < t → t ≤ last → text s < text t

def nanoseconds : Int := 1000000000

def secondOf (t : Instant) : Int := t / nanoseconds

/-- The fraction of a second as `time.RFC3339Nano` writes it. -/
def fraction (t : Instant) : List Char :=
  match trimZeros (digits 9 (t % nanoseconds).toNat) with
  | [] => []
  | decimals => '.' :: decimals

/-- `value.UTC().Format(time.RFC3339Nano)` -/
def Clock.format (clock : Clock) (t : Instant) : String :=
  String.ofList (clock.text (secondOf t) ++ (fraction t ++ ['Z']))

def Clock.covers (clock : Clock) (t : Instant) : Prop :=
  clock.first ≤ secondOf t ∧ secondOf t ≤ clock.last

/-- In one second, the text of neither fraction is the start of the other. -/
def Aligned (a b : Instant) : Prop :=
  secondOf a = secondOf b → fraction a ≠ fraction b →
    ¬ fraction a <+: fraction b ∧ ¬ fraction b <+: fraction a

instance (a b : Instant) : Decidable (Aligned a b) := inferInstanceAs (Decidable (_ → _ → _))

variable {clock : Clock} {a b : Int}

theorem fraction_below (a : Int) : ∀ c ∈ fraction a, c < 'Z' := by
  intro c inside
  unfold fraction at inside
  split at inside
  · cases inside
  rcases mem_cons.mp inside with rfl | decimal
  · decide
  · exact lt_of_le_of_lt (mem_digits (mem_of_mem_trimZeros decimal)).2 (by decide)

theorem fraction_lt (same : secondOf a = secondOf b) (less : a < b) : fraction a < fraction b := by
  have trimmed : trimZeros (digits 9 (a % nanoseconds).toNat) <
      trimZeros (digits 9 (b % nanoseconds).toNat) := by
    refine trimZeros_lt (by simp [digits_length]) (fun c inside => (mem_digits inside).1) ?_
    unfold secondOf nanoseconds at same
    apply digits_lt <;> unfold nanoseconds <;> omega
  unfold fraction
  split <;> split <;> simp_all

theorem fraction_lt_iff (same : secondOf a = secondOf b) : fraction a < fraction b ↔ a < b := by
  refine ⟨fun less => ?_, fraction_lt same⟩
  rcases lt_trichotomy a b with before | rfl | later
  · exact before
  · exact absurd less (lt_irrefl _)
  · exact absurd less (lt_asymm (fraction_lt same.symm later))

/-- The texts of two instants are in their order exactly if their fractions are aligned. -/
theorem Clock.format_lt_iff (covered : clock.covers a) (covered' : clock.covers b) :
    (clock.format a < clock.format b ↔ a < b) ↔ Aligned a b := by
  unfold Clock.format
  rw [String.lt_iff_toList_lt, String.toList_ofList, String.toList_ofList]
  have wide := (clock.width _ covered.1 covered.2).trans (clock.width _ covered'.1 covered'.2).symm
  rcases lt_trichotomy (secondOf a) (secondOf b) with before | same | after
  · have less := append_lt_append wide (clock.ordered _ _ covered.1 before covered'.2)
      (fraction a ++ ['Z']) (fraction b ++ ['Z'])
    have earlier : a < b := by unfold secondOf nanoseconds at before; omega
    exact iff_of_true (iff_of_true less earlier) fun same => absurd same before.ne
  · have compared : clock.text (secondOf b) ++ (fraction a ++ ['Z']) <
        clock.text (secondOf b) ++ (fraction b ++ ['Z']) ↔
        fraction a < fraction b ∧ ¬ fraction a <+: fraction b ∨
          fraction b <+: fraction a ∧ fraction a ≠ fraction b := by
      rw [append_right_lt, append_lt_append_iff (fraction_below a) (fraction_below b)]
    rw [same, compared, ← fraction_lt_iff same]
    constructor
    · intro agree _ apart
      refine ⟨fun begins => ?_, fun begins => ?_⟩
      · have less := lt_of_shorter begins apart
        rcases agree.mpr less with ⟨_, other⟩ | ⟨back, _⟩
        · exact other begins
        · exact lt_asymm less (lt_of_shorter back apart.symm)
      · exact lt_asymm (agree.mp (.inr ⟨begins, apart⟩)) (lt_of_shorter begins apart.symm)
    · intro aligned
      by_cases equal : fraction a = fraction b
      · simp [equal]
      · obtain ⟨forth, back⟩ := aligned same equal
        simp [forth, back]
  · have more := append_lt_append wide.symm (clock.ordered _ _ covered'.1 after covered.2)
      (fraction b ++ ['Z']) (fraction a ++ ['Z'])
    have later : b < a := by unfold secondOf nanoseconds at after; omega
    exact iff_of_true (iff_of_false more.asymm later.asymm) fun same => absurd same after.ne'

end Texts

section Deadlines

variable {lib : Library} {db : DB} {e : Enrollment} {now : Int}

theorem decideEnrollment_iff (keyed : (db.enrollments.map (·.id)).Nodup) (pending : e.state = .pending)
    (stored : db.enrollment e.id = some e) (state : EnrollmentState) (decidedBy : Decider)
    (note : String) (response : Option EnrollPayload) :
    (db.decideEnrollment lib e.id state decidedBy note response now).2 = true ↔
      lib.after e.expiresAt now = true := by
  have known : e ∈ db.enrollments := mem_of_find?_eq_some stored
  simp only [DB.decideEnrollment, any_eq_true, decides, Bool.and_eq_true, decide_eq_true_eq]
  constructor
  · rintro ⟨other, inside, ⟨same, _⟩, later⟩
    rwa [← inj_on_of_nodup_map keyed inside known same]
  · exact fun later => ⟨e, known, ⟨rfl, pending⟩, later⟩

theorem expireEnrollments_state (pending : e.state = .pending) (stored : db.enrollment e.id = some e) :
    ((db.expireEnrollments lib now).enrollment e.id).map (·.state) =
      some (if lib.after e.expiresAt now then .pending else .expired) := by
  rw [enrollment_expire, stored, Option.map_some, expires, pending]
  cases lib.after e.expiresAt now <;> simp [pending, expired]

theorem getEnrollment_state (pending : e.state = .pending) (stored : db.enrollment e.id = some e) :
    (db.getEnrollment e.id now).map (·.state) =
      some (if now < e.expiresAt then .pending else .expired) := by
  simp only [DB.getEnrollment, stored, Option.map_some, pending]
  by_cases early : now < e.expiresAt <;> simp [early, pending]

/-- A decision is taken exactly while the enrollment reads as pending, and the sweep takes it exactly
once it reads as expired, if and only if the texts of the instant and the deadline are in order. -/
theorem deadline_read_alike_iff (lib : Library) (clock : Clock) (format : lib.formatTime = clock.format)
    (db : DB) (keyed : (db.enrollments.map (·.id)).Nodup) (e : Enrollment)
    (pending : e.state = .pending) (stored : db.enrollment e.id = some e) (now : Instant)
    (covered : clock.covers now ∧ clock.covers e.expiresAt) (state : EnrollmentState)
    (decidedBy : Decider) (note : String) (response : Option EnrollPayload) :
    (((db.decideEnrollment lib e.id state decidedBy note response now).2 = true ↔
        (db.getEnrollment e.id now).map (·.state) = some .pending) ∧
      (((db.expireEnrollments lib now).enrollment e.id).map (·.state) = some .expired ↔
        (db.getEnrollment e.id now).map (·.state) = some .expired)) ↔ Aligned now e.expiresAt := by
  rw [decideEnrollment_iff keyed pending stored, expireEnrollments_state pending stored,
    getEnrollment_state pending stored, ← clock.format_lt_iff covered.1 covered.2, ← format]
  have texts : lib.after e.expiresAt now = true ↔ lib.formatTime now < lib.formatTime e.expiresAt := by
    simp [Library.after]
  rw [← texts]
  cases lib.after e.expiresAt now <;> by_cases early : now < e.expiresAt <;> simp [early]

end Deadlines

section Samples

def sampleClock : Clock where
  first := 0
  last := 1000000000
  text s := digits 19 s.toNat
  width s _ _ := digits_length 19 _
  ordered s t start less ends := digits_lt (by omega) (by omega)

def deadlineLibrary : Library := { sampleLibrary with formatTime := sampleClock.format }

/-- An enrollment that ends on a full second. -/
def dueEnrollment : Enrollment :=
  { id := "enr_1", nodeName := "a", nodeID := "node-1", nodeFingerprint := "", apiEndpoint := "",
    csrPEM := "", csrHash := "", operationalEncrypted := "", expiresAt := 900000000000 }

def dueDatabase : DB := ⟨[], [dueEnrollment], fun _ => none, fun _ => none⟩

/-- A nanosecond before the second of the deadline the texts are in order. -/
theorem decided_before_deadline : (dueDatabase.decideEnrollment deadlineLibrary "enr_1" .rejected
    (.user "u") "" none 899999999999).2 = true :=
  ((deadline_read_alike_iff deadlineLibrary sampleClock rfl dueDatabase (by decide) dueEnrollment rfl rfl
    899999999999 (by unfold Clock.covers; decide) .rejected (.user "u") "" none).mpr
      (by decide +kernel)).1.mpr (by decide)

/-- Half a second past the deadline the enrollment reads as expired; it is still decided, and the
sweep leaves it pending. -/
theorem decided_past_deadline :
    (dueDatabase.getEnrollment "enr_1" 900500000000).map (·.state) = some .expired ∧
      (dueDatabase.decideEnrollment deadlineLibrary "enr_1" .issued (.user "u") "" none
        900500000000).2 = true ∧
      ((dueDatabase.expireEnrollments deadlineLibrary 900500000000).enrollment "enr_1").map (·.state) =
        some .pending := by
  decide +kernel

end Samples

end Jolt.Enrollments
