import Jolt.Base.Paths
import Jolt.Jobs.Entities

/-! The signed lease of a job. A lease is an envelope whose claims bind one actor, one
job and one revision; the revision enters through a request identity derived from the
job's id. Decoding, hashing and signatures are parameters of the checks. -/
namespace Jolt.Jobs
open Jolt.Base

/- White space of `unicode.IsSpace`. -/
def isSpace (c : Char) : Bool :=
  let n := c.toNat
  (9 ≤ n && n ≤ 13) || n == 0x20 || n == 0x85 || n == 0xa0 || n == 0x1680 ||
    (0x2000 ≤ n && n ≤ 0x200a) || n == 0x2028 || n == 0x2029 || n == 0x202f || n == 0x205f ||
    n == 0x3000

/-- `strings.TrimSpace(value) == value` -/
def trimmed (value : String) : Bool :=
  !(value.toList.head?.any isSpace) && !(value.toList.getLast?.any isSpace)

def pathLetters : Alphabet Char := ⟨'/', '.'⟩

/-- `path.Clean(value) == value` -/
def cleaned (value : String) : Bool := decide (clean pathLetters value.toList = value.toList)

/- The bytes of the two excluded texts "/\\?#" and the control characters. -/
def identifierChar (c : Char) : Bool :=
  0x21 ≤ c.toNat && c.toNat != 0x7f && c != '/' && c != '\\' && c != '?' && c != '#'

def identifier (value : String) (required : Bool) : Bool :=
  if value = "" then !required
  else value.utf8ByteSize ≤ 128 && trimmed value && value.toList.all identifierChar

def validKeyID (value : String) : Bool := identifier value true

theorem validKeyID_ne_empty {value : String} (valid : validKeyID value = true) : value ≠ "" := by
  rintro rfl
  cases valid

def endpoint (node grant mount root : String) : Bool :=
  if node = "" then grant = "" && mount = "" && root = ""
  else if mount = "" || root = "" || !trimmed root || 2048 < root.utf8ByteSize ||
      root.toList.any (fun c => c == '\\' || c == '\x00') || root.toList.head? == some '/' then
    false
  else if root = "." then true
  else cleaned root && (root.toList.splitOn '/').all (fun part =>
    part != [] && part != ['.'] && part != ['.', '.'])

/- 43 letters of the URL alphabet whose unused low bits are zero: what decodes to 32
bytes and encodes back to the same text. -/
def base64Value (c : Char) : Option Nat :=
  if 'A' ≤ c ∧ c ≤ 'Z' then some (c.toNat - 65)
  else if 'a' ≤ c ∧ c ≤ 'z' then some (c.toNat - 71)
  else if '0' ≤ c ∧ c ≤ '9' then some (c.toNat + 4)
  else if c = '-' then some 62
  else if c = '_' then some 63
  else none

def validJobOptionsDigest (digest : String) : Bool :=
  digest = "" || (digest.toList.length == 43 && digest.toList.all (fun c => (base64Value c).isSome) &&
    (digest.toList.getLast?.bind base64Value).any (fun v => v % 4 == 0))

structure Claims where
  version : Int
  keyID : String
  binding : Binding
  issuedAt : Int
  expiresAt : Int
  context : String
  deriving DecidableEq

/-- The parts of the check that the standard library and the file-type contexts supply.
`κ` is a set of public keys. -/
structure Signing (κ : Type) where
  /-- The SHA-256 of a text, in hexadecimal. -/
  sha256 : String → String
  jobOptionsDigest : JobOptions → String
  /-- The claims of a token of two parts within the size limit, if its payload is one. -/
  decode : String → Option Claims
  /-- The token's second part is the signature of its first by the key of that name. -/
  signed : κ → String → String → Bool
  decodeContext : String → Bool

def signedVersion : Int := 1

def maxLifetimeSeconds : Int := 30

def maxContextBytes : Nat := 32768

def jobOperations : List String :=
  ["delete", "copy_local", "move_local", "transfer_pull", "transfer_pull_directory",
    "transfer_pull_batch", "transfer_move_batch"]

/-- `validate`: whether claims are well formed, whatever they are for. -/
def validate (c : Claims) : Bool :=
  let b := c.binding
  c.version == signedVersion && identifier c.keyID true && 0 < c.issuedAt &&
  c.issuedAt < c.expiresAt && c.expiresAt - c.issuedAt ≤ maxLifetimeSeconds &&
  validJobOptionsDigest b.jobOptionsDigest &&
  (b.jobOptionsDigest == "" || jobOperations.contains b.operation) &&
  [b.actorID, b.credentialID, b.operation, b.requestID].all (identifier · true) &&
  [b.sourceNodeID, b.sourceGrantID, b.sourceMountID, b.destinationNodeID, b.destinationGrantID,
    b.destinationMountID, b.planID].all (identifier · false) &&
  !(b.sourceNodeID == "" && b.destinationNodeID == "") &&
  endpoint b.sourceNodeID b.sourceGrantID b.sourceMountID b.sourceRoot &&
  endpoint b.destinationNodeID b.destinationGrantID b.destinationMountID b.destinationRoot &&
  c.context != "" && c.context.utf8ByteSize ≤ maxContextBytes

variable {κ : Type} (signing : Signing κ)

def verifySigned (token : String) (keys : κ) (now : Time) : Option Claims :=
  match signing.decode token with
  | none => none
  | some claims =>
    if validate claims && signing.signed keys claims.keyID token &&
        claims.issuedAt ≤ now.unix && now.unix < claims.expiresAt &&
        signing.decodeContext claims.context then some claims
    else none

/-- `Verify`: the claims are exactly the expected ones and this node is part of them. -/
def verify (token : String) (keys : κ) (expected : Binding) (receivingNode : String)
    (now : Time) : Option Claims :=
  match verifySigned signing token keys now with
  | none => none
  | some claims =>
    if claims.binding = expected ∧ receivingNode ≠ "" ∧
        (receivingNode = expected.sourceNodeID ∨ receivingNode = expected.destinationNodeID) then
      some claims
    else none

/-- The text whose hash identifies the request for one revision of a job's lease. -/
def leaseText (jobID : String) (revision : Nat) : String :=
  "jolt-job-lease-v1\x00" ++ jobID ++ "\x00" ++ toString revision

def jobLeaseRequestID (jobID : String) (revision : Nat) : String :=
  if !identifier jobID true || revision = 0 then ""
  else "job-" ++ signing.sha256 (leaseText jobID revision)

/-- `JobLeaseBinding`: the topology of the job's operation, and the request identity. -/
def jobLeaseBinding (binding : Binding) (revision : Nat) : Option Binding :=
  let requestID := jobLeaseRequestID signing binding.planID revision
  if requestID = "" || !validJobOptionsDigest binding.jobOptionsDigest ||
      (binding.requestID != "" && binding.requestID != requestID) ||
      !identifier binding.actorID true || !identifier binding.credentialID true ||
      !identifier binding.sourceNodeID true || !identifier binding.sourceMountID true ||
      !identifier binding.sourceGrantID false || !identifier binding.destinationNodeID false ||
      !identifier binding.destinationGrantID false ||
      !identifier binding.destinationMountID false ||
      !endpoint binding.sourceNodeID binding.sourceGrantID binding.sourceMountID
        binding.sourceRoot ||
      !endpoint binding.destinationNodeID binding.destinationGrantID binding.destinationMountID
        binding.destinationRoot then none
  else
    let bound := some { binding with requestID := requestID }
    if binding.operation = "delete" then
      if binding.sourceGrantID ≠ "" ∨ binding.destinationNodeID ≠ "" then none else bound
    else if binding.operation = "copy_local" ∨ binding.operation = "move_local" then
      if binding.sourceGrantID ≠ "" ∨ binding.destinationGrantID ≠ "" ∨
          binding.destinationNodeID ≠ binding.sourceNodeID ∨
          binding.destinationMountID ≠ binding.sourceMountID then none
      else bound
    else if binding.operation = "transfer_pull" ∨ binding.operation = "transfer_pull_directory" ∨
        binding.operation = "transfer_pull_batch" ∨ binding.operation = "transfer_move_batch" then
      if binding.sourceGrantID = "" ∨ binding.destinationGrantID = "" ∨
          binding.destinationNodeID = "" ∨ binding.destinationNodeID = binding.sourceNodeID then none
      else bound
    else none

def verifyJobLease (token : String) (keys : κ) (expected : Binding) (receivingNode : String)
    (revision : Nat) (now : Time) : Option Claims :=
  match jobLeaseBinding signing expected revision with
  | none => none
  | some binding => verify signing token keys binding receivingNode now

/-- `VerifiedJobLeaseBinding`: the binding a verified envelope asks for. -/
def verifiedJobLeaseBinding (token : String) (keys : κ) (receivingNode : String) (now : Time) :
    Option Binding :=
  match verifySigned signing token keys now with
  | none => none
  | some claims =>
    let binding := { claims.binding with requestID := "" }
    if receivingNode ≠ "" ∧ (receivingNode = claims.binding.sourceNodeID ∨
        receivingNode = claims.binding.destinationNodeID) ∧
        (jobLeaseBinding signing binding 1).isSome = true then
      some binding
    else none

section Verified

variable {signing} {token node : String} {keys : κ} {now : Time} {claims : Claims}

/-- What holds of the claims of an accepted token, at the time it is accepted. -/
structure Accepted (signing : Signing κ) (token : String) (keys : κ) (now : Time)
    (claims : Claims) : Prop where
  decoded : signing.decode token = some claims
  valid : validate claims = true
  signed : signing.signed keys claims.keyID token = true
  issued : claims.issuedAt ≤ now.unix
  current : now.unix < claims.expiresAt

theorem verifySigned_some (h : verifySigned signing token keys now = some claims) :
    Accepted signing token keys now claims := by
  unfold verifySigned at h
  cases decoded : signing.decode token with
  | none => simp [decoded] at h
  | some c =>
    simp only [decoded] at h
    split_ifs at h with checks
    cases h
    simp only [Bool.and_eq_true, decide_eq_true_eq] at checks
    exact ⟨decoded, checks.1.1.1.1, checks.1.1.1.2, checks.1.1.2, checks.1.2⟩

theorem verify_some {expected : Binding}
    (h : verify signing token keys expected node now = some claims) :
    Accepted signing token keys now claims ∧ claims.binding = expected := by
  unfold verify at h
  cases verified : verifySigned signing token keys now with
  | none => simp [verified] at h
  | some c =>
    simp only [verified] at h
    split_ifs at h with checks
    cases h
    exact ⟨verifySigned_some verified, checks.1⟩

theorem jobLeaseBinding_some {binding bound : Binding} {revision : Nat}
    (h : jobLeaseBinding signing binding revision = some bound) :
    bound = { binding with requestID := jobLeaseRequestID signing binding.planID revision } ∧
      jobLeaseRequestID signing binding.planID revision ≠ "" := by
  unfold jobLeaseBinding at h
  dsimp only at h
  split_ifs at h with checks
  all_goals
    simp only [Bool.or_eq_true, decide_eq_true_eq, not_or] at checks
    cases h
    exact ⟨rfl, checks.1.1.1.1.1.1.1.1.1.1.1.1⟩

theorem verifyJobLease_some {expected : Binding} {revision : Nat}
    (h : verifyJobLease signing token keys expected node revision now = some claims) :
    Accepted signing token keys now claims ∧
      claims.binding = { expected with
        requestID := jobLeaseRequestID signing expected.planID revision } ∧
      jobLeaseRequestID signing expected.planID revision ≠ "" := by
  unfold verifyJobLease at h
  cases bound : jobLeaseBinding signing expected revision with
  | none => simp [bound] at h
  | some binding =>
    simp only [bound] at h
    obtain ⟨rfl, named⟩ := jobLeaseBinding_some bound
    obtain ⟨accepted, same⟩ := verify_some h
    exact ⟨accepted, same, named⟩

theorem decimal_injective {r r' : Nat} (same : Nat.toDigits 10 r = Nat.toDigits 10 r') : r = r' := by
  have digit : ∀ m < 10, ∀ n < 10, Nat.digitChar m = Nat.digitChar n → m = n := by decide
  -- Both numbers lose their last digit at once.
  induction r using Nat.strongRecOn generalizing r' with
  | _ r ih =>
    rw [Nat.toDigits_eq_if (by decide), @Nat.toDigits_eq_if 10 r' (by decide)] at same
    split_ifs at same with small small'
    · exact digit r small r' small' (List.cons.inj same).1
    · have lengths := congrArg List.length same
      simp only [List.length_append, List.length_singleton] at lengths
      have := @Nat.length_toDigits_pos 10 (r' / 10)
      omega
    · have lengths := congrArg List.length same
      simp only [List.length_append, List.length_singleton] at lengths
      have := @Nat.length_toDigits_pos 10 (r / 10)
      omega
    · obtain ⟨front, last⟩ := List.append_inj_left' same rfl, List.append_inj_right' same rfl
      have tens := ih (r / 10) (by omega) front
      have ones := digit (r % 10) (by omega) (r' % 10) (by omega) (List.cons.inj last).1
      omega

theorem leaseText_injective {jobID : String} {r r' : Nat}
    (same : leaseText jobID r = leaseText jobID r') : r = r' := by
  have digits : toString r = toString r' := (String.append_right_inj _).mp same
  apply decimal_injective
  rw [← Nat.toList_repr, ← Nat.toList_repr]
  exact congrArg String.toList digits

def Signing.Separates (signing : Signing κ) : Prop :=
  ∀ jobID r jobID' r', signing.sha256 (leaseText jobID r) = signing.sha256 (leaseText jobID' r') →
    leaseText jobID r = leaseText jobID' r'

theorem jobLeaseRequestID_injective (separates : signing.Separates) {jobID : String} {r r' : Nat}
    (named : jobLeaseRequestID signing jobID r ≠ "")
    (same : jobLeaseRequestID signing jobID r = jobLeaseRequestID signing jobID r') : r = r' := by
  have shape : ∀ n, jobLeaseRequestID signing jobID n ≠ "" →
      jobLeaseRequestID signing jobID n = "job-" ++ signing.sha256 (leaseText jobID n) := by
    intro n present
    unfold jobLeaseRequestID at present ⊢
    split_ifs at present ⊢
    · exact absurd rfl present
    · rfl
  have named' : jobLeaseRequestID signing jobID r' ≠ "" := same ▸ named
  rw [shape r named, shape r' named'] at same
  exact leaseText_injective (separates _ _ _ _ ((String.append_right_inj _).mp same))

theorem verifyJobLease_revision (separates : signing.Separates) {expected expected' : Binding}
    {keys keys' : κ} {node node' : String} {now now' : Time} {claims claims' : Claims} {r r' : Nat}
    (sameJob : expected.planID = expected'.planID)
    (h : verifyJobLease signing token keys expected node r now = some claims)
    (h' : verifyJobLease signing token keys' expected' node' r' now' = some claims') : r = r' := by
  obtain ⟨accepted, bound, named⟩ := verifyJobLease_some h
  obtain ⟨accepted', bound', _⟩ := verifyJobLease_some h'
  have sameClaims : claims = claims' := by
    have decoded := accepted.decoded
    rw [accepted'.decoded] at decoded
    exact (Option.some.inj decoded).symm
  have ids : claims.binding.requestID = claims'.binding.requestID := by rw [sameClaims]
  rw [bound, bound', ← sameJob] at ids
  exact jobLeaseRequestID_injective separates named ids

end Verified

end Jolt.Jobs
