import Jolt.Access.FileTypes

/-! How control evaluates its policies: by the path alone where no typed rule covers it,
and otherwise with the filter of the rules that do. -/
namespace Jolt.Access
open Jolt.Base

section Model

structure PolicyRule where
  path : Text
  capabilities : List Text
  fileTypes : Option Selector
  visibility : Text
  needsApproval : List Text
  deriving DecidableEq

structure Policy where
  id : Text
  rules : List PolicyRule

structure PolicyDecision where
  needsApproval : Bool
  allowed : Bool
  denied : Bool
  policyIDs : List Text
  path : Text
  capability : Text
  deriving DecidableEq

structure EntryDecision extends PolicyDecision where
  visibility : Option Visibility
  typed : Bool
  deriving DecidableEq

def policyRules (policies : List Policy) : List (Text × PolicyRule) :=
  policies.flatMap fun policy => policy.rules.map fun rule => (policy.id, rule)

def validPath (value : Text) : Bool :=
  let value := normalizePath value
  value != [] && !containsText value [slash, slash] && patternParts (value.splitOn slash)

def validResourcePath (value : Text) : Bool :=
  let value := normalizePath value
  value != [] && !containsText value [slash, slash] && resourceParts (value.splitOn slash)

def matchRule (pattern path : Text) : Option Nat :=
  matchParts ((normalizePath pattern).splitOn slash) ((normalizePath path).splitOn slash)

def addKey (key : Text) (keys : List Text) : List Text :=
  if keys.contains key then keys else key :: keys

def sortedKeys (keys : List Text) : List Text := keys.insertionSort (· ≤ ·)

variable (lib : Library)

def capabilitySet (values : List Text) : List Text := values.map (folded lib)

def requiresApproval (rule : PolicyRule) (capability : Text) : Bool :=
  rule.needsApproval.any fun value => folded lib value == capability

structure Ballot where
  bestSpecificity : Int
  needsApproval : Bool
  allowedPolicies : List Text
  deniedPolicies : List Text

def Ballot.empty : Ballot := ⟨-1, false, [], []⟩

def Ballot.add (path capability : Text) (b : Ballot) (r : Text × PolicyRule) : Ballot :=
  match matchRule r.2.path path with
  | none => b
  | some specificity =>
    let capabilities := capabilitySet lib r.2.capabilities
    -- a typed rule cannot be granted by its path, but it denies by it
    if r.2.fileTypes.isSome && !capabilities.contains deny then b
    else if capabilities.contains deny then
      { b with deniedPolicies := addKey r.1 b.deniedPolicies }
    else if !grants capabilities capability then b
    else
      let marked := requiresApproval lib r.2 capability
      if b.bestSpecificity < specificity then
        { b with bestSpecificity := specificity, needsApproval := marked, allowedPolicies := [r.1] }
      else if specificity = b.bestSpecificity then
        { b with
          needsApproval := b.needsApproval || marked
          allowedPolicies := addKey r.1 b.allowedPolicies }
      else b

def evaluate (policies : List Policy) (path capability : Text) : PolicyDecision :=
  let path := normalizePath path
  let capability := folded lib capability
  let b := (policyRules policies).foldl (Ballot.add lib path capability) .empty
  if !b.deniedPolicies.isEmpty then
    ⟨false, false, true, sortedKeys b.deniedPolicies, path, capability⟩
  else if !b.allowedPolicies.isEmpty then
    ⟨b.needsApproval, true, false, sortedKeys b.allowedPolicies, path, capability⟩
  else ⟨false, false, false, [], path, capability⟩

/-- The best grant so far that a path rule makes, and whether it asks for approval. -/
def addMark (path capability : Text) (best : Int × Bool) (r : Text × PolicyRule) : Int × Bool :=
  let capabilities := capabilitySet lib r.2.capabilities
  match matchRule r.2.path path with
  | none => best
  | some specificity =>
    if r.2.fileTypes.isSome || capabilities.contains deny || !grants capabilities capability then best
    else if best.1 < specificity then (specificity, requiresApproval lib r.2 capability)
    else if specificity = best.1 then (best.1, best.2 || requiresApproval lib r.2 capability)
    else best

def approvalMarked (policies : List Policy) (path capability : Text) : Bool :=
  ((policyRules policies).foldl (addMark lib path capability) (-1, false)).2

def hasTypedRules (policies : List Policy) (path : Text) : Bool :=
  let path := normalizePath path
  (policyRules policies).any fun r =>
    (r.2.fileTypes.isSome || r.2.visibility != []) && (matchRule r.2.path path).isSome

def contextRule (r : Text × PolicyRule) : Rule :=
  { policyID := r.1
    path := normalizePath r.2.path
    capabilities := r.2.capabilities
    fileTypes := r.2.fileTypes
    visibility := r.2.visibility }

def compileTyped (policies : List Policy) (path : Text) : Option Filter :=
  let covering := (policyRules policies).filter fun r => (matchRule r.2.path path).isSome
  if covering.any fun r => !validPath r.2.path then none
  else
    match Context.compile lib ⟨1, covering.map contextRule⟩ with
    | .error _ => none
    | .ok filter => if validResourcePath path then some filter else none

def matchingPolicyIDs (policies : List Policy) (path : Text) : List Text :=
  sortedKeys (((policyRules policies).filter fun r => (matchRule r.2.path path).isSome).foldl
    (fun ids r => addKey r.1 ids) [])

def evaluateEntry (policies : List Policy) (path capability : Text) (entry : EntryType) :
    EntryDecision :=
  let path := normalizePath path
  if hasTypedRules policies path = false then
    { toPolicyDecision := evaluate lib policies path capability, visibility := none, typed := false }
  else
    match compileTyped lib policies path with
    | none =>
      { toPolicyDecision := evaluate lib policies path capability, visibility := none, typed := true }
    | some filter =>
      let result := filter.evaluate lib path capability entry
      let allowed := result.allowed && !result.denied
      { needsApproval := allowed && approvalMarked lib policies path capability
        allowed
        denied := result.denied
        policyIDs := matchingPolicyIDs policies path
        path
        capability
        visibility := if result.restricted && !allowed then some result.visibility else none
        typed := true }

end Model

section Meaning

variable {lib : Library}

def pathEffect (lib : Library) (path capability : Text) (r : Text × PolicyRule) : Effect :=
  let capabilities := capabilitySet lib r.2.capabilities
  if (matchRule r.2.path path).isNone then .silent
  else if capabilities.contains deny then .deny
  else if r.2.fileTypes.isNone && grants capabilities capability then .allow
  else .silent

theorem addKey_ne_nil (key : Text) (keys : List Text) : (addKey key keys).isEmpty = false := by
  unfold addKey
  cases keys with
  | nil => rfl
  | cons first rest => split <;> rfl

theorem Ballot.add_denied {path capability : Text} (b : Ballot) (r : Text × PolicyRule) :
    (!(b.add lib path capability r).deniedPolicies.isEmpty) =
      (!b.deniedPolicies.isEmpty || decide (pathEffect lib path capability r = .deny)) := by
  unfold Ballot.add pathEffect
  cases matchRule r.2.path path with
  | none => simp
  | some specificity => grind [addKey_ne_nil]

theorem Ballot.add_allowed {path capability : Text} (b : Ballot) (r : Text × PolicyRule)
    (fresh : b.allowedPolicies.isEmpty = true → b.bestSpecificity = -1) :
    (!(b.add lib path capability r).allowedPolicies.isEmpty) =
      (!b.allowedPolicies.isEmpty || decide (pathEffect lib path capability r = .allow)) := by
  unfold Ballot.add pathEffect
  cases matchRule r.2.path path with
  | none => simp
  | some specificity => grind [addKey_ne_nil]

theorem Ballot.add_fresh {path capability : Text} (b : Ballot) (r : Text × PolicyRule)
    (fresh : b.allowedPolicies.isEmpty = true → b.bestSpecificity = -1) :
    (b.add lib path capability r).allowedPolicies.isEmpty = true →
      (b.add lib path capability r).bestSpecificity = -1 := by
  unfold Ballot.add
  cases matchRule r.2.path path with
  | none => exact fresh
  | some specificity => grind [addKey_ne_nil]

section Ballots

variable (rules : List (Text × PolicyRule)) (path capability : Text)

theorem ballot_denied :
    (!(rules.foldl (Ballot.add lib path capability) .empty).deniedPolicies.isEmpty) =
      rules.any fun r => pathEffect lib path capability r = .deny :=
  @foldl_flag _ _ (Ballot.add lib path capability) (fun b => !b.deniedPolicies.isEmpty) _
    (fun _ => True) (fun _ _ _ => trivial) (fun b r _ => b.add_denied r) rules .empty trivial

theorem ballot_allowed :
    (!(rules.foldl (Ballot.add lib path capability) .empty).allowedPolicies.isEmpty) =
      rules.any fun r => pathEffect lib path capability r = .allow :=
  @foldl_flag _ _ (Ballot.add lib path capability) (fun b => !b.allowedPolicies.isEmpty) _ _
    Ballot.add_fresh Ballot.add_allowed rules .empty fun _ => rfl

end Ballots

theorem evaluate_allowed (policies : List Policy) (path capability : Text) :
    (evaluate lib policies path capability).allowed =
      permits (pathEffect lib (normalizePath path) (folded lib capability)) (policyRules policies) := by
  simp only [evaluate, ballot_denied, ballot_allowed, permits]
  cases (policyRules policies).any fun r =>
      pathEffect lib (normalizePath path) (folded lib capability) r = .deny with
  | true => simp
  | false =>
    cases (policyRules policies).any fun r =>
        pathEffect lib (normalizePath path) (folded lib capability) r = .allow with
    | true => rfl
    | false => rfl

end Meaning

end Jolt.Access
