import Jolt.Access.Contexts

/-! The policies control accepts from an administrator, and whether they can be sent to a node.
Acceptance, the rules written out for whole mounts, and the compilation of a context each
check a rule's path with a validator of their own. -/
namespace Jolt.Access
open Jolt.Base List

section Model

variable (lib : Library)

structure PolicyRequest where
  name : Text
  description : Text
  rules : List PolicyRule

def validServiceAccountName (name : Text) : Bool :=
  3 ≤ name.length && name.length ≤ 64 && name.all fun b =>
    (97 ≤ b && b ≤ 122) || (65 ≤ b && b ≤ 90) || (48 ≤ b && b ≤ 57) || (ascii "._-").contains b

def approvalCapabilities : List Text := [ascii "delete", ascii "update"]

def validMarks (capabilities : List Text) : List Text → List Text → Bool
  | [], _ => true
  | value :: rest, seen =>
    value == folded lib value && !seen.contains value && grants capabilities value &&
      approvalCapabilities.contains value && validMarks capabilities rest (value :: seen)

def validNeedsApproval (rule : PolicyRule) : Bool :=
  let capabilities := capabilitySet lib rule.capabilities
  rule.needsApproval.isEmpty ||
    !(capabilities.contains deny || rule.fileTypes.isSome || rule.visibility != [] ||
      decide (approvalCapabilities.length < rule.needsApproval.length)) &&
    validMarks lib capabilities rule.needsApproval []

def ruleCapabilities : List Text → List Text → Option (List Text)
  | [], seen => some seen
  | capability :: rest, seen =>
    let capability := folded lib capability
    if !validCaps.contains capability || seen.contains capability then none
    else ruleCapabilities rest (seen ++ [capability])

def acceptsTypes (typedPolicies : Bool) (rule : PolicyRule) : Bool :=
  let typed := rule.fileTypes.isSome
  !((typed || rule.visibility != []) && !typedPolicies) &&
    !(rule.visibility != [] &&
      (!typed || rule.visibility != ascii "hidden" && rule.visibility != ascii "visible")) &&
    rule.fileTypes.all fun selector => (selector.compile lib).toBool

def normalizeApprovals (approvals : Bool) (rule : PolicyRule) : Option PolicyRule :=
  if rule.needsApproval.isEmpty then some rule
  else if !approvals then none
  else
    let rule := { rule with needsApproval := rule.needsApproval.map (folded lib) }
    if validNeedsApproval lib rule then some rule else none

def normalizeRule (typedPolicies approvals : Bool) (rule : PolicyRule) : Option PolicyRule :=
  let path := normalizePath rule.path
  if !acceptsTypes lib typedPolicies rule then none
  else if !validPath path || rule.capabilities.isEmpty || decide (9 < rule.capabilities.length) then
    none
  else
    match ruleCapabilities lib rule.capabilities [] with
    | none => none
    | some normalized =>
      if normalized.contains deny && rule.fileTypes.isNone && normalized.length != 1 then none
      else normalizeApprovals lib approvals { rule with path := path, capabilities := normalized }

def normalizePolicyRequest (typedPolicies approvals : Bool) (input : PolicyRequest) :
    Option PolicyRequest :=
  let name := trimSpace input.name
  let description := trimSpace input.description
  if !validServiceAccountName name || decide (512 < description.length) || input.rules.isEmpty ||
      decide (100 < input.rules.length) then none
  else
    (input.rules.mapM (normalizeRule lib typedPolicies approvals)).map fun rules =>
      ⟨name, description, rules⟩

def hexDigit (n : UInt8) : UInt8 := if n < 10 then 48 + n else 87 + n

def hexText (value : Text) : Text := value.flatMap fun b => [hexDigit (b / 16), hexDigit (b % 16)]

def randomID (kind value : Text) : Text := kind ++ 95 :: hexText value

def createPolicy (value : Text) (input : PolicyRequest) : Policy :=
  ⟨randomID (ascii "pol") value, input.rules⟩

end Model

section Paths

theorem patternParts_nonempty {parts : List Text} (valid : patternParts parts = true) :
    [] ∉ parts := by
  induction parts with
  | nil => simp
  | cons part rest ih =>
    simp only [patternParts, Bool.and_eq_true] at valid
    simp only [mem_cons, not_or]
    exact ⟨fun empty => by simp [← empty] at valid, ih valid.2⟩

theorem empty_part_of_slashes {value : Text} (twice : containsText value [slash, slash] = true) :
    [] ∈ value.splitOn slash := by
  simp only [containsText, any_eq_true, mem_tails] at twice
  obtain ⟨rest, ⟨before, rfl⟩, begins⟩ := twice
  obtain ⟨after, rfl⟩ := isPrefixOf_iff_prefix.mp begins
  have split := splitOn_append_cons_self (a := slash) before (slash :: after)
  have empty := splitOn_append_cons_self (a := slash) [] after
  rw [nil_append] at empty
  have whole : before ++ ([slash, slash] ++ after) = before ++ slash :: (slash :: after) := rfl
  rw [whole, split, empty]
  simp

theorem validPath_iff (value : Text) :
    validPath value = true ↔ patternParts ((normalizePath value).splitOn slash) = true := by
  simp only [validPath, Bool.and_eq_true]
  constructor
  · exact fun valid => valid.2
  intro parts
  have full := patternParts_nonempty parts
  refine ⟨⟨?_, ?_⟩, parts⟩
  · simp only [bne_iff_ne, ne_eq]
    intro empty
    simp [empty] at full
  · rw [Bool.not_eq_true']
    by_contra twice
    exact full (empty_part_of_slashes (by simpa using twice))

theorem patternParts_concat_recursive {parts : List Text} (valid : patternParts parts = true) :
    patternParts (parts ++ [recursive]) = true ↔ parts.getLast? ≠ some recursive := by
  induction parts with
  | nil => decide
  | cons part rest ih =>
    simp only [patternParts, Bool.and_eq_true] at valid
    cases rest with
    | nil =>
      have last : patternParts [recursive] = true := by decide
      rw [cons_append, nil_append, patternParts, last]
      simp only [isEmpty_cons, Bool.or_false, Bool.and_true, Bool.and_eq_true, bne_iff_ne,
        ne_eq, Bool.or_eq_true, beq_iff_eq, getLast?_singleton, Option.some.injEq]
      grind
    | cons next rest =>
      rw [cons_append, patternParts, getLast?_cons_cons, ← ih valid.2]
      grind

def coversMounts (path : Text) : Bool :=
  isMountScopedFileRule path && ((normalizePath path).splitOn slash).getLast? == some recursive

theorem mountScoped_start {path : Text} (mount : isMountScopedFileRule path = true) :
    ∃ rest, normalizePath path = 110 :: rest := by
  simp only [isMountScopedFileRule, isMountScoped, Bool.and_eq_true, beq_iff_eq] at mount
  obtain ⟨⟨⟨_, first⟩, _⟩, _⟩ := mount
  have joined : [slash].intercalate ((normalizePath path).splitOn slash) = normalizePath path :=
    intercalate_splitOn slash
  generalize (normalizePath path).splitOn slash = parts at first joined
  cases parts with
  | nil => cases first
  | cons part rest =>
    obtain rfl : part = ascii "nodes" := by simpa using first
    rw [← joined]
    cases rest with
    | nil => exact ⟨_, rfl⟩
    | cons next rest => exact ⟨_, rfl⟩

theorem normalizePath_below {path : Text} (mount : isMountScopedFileRule path = true) :
    normalizePath (normalizePath path ++ slash :: recursive) =
      normalizePath path ++ slash :: recursive := by
  obtain ⟨rest, start⟩ := mountScoped_start mount
  rw [start, cons_append, normalizePath_eq, trimEnd_twice_iff]
  have last : (110 :: (rest ++ slash :: recursive)).getLast? = some 42 := by
    have ends : (110 :: (rest ++ slash :: recursive)) = (110 :: rest ++ [slash, 42]) ++ [42] := by
      simp [recursive, ascii]
    rw [ends, getLast?_concat]
  exact endsBlank_of_last last (by decide)

theorem validPath_below {path : Text} (mount : isMountScopedFileRule path = true)
    (valid : validPath path = true) :
    validPath (normalizePath path ++ slash :: recursive) = true ↔ coversMounts path = false := by
  have single : recursive.splitOn slash = [recursive] := by decide
  rw [validPath_iff, normalizePath_below mount, splitOn_append_cons_self, single,
    patternParts_concat_recursive ((validPath_iff path).mp valid), coversMounts, mount]
  simp

end Paths

section Encoding

variable (lib : Library)

/-- What is known of `utf8.ValidString`: it reads a text piece by piece. -/
structure Encoding : Prop where
  front : ∀ p rest, lib.validString p = true → lib.validString (p ++ rest) = lib.validString rest
  back : ∀ p rest, lib.validString p = true → lib.validString (rest ++ p) = lib.validString rest
  bytes : ∀ text, isASCII text = true → lib.validString text = true
  blanks : ∀ p ∈ spaces, lib.validString p = true

variable {lib}

theorem Encoding.trim (encoding : Encoding lib) {patterns : List Text}
    (known : ∀ p ∈ patterns, lib.validString p = true) (text : Text) :
    lib.validString (trim patterns text) = lib.validString text := by
  have first := @trimStart_preserves _ _ patterns _ lib.validString
    (fun p inside rest => encoding.front p rest (known p inside)) text
  have last := @trimEnd_preserves _ _ patterns _ lib.validString
    (fun p inside rest => encoding.back p rest (known p inside)) (trimStart patterns text)
  exact last.trans first

theorem Encoding.normalizePath (encoding : Encoding lib) {path : Text}
    (valid : lib.validString path = true) : lib.validString (normalizePath path) = true := by
  have bare : lib.validString (trimSlashes (trimSpace path)) = true := by
    rw [trimSlashes, encoding.trim (by simp [encoding.bytes [slash] (by decide)]), trimSpace,
      encoding.trim encoding.blanks, valid]
  unfold Access.normalizePath
  dsimp only
  split
  · exact encoding.bytes _ (by decide)
  split
  · rename_i begins
    obtain ⟨rest, same⟩ := isPrefixOf_iff_prefix.mp begins
    rw [← same] at bare ⊢
    rw [encoding.front _ _ (encoding.bytes _ (by decide))] at bare
    rw [drop_left, encoding.front _ _ (encoding.bytes _ (by decide))]
    exact bare
  · exact bare

end Encoding

section Acceptance

variable {lib : Library}

theorem ruleCapabilities_some {capabilities seen out : List Text}
    (fresh : seen.Nodup) (known : ∀ c ∈ seen, c ∈ validCaps)
    (done : ruleCapabilities lib capabilities seen = some out) :
    out.Nodup ∧ (∀ c ∈ out, c ∈ validCaps) ∧ out.length = seen.length + capabilities.length := by
  induction capabilities generalizing seen with
  | nil =>
    cases done
    exact ⟨fresh, known, rfl⟩
  | cons capability rest ih =>
    rw [ruleCapabilities] at done
    split at done
    · cases done
    rename_i proper
    simp only [Bool.or_eq_true, Bool.not_eq_true', not_or, Bool.not_eq_false,
      contains_iff_mem] at proper
    have other : folded lib capability ∉ seen := by simpa using proper.2
    have longer : (seen ++ [folded lib capability]).Nodup := by
      rw [nodup_append]
      refine ⟨fresh, by simp, fun a inside b last => ?_⟩
      obtain rfl := mem_singleton.mp last
      exact fun same => other (same ▸ inside)
    obtain ⟨distinct, valid, length⟩ := ih longer (by grind) done
    exact ⟨distinct, valid, by simp at length ⊢; omega⟩

theorem compileCaps_total {capabilities seen : List Text}
    (known : ∀ c ∈ capabilities, c ∈ validCaps) (fresh : (seen ++ capabilities).Nodup) :
    compileCaps lib capabilities seen = .ok (seen ++ capabilities) := by
  induction capabilities generalizing seen with
  | nil => simp [compileCaps]
  | cons capability rest ih =>
    have listed := known capability mem_cons_self
    have other : capability ∉ seen := by
      rw [nodup_append] at fresh
      intro inside
      exact fresh.2.2 _ inside _ mem_cons_self rfl
    rw [append_cons] at fresh ⊢
    have proper : ¬ (!validCaps.contains capability || seen.contains capability) = true := by
      simp [listed, other]
    rw [compileCaps, folded_known listed, if_neg proper]
    exact ih (fun c inside => known c (mem_cons_of_mem _ inside)) fresh

structure AcceptedRule (lib : Library) (rule : PolicyRule) : Prop where
  path : validPath rule.path = true
  encoded : lib.validString rule.path = true
  some_capability : rule.capabilities ≠ []
  few : rule.capabilities.length ≤ 9
  distinct : rule.capabilities.Nodup
  known : ∀ c ∈ rule.capabilities, c ∈ validCaps
  visibility : rule.visibility = [] ∨ rule.visibility = ascii "hidden" ∨
    rule.visibility = ascii "visible"
  types : ∀ selector ∈ rule.fileTypes, ∃ matcher, selector.compile lib = .ok matcher

theorem acceptsTypes_spec {typedPolicies : Bool} {rule : PolicyRule}
    (accepts : acceptsTypes lib typedPolicies rule = true) :
    (rule.visibility = [] ∨ rule.visibility = ascii "hidden" ∨ rule.visibility = ascii "visible") ∧
      ∀ selector ∈ rule.fileTypes, ∃ matcher, selector.compile lib = .ok matcher := by
  simp only [acceptsTypes, Bool.and_eq_true] at accepts
  refine ⟨by grind, fun selector typed => ?_⟩
  have compiles := accepts.2
  rw [typed, Option.all_some] at compiles
  cases done : selector.compile lib with
  | error text =>
    rw [done] at compiles
    cases compiles
  | ok matcher => exact ⟨matcher, rfl⟩

theorem normalizeApprovals_some {approvals : Bool} {rule out : PolicyRule}
    (done : normalizeApprovals lib approvals rule = some out) :
    ∃ marks, out = { rule with needsApproval := marks } := by
  unfold normalizeApprovals at done
  split at done
  · cases done
    exact ⟨rule.needsApproval, rfl⟩
  split at done
  · cases done
  dsimp only at done
  split at done
  · cases done
    exact ⟨_, rfl⟩
  · cases done

theorem normalizeRule_some (encoding : Encoding lib) {typedPolicies approvals : Bool}
    {rule out : PolicyRule} (encoded : lib.validString rule.path = true)
    (done : normalizeRule lib typedPolicies approvals rule = some out) : AcceptedRule lib out := by
  unfold normalizeRule at done
  dsimp only at done
  split_ifs at done with types proper
  split at done
  · cases done
  rename_i normalized caps
  split at done
  · cases done
  obtain ⟨marks, rfl⟩ := normalizeApprovals_some done
  obtain ⟨visibility, compiles⟩ := acceptsTypes_spec (by simpa using types)
  obtain ⟨distinct, known, length⟩ := ruleCapabilities_some .nil (by simp) caps
  simp only [Bool.or_eq_true, Bool.not_eq_true', decide_eq_true_eq, not_or,
    Bool.not_eq_false, Bool.not_eq_true, isEmpty_eq_false_iff, not_lt] at proper
  have long := length_pos_iff.mpr proper.1.2
  simp only [length_nil, Nat.zero_add] at length
  constructor
  · simp only [proper.1.1]
  · simp only [encoding.normalizePath encoded]
  · apply length_pos_iff.mp
    simp only
    omega
  · simp only
    omega
  · exact distinct
  · exact known
  · exact visibility
  · exact compiles

/-- The policies that are stored for accepted requests. A request is read from JSON, so the
paths of its rules are in UTF-8. -/
def Accepted (lib : Library) (policy : Policy) : Prop :=
  ∃ value typedPolicies approvals input output, value.length = 12 ∧
    (∀ rule ∈ input.rules, lib.validString rule.path = true) ∧
    normalizePolicyRequest lib typedPolicies approvals input = some output ∧
    policy = createPolicy value output

theorem Accepted.rule (encoding : Encoding lib) {policy : Policy} (accepted : Accepted lib policy)
    {rule : PolicyRule} (known : rule ∈ policy.rules) : AcceptedRule lib rule := by
  obtain ⟨value, typedPolicies, approvals, input, output, _, encoded, done, rfl⟩ := accepted
  unfold normalizePolicyRequest at done
  dsimp only at done
  split at done
  · cases done
  obtain ⟨rules, each, rfl⟩ := Option.map_eq_some_iff.mp done
  obtain ⟨source, there, normal⟩ := mapM_some_mem each known
  exact normalizeRule_some encoding (encoded source there) normal

end Acceptance

section Enforcement

variable {lib : Library}

structure PlainID (lib : Library) (id : Text) : Prop where
  nonempty : id ≠ []
  short : id.length ≤ 128
  encoded : lib.validString id = true
  free : containsAny id [slash, backslash, 0] = false

theorem hexDigit_range {n : UInt8} (small : n < 16) :
    (48 ≤ hexDigit n ∧ hexDigit n ≤ 57) ∨ (97 ≤ hexDigit n ∧ hexDigit n ≤ 102) := by
  unfold hexDigit
  split_ifs <;> grind

theorem hexText_range {value : Text} {b : UInt8} (inside : b ∈ hexText value) :
    (48 ≤ b ∧ b ≤ 57) ∨ (97 ≤ b ∧ b ≤ 102) := by
  obtain ⟨byte, _, digit⟩ := mem_flatMap.mp inside
  simp only [mem_cons, not_mem_nil, or_false] at digit
  rcases digit with rfl | rfl <;> exact hexDigit_range (by grind)

theorem length_hexText (value : Text) : (hexText value).length = 2 * value.length := by
  induction value with
  | nil => rfl
  | cons b rest ih =>
    have split : hexText (b :: rest) = hexDigit (b / 16) :: hexDigit (b % 16) :: hexText rest := rfl
    rw [split, length_cons, length_cons, ih, length_cons]
    omega

theorem randomID_plain (encoding : Encoding lib) {value : Text} (drawn : value.length = 12) :
    PlainID lib (randomID (ascii "pol") value) := by
  have start : randomID (ascii "pol") value = ascii "pol_" ++ hexText value := rfl
  rw [start]
  constructor
  · simp [ascii]
  · have long := length_hexText value
    have four : (ascii "pol_").length = 4 := by decide
    rw [length_append]
    omega
  · rw [encoding.front _ _ (encoding.bytes _ (by decide))]
    apply encoding.bytes
    rw [isASCII, all_eq_true]
    intro b inside
    have range := hexText_range inside
    simp only [decide_eq_true_eq]
    grind
  · rw [containsAny, any_append, Bool.or_eq_false_iff]
    refine ⟨by decide, ?_⟩
    rw [any_eq_false]
    intro b inside
    have range := hexText_range inside
    simp only [contains_iff_mem, mem_cons, not_mem_nil, or_false, slash, backslash]
    grind

theorem AcceptedRule.pattern (encoding : Encoding lib) {rule : PolicyRule}
    (accepted : AcceptedRule lib rule) : validPattern lib (normalizePath rule.path) = true := by
  have valid := accepted.path
  simp only [validPath, Bool.and_eq_true] at valid
  simp only [validPattern, trimSlashes_normalizePath, Bool.and_eq_true]
  exact ⟨⟨⟨valid.1.1, encoding.normalizePath accepted.encoded⟩, valid.1.2⟩, valid.2⟩

theorem AcceptedRule.compiles (encoding : Encoding lib) {rule : PolicyRule} {id : Text}
    (accepted : AcceptedRule lib rule) (plain : PlainID lib id) :
    ∃ c, compileRule lib (contextRule (id, rule)) = .ok c := by
  have valid : validRule lib (contextRule (id, rule)) = true := by
    have nine : validCaps.length = 9 := by decide
    simp [validRule, contextRule, plain.nonempty, plain.short, plain.encoded, plain.free,
      accepted.pattern encoding, accepted.some_capability, nine, accepted.few]
  have visibility : ∃ shown, compileVisibility (contextRule (id, rule)).visibility = .ok shown := by
    rcases accepted.visibility with none | hidden | visible
    · exact ⟨.hidden, if_pos (.inl none)⟩
    · exact ⟨.hidden, if_pos (.inr hidden)⟩
    refine ⟨.visible, ?_⟩
    simp only [contextRule, visible]
    decide
  have caps := @compileCaps_total lib (contextRule (id, rule)).capabilities [] accepted.known
    accepted.distinct
  have matcher : ∃ m, compileMatcher lib (contextRule (id, rule)).fileTypes = .ok m := by
    cases types : rule.fileTypes with
    | none => exact ⟨none, by simp [contextRule, types, compileMatcher]⟩
    | some selector =>
      obtain ⟨m, done⟩ := accepted.types selector types
      exact ⟨some m, by simp [contextRule, types, compileMatcher, done, Except.map]⟩
  obtain ⟨shown, visibility⟩ := visibility
  obtain ⟨m, matcher⟩ := matcher
  rw [compileRule, valid]
  simp only [Bool.true_eq_false, if_false]
  exact ⟨_, bind_ok_iff.mpr ⟨shown, visibility, bind_ok_iff.mpr ⟨_, caps,
    bind_ok_iff.mpr ⟨m, matcher, rfl⟩⟩⟩⟩

theorem AcceptedRule.below (encoding : Encoding lib) {rule : PolicyRule}
    (accepted : AcceptedRule lib rule) (mount : isMountScopedFileRule rule.path = true)
    (one : coversMounts rule.path = false) :
    AcceptedRule lib { rule with path := normalizePath rule.path ++ slash :: recursive } := by
  refine { accepted with path := (validPath_below mount accepted.path).mpr one, encoded := ?_ }
  rw [encoding.back _ _ (encoding.bytes _ (by decide))]
  exact encoding.normalizePath accepted.encoded

theorem mem_expanded {policies : List Policy} {id : Text} {written : PolicyRule} :
    (id, written) ∈ policyRules (expandCompatibilityRules policies) ↔
      ∃ policy ∈ policies, ∃ rule ∈ policy.rules, id = policy.id ∧ written ∈ expandRule rule := by
  simp only [policyRules, expandCompatibilityRules, mem_flatMap, mem_map, Prod.mk.injEq]
  grind

theorem below_mem_expandRule {rule : PolicyRule} (mount : isMountScopedFileRule rule.path = true) :
    { rule with path := normalizePath rule.path ++ slash :: recursive } ∈ expandRule rule := by
  rw [expandRule, if_pos mount]
  exact mem_cons_of_mem _ mem_cons_self

theorem narrowRules_total {scope : Text} {rules : List (Text × PolicyRule)} {kept : List Rule}
    (valid : ∀ r ∈ rules, validPath r.2.path = true)
    (few : kept.length + (rules.filter fun r => ruleTouchesScope r.2.path scope).length ≤
      maxContextRules) :
    narrowRules scope rules kept =
      .ok (kept ++ (rules.filter fun r => ruleTouchesScope r.2.path scope).map contextRule) := by
  induction rules generalizing kept with
  | nil => simp [narrowRules]
  | cons r rest ih =>
    obtain ⟨first, later⟩ := forall_mem_cons.mp valid
    rw [narrowRules, first]
    cases touches : ruleTouchesScope r.2.path scope with
    | false =>
      rw [filter_cons_of_neg (by simp [touches])] at few ⊢
      simpa using ih later few
    | true =>
      rw [filter_cons_of_pos (by simp [touches])] at few ⊢
      rw [length_cons] at few
      have room : ¬ kept.length = maxContextRules := by omega
      have enough : (kept ++ [contextRule r]).length +
          (rest.filter fun r => ruleTouchesScope r.2.path scope).length ≤ maxContextRules := by
        rw [length_append, length_singleton]
        omega
      have done := ih later enough
      simp only [Bool.true_eq_false, if_false, room, map_cons]
      rw [done, append_assoc, singleton_append]

def touchingRules (policies : List Policy) (scope : Text) : List Rule :=
  ((policyRules (expandCompatibilityRules policies)).filter fun r =>
    ruleTouchesScope r.2.path scope).map contextRule

def concreteMount (scope : Text) : Bool :=
  isMountScoped ((normalizePath scope).splitOn slash) && validResourcePath (normalizePath scope)

/-- Every rule that is written out has a valid path, and there is a context for every mount
whose rules are not too many or too long. -/
def Enforceable (lib : Library) (policies : List Policy) : Prop :=
  (∀ r ∈ policyRules (expandCompatibilityRules policies), validPath r.2.path = true) ∧
    ∀ scope, concreteMount scope = true →
      (∃ context, buildMountAccessContext lib policies scope = .ok context) ∨
        maxContextRules < (touchingRules policies (normalizePath scope)).length ∨
        maxContextBytes < Context.encodedLength lib ⟨1, touchingRules policies (normalizePath scope)⟩

theorem expanded_accepted (encoding : Encoding lib) {policies : List Policy}
    (accepted : ∀ policy ∈ policies, Accepted lib policy)
    (single : ∀ r ∈ policyRules policies, coversMounts r.2.path = false) {r : Text × PolicyRule}
    (known : r ∈ policyRules (expandCompatibilityRules policies)) :
    AcceptedRule lib r.2 ∧ PlainID lib r.1 := by
  obtain ⟨id, written⟩ := r
  obtain ⟨policy, listed, rule, inside, rfl, written⟩ := mem_expanded.mp known
  have whole := (accepted policy listed).rule encoding inside
  have one : coversMounts rule.path = false := by
    refine single (policy.id, rule) ?_
    simp only [policyRules, mem_flatMap, mem_map]
    exact ⟨policy, listed, rule, inside, rfl⟩
  constructor
  · unfold expandRule at written
    split at written
    · rename_i mount
      simp only [mem_cons, not_mem_nil, or_false] at written
      rcases written with same | same
      · exact same ▸ whole
      · exact same ▸ whole.below encoding mount one
    · rw [mem_singleton.mp written]
      exact whole
  · obtain ⟨value, _, _, _, _, drawn, _, _, rfl⟩ := accepted policy listed
    exact randomID_plain encoding drawn

theorem buildMountAccessContext_total {policies : List Policy} {scope : Text}
    (mount : concreteMount scope = true)
    (valid : ∀ r ∈ policyRules (expandCompatibilityRules policies), validPath r.2.path = true)
    (compiles : ∀ r ∈ policyRules (expandCompatibilityRules policies),
      ∃ c, compileRule lib (contextRule r) = .ok c)
    (few : (touchingRules policies (normalizePath scope)).length ≤ maxContextRules)
    (short : Context.encodedLength lib ⟨1, touchingRules policies (normalizePath scope)⟩ ≤
      maxContextBytes) :
    buildMountAccessContext lib policies scope =
      .ok ⟨1, touchingRules policies (normalizePath scope)⟩ := by
  have narrowed := @narrowRules_total (normalizePath scope) _ [] valid
    (by simpa [touchingRules] using few)
  obtain ⟨out, results, _⟩ := @mapM_ok _ _ _ (compileRule lib)
    (touchingRules policies (normalizePath scope)) (fun rule inside => by
      obtain ⟨r, there, rfl⟩ := mem_map.mp inside
      exact compiles r (mem_filter.mp there).1)
  have compiled : Context.compile lib ⟨1, touchingRules policies (normalizePath scope)⟩ =
      .ok ⟨out⟩ := compile_ok_iff.mpr ⟨rfl, few, short, mapM_ok_iff.mp results⟩
  simp only [concreteMount, Bool.and_eq_true] at mount
  rw [nil_append] at narrowed
  unfold buildMountAccessContext
  simp only [mount, Bool.not_true, Bool.or_self, Bool.false_eq_true, if_false]
  rw [narrowed]
  simp only [touchingRules] at compiled
  simp only [compiled, touchingRules]

/-- Accepted policies can be enforced exactly when none of their rules is for all mounts of a
node in the five parts of one mount. -/
theorem accepted_policies_enforceable_iff (encoding : Encoding lib) {policies : List Policy}
    (accepted : ∀ policy ∈ policies, Accepted lib policy) :
    Enforceable lib policies ↔ ∀ r ∈ policyRules policies, coversMounts r.2.path = false := by
  constructor
  · intro enforceable r known
    simp only [policyRules, mem_flatMap, mem_map] at known
    obtain ⟨policy, listed, rule, inside, rfl⟩ := known
    cases mount : isMountScopedFileRule rule.path with
    | false => simp [coversMounts, mount]
    | true =>
      -- the rule for the mount is also written out for what is in it
      have written := mem_expanded.mpr ⟨policy, listed, rule, inside, rfl, below_mem_expandRule mount⟩
      have whole := (accepted policy listed).rule encoding inside
      have valid := enforceable.1 _ written
      dsimp only at valid ⊢
      rw [validPath_below mount whole.path] at valid
      exact valid
  · intro single
    have each := fun {r} => @expanded_accepted lib encoding policies accepted single r
    have valid : ∀ r ∈ policyRules (expandCompatibilityRules policies),
        validPath r.2.path = true := fun r known => (each known).1.path
    refine ⟨valid, fun scope mount => ?_⟩
    by_cases few : (touchingRules policies (normalizePath scope)).length ≤ maxContextRules
    · by_cases short : Context.encodedLength lib
          ⟨1, touchingRules policies (normalizePath scope)⟩ ≤ maxContextBytes
      · exact .inl ⟨_, buildMountAccessContext_total mount valid
          (fun r known => (each known).1.compiles encoding (each known).2) few short⟩
      · exact .inr (.inr (by omega))
    · exact .inr (.inl (by omega))

end Enforcement

section Sample

def openLibrary : Library := { sampleLibrary with validString := fun _ => true }

theorem openLibrary_encoding : Encoding openLibrary := by
  constructor <;> intros <;> rfl

def ruleRequest (path : String) : PolicyRequest :=
  { name := ascii "readers", description := [], rules := [
      { path := ascii path, capabilities := [ascii "Read", ascii "list"], fileTypes := none
        visibility := [], needsApproval := [] }] }

def rulePolicy (path : String) : Policy :=
  createPolicy (List.replicate 12 0)
    ((normalizePolicyRequest openLibrary false false (ruleRequest path)).getD (ruleRequest path))

theorem rulePolicy_accepted {path : String}
    (fine : (normalizePolicyRequest openLibrary false false (ruleRequest path)).isSome = true) :
    ∀ policy ∈ [rulePolicy path], Accepted openLibrary policy := by
  intro policy listed
  obtain rfl := mem_singleton.mp listed
  obtain ⟨output, done⟩ := Option.isSome_iff_exists.mp fine
  exact ⟨List.replicate 12 0, false, false, ruleRequest path, output, rfl, fun _ _ => rfl, done,
    by rw [rulePolicy, done, Option.getD_some]⟩

theorem mount_policy_enforceable :
    Enforceable openLibrary [rulePolicy " /workers/n/files/mounts/m/"] :=
  (accepted_policies_enforceable_iff openLibrary_encoding
    (rulePolicy_accepted (by decide +kernel))).mpr (by decide +kernel)

/-- A rule for all mounts of all nodes is accepted, and then no mount has a context. -/
theorem all_mounts_policy_unenforceable :
    (∀ policy ∈ [rulePolicy "nodes/*/files/mounts/**"], Accepted openLibrary policy) ∧
      (policyRules (expandCompatibilityRules [rulePolicy "nodes/*/files/mounts/**"])).map
        (fun r => (r.2.path, validPath r.2.path)) =
          [(ascii "nodes/*/files/mounts/**", true), (ascii "nodes/*/files/mounts/**/**", false)] ∧
      buildMountAccessContext openLibrary [rulePolicy "nodes/*/files/mounts/**"]
        (mountScope (ascii "n") (ascii "m")) = .error "invalid policy rule path" ∧
      ¬ Enforceable openLibrary [rulePolicy "nodes/*/files/mounts/**"] := by
  refine ⟨rulePolicy_accepted (by decide +kernel), by decide +kernel, by decide +kernel, ?_⟩
  intro enforceable
  have invalid : ¬ ∀ r ∈ policyRules (expandCompatibilityRules
    [rulePolicy "nodes/*/files/mounts/**"]), validPath r.2.path = true := by decide +kernel
  exact invalid enforceable.1

end Sample

end Jolt.Access
