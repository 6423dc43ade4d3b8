import Jolt.Access.Policies

/-! The context control sends for one mount: the rules of the policies that can match the
mount or something in it, with the rules for whole mounts written out for everything below.
A node decides with it as control decides with all its policies. -/
namespace Jolt.Access
open Jolt.Base List

section Model

def denyReachesScope (ruleParts scopeParts : List Text) : Bool :=
  let isRecursive := ruleParts.getLast? == some recursive
  let fixed := if isRecursive then ruleParts.dropLast else ruleParts
  ((fixed.zip scopeParts).all fun (rule, scope) => rule == star || scope == star || rule == scope) &&
    (decide (scopeParts.length ≤ fixed.length) || isRecursive)

def ruleTouchesScope (rulePath scope : Text) : Bool :=
  if !validPath rulePath || !validResourcePath scope then true
  else
    denyReachesScope ((normalizePath rulePath).splitOn slash) ((normalizePath scope).splitOn slash)

def isMountScoped (segments : List Text) : Bool :=
  segments.length == 5 && segments[0]? == some (ascii "nodes") &&
    segments[2]? == some (ascii "files") && segments[3]? == some (ascii "mounts")

def isMountScopedFileRule (path : Text) : Bool := isMountScoped ((normalizePath path).splitOn slash)

def expandRule (rule : PolicyRule) : List PolicyRule :=
  if isMountScopedFileRule rule.path then
    [rule, { rule with path := normalizePath rule.path ++ slash :: recursive }]
  else [rule]

def expandCompatibilityRules (policies : List Policy) : List Policy :=
  policies.map fun policy => { policy with rules := policy.rules.flatMap expandRule }

def narrowRules (scope : Text) : List (Text × PolicyRule) → List Rule → Except String (List Rule)
  | [], kept => .ok kept
  | r :: rest, kept =>
    if validPath r.2.path = false then .error "invalid policy rule path"
    else if ruleTouchesScope r.2.path scope = false then narrowRules scope rest kept
    else if kept.length = maxContextRules then .error "authorization context has too many rules"
    else narrowRules scope rest (kept ++ [contextRule r])

def buildMountAccessContext (lib : Library) (policies : List Policy) (mountScope : Text) :
    Except String Context :=
  let scope := normalizePath mountScope
  if !isMountScoped (scope.splitOn slash) || !validResourcePath scope then
    .error "invalid mount authorization scope"
  else
    match narrowRules scope (policyRules (expandCompatibilityRules policies)) [] with
    | .error text => .error text
    | .ok rules =>
      match Context.compile lib ⟨1, rules⟩ with
      | .error text => .error text
      | .ok _ => .ok ⟨1, rules⟩

def validID (id : Text) : Bool :=
  let letter (b : UInt8) : Bool := (65 ≤ b && b ≤ 90) || (97 ≤ b && b ≤ 122) || (48 ≤ b && b ≤ 57)
  id.length ≤ 128 && (id.head?.any letter) && id.all fun b => letter b || (ascii "_.-").contains b

end Model

section Narrowing

theorem narrowRules_ok {scope : Text} {rules : List (Text × PolicyRule)} {kept out : List Rule}
    (done : narrowRules scope rules kept = .ok out) :
    (∀ r ∈ rules, validPath r.2.path = true) ∧
      out = kept ++ (rules.filter fun r => ruleTouchesScope r.2.path scope).map contextRule := by
  induction rules generalizing kept with
  | nil => simpa [narrowRules] using done.symm
  | cons r rules ih =>
    rw [narrowRules] at done
    split at done
    · cases done
    rename_i valid
    split at done
    · rename_i apart
      obtain ⟨others, same⟩ := ih done
      simp only [Bool.not_eq_false] at valid
      exact ⟨forall_mem_cons.mpr ⟨valid, others⟩, by simp [same, apart]⟩
    · rename_i touches
      split at done
      · cases done
      obtain ⟨others, same⟩ := ih done
      simp only [Bool.not_eq_false] at valid touches
      exact ⟨forall_mem_cons.mpr ⟨valid, others⟩, by simp [same, touches]⟩

structure BuiltFor (lib : Library) (policies : List Policy) (scope : Text) (context : Context) :
    Prop where
  mount : validResourcePath scope = true
  valid : ∀ r ∈ policyRules (expandCompatibilityRules policies), validPath r.2.path = true
  rules : context.rules = ((policyRules (expandCompatibilityRules policies)).filter fun r =>
    ruleTouchesScope r.2.path scope).map contextRule
  compiles : ∃ filter, context.compile lib = .ok filter

theorem buildMountAccessContext_ok {lib : Library} {policies : List Policy} {mountScope : Text}
    {context : Context} (built : buildMountAccessContext lib policies mountScope = .ok context) :
    BuiltFor lib policies (normalizePath mountScope) context := by
  unfold buildMountAccessContext at built
  dsimp only at built
  split at built
  · cases built
  rename_i mount
  split at built
  · cases built
  rename_i rules narrowed
  split at built
  · cases built
  rename_i filter compiled
  obtain ⟨valid, same⟩ := narrowRules_ok narrowed
  cases built
  exact ⟨by grind, valid, by simpa using same, filter, compiled⟩

end Narrowing

section Matching

theorem slash_proper : [] ∉ ([[slash]] : List Text) := by decide

theorem slash_separate : Separate ([[slash]] : List Text) := by
  unfold Separate
  decide

theorem endsSlash_iff {text : Text} : [slash] <:+ text ↔ text.getLast? = some slash := by
  rw [getLast?_eq_some_iff]
  exact ⟨fun ⟨before, same⟩ => ⟨before, same.symm⟩, fun ⟨before, same⟩ => ⟨before, same.symm⟩⟩

theorem trimSlashes_eq_self_iff {text : Text} :
    trimSlashes text = text ↔ ¬ [slash] <+: text ∧ ¬ [slash] <:+ text := by
  constructor
  · intro same
    have front := trimStart_free slash_proper (trimEnd [[slash]] text)
    rw [trimStart_trimEnd slash_proper slash_separate] at front
    have back := trimEnd_free slash_proper (trimStart [[slash]] text)
    change trim [[slash]] text = text at same
    rw [trim] at same
    rw [same] at front back
    exact ⟨front _ (by simp), back _ (by simp)⟩
  · rintro ⟨front, back⟩
    have first : trimStart [[slash]] text = text := (trimStart_eq_self_iff slash_proper).mpr (by simpa)
    rw [trimSlashes, trim, first]
    exact (trimEnd_eq_self_iff slash_proper).mpr (by simpa)

theorem trimSlashes_trimSlashes (text : Text) : trimSlashes (trimSlashes text) = trimSlashes text := by
  rw [trimSlashes_eq_self_iff]
  have front := trimStart_free slash_proper (trimEnd [[slash]] text)
  rw [trimStart_trimEnd slash_proper slash_separate] at front
  exact ⟨front _ (by simp), trimEnd_free slash_proper (trimStart [[slash]] text) _ (by simp)⟩

theorem trimSlashes_normalizePath (value : Text) :
    trimSlashes (normalizePath value) = normalizePath value := by
  have bare := trimSlashes_trimSlashes (trimSpace value)
  unfold normalizePath
  dsimp only
  split
  · decide
  split
  · rename_i begins
    obtain ⟨rest, same⟩ := isPrefixOf_iff_prefix.mp begins
    rw [trimSlashes_eq_self_iff, ← same] at bare
    rw [← same, drop_left, trimSlashes_eq_self_iff]
    constructor
    · intro front
      exact absurd (cons_prefix_cons.mp front).1 (by decide)
    have ends : (ascii "nodes/" ++ rest).getLast? = (ascii "workers/" ++ rest).getLast? := by
      rw [getLast?_append, getLast?_append]
      rfl
    rw [endsSlash_iff, ends, ← endsSlash_iff]
    exact bare.2
  · exact bare

theorem matchPath_normalizePath {pattern path : Text} (normal : normalizePath path = path) :
    matchPath (normalizePath pattern) path = matchRule pattern path := by
  have bare : trimSlashes path = path := normal ▸ trimSlashes_normalizePath path
  rw [matchPath, matchRule, trimSlashes_normalizePath, bare, normal]

def AtOrBelow (scope path : Text) : Prop := path = scope ∨ scope ++ [slash] <+: path

theorem AtOrBelow.parts {scope path : Text} (below : AtOrBelow scope path) :
    scope.splitOn slash <+: path.splitOn slash := by
  rcases below with rfl | ⟨rest, rfl⟩
  · exact prefix_refl _
  · rw [append_assoc, singleton_append, splitOn_append_cons_self]
    exact prefix_append _ _

theorem scoreParts_agree {parts scope rest : List Text}
    (matched : (scoreParts parts (scope ++ rest)).isSome) :
    (parts.zip scope).all
      (fun (part, name) => part == star || name == star || part == name) = true := by
  induction parts generalizing scope with
  | nil => rfl
  | cons part parts ih =>
    cases scope with
    | nil => rfl
    | cons name scope =>
      rw [cons_append, scoreParts] at matched
      split at matched
      · rename_i wild
        simpa [wild] using ih matched
      split at matched
      · rename_i same
        simpa [same] using ih (by simpa using matched)
      · cases matched

theorem reaches_of_match {parts scope target : List Text} (within : scope <+: target)
    (matched : (matchParts parts target).isSome) : denyReachesScope parts scope = true := by
  obtain ⟨rest, rfl⟩ := within
  unfold matchParts at matched
  unfold denyReachesScope
  split at matched
  · rename_i wide
    split at matched
    · cases matched
    · simp [wide, scoreParts_agree matched]
  · rename_i closed
    split at matched
    · cases matched
    rename_i long
    rw [length_append] at long
    have deep : scope.length ≤ parts.length := by omega
    have agrees := scoreParts_agree (by simpa using matched)
    simp [closed, deep, agrees]

theorem touches_of_match {rulePath scope path : Text} (mount : normalizePath scope = scope)
    (normal : normalizePath path = path) (below : AtOrBelow scope path)
    (matched : (matchRule rulePath path).isSome) : ruleTouchesScope rulePath scope = true := by
  unfold ruleTouchesScope
  split
  · rfl
  rw [matchRule, normal] at matched
  rw [mount]
  exact reaches_of_match below.parts matched

end Matching

section Mounts

theorem endsBlank_of_last {text : Text} {b : UInt8} (last : text.getLast? = some b)
    (firm : ∀ p ∈ spaces ++ [[slash]], p.getLast? ≠ some b) : endsBlank text = false := by
  rw [endsBlank, any_eq_false]
  intro p known ends
  obtain ⟨before, rfl⟩ := isSuffixOf_iff_suffix.mp ends
  have letters : p ≠ [] := fun empty => absurd (empty ▸ known) (by decide)
  rw [getLast?_append_of_ne_nil _ letters] at last
  exact firm p known last

theorem normalizePath_mountScope {nodeID mountID : Text} (mount : validID mountID = true) :
    normalizePath (mountScope nodeID mountID) = mountScope nodeID mountID := by
  obtain ⟨rest, start⟩ : ∃ rest, mountScope nodeID mountID = 110 :: rest := ⟨_, rfl⟩
  rw [start, normalizePath_eq, trimEnd_twice_iff, ← start]
  unfold validID at mount
  simp only [Bool.and_eq_true, all_eq_true] at mount
  obtain ⟨⟨_, first⟩, each⟩ := mount
  have nonempty : mountID ≠ [] := fun empty => by simp [empty] at first
  have last : (mountScope nodeID mountID).getLast? = some (mountID.getLast nonempty) := by
    rw [mountScope, getLast?_append_of_ne_nil _ nonempty, getLast?_eq_getLast_of_ne_nil]
  refine endsBlank_of_last last fun p known same => ?_
  have blank : (spaces ++ [[slash]]).all (fun p => p.getLast?.all fun b =>
      !((65 ≤ b && b ≤ 90) || (97 ≤ b && b ≤ 122) || (48 ≤ b && b ≤ 57) ||
        (ascii "_.-").contains b)) = true := by decide
  have firm := all_eq_true.mp blank p known
  rw [same, Option.all_some, each _ (getLast_mem nonempty)] at firm
  cases firm

end Mounts

section Agreement

variable {lib : Library} {path capability : Text} {entry : EntryType}

theorem contextRule_silent {r : Text × PolicyRule} (normal : normalizePath path = path)
    (unmatched : (matchRule r.2.path path).isSome = false) :
    (contextRule r).effect lib path capability entry = .silent := by
  unfold Rule.effect
  split
  · rename_i c compiled
    have apart : (matchPath c.path path).isSome = false := by
      rw [(compileRule_ok compiled).path, contextRule, matchPath_normalizePath normal, unmatched]
    simp [CompiledRule.effect, CompiledRule.speaks, apart]
  · rfl

theorem contextRule_untyped {r : Text × PolicyRule} (normal : normalizePath path = path)
    {c : CompiledRule} (compiled : compileRule lib (contextRule r) = .ok c)
    (untyped : r.2.fileTypes = none) :
    (contextRule r).effect lib path capability entry = pathEffect lib path capability r := by
  have source := compileRule_ok compiled
  have caps : c.caps = capabilitySet lib r.2.capabilities := source.caps
  have matcher : c.matcher = none := by
    rcases source.matcher_cases with ⟨_, none⟩ | ⟨selector, _, typed, _⟩
    · exact none
    · rw [contextRule, untyped] at typed
      cases typed
  have same : matchPath c.path path = matchRule r.2.path path := by
    rw [source.path, contextRule, matchPath_normalizePath normal]
  unfold Rule.effect pathEffect CompiledRule.effect
  rw [compiled]
  simp only [CompiledRule.speaks, CompiledRule.matchesType, CompiledRule.refuses,
    CompiledRule.allows, same, matcher, caps, untyped]
  cases matchRule r.2.path path with
  | none => simp
  | some specificity => grind

theorem Filter.evaluate_allowed_and_not_denied (f : Filter) :
    ((f.evaluate lib path capability entry).allowed &&
      !(f.evaluate lib path capability entry).denied) =
        (f.evaluate lib path capability entry).allowed := by
  unfold Filter.evaluate
  dsimp only
  split
  · rfl
  · simp

theorem folded_known (known : capability ∈ validCaps) : folded lib capability = capability := by
  simp only [validCaps, map_cons, map_nil, mem_cons, not_mem_nil, or_false] at known
  rcases known with rfl | rfl | rfl | rfl | rfl | rfl | rfl | rfl | rfl <;> rfl

section Built

variable {policies : List Policy} {scope : Text} {context : Context}

section

variable (built : BuiltFor lib policies scope context) (mount : normalizePath scope = scope)
  (normal : normalizePath path = path) (below : AtOrBelow scope path)
include built mount normal below

theorem BuiltFor.permits_all :
    permits (Rule.effect lib path capability entry) context.rules =
      permits (fun r => (contextRule r).effect lib path capability entry)
        (policyRules (expandCompatibilityRules policies)) := by
  rw [built.rules, permits_map]
  refine permits_filter fun r _ apart => contextRule_silent normal ?_
  cases matched : (matchRule r.2.path path).isSome with
  | false => rfl
  | true => exact absurd (touches_of_match mount normal below matched) (by simp [apart])

theorem BuiltFor.mem_rules {r : Text × PolicyRule}
    (known : r ∈ policyRules (expandCompatibilityRules policies))
    (matched : (matchRule r.2.path path).isSome = true) : contextRule r ∈ context.rules := by
  rw [built.rules]
  exact mem_map_of_mem
    (mem_filter.mpr ⟨known, touches_of_match mount normal below matched⟩)

theorem BuiltFor.untyped (untyped : hasTypedRules (expandCompatibilityRules policies) path = false)
    :
    permits (pathEffect lib path capability) (policyRules (expandCompatibilityRules policies)) =
      permits (fun r => (contextRule r).effect lib path capability entry)
        (policyRules (expandCompatibilityRules policies)) := by
  obtain ⟨filter, compiled⟩ := built.compiles
  refine permits_congr fun r known => ?_
  cases matched : (matchRule r.2.path path).isSome with
  | false =>
    have apart : matchRule r.2.path path = none := by simpa using matched
    rw [contextRule_silent normal matched, pathEffect]
    simp [apart]
  | true =>
    obtain ⟨c, ok⟩ := compileRule_of_mem compiled (built.mem_rules mount normal below known matched)
    have plain : r.2.fileTypes = none := by
      simp only [hasTypedRules, normal, any_eq_false] at untyped
      have bare : r.2.fileTypes = none ∧ r.2.visibility = [] := by
        simpa [matched] using untyped r known
      exact bare.1
    exact (contextRule_untyped normal ok plain).symm

theorem BuiltFor.compileTyped (resource : validResourcePath path = true) :
    ∃ filter rules, compileTyped lib (expandCompatibilityRules policies) path = some filter ∧
      Context.compile lib ⟨1, rules⟩ = .ok filter ∧
      rules = ((policyRules (expandCompatibilityRules policies)).filter fun r =>
        (matchRule r.2.path path).isSome).map contextRule := by
  obtain ⟨whole, compiled⟩ := built.compiles
  have part : (((policyRules (expandCompatibilityRules policies)).filter fun r =>
      (matchRule r.2.path path).isSome).map contextRule).Sublist context.rules := by
    rw [built.rules]
    refine List.Sublist.map _ (monotone_filter_right _ fun r matched => ?_)
    exact touches_of_match mount normal below matched
  obtain ⟨filter, done⟩ := compile_subperm compiled part.subperm
  refine ⟨filter, _, ?_, done, rfl⟩
  have valid : (((policyRules (expandCompatibilityRules policies)).filter fun r =>
      (matchRule r.2.path path).isSome).any fun r => !validPath r.2.path) = false := by
    rw [any_eq_false]
    intro r known
    simp [built.valid r (mem_filter.mp known).1]
  simp [Access.compileTyped, valid, done, resource]

end

end Built

/-- A node decides with the context of a mount as control does with all policies. -/
theorem control_and_node_decide_alike (lib : Library) (policies : List Policy)
    {nodeID mountID path capability : Text} {entry : EntryType} {context : Context}
    (mount : validID mountID = true)
    (built : buildMountAccessContext lib policies (mountScope nodeID mountID) = .ok context)
    (encoded : lib.validString path = true) (below : AtOrBelow (mountScope nodeID mountID) path)
    (resource : validResourcePath path = true) (normal : normalizePath path = path)
    (known : capability ∈ validCaps) (proper : capability ≠ deny) (kind : entry ≠ .other) :
    ∃ filter, context.compile lib = .ok filter ∧
      (evaluateEntry lib (expandCompatibilityRules policies) path capability entry).allowed =
        (filter.evaluate lib path capability entry).allowed := by
  have scope : normalizePath (mountScope nodeID mountID) = mountScope nodeID mountID :=
    normalizePath_mountScope mount
  have made := buildMountAccessContext_ok built
  rw [scope] at made
  obtain ⟨filter, compiled⟩ := made.compiles
  refine ⟨filter, compiled, ?_⟩
  have bare : trimSlashes path = path := normal ▸ trimSlashes_normalizePath path
  have asked : answerable lib path (folded lib capability) entry = true := by
    have valid : validResource lib path = true := by
      unfold validResourcePath at resource
      rw [normal] at resource
      unfold validResource
      rw [bare]
      grind
    rw [folded_known known]
    simp [answerable, valid, known, proper, kind]
  have node := (compile_allowed compiled asked).trans (made.permits_all scope normal below)
  rw [node]
  unfold evaluateEntry
  dsimp only
  rw [normal]
  split
  · rename_i untyped
    rw [← made.untyped scope normal below untyped]
    exact (evaluate_allowed _ _ _).trans (by rw [normal])
  · obtain ⟨typed, rules, found, done, rfl⟩ := made.compileTyped scope normal below resource
    rw [found]
    dsimp only
    rw [Filter.evaluate_allowed_and_not_denied, compile_allowed done asked, permits_map]
    exact permits_filter fun r _ unmatched => contextRule_silent normal unmatched

/-- Everything in the mount may be listed and read, pictures only in one directory. -/
def samplePolicies : List Policy :=
  [{ id := ascii "p", rules := [
      { path := ascii "nodes/n/files/mounts/m"
        capabilities := [ascii "list", ascii "Read"]
        fileTypes := none, visibility := [], needsApproval := [] },
      { path := ascii "nodes/n/files/mounts/m/docs/**"
        capabilities := [ascii "deny"]
        fileTypes := some ⟨[ascii "image"], [], []⟩
        visibility := ascii "visible", needsApproval := [] },
      { path := ascii "nodes/other/**"
        capabilities := [ascii "sudo"]
        fileTypes := none, visibility := [], needsApproval := [] }] }]

def sampleContext : Context :=
  { version := 1
    rules := [
      ⟨ascii "p", ascii "nodes/n/files/mounts/m", [ascii "list", ascii "Read"], none, []⟩,
      ⟨ascii "p", ascii "nodes/n/files/mounts/m/**", [ascii "list", ascii "Read"], none, []⟩,
      ⟨ascii "p", ascii "nodes/n/files/mounts/m/docs/**", [ascii "deny"],
        some ⟨[ascii "image"], [], []⟩, ascii "visible"⟩] }

theorem sample_decided_alike : ∃ filter, sampleContext.compile sampleLibrary = .ok filter ∧
    (evaluateEntry sampleLibrary (expandCompatibilityRules samplePolicies)
        (ascii "nodes/n/files/mounts/m/docs/a.PNG") (ascii "read") .file).allowed =
      (filter.evaluate sampleLibrary (ascii "nodes/n/files/mounts/m/docs/a.PNG") (ascii "read")
        .file).allowed :=
  control_and_node_decide_alike sampleLibrary samplePolicies (by decide)
    (by decide +kernel : buildMountAccessContext sampleLibrary samplePolicies
      (mountScope (ascii "n") (ascii "m")) = .ok sampleContext)
    (by decide) (.inr (by decide)) (by decide) (by decide) (by decide) (by decide) (by decide)

example : (evaluateEntry sampleLibrary (expandCompatibilityRules samplePolicies)
    (ascii "nodes/n/files/mounts/m/docs/a.PNG") (ascii "read") .file).allowed = false := by
  decide +kernel

end Agreement

end Jolt.Access
