import Jolt.Access.Contexts
import Jolt.Access.EntryFilter

/-! The capability ceiling of an agent's credential. Control takes the capabilities above it
out of the rules that allow something, and whole rules with nothing left, before it builds
the context of a mount. A rule for some types of files also hides the other types, so that
a rule that goes can make an entry visible. -/
namespace Jolt.Access
open Jolt.Base List

section Model

variable (lib : Library)

/-- `strings.EqualFold` -/
def Library.sameFold (s t : Text) : Bool :=
  if isASCII s && isASCII t then s.map lowerByte == t.map lowerByte else lib.equalFold s t

def normalizeCapabilities : List Text → List Text → Except String (List Text)
  | [], seen => .ok seen
  | raw :: rest, seen =>
    let capability := folded lib raw
    if capability ≠ ascii "read" ∧ capability ≠ ascii "list" ∨ capability ∈ seen then
      .error "invalid agent capability ceiling"
    else normalizeCapabilities rest (seen ++ [capability])

/-- What a credential may use at most; one that says nothing may read and list. -/
def ceilingOf : Option (List Text) → Except String (List Text)
  | none => .ok [ascii "read", ascii "list"]
  | some capabilities => normalizeCapabilities lib capabilities []

def isDeny (rule : PolicyRule) : Bool :=
  rule.capabilities.any fun item => lib.sameFold (trimSpace item) deny

def capRule (allowed : List Text) (rule : PolicyRule) : Option PolicyRule :=
  if isDeny lib rule then some rule
  else
    let caps := (rule.capabilities.map (folded lib)).filter allowed.contains
    if caps = [] then none else some { rule with capabilities := caps }

def underCeiling (allowed : List Text) (policies : List Policy) : List Policy :=
  policies.map fun policy => { policy with rules := policy.rules.filterMap (capRule lib allowed) }

end Model

section Readings

variable (lib : Library) (resource capability : Text) (entry : EntryType)
variable {c : CompiledRule} {rule : Rule}

def Selector.matchesName (s : Selector) (name : Text) : Bool :=
  match s.compile lib with
  | .ok matcher => matcher.matchesName lib name
  | .error _ => false

def Rule.covers (rule : Rule) : Bool := (matchPath rule.path resource).isSome

def Rule.fits (rule : Rule) : Bool :=
  match rule.fileTypes with
  | none => true
  | some selector => entry == .directory || selector.matchesName lib (pathBase resource)

def Rule.offers (rule : Rule) : Bool :=
  let caps := rule.capabilities.map (folded lib)
  !caps.contains deny && grants caps capability

def Rule.denies (rule : Rule) : Bool :=
  let caps := rule.capabilities.map (folded lib)
  let typed := rule.fileTypes.isSome
  rule.covers resource && rule.fits lib resource entry && caps.contains deny &&
    !(typed && entry == .directory) && (!typed || caps.length == 1 || grants caps capability)

def Rule.passesOver (rule : Rule) : Bool :=
  rule.covers resource && rule.offers lib capability && !rule.fits lib resource entry

def Rule.opens (rule : Rule) : Bool :=
  rule.covers resource && rule.offers lib capability && rule.fits lib resource entry

def Rule.hides (rule : Rule) : Bool := rule.visibility != ascii "visible"

variable {lib resource capability entry}

section

variable (source : CompiledFrom lib rule c)
include source

theorem CompiledFrom.matchesType :
    c.matchesType lib resource entry = rule.fits lib resource entry := by
  unfold CompiledRule.matchesType Rule.fits
  rcases source.matcher_cases with ⟨bare, none⟩ | ⟨selector, matcher, typed, compiled, some⟩
  · rw [bare, none]
  · simp only [typed, some, Selector.matchesName, compiled]

theorem CompiledFrom.typed :
    c.matcher.isSome = rule.fileTypes.isSome := by
  rcases source.matcher_cases with ⟨bare, none⟩ | ⟨selector, matcher, typed, _, some⟩
  · rw [bare, none]
    rfl
  · rw [typed, some]
    rfl

theorem CompiledFrom.hidden :
    (c.visibility == .hidden) = rule.hides := by
  have shown := source.visibility
  unfold compileVisibility at shown
  unfold Rule.hides
  split at shown
  · rename_i hidden
    rw [← Except.ok.inj shown]
    rcases hidden with same | same <;> rw [same] <;> decide
  · split at shown
    · rename_i visible
      rw [← Except.ok.inj shown, visible]
      decide
    · cases shown

theorem CompiledFrom.effect_deny :
    decide (c.effect lib resource capability entry = .deny) =
      rule.denies lib resource capability entry := by
  unfold CompiledRule.effect CompiledRule.speaks CompiledRule.refuses Rule.denies Rule.covers
  rw [source.matchesType, source.typed, source.path, source.caps]
  grind

theorem CompiledFrom.effect_allow :
    decide (c.effect lib resource capability entry = .allow) =
      rule.opens lib resource capability entry := by
  unfold CompiledRule.effect CompiledRule.speaks CompiledRule.refuses CompiledRule.allows Rule.opens
    Rule.covers Rule.offers
  rw [source.matchesType, source.typed, source.path, source.caps]
  grind

theorem CompiledFrom.restricts :
    c.restricts lib resource capability entry = (shows capability &&
      (rule.denies lib resource capability entry || rule.passesOver lib resource capability entry)) := by
  unfold CompiledRule.restricts CompiledRule.speaks CompiledRule.refuses CompiledRule.allows
    Rule.denies Rule.passesOver Rule.covers Rule.offers
  rw [source.matchesType, source.typed, source.path, source.caps]
  have directories : entry == .directory → rule.fits lib resource entry = true := by
    intro here
    unfold Rule.fits
    cases rule.fileTypes <;> simp [here]
  have untyped : rule.fileTypes.isSome = false → rule.fits lib resource entry = true := by
    intro bare
    unfold Rule.fits
    rw [Option.isSome_eq_false_iff, Option.isNone_iff_eq_none] at bare
    rw [bare]
  grind

end

end Readings

section Capped

variable {lib : Library} {allowed : List Text}

theorem capRule_path (rule : PolicyRule) (path : Text) :
    capRule lib allowed { rule with path } =
      (capRule lib allowed rule).map fun capped => { capped with path } := by
  unfold capRule isDeny
  dsimp only
  split
  · rfl
  · split <;> rfl

theorem path_of_capRule {rule capped : PolicyRule} (kept : capRule lib allowed rule = some capped) :
    capped.path = rule.path := by
  unfold capRule at kept
  split at kept
  · cases kept
    rfl
  dsimp only at kept
  split at kept
  · cases kept
  · cases kept
    rfl

theorem expandRule_capped (rule : PolicyRule) : (expandRule rule).filterMap (capRule lib allowed) =
    (capRule lib allowed rule).toList.flatMap expandRule := by
  unfold expandRule
  cases kept : capRule lib allowed rule with
  | none =>
    split
    · simp [capRule_path, kept]
    · simp [kept]
  | some capped =>
    have path := path_of_capRule kept
    split
    · rename_i whole
      simp [capRule_path, kept, path, whole]
    · rename_i part
      simp [kept, path, part]

theorem expandRules_capped (rules : List PolicyRule) :
    (rules.filterMap (capRule lib allowed)).flatMap expandRule =
      (rules.flatMap expandRule).filterMap (capRule lib allowed) := by
  induction rules with
  | nil => rfl
  | cons rule rules ih =>
    rw [flatMap_cons, filterMap_append, expandRule_capped, ← ih]
    cases kept : capRule lib allowed rule <;> simp [kept]

def capPair (lib : Library) (allowed : List Text) (r : Text × PolicyRule) :
    Option (Text × PolicyRule) :=
  (capRule lib allowed r.2).map fun rule => (r.1, rule)

theorem filterMap_capPair (id : Text) (rules : List PolicyRule) :
    (rules.map fun rule => (id, rule)).filterMap (capPair lib allowed) =
      (rules.filterMap (capRule lib allowed)).map fun rule => (id, rule) := by
  rw [filterMap_map, map_filterMap]
  rfl

theorem policyRules_underCeiling (policies : List Policy) :
    policyRules (expandCompatibilityRules (underCeiling lib allowed policies)) =
      (policyRules (expandCompatibilityRules policies)).filterMap (capPair lib allowed) := by
  induction policies with
  | nil => rfl
  | cons policy policies ih =>
    simp only [policyRules, expandCompatibilityRules, underCeiling, map_cons,
      flatMap_cons, filterMap_append, filterMap_capPair, expandRules_capped] at ih ⊢
    rw [ih]

def mountRules (policies : List Policy) (scope : Text) : List (Text × PolicyRule) :=
  (policyRules (expandCompatibilityRules policies)).filter fun r => ruleTouchesScope r.2.path scope

theorem mountRules_underCeiling (policies : List Policy) (scope : Text) :
    mountRules (underCeiling lib allowed policies) scope =
      (mountRules policies scope).filterMap (capPair lib allowed) := by
  rw [mountRules, mountRules, policyRules_underCeiling, filter_filterMap, filterMap_filter]
  congr 1
  funext r
  unfold capPair
  cases kept : capRule lib allowed r.2 with
  | none => simp
  | some capped => simp [Option.filter_some, path_of_capRule kept]

theorem isDeny_eq (rule : PolicyRule) :
    isDeny lib rule = (rule.capabilities.map (folded lib)).contains deny := by
  have each (item : Text) : lib.sameFold (trimSpace item) deny = (deny == folded lib item) := by
    unfold Library.sameFold folded Library.lower
    have plain : isASCII deny = true := by decide
    have lowered : deny.map lowerByte = deny := by decide
    cases known : isASCII (trimSpace item) with
    | true => simp [plain, lowered, eq_comm]
    | false => simp [lib.folds_alike _ known, deny, Bool.beq_eq_decide_eq, eq_comm]
  unfold isDeny
  rw [contains_eq_any_beq, any_map, funext each]
  rfl

def Ceiling (allowed : List Text) : Prop := ∀ c ∈ allowed, c = ascii "read" ∨ c = ascii "list"

theorem Ceiling.lacks (ceiling : Ceiling allowed) {c : Text} (other : shows c = false) :
    c ∉ allowed := by
  intro inside
  rcases ceiling c inside with rfl | rfl <;> exact absurd other (by decide)

theorem normalizeCapabilities_ceiling {given seen : List Text} (start : Ceiling seen)
    (done : normalizeCapabilities lib given seen = .ok allowed) : Ceiling allowed := by
  induction given generalizing seen with
  | nil =>
    cases done
    exact start
  | cons raw given ih =>
    simp only [normalizeCapabilities] at done
    split at done
    · cases done
    rename_i proper
    refine ih (forall_mem_append.mpr ⟨start, ?_⟩) done
    simp only [mem_singleton, forall_eq]
    grind

theorem ceilingOf_ceiling {given : Option (List Text)} (done : ceilingOf lib given = .ok allowed) :
    Ceiling allowed := by
  cases given with
  | none =>
    cases done
    exact forall_mem_cons.mpr ⟨.inl rfl, forall_mem_cons.mpr ⟨.inr rfl, by simp⟩⟩
  | some given => exact normalizeCapabilities_ceiling (by simp [Ceiling]) done

theorem grants_capped (ceiling : Ceiling allowed) (caps : List Text) (k : Text) :
    grants (caps.filter allowed.contains) k = (allowed.contains k && grants caps k) := by
  have write : ascii "write" ∉ allowed := ceiling.lacks (by decide)
  have listed (c : Text) : (caps.filter allowed.contains).contains c =
      (allowed.contains c && caps.contains c) := by
    rw [Bool.eq_iff_iff]
    simp [and_comm]
  unfold grants
  rw [listed, listed]
  cases known : allowed.contains k with
  | false => simp [write]
  | true =>
    have other : (k == ascii "create" || k == ascii "update") = false := by
      rcases ceiling k (by simpa using known) with rfl | rfl <;> decide
    simp [other]

variable {resource capability : Text} {entry : EntryType}

theorem denies_of_free {rule : Rule} (free : (rule.capabilities.map (folded lib)).contains deny = false) :
    rule.denies lib resource capability entry = false := by
  simp only [Rule.denies, free, Bool.and_false, Bool.false_and]

theorem offers_of_free {rule : Rule} (free : (rule.capabilities.map (folded lib)).contains deny = false) :
    rule.offers lib capability = grants (rule.capabilities.map (folded lib)) capability := by
  simp only [Rule.offers, free, Bool.not_false, Bool.true_and]

theorem Ceiling.folded_filter (ceiling : Ceiling allowed) (caps : List Text) :
    (caps.filter allowed.contains).map (folded lib) = caps.filter allowed.contains := by
  have each : ∀ c ∈ caps.filter allowed.contains, folded lib c = id c := by
    intro c known
    have inside : c ∈ allowed := by simpa using (mem_filter.mp known).2
    exact folded_known (by rcases ceiling c inside with rfl | rfl <;> decide)
  exact (map_congr_left each).trans (map_id _)

theorem Ceiling.free_filter (ceiling : Ceiling allowed) (caps : List Text) :
    (caps.filter allowed.contains).contains deny = false := by
  have absent : deny ∉ allowed := ceiling.lacks (by decide)
  simp [absent]

theorem capRule_cases (ceiling : Ceiling allowed) (resource capability : Text) (entry : EntryType)
    (r : Text × PolicyRule) :
    (capRule lib allowed r.2 = none ∧ (contextRule r).denies lib resource capability entry = false ∧
      (allowed.contains capability && (contextRule r).offers lib capability) = false) ∨
    ∃ capped, capRule lib allowed r.2 = some capped ∧
      capped.path = r.2.path ∧ capped.fileTypes = r.2.fileTypes ∧
      capped.visibility = r.2.visibility ∧
      (contextRule (r.1, capped)).denies lib resource capability entry =
        (contextRule r).denies lib resource capability entry ∧
      (contextRule (r.1, capped)).offers lib capability =
        (allowed.contains capability && (contextRule r).offers lib capability) := by
  have refuses : isDeny lib r.2 = (r.2.capabilities.map (folded lib)).contains deny := isDeny_eq r.2
  cases denied : isDeny lib r.2 with
  | true =>
    rw [denied] at refuses
    have none : (contextRule r).offers lib capability = false := by
      simp only [Rule.offers, contextRule, ← refuses, Bool.not_true, Bool.false_and]
    refine .inr ⟨r.2, by rw [capRule, denied, if_pos rfl], rfl, rfl, rfl, rfl, ?_⟩
    rw [none, Bool.and_false]
  | false =>
    rw [denied] at refuses
    have silent : (contextRule r).denies lib resource capability entry = false :=
      denies_of_free refuses.symm
    have same : (contextRule r).offers lib capability =
        grants (r.2.capabilities.map (folded lib)) capability := offers_of_free refuses.symm
    have left := grants_capped ceiling (r.2.capabilities.map (folded lib)) capability
    have free := ceiling.free_filter (r.2.capabilities.map (folded lib))
    have spelled : ((r.2.capabilities.map (folded lib)).filter allowed.contains).map (folded lib) =
        (r.2.capabilities.map (folded lib)).filter allowed.contains := ceiling.folded_filter _
    generalize kept : (r.2.capabilities.map (folded lib)).filter allowed.contains = caps
      at left free spelled
    rw [same, ← left]
    unfold capRule
    rw [denied, if_neg (by simp), kept]
    dsimp only
    by_cases empty : caps = []
    · rw [if_pos empty, empty]
      exact .inl ⟨rfl, silent, rfl⟩
    rw [if_neg empty]
    refine .inr ⟨{ r.2 with capabilities := caps }, rfl, rfl, rfl, rfl, ?_, ?_⟩
    · rw [silent]
      exact denies_of_free (by rw [contextRule, spelled]; exact free)
    · exact (offers_of_free (by rw [contextRule, spelled]; exact free)).trans
        (by rw [contextRule, spelled])

theorem any_capped (lib : Library) (ceiling : Ceiling allowed) (resource capability : Text)
    (entry : EntryType) (rules : List (Text × PolicyRule))
    (g : Bool → Bool → Bool → Bool → Bool → Bool) (nothing : ∀ a b c, g a b c false false = false) :
    ((rules.filterMap (capPair lib allowed)).map contextRule).any (fun rule =>
        g (rule.covers resource) (rule.fits lib resource entry) rule.hides
          (rule.denies lib resource capability entry) (rule.offers lib capability)) =
      rules.any fun r =>
        g ((contextRule r).covers resource) ((contextRule r).fits lib resource entry)
          (contextRule r).hides ((contextRule r).denies lib resource capability entry)
          (allowed.contains capability && (contextRule r).offers lib capability) := by
  induction rules with
  | nil => rfl
  | cons r rules ih =>
    rw [any_cons, ← ih]
    rcases capRule_cases ceiling resource capability entry r with
      ⟨gone, silent, none⟩ | ⟨capped, kept, path, types, visibility, denies, offers⟩
    · have dropped : capPair lib allowed r = Option.none := by rw [capPair, gone, Option.map_none]
      rw [filterMap_cons_none dropped, silent, none, nothing, Bool.false_or]
    have there : capPair lib allowed r = some (r.1, capped) := by
      rw [capPair, kept, Option.map_some]
    have covers : (contextRule (r.1, capped)).covers resource = (contextRule r).covers resource := by
      simp only [Rule.covers, contextRule, path]
    have fits : (contextRule (r.1, capped)).fits lib resource entry =
        (contextRule r).fits lib resource entry := by
      simp only [Rule.fits, contextRule, types]
    have hides : (contextRule (r.1, capped)).hides = (contextRule r).hides := by
      simp only [Rule.hides, contextRule, visibility]
    rw [filterMap_cons_some there, map_cons, any_cons, covers, fits, hides, denies,
      offers]

end Capped

section Standing

/-- How an entry stands with a list of rules, for one capability. -/
structure Standing where
  opened : Bool
  denied : Bool
  deniedHidden : Bool
  passed : Bool
  passedHidden : Bool

def standing (lib : Library) (rules : List Rule) (resource capability : Text) (entry : EntryType) :
    Standing where
  opened := rules.any fun rule => rule.opens lib resource capability entry
  denied := rules.any fun rule => rule.denies lib resource capability entry
  deniedHidden := rules.any fun rule => rule.denies lib resource capability entry && rule.hides
  passed := rules.any fun rule => rule.passesOver lib resource capability entry
  passedHidden := rules.any fun rule => rule.passesOver lib resource capability entry && rule.hides

def Standing.decision (s : Standing) (within shown : Bool) : Decision :=
  let restricted := shown && (s.denied || within && s.passed)
  let hidden := shown && (s.deniedHidden || within && s.passedHidden)
  { allowed := within && s.opened && !s.denied
    denied := s.denied
    visibility := if restricted && !hidden then .visible else .hidden
    restricted }

variable {lib : Library} {resource capability : Text} {entry : EntryType}

theorem compile_decision {context : Context} {filter : Filter}
    (compiled : context.compile lib = .ok filter)
    (asked : answerable lib resource (folded lib capability) entry = true) :
    filter.evaluate lib resource capability entry =
      (standing lib context.rules resource (folded lib capability) entry).decision true
        (shows (folded lib capability)) := by
  rw [filter.evaluate_eq asked]
  generalize folded lib capability = k
  have opened : (filter.rules.any fun c => c.effect lib resource k entry = .allow) =
      context.rules.any fun rule => rule.opens lib resource k entry :=
    compile_any compiled fun _ _ source => source.effect_allow
  have denied : (filter.rules.any fun c => c.effect lib resource k entry = .deny) =
      context.rules.any fun rule => rule.denies lib resource k entry :=
    compile_any compiled fun _ _ source => source.effect_deny
  have restricted : filter.rules.any (CompiledRule.restricts lib resource k entry) =
      context.rules.any fun rule => shows k &&
        (rule.denies lib resource k entry || rule.passesOver lib resource k entry) :=
    compile_any compiled fun _ _ source => source.restricts
  have hidden : (filter.rules.any fun c => c.restricts lib resource k entry && c.visibility == .hidden) =
      context.rules.any fun rule => shows k &&
        (rule.denies lib resource k entry && rule.hides ||
          rule.passesOver lib resource k entry && rule.hides) :=
    compile_any compiled fun _ _ source => by
      rw [source.restricts, source.hidden, Bool.and_assoc, Bool.and_or_distrib_right]
  rw [← and_any_distrib_left, any_or] at restricted hidden
  simp only [permits, opened, denied, restricted, hidden, Standing.decision, standing, Bool.true_and]

theorem standing_capped {allowed : List Text} (ceiling : Ceiling allowed)
    (rules : List (Text × PolicyRule)) (k : Text) :
    standing lib ((rules.filterMap (capPair lib allowed)).map contextRule) resource k entry =
      let s := standing lib (rules.map contextRule) resource k entry
      let within := allowed.contains k
      ⟨within && s.opened, s.denied, s.deniedHidden, within && s.passed,
        within && s.passedHidden⟩ := by
  have opened := any_capped lib ceiling resource k entry rules
    (fun covers fits _ _ offers => covers && offers && fits) (by simp)
  have denied := any_capped lib ceiling resource k entry rules
    (fun _ _ _ denies _ => denies) (by simp)
  have deniedHidden := any_capped lib ceiling resource k entry rules
    (fun _ _ hides denies _ => denies && hides) (by simp)
  have passed := any_capped lib ceiling resource k entry rules
    (fun covers fits _ _ offers => covers && offers && !fits) (by simp)
  have passedHidden := any_capped lib ceiling resource k entry rules
    (fun covers fits hides _ offers => covers && offers && !fits && hides) (by simp)
  simp only [standing, Rule.opens, Rule.passesOver, opened, denied, deniedHidden, passed,
    passedHidden, any_map, Function.comp_def]
  cases allowed.contains k <;> simp

theorem capped_decision {allowed : List Text} (ceiling : Ceiling allowed) {policies : List Policy}
    {scope : Text} {context : Context} {filter : Filter}
    (built : BuiltFor lib (underCeiling lib allowed policies) scope context)
    (compiled : context.compile lib = .ok filter)
    (asked : answerable lib resource (folded lib capability) entry = true) :
    filter.evaluate lib resource capability entry =
      (standing lib ((mountRules policies scope).map contextRule) resource (folded lib capability)
        entry).decision (allowed.contains (folded lib capability)) (shows (folded lib capability)) := by
  have rules : context.rules =
      ((mountRules policies scope).filterMap (capPair lib allowed)).map contextRule := by
    rw [built.rules, ← mountRules_underCeiling, mountRules]
  rw [compile_decision compiled asked, rules, standing_capped ceiling]
  simp only [Standing.decision, Bool.true_and]

end Standing

section Visibility

/-- What is passed over or denied while being hidden is passed over or denied. -/
structure Standing.Sound (s : Standing) : Prop where
  denied : s.deniedHidden = true → s.denied = true
  passed : s.passedHidden = true → s.passed = true

theorem standing_sound (lib : Library) (rules : List Rule) (resource capability : Text)
    (entry : EntryType) : (standing lib rules resource capability entry).Sound := by
  constructor
  all_goals
    intro hidden
    obtain ⟨rule, known, both⟩ := any_eq_true.mp hidden
    exact any_eq_true.mpr ⟨rule, known, (Bool.and_eq_true_iff.mp both).1⟩

/-- Whether a listing shows what a ceiling leaves of the capability, allowed or blocked. -/
def Standing.shown (s : Standing) (within : Bool) : Bool :=
  within && s.opened && !s.denied ||
    (s.denied || within && s.passed) && !(s.deniedHidden || within && s.passedHidden)

/-- A ceiling that comes to have the capability does not hide the entry by it: no rule for
other types does, or the entry is allowed. -/
def Standing.stays (s : Standing) (before after : Bool) : Prop :=
  before = false → after = true → s.passedHidden = true → s.opened = true ∧ s.denied = false

theorem fileDecision_visible (list read : Standing) (l r : Bool) :
    (fileDecision (list.decision l true) (read.decision r true)).visible =
      (list.shown l && read.shown r ||
        l && list.opened && !list.denied && !(r && read.opened) &&
          !(read.denied || r && read.passed)) := by
  obtain ⟨o, d, dh, p, ph⟩ := list
  obtain ⟨o', d', dh', p', ph'⟩ := read
  cases l <;> cases r <;> cases d <;> cases d' <;> cases o <;> cases o' <;>
    simp [fileDecision, Standing.decision, Standing.shown, AccessDecision.refused] <;> grind

theorem fileDecision_visible_iff {list read : Standing} (listed : list.Sound) (opened : read.Sound)
    {l l' r r' : Bool} (lists : l = true → l' = true) (reads : r = true → r' = true)
    (visible : (fileDecision (list.decision l true) (read.decision r true)).visible = true) :
    (fileDecision (list.decision l' true) (read.decision r' true)).visible = true ↔
      list.stays l l' ∧ read.stays r r' := by
  rw [fileDecision_visible] at visible ⊢
  obtain ⟨dl, pl⟩ := listed
  obtain ⟨dr, pr⟩ := opened
  unfold Standing.stays
  unfold Standing.shown at *
  grind

theorem directoryDecision_visible {list : Standing} (fits : list.passed = false)
    (sound : list.Sound) {l l' : Bool} (lists : l = true → l' = true)
    (visible : (directoryDecision (list.decision l true)).visible = true) :
    (directoryDecision (list.decision l' true)).visible = true := by
  obtain ⟨o, d, dh, p, ph⟩ := list
  obtain ⟨denied, passed⟩ := sound
  unfold directoryDecision Standing.decision at *
  cases l <;> cases l' <;> cases o <;> cases d <;> simp_all

end Visibility

section Ceilings

variable {lib : Library}
variable {entry : EntryType} {resource : Text}

def FileKind.entryType : FileKind → EntryType
  | .directory => .directory
  | .regular => .file
  | .other => .other

/-- No capability that only the second ceiling has is offered by a hiding rule to other
types of files than the entry's, unless the entry itself is allowed it. -/
def StaysShown (lib : Library) (rules : List Rule) (first second : List Text) (resource : Text)
    (entry : EntryType) : Prop :=
  ∀ c ∈ second, c ∉ first →
    (∃ rule ∈ rules, rule.passesOver lib resource c entry = true ∧ rule.hides = true) →
      (∃ rule ∈ rules, rule.opens lib resource c entry = true) ∧
        ∀ rule ∈ rules, rule.denies lib resource c entry = false

theorem staysShown_iff {rules : List Rule} {first second : List Text} (ceiling : Ceiling second) :
    StaysShown lib rules first second resource entry ↔
      (standing lib rules resource (ascii "list") entry).stays
          (first.contains (ascii "list")) (second.contains (ascii "list")) ∧
        (standing lib rules resource (ascii "read") entry).stays
          (first.contains (ascii "read")) (second.contains (ascii "read")) := by
  have each (c : Text) : (standing lib rules resource c entry).stays (first.contains c)
      (second.contains c) ↔ (c ∈ second → c ∉ first →
        (∃ rule ∈ rules, rule.passesOver lib resource c entry = true ∧ rule.hides = true) →
          (∃ rule ∈ rules, rule.opens lib resource c entry = true) ∧
            ∀ rule ∈ rules, rule.denies lib resource c entry = false) := by
    unfold Standing.stays standing
    simp only [any_eq_true, any_eq_false, Bool.and_eq_true, Bool.not_eq_true]
    rw [← Bool.not_eq_true, contains_iff_mem, contains_iff_mem]
    exact ⟨fun stays b a => stays a b, fun stays a b => stays b a⟩
  rw [each, each]
  constructor
  · exact fun stays => ⟨stays _, stays _⟩
  rintro ⟨lists, reads⟩ c inside
  rcases ceiling c inside with rfl | rfl
  · exact reads inside
  · exact lists inside

theorem answerable_shown {k : Text} (shown : k = ascii "list" ∨ k = ascii "read")
    (kind : entry ≠ .other) :
    answerable lib resource (folded lib k) entry = validResource lib resource := by
  have known : k ∈ validCaps := by rcases shown with rfl | rfl <;> decide
  have proper : (k != deny) = true := by rcases shown with rfl | rfl <;> decide
  have typed : (entry != .other) = true := by simpa using kind
  rw [folded_known known]
  simp [answerable, known, proper, typed]

theorem capped_shown {allowed : List Text} (ceiling : Ceiling allowed) {policies : List Policy}
    {scope : Text} {context : Context} {filter : Filter}
    (built : BuiltFor lib (underCeiling lib allowed policies) scope context)
    (compiled : context.compile lib = .ok filter) {k : Text}
    (valid : validResource lib resource = true) (shown : k = ascii "list" ∨ k = ascii "read")
    (kind : entry ≠ .other) :
    filter.evaluate lib resource k entry =
      (standing lib ((mountRules policies scope).map contextRule) resource k entry).decision
        (allowed.contains k) true := by
  have asked := (answerable_shown shown kind).trans valid
  have same : folded lib k = k := folded_known (by rcases shown with rfl | rfl <;> decide)
  have listing : shows k = true := by rcases shown with rfl | rfl <;> decide
  rw [capped_decision ceiling built compiled asked, same, listing]

theorem evaluate_invalid {filter : Filter} {k : Text} (invalid : validResource lib resource = false)
    (shown : k = ascii "list" ∨ k = ascii "read") (kind : entry ≠ .other) :
    filter.evaluate lib resource k entry = ⟨false, false, .hidden, false⟩ :=
  filter.evaluate_unanswerable ((answerable_shown shown kind).trans invalid)

theorem passed_directory (lib : Library) (rules : List Rule) (resource k : Text) :
    (standing lib rules resource k .directory).passed = false := by
  simp only [standing, any_eq_false]
  intro rule _ passes
  unfold Rule.passesOver Rule.fits at passes
  cases types : rule.fileTypes <;> simp [types] at passes

/-- A lower ceiling allows no more; what it makes visible a higher one does exactly where no
rule that the higher one brings back hides it. -/
theorem tighter_ceiling_reveals_iff (lib : Library) (policies : List Policy) {scope : Text}
    {given₁ given₂ : Option (List Text)} {first second : List Text}
    (tight : ceilingOf lib given₁ = .ok first) (loose : ceilingOf lib given₂ = .ok second)
    (included : first ⊆ second) {context₁ context₂ : Context}
    (built₁ : buildMountAccessContext lib (underCeiling lib first policies) scope = .ok context₁)
    (built₂ : buildMountAccessContext lib (underCeiling lib second policies) scope = .ok context₂)
    (f₁ f₂ : AccessFilter) (base : f₁.base = f₂.base)
    (compiled₁ : context₁.compile lib = .ok f₁.context)
    (compiled₂ : context₂.compile lib = .ok f₂.context) :
    (∀ resource capability entry,
      (f₁.context.evaluate lib resource capability entry).allowed = true →
        (f₂.context.evaluate lib resource capability entry).allowed = true) ∧
    ∀ relative info, (f₁.decide lib relative info).visible = true →
      ((f₂.decide lib relative info).visible = true ↔
        StaysShown lib ((mountRules policies (normalizePath scope)).map contextRule) first second
          (f₁.resource relative) info.entryType) := by
  have low := ceilingOf_ceiling tight
  have high := ceilingOf_ceiling loose
  have made₁ := buildMountAccessContext_ok built₁
  have made₂ := buildMountAccessContext_ok built₂
  have within (c : Text) : first.contains c = true → second.contains c = true := by
    simpa using fun inside : c ∈ first => included inside
  constructor
  · intro resource capability entry allowed
    cases asked : answerable lib resource (folded lib capability) entry with
    | false =>
      rw [f₁.context.evaluate_unanswerable asked] at allowed
      cases allowed
    | true =>
      rw [capped_decision low made₁ compiled₁ asked] at allowed
      rw [capped_decision high made₂ compiled₂ asked]
      have up := within (folded lib capability)
      unfold Standing.decision at *
      grind
  · intro relative info visible
    have same : f₂.resource relative = f₁.resource relative := by
      unfold AccessFilter.resource
      rw [base]
    unfold AccessFilter.decide at *
    rw [same]
    split at visible
    · cases visible
    rename_i passes
    rw [if_neg passes, staysShown_iff high]
    cases valid : validResource lib (f₁.resource relative) with
    | false =>
      cases info <;> simp [evaluate_invalid valid, directoryDecision, fileDecision,
        AccessDecision.refused] at visible
    | true =>
      cases info with
      | other => cases visible
      | directory =>
        -- rules for types of files do not pass over a directory
        have fits (k : Text) := passed_directory lib
          ((mountRules policies (normalizePath scope)).map contextRule) (f₁.resource relative) k
        have kind : EntryType.directory ≠ .other := by decide
        dsimp only at visible ⊢
        rw [capped_shown low made₁ compiled₁ valid (.inl rfl) kind] at visible
        rw [capped_shown high made₂ compiled₂ valid (.inl rfl) kind]
        refine iff_of_true (directoryDecision_visible (fits _) (standing_sound ..)
          (within _) visible) ⟨fun _ _ hidden => ?_, fun _ _ hidden => ?_⟩
        all_goals exact absurd ((standing_sound ..).passed hidden) (by simp [FileKind.entryType, fits])
      | regular =>
        have kind : EntryType.file ≠ .other := by decide
        dsimp only at visible ⊢
        rw [capped_shown low made₁ compiled₁ valid (.inl rfl) kind,
          capped_shown low made₁ compiled₁ valid (.inr rfl) kind] at visible
        rw [capped_shown high made₂ compiled₂ valid (.inl rfl) kind,
          capped_shown high made₂ compiled₂ valid (.inr rfl) kind]
        exact fileDecision_visible_iff (standing_sound ..) (standing_sound ..) (within _) (within _)
          visible

def galleryPolicies : List Policy :=
  [{ id := ascii "p", rules := [
      { path := ascii "nodes/n/files/mounts/m"
        capabilities := [ascii "list"]
        fileTypes := none, visibility := [], needsApproval := [] },
      { path := ascii "nodes/n/files/mounts/m/**"
        capabilities := [ascii "read"]
        fileTypes := some ⟨[], [ascii "png"], []⟩
        visibility := [], needsApproval := [] }] }]

def galleryRules (read : Bool) : List Rule :=
  let listed : List Rule :=
    [⟨ascii "p", ascii "nodes/n/files/mounts/m", [ascii "list"], none, []⟩,
      ⟨ascii "p", ascii "nodes/n/files/mounts/m/**", [ascii "list"], none, []⟩]
  if read then
    listed ++ [⟨ascii "p", ascii "nodes/n/files/mounts/m/**", [ascii "read"],
      some ⟨[], [ascii "png"], []⟩, []⟩]
  else listed

/-- The filters for an agent that may only list, and for one that may also read. -/
def galleryFilter (read : Bool) : AccessFilter where
  context :=
    let listed : List CompiledRule :=
      [⟨ascii "nodes/n/files/mounts/m", .hidden, none, [ascii "list"]⟩,
        ⟨ascii "nodes/n/files/mounts/m/**", .hidden, none, [ascii "list"]⟩]
    if read then
      ⟨listed ++ [⟨ascii "nodes/n/files/mounts/m/**", .hidden, some ⟨[ascii "png"], []⟩,
        [ascii "read"]⟩]⟩
    else ⟨listed⟩
  base := mountScope (ascii "n") (ascii "m")
  proper := sample_base

theorem gallery_built :
    (buildMountAccessContext sampleLibrary (underCeiling sampleLibrary [ascii "list"] galleryPolicies)
        (mountScope (ascii "n") (ascii "m")) = .ok ⟨1, galleryRules false⟩ ∧
      Context.compile sampleLibrary ⟨1, galleryRules false⟩ = .ok (galleryFilter false).context) ∧
    buildMountAccessContext sampleLibrary
        (underCeiling sampleLibrary [ascii "read", ascii "list"] galleryPolicies)
        (mountScope (ascii "n") (ascii "m")) = .ok ⟨1, galleryRules true⟩ ∧
      Context.compile sampleLibrary ⟨1, galleryRules true⟩ = .ok (galleryFilter true).context := by
  decide +kernel

/-- A picture that a list-only agent sees is seen by one that may also read. -/
theorem gallery_picture_stays :
    ((galleryFilter true).decide sampleLibrary (ascii "a.png") .regular).visible = true :=
  ((tighter_ceiling_reveals_iff sampleLibrary galleryPolicies
    (by decide +kernel : ceilingOf sampleLibrary (some [ascii "List "]) = .ok [ascii "list"])
    (by decide +kernel : ceilingOf sampleLibrary none = .ok [ascii "read", ascii "list"])
    (by decide) gallery_built.1.1 gallery_built.2.1
    (galleryFilter false) (galleryFilter true) rfl
    gallery_built.1.2 gallery_built.2.2).2
    (ascii "a.png") .regular (by decide +kernel)).mpr (by unfold StaysShown; decide +kernel)

/-- Another file is shown to the agent that may only list and hidden from the one that may
also read. -/
theorem gallery_text_disappears :
    ceilingOf sampleLibrary (some [ascii "list"]) = .ok [ascii "list"] ∧
      ceilingOf sampleLibrary none = .ok [ascii "read", ascii "list"] ∧
      buildMountAccessContext sampleLibrary (underCeiling sampleLibrary [ascii "list"] galleryPolicies)
        (mountScope (ascii "n") (ascii "m")) = .ok ⟨1, galleryRules false⟩ ∧
      Context.compile sampleLibrary ⟨1, galleryRules false⟩ = .ok (galleryFilter false).context ∧
      buildMountAccessContext sampleLibrary
        (underCeiling sampleLibrary [ascii "read", ascii "list"] galleryPolicies)
        (mountScope (ascii "n") (ascii "m")) = .ok ⟨1, galleryRules true⟩ ∧
      Context.compile sampleLibrary ⟨1, galleryRules true⟩ = .ok (galleryFilter true).context ∧
      ((galleryFilter false).decide sampleLibrary (ascii "a.txt") .regular).visible = true ∧
      ((galleryFilter true).decide sampleLibrary (ascii "a.txt") .regular).visible = false :=
  ⟨by decide +kernel, by decide +kernel, gallery_built.1.1, gallery_built.1.2, gallery_built.2.1,
    gallery_built.2.2, by decide +kernel, by decide +kernel⟩

end Ceilings

end Jolt.Access
