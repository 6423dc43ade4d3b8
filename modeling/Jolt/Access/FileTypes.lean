import Jolt.Access.Scopes
import Jolt.Base.Loops
import Jolt.Base.Verdicts

/-! The policy context of a mount: rules over resource paths, some of them for certain
types of files only, compiled into the filter that control and the nodes evaluate. Both
have the same code for it. -/
namespace Jolt.Access
open Jolt.Base

section Rules

structure Selector where
  classes : List Text
  extensions : List Text
  names : List Text
  deriving DecidableEq

structure Rule where
  policyID : Text
  path : Text
  capabilities : List Text
  fileTypes : Option Selector
  visibility : Text
  deriving DecidableEq

structure Context where
  version : Nat
  rules : List Rule
  deriving DecidableEq

def isASCII (s : Text) : Bool := s.all (· < 128)

/-- The standard library on text beyond ASCII, and the length of a rule in JSON. -/
structure Library where
  toLower : Text → Text
  equalFold : Text → Text → Bool
  validString : Text → Bool
  runeCount : Text → Nat
  /-- Every rune is a letter, a digit or one of `-_+`. -/
  extensionRunes : Text → Bool
  ruleLength : Rule → Nat
  /-- The two foldings find the same spellings of a denial. -/
  folds_alike : ∀ s, isASCII s = false →
    equalFold s (ascii "deny") = decide (toLower s = ascii "deny")

def lowerByte (b : UInt8) : UInt8 := if 65 ≤ b ∧ b ≤ 90 then b + 32 else b

/-- `strings.ToLower` -/
def Library.lower (lib : Library) (s : Text) : Text :=
  if isASCII s then s.map lowerByte else lib.toLower s

/-- `strings.Contains` -/
def containsText (value part : Text) : Bool := value.tails.any fun rest => part.isPrefixOf rest

/-- `strings.ContainsAny` -/
def containsAny (value bytes : Text) : Bool := value.any fun b => bytes.contains b

/-- `path.Base` -/
def pathBase (path : Text) : Text :=
  if path = [] then [dot]
  else
    let last := lastElement letters (trimEnd [[slash]] path)
    if last = [] then [slash] else last

/-- `path.Ext` without its dot -/
def pathExt (name : Text) : Text :=
  let last := name.reverse.takeWhile fun b => b != slash && b != dot
  if (name.reverse.drop last.length).head? = some dot then last.reverse else []

end Rules

section Selectors

structure Class where
  extensions : List Text
  names : List Text

def classes : List (Text × Class) :=
  [("video", ["mp4", "mkv", "avi", "mov", "webm", "m4v", "mpeg", "mpg", "ts"], []),
    ("audio", ["mp3", "flac", "wav", "ogg", "m4a", "aac", "opus"], []),
    ("image", ["jpg", "jpeg", "png", "gif", "webp", "svg", "avif", "bmp", "tif", "tiff"], []),
    ("document", ["txt", "md", "pdf", "doc", "docx", "xls", "xlsx", "ppt", "pptx", "odt", "ods",
      "csv", "json", "xml", "yaml", "yml"], []),
    ("archive", ["zip", "gz", "tar", "tgz", "7z", "rar", "bz2", "xz", "zst"], []),
    ("executable", ["exe", "dll", "msi", "com", "bat", "cmd", "ps1", "sh", "bash", "zsh", "elf",
      "bin", "so", "dylib", "appimage", "wasm"], []),
    ("secret", ["env", "pem", "key", "p12", "pfx", "p8", "jks", "kdbx"],
      [".env", "acme.json", "id_rsa", "id_ed25519"])].map
    fun (name, extensions, names) => (ascii name, ⟨extensions.map ascii, names.map ascii⟩)

def findClass (name : Text) : Option Class := (classes.find? fun c => c.1 = name).map (·.2)

/-- One kind of selectors, each folded: all of them are proper, no two the same. -/
def validateEach (fold : Text → Text) (proper : Text → Bool) (failure : String)
    (further : Text → Option String) : List Text → List Text → Except String Unit
  | [], _ => .ok ()
  | value :: rest, seen =>
    let value := fold value
    if !proper value || seen.contains value then .error failure
    else
      match further value with
      | some text => .error text
      | none => validateEach fold proper failure further rest (value :: seen)

variable (lib : Library)

/-- `strings.ToLower(strings.TrimSpace(s))` -/
def folded (s : Text) : Text := lib.lower (trimSpace s)

def Selector.validate (s : Selector) : Except String Unit := do
  let count := s.classes.length + s.extensions.length + s.names.length
  if count = 0 ∨ 64 < count then throw "file types require 1 to 64 selectors"
  validateEach (folded lib) (fun value => (findClass value).isSome) "invalid or duplicate class"
    (fun _ => none) s.classes []
  validateEach (folded lib) (fun value => value != [] && lib.runeCount value ≤ 128)
    "invalid or duplicate extension"
    (fun value => if lib.extensionRunes value then none else some "invalid extension")
    s.extensions []
  validateEach lib.lower
    (fun value => value != [] && value != [dot] && value != [dot, dot] && lib.validString value &&
      !containsAny value [slash, backslash, 0] && lib.runeCount value ≤ 255)
    "invalid or duplicate name" (fun _ => none) s.names []

structure Matcher where
  extensions : List Text
  names : List Text
  deriving DecidableEq

def Selector.compile (s : Selector) : Except String Matcher :=
  match s.validate lib with
  | .error text => .error text
  | .ok () =>
    let found := s.classes.filterMap fun value => findClass (folded lib value)
    .ok {
      extensions := s.extensions.map (folded lib) ++ found.flatMap (·.extensions)
      names := s.names.map lib.lower ++ found.flatMap (·.names) }

def Matcher.matchesName (m : Matcher) (name : Text) : Bool :=
  if name = [] ∨ name = [dot] ∨ name = [dot, dot] ∨ lib.validString name = false ∨
      containsAny name [slash, backslash, 0] = true then false
  else
    let name := lib.lower name
    m.names.contains name || m.extensions.contains (pathExt name)

end Selectors

section Compilation

def deny : Text := ascii "deny"

def validCaps : List Text :=
  ["read", "list", "create", "update", "delete", "write", "execute", "sudo", "deny"].map ascii

inductive Visibility where
  | hidden | visible
  deriving DecidableEq

structure CompiledRule where
  path : Text
  visibility : Visibility
  matcher : Option Matcher
  caps : List Text
  deriving DecidableEq

@[ext]
structure Filter where
  rules : List CompiledRule
  deriving DecidableEq

def maxContextBytes : Nat := 32768
def maxContextRules : Nat := 256

def star : Text := ascii "*"
def recursive : Text := ascii "**"

def plainName (part : Text) : Bool :=
  part.all fun b => !(b < 0x20) && b != 0x7f && !(ascii "\\/?#&=%*").contains b

def patternParts : List Text → Bool
  | [] => true
  | part :: rest =>
    part != [] && part != [dot] && part != [dot, dot] && (part != recursive || rest.isEmpty) &&
      (part == star || part == recursive || plainName part) && patternParts rest

def resourceParts (parts : List Text) : Bool :=
  parts.all fun part =>
    part != [] && part != [dot] && part != [dot, dot] && part != star && part != recursive &&
      part.all fun b => !(b < 0x20) && b != 0x7f && b != backslash

variable (lib : Library)

def validPattern (value : Text) : Bool :=
  let value := trimSlashes value
  value != [] && lib.validString value && !containsText value [slash, slash] &&
    patternParts (value.splitOn slash)

def validResource (value : Text) : Bool :=
  let value := trimSlashes value
  value != [] && lib.validString value && !containsText value [slash, slash] &&
    resourceParts (value.splitOn slash)

def compileCaps : List Text → List Text → Except String (List Text)
  | [], caps => .ok caps
  | cap :: rest, caps =>
    let cap := folded lib cap
    if !validCaps.contains cap || caps.contains cap then .error "invalid capability"
    else compileCaps rest (caps ++ [cap])

def compileVisibility (value : Text) : Except String Visibility :=
  if value = [] ∨ value = ascii "hidden" then .ok .hidden
  else if value = ascii "visible" then .ok .visible
  else .error "invalid visibility"

def compileMatcher : Option Selector → Except String (Option Matcher)
  | none => .ok none
  | some selector => (selector.compile lib).map some

def validRule (rule : Rule) : Bool :=
  rule.policyID != [] && rule.policyID.length ≤ 128 && lib.validString rule.policyID &&
    !containsAny rule.policyID [slash, backslash, 0] && validPattern lib rule.path &&
    rule.capabilities != [] && rule.capabilities.length ≤ validCaps.length

def compileRule (rule : Rule) : Except String CompiledRule := do
  if validRule lib rule = false then throw "invalid rule"
  let visibility ← compileVisibility rule.visibility
  let caps ← compileCaps lib rule.capabilities []
  let matcher ← compileMatcher lib rule.fileTypes
  return ⟨rule.path, visibility, matcher, caps⟩

/-- The length of the context in JSON: the rules between commas, and what is around them. -/
def Context.encodedLength (c : Context) : Nat :=
  (ascii "\x7b\"version\":1,\"rules\":[]\x7d").length + (c.rules.map lib.ruleLength).sum +
    (c.rules.length - 1)

def Context.compile (c : Context) : Except String Filter :=
  if c.version ≠ 1 ∨ maxContextRules < c.rules.length then .error "unsupported context"
  else if maxContextBytes < c.encodedLength lib then .error "invalid context size"
  else (c.rules.mapM (compileRule lib)).map Filter.mk

end Compilation

section Evaluation

/-- What an entry is said to be; only files and directories are ever decided. -/
inductive EntryType where
  | file | directory | other
  deriving DecidableEq

structure Decision where
  allowed : Bool
  denied : Bool
  visibility : Visibility
  restricted : Bool
  deriving DecidableEq

def scoreParts : List Text → List Text → Option Nat
  | [], _ => some 0
  | _ :: _, [] => none
  | part :: parts, target :: targets =>
    if part = star then scoreParts parts targets
    else if part = target then (scoreParts parts targets).map (100 + part.length + ·)
    else none

/-- How specifically the parts of a pattern match those of a path, if they do. A pattern
that ends in `**` also matches everything below its other parts. -/
def matchParts (parts target : List Text) : Option Nat :=
  if parts.getLast? = some recursive then
    if target.length < parts.dropLast.length then none else scoreParts parts.dropLast target
  else if parts.length ≠ target.length then none
  else (scoreParts parts target).map (· + parts.length)

def matchPath (pattern value : Text) : Option Nat :=
  matchParts ((trimSlashes pattern).splitOn slash) ((trimSlashes value).splitOn slash)

def grants (caps : List Text) (capability : Text) : Bool :=
  caps.contains capability ||
    caps.contains (ascii "write") && (capability == ascii "create" || capability == ascii "update")

def shows (capability : Text) : Bool := capability == ascii "read" || capability == ascii "list"

structure Tally where
  best : Int
  found : Bool
  denied : Bool
  restricted : Bool
  anyHidden : Bool

def Tally.empty : Tally := ⟨-1, false, false, false, false⟩

variable (lib : Library) (resource capability : Text) (entry : EntryType)

def CompiledRule.matchesType (c : CompiledRule) : Bool :=
  match c.matcher with
  | none => true
  | some matcher => entry == .directory || matcher.matchesName lib (pathBase resource)

def Tally.add (t : Tally) (c : CompiledRule) : Tally :=
  match matchPath c.path resource with
  | none => t
  | some specificity =>
    let typed := c.matcher.isSome
    let denies := c.caps.contains deny
    if typed && entry == .directory && denies then t
    else
      let refused := denies && (!typed || c.caps.length == 1 || grants c.caps capability)
      let allow := !denies && grants c.caps capability
      let restrict (t : Tally) : Tally := { t with
        restricted := true
        anyHidden := t.anyHidden || c.visibility == .hidden }
      if !c.matchesType lib resource entry then
        if allow && shows capability then restrict t else t
      else if refused then
        if shows capability then restrict { t with denied := true } else { t with denied := true }
      else if allow && t.best ≤ specificity then { t with best := specificity, found := true }
      else t

def answerable : Bool :=
  validResource lib resource && validCaps.contains capability && capability != deny && entry != .other

/-- Denials win; a denied entry is hidden unless each restriction on it leaves it visible. -/
def Filter.evaluate (f : Filter) : Decision :=
  let capability := folded lib capability
  if answerable lib resource capability entry = false then ⟨false, false, .hidden, false⟩
  else
    let t := f.rules.foldl (Tally.add lib resource capability entry) .empty
    { allowed := t.found && !t.denied
      denied := t.denied
      visibility := if t.restricted && !t.anyHidden then .visible else .hidden
      restricted := t.restricted }

end Evaluation

section Meaning

variable (lib : Library) (resource capability : Text) (entry : EntryType)

def CompiledRule.speaks (c : CompiledRule) : Bool :=
  (matchPath c.path resource).isSome &&
    !(c.matcher.isSome && entry == .directory && c.caps.contains deny)

def CompiledRule.refuses (c : CompiledRule) : Bool :=
  c.caps.contains deny && (!c.matcher.isSome || c.caps.length == 1 || grants c.caps capability)

def CompiledRule.allows (c : CompiledRule) : Bool :=
  !c.caps.contains deny && grants c.caps capability

def CompiledRule.effect (c : CompiledRule) : Effect :=
  if c.speaks resource entry && c.matchesType lib resource entry then
    if c.refuses capability then .deny
    else if c.allows capability then .allow
    else .silent
  else .silent

/-- Whether it keeps a listing from showing the entry as it is: by denying it, or by
allowing other types only. -/
def CompiledRule.restricts (c : CompiledRule) : Bool :=
  c.speaks resource entry && shows capability &&
    if c.matchesType lib resource entry then c.refuses capability else c.allows capability

variable {lib resource capability entry}

section

variable (t : Tally) (c : CompiledRule)
include t c

theorem Tally.add_denied :
    (t.add lib resource capability entry c).denied =
      (t.denied || decide (c.effect lib resource capability entry = .deny)) := by
  unfold Tally.add CompiledRule.effect CompiledRule.speaks CompiledRule.refuses
  cases matchPath c.path resource with
  | none => simp
  | some specificity => grind

theorem Tally.add_found (fresh : t.found = false → t.best = -1) :
    (t.add lib resource capability entry c).found =
      (t.found || decide (c.effect lib resource capability entry = .allow)) := by
  unfold Tally.add CompiledRule.effect CompiledRule.speaks CompiledRule.refuses CompiledRule.allows
  cases matchPath c.path resource with
  | none => simp
  | some specificity => grind

theorem Tally.add_fresh (fresh : t.found = false → t.best = -1) :
    (t.add lib resource capability entry c).found = false →
      (t.add lib resource capability entry c).best = -1 := by
  unfold Tally.add
  cases matchPath c.path resource with
  | none => exact fresh
  | some specificity => grind

theorem Tally.add_restricted :
    (t.add lib resource capability entry c).restricted =
      (t.restricted || c.restricts lib resource capability entry) := by
  unfold Tally.add CompiledRule.restricts CompiledRule.speaks CompiledRule.refuses
    CompiledRule.allows
  cases matchPath c.path resource with
  | none => simp
  | some specificity => grind

theorem Tally.add_anyHidden :
    (t.add lib resource capability entry c).anyHidden =
      (t.anyHidden || (c.restricts lib resource capability entry && c.visibility == .hidden)) := by
  unfold Tally.add CompiledRule.restricts CompiledRule.speaks CompiledRule.refuses
    CompiledRule.allows
  cases matchPath c.path resource with
  | none => simp
  | some specificity => grind

end

variable (rules : List CompiledRule)

theorem tally_found : (rules.foldl (Tally.add lib resource capability entry) .empty).found =
    rules.any fun c => c.effect lib resource capability entry = .allow :=
  @foldl_flag _ _ (Tally.add lib resource capability entry) Tally.found _ _
    Tally.add_fresh Tally.add_found rules .empty fun _ => rfl

theorem tally_denied : (rules.foldl (Tally.add lib resource capability entry) .empty).denied =
    rules.any fun c => c.effect lib resource capability entry = .deny :=
  @foldl_flag _ _ (Tally.add lib resource capability entry) Tally.denied _ (fun _ => True)
    (fun _ _ _ => trivial) (fun t c _ => t.add_denied c) rules .empty trivial

theorem tally_restricted :
    (rules.foldl (Tally.add lib resource capability entry) .empty).restricted =
      rules.any (CompiledRule.restricts lib resource capability entry) :=
  @foldl_flag _ _ (Tally.add lib resource capability entry) Tally.restricted _ (fun _ => True)
    (fun _ _ _ => trivial) (fun t c _ => t.add_restricted c) rules .empty trivial

theorem tally_anyHidden :
    (rules.foldl (Tally.add lib resource capability entry) .empty).anyHidden =
      rules.any fun c => c.restricts lib resource capability entry && c.visibility == .hidden :=
  @foldl_flag _ _ (Tally.add lib resource capability entry) Tally.anyHidden _ (fun _ => True)
    (fun _ _ _ => trivial) (fun t c _ => t.add_anyHidden c) rules .empty trivial

theorem Filter.evaluate_eq (f : Filter)
    (asked : answerable lib resource (folded lib capability) entry = true) :
    f.evaluate lib resource capability entry =
      let effect := CompiledRule.effect lib resource (folded lib capability) entry
      let restricts := CompiledRule.restricts lib resource (folded lib capability) entry
      { allowed := permits effect f.rules
        denied := f.rules.any fun c => effect c = .deny
        visibility :=
          if f.rules.any restricts && !f.rules.any (fun c => restricts c && c.visibility == .hidden)
          then .visible else .hidden
        restricted := f.rules.any restricts } := by
  simp only [Filter.evaluate, asked, Bool.true_eq_false, if_false, tally_found, tally_denied,
    tally_restricted, tally_anyHidden, permits]

theorem Filter.evaluate_unanswerable (f : Filter)
    (not : answerable lib resource (folded lib capability) entry = false) :
    f.evaluate lib resource capability entry = ⟨false, false, .hidden, false⟩ := by
  simp only [Filter.evaluate, not, if_true]

end Meaning

section Compiled

variable {lib : Library}

theorem compileCaps_ok {capabilities caps out : List Text}
    (done : compileCaps lib capabilities caps = .ok out) :
    out = caps ++ capabilities.map (folded lib) := by
  induction capabilities generalizing caps with
  | nil => simpa [compileCaps] using done.symm
  | cons cap rest ih =>
    simp only [compileCaps] at done
    split at done
    · cases done
    · simpa using ih done

structure CompiledFrom (lib : Library) (rule : Rule) (c : CompiledRule) : Prop where
  valid : validRule lib rule = true
  path : c.path = rule.path
  visibility : compileVisibility rule.visibility = .ok c.visibility
  caps : c.caps = rule.capabilities.map (folded lib)
  matcher : compileMatcher lib rule.fileTypes = .ok c.matcher

theorem compileRule_ok {rule : Rule} {c : CompiledRule} (done : compileRule lib rule = .ok c) :
    CompiledFrom lib rule c := by
  cases valid : validRule lib rule with
  | false => simp [compileRule, valid, bind, Except.bind, throw, throwThe, MonadExceptOf.throw] at done
  | true =>
    simp only [compileRule, valid, Bool.true_eq_false, if_false] at done
    obtain ⟨visibility, shown, done⟩ := bind_ok_iff.mp done
    obtain ⟨caps, folds, done⟩ := bind_ok_iff.mp done
    obtain ⟨matcher, selects, done⟩ := bind_ok_iff.mp done
    cases done
    exact ⟨valid, rfl, shown, by simpa using compileCaps_ok folds, selects⟩

theorem CompiledFrom.matcher_cases {rule : Rule} {c : CompiledRule}
    (source : CompiledFrom lib rule c) :
    rule.fileTypes = none ∧ c.matcher = none ∨
      ∃ selector matcher, rule.fileTypes = some selector ∧ selector.compile lib = .ok matcher ∧
        c.matcher = some matcher := by
  have selects := source.matcher
  cases types : rule.fileTypes with
  | none =>
    rw [types] at selects
    exact .inl ⟨rfl, (Except.ok.inj selects).symm⟩
  | some selector =>
    rw [types, compileMatcher] at selects
    cases done : selector.compile lib with
    | error text =>
      rw [done] at selects
      cases selects
    | ok matcher =>
      rw [done] at selects
      exact .inr ⟨selector, matcher, rfl, done, (Except.ok.inj selects).symm⟩

/-- What a source rule says of an entry; a rule that does not compile says nothing. -/
def Rule.effect (lib : Library) (resource capability : Text) (entry : EntryType) (rule : Rule) :
    Effect :=
  match compileRule lib rule with
  | .ok c => c.effect lib resource capability entry
  | .error _ => .silent

theorem compile_ok_iff {c : Context} {f : Filter} : c.compile lib = .ok f ↔
    c.version = 1 ∧ c.rules.length ≤ maxContextRules ∧ c.encodedLength lib ≤ maxContextBytes ∧
      List.Forall₂ (fun rule compiled => compileRule lib rule = .ok compiled) c.rules f.rules := by
  rw [← mapM_ok_iff, Context.compile]
  split
  · rename_i refused
    simp only [reduceCtorEq, false_iff]
    omega
  · rename_i sized
    split
    · rename_i refused
      simp only [reduceCtorEq, false_iff]
      omega
    · rename_i short
      have fits : c.version = 1 ∧ c.rules.length ≤ maxContextRules ∧
          c.encodedLength lib ≤ maxContextBytes := by omega
      cases c.rules.mapM (compileRule lib) with
      | error text => simp [Except.map]
      | ok rules => simp [Except.map, fits, Filter.ext_iff]

theorem compile_effects {c : Context} {f : Filter} (done : c.compile lib = .ok f)
    {resource capability : Text} {entry : EntryType} :
    List.Forall₂ (fun rule c => Rule.effect lib resource capability entry rule =
      c.effect lib resource capability entry) c.rules f.rules := by
  obtain ⟨_, _, _, compiled⟩ := compile_ok_iff.mp done
  refine compiled.imp ?_
  intro rule c same
  rw [Rule.effect, same]

theorem compile_allowed {c : Context} {f : Filter} (done : c.compile lib = .ok f)
    {resource capability : Text} {entry : EntryType}
    (asked : answerable lib resource (folded lib capability) entry = true) :
    (f.evaluate lib resource capability entry).allowed =
      permits (Rule.effect lib resource (folded lib capability) entry) c.rules := by
  rw [f.evaluate_eq asked]
  exact (permits_forall₂ (compile_effects done)).symm

theorem compileRule_of_mem {context : Context} {filter : Filter} (compiled : context.compile lib = .ok filter)
    {rule : Rule} (known : rule ∈ context.rules) : ∃ c, compileRule lib rule = .ok c := by
  obtain ⟨_, _, _, each⟩ := compile_ok_iff.mp compiled
  obtain ⟨i, bound, rfl⟩ := List.getElem_of_mem known
  exact ⟨_, each.get bound (each.length_eq ▸ bound)⟩

theorem compile_any {context : Context} {filter : Filter} (done : context.compile lib = .ok filter)
    {p : CompiledRule → Bool} {q : Rule → Bool}
    (same : ∀ rule c, CompiledFrom lib rule c → p c = q rule) :
    filter.rules.any p = context.rules.any q := by
  obtain ⟨_, _, _, each⟩ := compile_ok_iff.mp done
  generalize context.rules = rules at each ⊢
  generalize filter.rules = compiled at each ⊢
  induction each with
  | nil => rfl
  | cons first _ ih => rw [List.any_cons, List.any_cons, ih, same _ _ (compileRule_ok first)]

theorem compile_subperm {c : Context} {f : Filter} (done : c.compile lib = .ok f)
    {rules : List Rule} (part : rules.Subperm c.rules) :
    ∃ f, Context.compile lib ⟨1, rules⟩ = .ok f := by
  obtain ⟨_, few, short, _⟩ := compile_ok_iff.mp done
  obtain ⟨out, results, _⟩ := mapM_ok fun rule inside =>
    compileRule_of_mem done (part.subset inside)
  have fewer := part.length_le
  have shorter : (rules.map lib.ruleLength).sum ≤ (c.rules.map lib.ruleLength).sum := by
    obtain ⟨same, perm, kept⟩ := part
    rw [← (perm.map _).sum_eq]
    exact (kept.map _).sum_le_sum fun _ _ => Nat.zero_le _
  refine ⟨⟨out⟩, compile_ok_iff.mpr ⟨rfl, fewer.trans few, ?_, mapM_ok_iff.mp results⟩⟩
  unfold Context.encodedLength at short ⊢
  simp only
  omega

end Compiled

section Sample

def sampleLibrary : Library where
  toLower := id
  equalFold := fun s t => decide (s = t)
  validString := isASCII
  runeCount := List.length
  extensionRunes := fun s => s.all fun b => b != dot
  ruleLength := fun rule => 100 + rule.path.length
  folds_alike := fun _ _ => rfl

end Sample

end Jolt.Access
