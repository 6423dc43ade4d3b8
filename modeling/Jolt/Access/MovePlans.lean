import Jolt.Access.Planning
import Jolt.Base.Records

/-! Moves between nodes that have to be confirmed. The node shows a plan, keeps its digest,
and later runs a move only if a fresh plan has the same digest. The digest covers what is
written of a plan: the binding of the signed lease, the policy and a record of each item,
every text of them with a zero byte behind it. -/
namespace Jolt.Access.Transfer
open Jolt.Base List
open Jolt.Jobs (ItemAction)

section Model

structure Binding where
  actorID : Text
  credentialID : Text
  operation : Text
  sourceNodeID : Text
  sourceGrantID : Text
  sourceMountID : Text
  sourceRoot : Text
  destinationNodeID : Text
  destinationGrantID : Text
  destinationMountID : Text
  destinationRoot : Text
  planID : Text
  jobOptionsDigest : Text
  deriving DecidableEq

variable (lib : Library)

def identifier (value : Text) (required : Bool) : Bool :=
  if value = [] then !required
  else value.length ≤ 128 && lib.validString value && trimSpace value == value &&
    value.all fun b => 0x21 ≤ b && b != 0x7f && !(ascii "/\\?#").contains b

def endpoint (node grant mount root : Text) : Bool :=
  if node = [] then grant == [] && mount == [] && root == []
  else if mount = [] ∨ root = [] ∨ trimSpace root ≠ root ∨ 2048 < root.length ∨
      lib.validString root = false ∨ containsAny root [backslash, 0] = true ∨
      isRooted letters root = true then false
  else root == [dot] || clean letters root == root && (root.splitOn slash).all fun part =>
    part != [] && part != [dot] && part != letters.parent

def base64Value (b : UInt8) : Option Nat :=
  if 65 ≤ b ∧ b ≤ 90 then some (b.toNat - 65)
  else if 97 ≤ b ∧ b ≤ 122 then some (b.toNat - 71)
  else if 48 ≤ b ∧ b ≤ 57 then some (b.toNat + 4)
  else if b = 45 then some 62
  else if b = 95 then some 63
  else none

/-- A SHA-256 sum in unpadded base64: 43 letters, the last of which ends in two zero bits. -/
def validJobOptionsDigest (digest : Text) : Bool :=
  digest == [] || digest.length == 43 && digest.all (fun b => (base64Value b).isSome) &&
    (digest.getLast?.bind base64Value).map (· % 4) == some 0

def Binding.verified (b : Binding) : Bool :=
  identifier lib b.planID true && validJobOptionsDigest b.jobOptionsDigest &&
    identifier lib b.actorID true && identifier lib b.credentialID true &&
    identifier lib b.sourceNodeID true && identifier lib b.sourceMountID true &&
    identifier lib b.sourceGrantID false && identifier lib b.destinationNodeID false &&
    identifier lib b.destinationGrantID false && identifier lib b.destinationMountID false &&
    endpoint lib b.sourceNodeID b.sourceGrantID b.sourceMountID b.sourceRoot &&
    endpoint lib b.destinationNodeID b.destinationGrantID b.destinationMountID b.destinationRoot &&
    b.sourceGrantID != [] && b.destinationGrantID != [] && b.destinationNodeID != [] &&
    b.destinationNodeID != b.sourceNodeID

def signedTransferAccess (filter : Filter) (b : Binding) : Option TransferAccess := do
  let destination ← newAccessFilter filter (mountScope b.destinationNodeID b.destinationMountID)
  let source ← newAccessFilter filter (mountScope b.sourceNodeID b.sourceMountID)
  some ⟨destination, source, b.sourceRoot⟩

structure SignedBatchPlan where
  binding : Binding
  plan : CopyPlan
  omitted : Nat
  move : Bool
  deriving DecidableEq

/-- The plan of a signed batch; `claims` is what a lease with a good signature says. -/
def Puller.planSignedBatch (n : Puller) (request : BatchPullRequest) (nodeID : Text)
    (claims : Option (Binding × Filter)) : Except PlanError SignedBatchPlan := do
  let (binding, filter) ← match claims with
    | some (binding, filter) =>
      if binding.verified n.lib = false ∨ nodeID = [] ∨ binding.destinationNodeID ≠ nodeID ∨
          binding.sourceNodeID ≠ trimSpace request.peerNodeID ∨
          binding.sourceGrantID ≠ trimSpace request.sourceGrantID ∨
          binding.destinationGrantID ≠ trimSpace request.destinationGrantID ∨
          binding.jobOptionsDigest = [] then .error (.invalid "")
      else .ok (binding, filter)
    | none => .error (.invalid "")
  let move := n.strings.toLower (trimSpace request.operation) == ascii "move"
  if binding.operation ≠ ascii (if move then "transfer_move_batch" else "transfer_pull_batch") then
    .error (.invalid "")
  let stored ← n.transferGrant (trimSpace request.destinationGrantID)
  let (grant, destination) ← receiveDestination n.strings stored (trimSpace request.peerNodeID)
    request.destinationPath request.conflictPolicy
  if binding.destinationMountID ≠ [] ∧ grant.mountID ≠ binding.destinationMountID then
    .error .forbidden
  if binding.destinationRoot ≠ destination then .error (.invalid "")
  let access ← match signedTransferAccess filter binding with
    | none => .error (.invalid "")
    | some access => .ok access
  let (plan, omitted) ← n.planBatch request (some access)
  if move ∧ 0 < omitted then
    .error (.failed "a move needs access to every selected entry")
  .ok ⟨binding, plan, omitted, move⟩

end Model

section Digests

def typeText : EntryType → Text
  | .file => ascii "file"
  | .directory => ascii "directory"
  | .other => []

def actionText : ItemAction → Text
  | .copy => ascii "copy"
  | .create => ascii "create"
  | .merge => ascii "merge"
  | .skip => ascii "skip"
  | .overwrite => ascii "overwrite"
  | .rename => ascii "rename"
  | .conflict => ascii "conflict"
  | .fail => ascii "fail"
  | .other text => ascii text

def decimal (n : Int) : Text := ascii n.repr

def header (b : Binding) (policy : Text) : List Text :=
  [ascii "jolt-transfer-move-plan-v1", b.actorID, b.sourceNodeID, b.sourceGrantID, b.sourceMountID,
    b.sourceRoot, b.destinationNodeID, b.destinationGrantID, b.destinationMountID,
    b.destinationRoot, b.jobOptionsDigest, policy]

def record (item : Item) : List Text :=
  [item.sourcePath, item.destinationPath, typeText item.type, decimal item.size,
    decimal item.modifiedAt, item.checksum, actionText item.action,
    ascii (if item.sourceRoot then "true" else "false")]

/-- The hash, taken to be injective, and the library's sort: it orders items by their source
paths, those with the same one in any way, and leaves alone what is in order. -/
structure Hashing where
  sha256 : Text → Text
  sort : List Item → List Item
  injective : Function.Injective sha256
  perm : ∀ items, (sort items).Perm items
  ordered : ∀ items, (sort items).Pairwise fun a b => a.sourcePath ≤ b.sourcePath
  steady : ∀ items, items.Pairwise (fun a b => a.sourcePath ≤ b.sourcePath) → sort items = items

def Hashing.written (h : Hashing) (b : Binding) (plan : CopyPlan) : Text :=
  terminated 0 (header b plan.conflictPolicy) ++
    (h.sort plan.items).flatMap fun item => terminated 0 (record item)

def Hashing.movePlanDigest (h : Hashing) (b : Binding) (plan : CopyPlan) : Text :=
  h.sha256 (h.written b plan)

end Digests

section Texts

theorem ascii_inj {s t : String} (first : ∀ c ∈ s.toList, c.toNat < 256)
    (second : ∀ c ∈ t.toList, c.toNat < 256) (same : ascii s = ascii t) :
    s.toList = t.toList := by
  have back (s : String) (small : ∀ c ∈ s.toList, c.toNat < 256) :
      (ascii s).map (fun b => Char.ofNat b.toNat) = s.toList := by
    rw [ascii, map_map]
    refine (map_congr_left fun c known => ?_).trans (map_id _)
    have fits : c.toNat % 2 ^ 8 = c.toNat := Nat.mod_eq_of_lt (small c known)
    simp only [Function.comp_apply, UInt8.toNat_ofNat', fits, Char.ofNat_toNat, id]
  rw [← back s first, ← back t second, same]

theorem decimal_inj {m n : Int} (same : decimal m = decimal n) : m = n := by
  have small (n : Int) : ∀ c ∈ n.repr.toList, c.toNat < 256 := fun c known => by
    have range := int_repr_range n c known
    omega
  exact int_repr_inj (ascii_inj (small m) (small n) same)

theorem zero_not_mem_decimal (n : Int) : 0 ∉ decimal n := by
  intro inside
  obtain ⟨c, known, same⟩ := mem_map.mp inside
  have range := int_repr_range n c known
  have value := congrArg UInt8.toNat same
  rw [UInt8.toNat_ofNat', Nat.mod_eq_of_lt (by omega)] at value
  simp only [UInt8.toNat_zero] at value
  omega

end Texts

section Records

def described (item : Item) : Item :=
  { item with ordinal := 0, relativePath := [], sourceCleanupState := .none }

structure Plainly (item : Item) : Prop where
  source : 0 ∉ item.sourcePath
  destination : 0 ∉ item.destinationPath
  checksum : 0 ∉ item.checksum

variable {a b : Item}

theorem record_free (known : Known a) (plain : Plainly a) : ∀ text ∈ record a, 0 ∉ text := by
  have type : ∀ t : EntryType, 0 ∉ typeText t := by
    intro t
    cases t <;> decide
  have action : 0 ∉ actionText a.action := by
    cases same : a.action with
    | other text => exact absurd same (known.acted text)
    | _ => decide
  have root : 0 ∉ ascii (if a.sourceRoot then "true" else "false") := by
    cases a.sourceRoot <;> decide
  simp only [record, forall_mem_cons, not_mem_nil, false_implies, implies_true, and_true]
  exact ⟨plain.source, plain.destination, type _, zero_not_mem_decimal _, zero_not_mem_decimal _,
    plain.checksum, action, root⟩

theorem described_inj (first : Known a) (second : Known b) (same : record a = record b) :
    described a = described b := by
  have types : ∀ s t : EntryType, typeText s = typeText t → s = t := by
    intro s t
    cases s <;> cases t <;> decide
  have roots : ∀ s t : Bool, ascii (if s then "true" else "false") =
      ascii (if t then "true" else "false") → s = t := by decide
  have actions : actionText a.action = actionText b.action → a.action = b.action := by
    have left := first.acted
    have right := second.acted
    generalize a.action = x at left
    generalize b.action = y at right
    cases x with
    | other text => exact absurd rfl (left text)
    | _ =>
      cases y with
      | other text => exact absurd rfl (right text)
      | _ => decide
  simp only [record, List.cons.injEq] at same
  obtain ⟨source, destination, type, size, modified, checksum, action, root, _⟩ := same
  cases a
  cases b
  simp only at source destination type size modified checksum action root actions
  simp [described, source, destination, types _ _ type, decimal_inj size, decimal_inj modified,
    checksum, actions action, roots _ _ root]

theorem record_described (item : Item) : record (described item) = record item := rfl

/-- Two items as one, whose checksum holds the end of the first and the start of the second. -/
def merged (a b : Item) : Item :=
  { a with
    checksum := a.checksum ++ 0 :: terminated 0 ((record a).drop 6 ++ (record b).take 5) ++ b.checksum
    action := b.action
    sourceRoot := b.sourceRoot }

theorem merged_record (a b : Item) :
    terminated 0 (record (merged a b)) = terminated 0 (record a) ++ terminated 0 (record b) := by
  simp [record, merged]

theorem Known.merged (first : Known a) (second : Known b) : Known (merged a b) :=
  ⟨first.typed, second.acted⟩

def written (items : List Item) : Text := items.flatMap fun item => terminated 0 (record item)

theorem written_cons (item : Item) (items : List Item) :
    written (item :: items) = terminated 0 (record item) ++ written items := rfl

theorem written_singleton (item : Item) : written [item] = terminated 0 (record item) :=
  append_nil _

theorem written_eq_nil {items : List Item} (none : written items = []) : items = [] := by
  cases items with
  | nil => rfl
  | cons a items => simp [written_cons, record] at none

theorem exists_merged {items : List Item} (nonempty : items ≠ [])
    (known : ∀ item ∈ items, Known item) :
    ∃ item, Known item ∧ some item.sourcePath = items.head?.map Item.sourcePath ∧
      terminated 0 (record item) = written items := by
  induction items with
  | nil => exact absurd rfl nonempty
  | cons a items ih =>
    have first := known a mem_cons_self
    by_cases last : items = []
    · exact ⟨a, first, rfl, by rw [last, written_singleton]⟩
    obtain ⟨b, second, _, rest⟩ := ih last fun item inside =>
      known item (mem_cons_of_mem a inside)
    exact ⟨Transfer.merged a b, first.merged second, rfl, by
      rw [merged_record, rest, written_cons]⟩

theorem map_described_eq {l m : List Item} (left : ∀ item ∈ l, Known item)
    (right : ∀ item ∈ m, Known item) (records : l.map record = m.map record) :
    l.map described = m.map described := by
  induction l generalizing m with
  | nil =>
    cases m with
    | nil => rfl
    | cons b m => cases records
  | cons a l ih =>
    cases m with
    | nil => cases records
    | cons b m =>
      obtain ⟨first, rest⟩ := List.cons.inj records
      have head := described_inj (left a mem_cons_self) (right b mem_cons_self) first
      have tail := ih (fun item known => left item (mem_cons_of_mem a known))
        (fun item known => right item (mem_cons_of_mem b known)) rest
      rw [map_cons, map_cons, head, tail]

theorem map_record_eq {l m : List Item} (texts : l.flatMap record = m.flatMap record) :
    l.map record = m.map record := by
  induction l generalizing m with
  | nil =>
    cases m with
    | nil => rfl
    | cons b m => cases texts
  | cons a l ih =>
    cases m with
    | nil => cases texts
    | cons b m =>
      rw [flatMap_cons, flatMap_cons] at texts
      obtain ⟨head, rest⟩ := append_inj texts rfl
      rw [map_cons, map_cons, head, ih rest]

theorem written_inj {l m : List Item} (left : ∀ item ∈ l, Known item ∧ Plainly item)
    (right : ∀ item ∈ m, Known item ∧ Plainly item) (same : written l = written m) :
    l.map record = m.map record := by
  have whole (l : List Item) : written l = terminated 0 (l.flatMap record) := by
    simp [written, terminated, flatMap_assoc]
  have free {l : List Item} (all : ∀ item ∈ l, Known item ∧ Plainly item) :
      ∀ text ∈ l.flatMap record, 0 ∉ text := by
    intro text inside
    obtain ⟨item, there, known⟩ := mem_flatMap.mp inside
    exact record_free (all item there).1 (all item there).2 text known
  rw [whole, whole] at same
  exact map_record_eq (terminated_inj (free left) (free right) same)

end Records

section Plans

/-- A signed plan: nothing it is bound to holds a zero byte; the items are any. -/
structure MovePlan where
  binding : Binding
  plan : CopyPlan
  bound : ∀ text ∈ header binding plan.conflictPolicy, 0 ∉ text
  known : ∀ item ∈ plan.items, Known item

/-- The same actor, endpoints, options and policy, and the same items in any order. -/
def MovePlan.Same (x y : MovePlan) : Prop :=
  header x.binding x.plan.conflictPolicy = header y.binding y.plan.conflictPolicy ∧
    (x.plan.items.map described).Perm (y.plan.items.map described)

def MovePlan.digest (h : Hashing) (x : MovePlan) : Text := h.movePlanDigest x.binding x.plan

/-- The record of the item is that of another one as well, or that of two items. -/
def Ambiguous (item : Item) : Prop :=
  (∃ other, Known other ∧ record other ≠ record item ∧
    terminated 0 (record other) = terminated 0 (record item)) ∨
  ∃ first second, Known first ∧ Known second ∧ first.sourcePath ≤ second.sourcePath ∧
    written [first, second] = terminated 0 (record item)

variable {h : Hashing} {x y : MovePlan}

theorem digest_eq_iff : x.digest h = y.digest h ↔
    header x.binding x.plan.conflictPolicy = header y.binding y.plan.conflictPolicy ∧
      written (h.sort x.plan.items) = written (h.sort y.plan.items) := by
  have length : (header x.binding x.plan.conflictPolicy).length =
      (header y.binding y.plan.conflictPolicy).length := rfl
  constructor
  · intro same
    exact terminated_start length x.bound y.bound (h.injective same)
  rintro ⟨bound, records⟩
  rw [written, written] at records
  rw [MovePlan.digest, MovePlan.digest, Hashing.movePlanDigest, Hashing.movePlanDigest,
    Hashing.written, Hashing.written, bound, records]

theorem sorted_known (h : Hashing) (x : MovePlan) : ∀ item ∈ h.sort x.plan.items, Known item :=
  fun item inside => x.known item ((h.perm _).mem_iff.mp inside)

theorem same_of_records (h : Hashing)
    (bound : header x.binding x.plan.conflictPolicy = header y.binding y.plan.conflictPolicy)
    (records : (h.sort x.plan.items).map record = (h.sort y.plan.items).map record) :
    x.Same y := by
  refine ⟨bound, ?_⟩
  have each := map_described_eq (sorted_known h x) (sorted_known h y) records
  exact ((h.perm _).map described).symm.trans (each ▸ (h.perm _).map described)

theorem MovePlan.Same.length_eq (same : x.Same y) : x.plan.items.length = y.plan.items.length := by
  simpa using same.2.length_eq

def MovePlan.withItems (x : MovePlan) (items : List Item) (known : ∀ item ∈ items, Known item) :
    MovePlan :=
  ⟨x.binding, { x.plan with items := items }, x.bound, known⟩

theorem digest_withItems (items : List Item) (known : ∀ item ∈ items, Known item)
    (order : items.Pairwise fun a b => a.sourcePath ≤ b.sourcePath)
    (same : written items = written (h.sort x.plan.items)) :
    (x.withItems items known).digest h = x.digest h := by
  refine digest_eq_iff.mpr ⟨rfl, ?_⟩
  have steady : h.sort (x.withItems items known).plan.items = items := h.steady items order
  rw [steady, same]

theorem records_of_clear {items : List Item} {item : Item}
    (known : ∀ item ∈ items, Known item)
    (order : items.Pairwise fun a b => a.sourcePath ≤ b.sourcePath) (clear : ¬ Ambiguous item)
    (same : written items = written [item]) : items.map record = [record item] := by
  rw [written_singleton] at same
  cases items with
  | nil => simp [written, record] at same
  | cons first rest =>
    have head := known first mem_cons_self
    by_cases last : rest = []
    · rw [last, written_singleton] at same
      rw [last, map_singleton]
      by_contra other
      exact clear (.inl ⟨first, head, fun equal => other (by rw [equal]), same⟩)
    · -- however many items follow the first, one of them could stand for all
      obtain ⟨second, tail, path, all⟩ := exists_merged last fun item inside =>
        known item (mem_cons_of_mem first inside)
      refine (clear (.inr ⟨first, second, head, tail, ?_, ?_⟩)).elim
      · obtain ⟨next, inside, at_head⟩ : ∃ next ∈ rest, second.sourcePath = next.sourcePath := by
          cases rest with
          | nil => exact absurd rfl last
          | cons next rest => exact ⟨next, mem_cons_self, Option.some.inj path⟩
        rw [at_head]
        exact rel_of_pairwise_cons order inside
      · rw [← same, written_cons, written_cons first, written_singleton, all]

end Plans

section Signed

variable {lib : Library}

theorem Puller.planSignedBatch_ok {n : Puller} {request : BatchPullRequest} {nodeID : Text}
    {claims : Option (Binding × Filter)} {signed : SignedBatchPlan}
    (done : n.planSignedBatch request nodeID claims = .ok signed) :
    ∃ filter access, claims = some (signed.binding, filter) ∧
      signed.binding.verified n.lib = true ∧
      signedTransferAccess filter signed.binding = some access ∧
      n.planBatch request (some access) = .ok (signed.plan, signed.omitted) := by
  simp only [planSignedBatch] at done
  split at done
  · rename_i binding filter
    split at done
    · cases done
    rename_i accepted
    simp only [not_or, Bool.not_eq_false] at accepted
    simp only [bind_ok_iff, refuse_ok_iff] at done
    obtain ⟨_, first, _, stored, _, ⟨grant, destination⟩, _, _, _, done⟩ := done
    cases first
    split at done
    · cases done
    rename_i access signs
    simp only [bind_ok_iff, refuse_ok_iff] at done
    obtain ⟨_, second, ⟨plan, omitted⟩, planned, _, same⟩ := done
    cases second
    cases same
    exact ⟨filter, access, rfl, accepted.1, signs, planned⟩
  · cases done

end Signed

section Statement

theorem eq_singleton {α : Type} {l : List α} {a : α} (few : l.length ≤ 1) (inside : a ∈ l) :
    l = [a] := by
  cases l with
  | nil => cases inside
  | cons b l =>
    obtain rfl : l = [] := length_eq_zero_iff.mp (by simpa using few)
    rw [mem_singleton.mp inside]

def sampleHashing : Hashing where
  sha256 := id
  sort := List.insertionSort fun a b => a.sourcePath ≤ b.sourcePath
  injective := Function.injective_id
  perm := perm_insertionSort _
  ordered := fun items => pairwise_insertionSort _ items
  steady := fun _ order => order.insertionSort_eq

/-- A node that may receive into one directory, from a peer that lists these files of `s`. -/
def receiver (files : List (Text × Text)) : Puller where
  lib := sampleLibrary
  strings := sampleControl.strings
  trustedPeer := .ok
  transferGrant _ := .ok (some
    { id := ascii "h", peerNodeID := ascii "n", mountID := ascii "d", path := ascii "in",
      direction := ascii "receive", enabled := true, conflictPolicies := [ascii "fail"],
      exclude := [], read := false, write := true, delete := false })
  files _ := { isHiddenPath := fun _ => .ok false, metadata := fun _ => .ok none,
               checksum := fun _ => .ok [], inspect := fun _ _ _ => none }
  fetchRemoteManifest _ _ _ _ := .ok (⟨[dot], .directory, 0, 0, []⟩ ::
    files.map fun (path, checksum) => ⟨path, .file, 1, 2, checksum⟩)
  validateRemoteMoveSource _ _ _ := none

def moveOfS : BatchPullRequest where
  peerNodeID := ascii "n"
  sourceGrantID := ascii "g"
  sourcePaths := [ascii "s"]
  sourceNames := []
  destinationGrantID := ascii "h"
  destinationPath := []
  operation := ascii "move"
  conflictPolicy := []
  verifyChecksum := true

def moveLease : Binding where
  actorID := ascii "u"
  credentialID := ascii "c"
  operation := ascii "transfer_move_batch"
  sourceNodeID := ascii "n"
  sourceGrantID := ascii "g"
  sourceMountID := ascii "m"
  sourceRoot := [dot]
  destinationNodeID := ascii "k"
  destinationGrantID := ascii "h"
  destinationMountID := ascii "d"
  destinationRoot := ascii "in"
  planID := ascii "j"
  jobOptionsDigest := List.replicate 43 65

def everything : Filter := 
  ⟨[⟨ascii "nodes/**", .visible, none, [ascii "list", ascii "read"]⟩]⟩

def planOf (files : List (Text × Text)) : Except PlanError SignedBatchPlan :=
  (receiver files).planSignedBatch moveOfS (ascii "k") (some (moveLease, everything))

end Statement

end Jolt.Access.Transfer
