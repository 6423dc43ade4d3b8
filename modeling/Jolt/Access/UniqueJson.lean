import Jolt.Access.Scopes

/-! JSON that is checked before it is decoded into a struct. The check compares the names of an
object in lower case; the decoder stores into the field whose name is equal under case folding,
and folds more letters together. -/
namespace Jolt.Access
open List

/-- A value as the tokens of the decoder spell it. -/
inductive Json where
  | scalar
  | array (items : List Json)
  | object (fields : List (Text × Json))

section Check

variable (toLower : Text → Text)

def checkDepth (depth : Nat) : Except String Unit :=
  if 64 < depth then .error "context nesting is excessive" else .ok ()

mutual

def readValue (depth : Nat) : Json → Except String Unit
  | .scalar => checkDepth depth
  | .array items => do
    checkDepth depth
    readItems (depth + 1) items
  | .object fields => do
    checkDepth depth
    readFields (depth + 1) [] fields

def readItems (depth : Nat) : List Json → Except String Unit
  | [] => .ok ()
  | item :: rest => do
    readValue depth item
    readItems depth rest

def readFields (depth : Nat) (seen : List Text) : List (Text × Json) → Except String Unit
  | [] => .ok ()
  | (name, value) :: rest =>
    if toLower name ∈ seen then .error "duplicate context field"
    else do
      readValue depth value
      readFields depth (toLower name :: seen) rest

end

/-- `decode` gives the one value of well-formed text; for other text the decoder fails. -/
def validateUniqueJSON (decode : Text → Option Json) (data : Text) : Except String Unit :=
  match decode data with
  | none => .error "invalid JSON"
  | some value => readValue toLower 0 value

end Check

mutual

/-- The names of each object in a value. -/
def Json.objects : Json → List (List Text)
  | .scalar => []
  | .array items => itemObjects items
  | .object fields => fields.map Prod.fst :: fieldObjects fields

def itemObjects : List Json → List (List Text)
  | [] => []
  | item :: rest => item.objects ++ itemObjects rest

def fieldObjects : List (Text × Json) → List (List Text)
  | [] => []
  | (_, value) :: rest => value.objects ++ fieldObjects rest

end

section Meaning

variable {toLower : Text → Text}

theorem do_ok_iff {first second : Except String Unit} :
    (do first; second) = .ok () ↔ first = .ok () ∧ second = .ok () := by
  cases first <;> simp [bind, Except.bind]

mutual

theorem readValue_ok {depth : Nat} (value : Json) (read : readValue toLower depth value = .ok ()) :
    ∀ names ∈ value.objects, (names.map toLower).Nodup := by
  match value with
  | .scalar => nofun
  | .array items => exact readItems_ok items (do_ok_iff.mp read).2
  | .object fields =>
    obtain ⟨own, _, inner⟩ := readFields_ok fields (do_ok_iff.mp read).2
    rw [Json.objects, forall_mem_cons]
    exact ⟨by rwa [map_map], inner⟩

theorem readItems_ok {depth : Nat} (items : List Json) (read : readItems toLower depth items = .ok ()) :
    ∀ names ∈ itemObjects items, (names.map toLower).Nodup := by
  match items with
  | [] => nofun
  | item :: rest =>
    obtain ⟨first, others⟩ := do_ok_iff.mp read
    rw [itemObjects, forall_mem_append]
    exact ⟨readValue_ok item first, readItems_ok rest others⟩

theorem readFields_ok {depth : Nat} {seen : List Text} (fields : List (Text × Json))
    (read : readFields toLower depth seen fields = .ok ()) :
    (fields.map (toLower ∘ Prod.fst)).Nodup ∧ (∀ field ∈ fields, toLower field.1 ∉ seen) ∧
      ∀ names ∈ fieldObjects fields, (names.map toLower).Nodup := by
  match fields with
  | [] => exact ⟨nodup_nil, nofun,
      nofun⟩
  | (name, value) :: rest =>
    unfold readFields at read
    split_ifs at read with unseen
    obtain ⟨first, others⟩ := do_ok_iff.mp read
    obtain ⟨own, apart, inner⟩ := readFields_ok rest others
    rw [fieldObjects, forall_mem_append]
    refine ⟨nodup_cons.mpr ⟨?_, own⟩, ?_, readValue_ok value first, inner⟩
    · intro again
      obtain ⟨field, inside, same⟩ := mem_map.mp again
      exact apart field inside (mem_cons.mpr (.inl same))
    · rw [forall_mem_cons]
      exact ⟨unseen, fun field inside old => apart field inside (mem_cons_of_mem _ old)⟩

end

end Meaning

section Sample

/-- "ſ" is the long form of "s"; it is a small letter of its own and folds to "s". -/
def withoutLong : Text → Text
  | 0xC5 :: 0xBF :: rest => 115 :: withoutLong rest
  | b :: rest => b :: withoutLong rest
  | [] => []

def sampleFold (a b : Text) : Bool := withoutLong a == withoutLong b

def sampleText (letter : Text) : Text :=
  ascii "\x7b\"rules\":[],\"rule" ++ letter ++ ascii "\":[]\x7d"

def sampleDecode (data : Text) : Option Json :=
  ([[120], [0xC5, 0xBF]].find? fun letter => sampleText letter = data).map fun letter =>
    .object [(ascii "rules", .array []), (ascii "rule" ++ letter, .array [])]

end Sample

end Jolt.Access
