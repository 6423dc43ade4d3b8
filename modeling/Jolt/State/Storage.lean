import Jolt.Base.Files
import Jolt.State.Index

/-! The encrypted state directory: one journal file for each transaction, a head
that names the last committed one, and a manifest whose pages replace the journal
when the store is compacted. Every operation is given by the file changes it makes,
in the order it makes them, so that a crash can be placed between any two. -/
namespace Jolt.State
open Jolt.Base

def compactTransactions : Nat := 1024
def compactBytes : Nat := 64 * 2 ^ 20
def pageRecords : Nat := 256
def pageBytes : Nat := 2 ^ 20
def currentEnvelopeVersion : Nat := 8
def stateFormat : String := "jolt-yaml-state"

/- Sequence numbers are unsigned 64-bit; the largest one, as an argument of
`read`, stands for any sequence. -/
def maxUint64 : Nat := 2 ^ 64 - 1

/- File names, up to the zero padded decimal in which they are written. Twenty
digits hold every sequence, so the order of the names is the order of the numbers. -/
inductive Name where
  | store | head | manifest
  | journal (seq : Nat)
  | page (seq index : Nat)
  | historyPage (seq index : Nat)
  deriving DecidableEq, Repr

inductive Kind where
  | header | head | transaction | snapshot | manifest
  deriving DecidableEq, Repr

structure Manifest where
  pages : List Name
  historyPages : List Name
  deriving DecidableEq, Repr

inductive Plain (δ : Type) where
  | header (format : String)
  | head
  | document (records : List (Record δ))
  | manifest (m : Manifest)

structure Aad where
  version : Nat
  storageID : String
  kind : Kind
  sequence : Nat
  name : Name
  deriving DecidableEq, Repr

/-- YAML encoding and AES-GCM as the store relies on them: what was sealed opens
again under the same name and header. The nonce travels with the sealed text. -/
structure Cipher (δ σ : Type) where
  encrypt : Plain δ → Aad → σ
  decrypt : σ → Aad → Option (Plain δ)
  decrypt_encrypt : ∀ plain aad, decrypt (encrypt plain aad) aad = some plain

structure Envelope (σ : Type) where
  version : Nat
  storageID : String
  kind : Kind
  sequence : Nat
  ciphertext : σ

/-- The encryption in use and the two lengths that decide when to compact. -/
structure Engine (δ σ : Type) extends Cipher δ σ where
  fileSize : Envelope σ → Nat
  dataSize : δ → Nat

abbrev StateDir (σ : Type) := Dir Name (Envelope σ)
abbrev StateAction (σ : Type) := Action Name (Envelope σ)

structure Reference where
  file : Name
  slot : Nat
  group : String
  order : String
  state : String
  deriving DecidableEq, Repr

instance : Placed Reference := ⟨Reference.group, Reference.order, Reference.state⟩

structure Store where
  id : String
  envelopeVersion : Nat
  index : Index Reference
  buckets : List String
  pendingHistory : Finset (String × String)
  historyPages : List Name
  sequence : Nat
  snapshotSequence : Nat
  journalCount : Nat
  journalBytes : Nat

def emptyStore (id : String) : Store where
  id := id
  envelopeVersion := 1
  index := Index.empty
  buckets := []
  pendingHistory := ∅
  historyPages := []
  sequence := 0
  snapshotSequence := 0
  journalCount := 0
  journalBytes := 0

/-- The identity drawn for a new directory: sixteen random bytes in hexadecimal. -/
structure Identity where
  text : String
  drawn : text ≠ ""

def historyBucket (bucket : String) : Bool := bucket = "events" || bucket = "audit"

def Name.isHistory : Name → Bool
  | .historyPage _ _ => true
  | _ => false

/- The name is printed with at least six digits for the page but scanned back
with at most six, so a page numbered 1000000 or higher is not recognised. -/
def historyPageIdentity : Name → Option (Nat × Nat)
  | .historyPage seq index => if index < 10 ^ 6 then some (seq, index) else none
  | _ => none

def applyRecord {δ : Type} (s : Store) (name : Name) (snapshot : Bool) (slot : Nat)
    (r : Record δ) : Except String Store :=
  if r.bucket = "" ∨ r.key = "" then .error "empty state record identity"
  else if snapshot = true ∧ (s.index.refs r.bucket r.key).isSome = true then
    .error "duplicate snapshot record"
  else .ok { s with
    buckets := if r.bucket ∈ s.buckets then s.buckets else s.buckets ++ [r.bucket]
    index := s.index.applyRecord r ⟨name, slot, r.group, r.order, r.state⟩
    pendingHistory :=
      if historyBucket r.bucket then
        if r.delete || name.isHistory then s.pendingHistory.erase (r.bucket, r.key)
        else insert (r.bucket, r.key) s.pendingHistory
      else s.pendingHistory }

def applyFrom {δ : Type} (s : Store) (name : Name) (snapshot : Bool) :
    Nat → List (Record δ) → Except String Store
  | _, [] => .ok s
  | slot, r :: rest => do
    let s ← applyRecord s name snapshot slot r
    applyFrom s name snapshot (slot + 1) rest

def apply {δ : Type} (s : Store) (doc : List (Record δ)) (name : Name) (snapshot : Bool) :
    Except String Store :=
  applyFrom s name snapshot 0 doc

section Files

variable {δ σ : Type} (engine : Engine δ σ)

def sealFile (version : Nat) (id : String) (name : Name) (kind : Kind) (seq : Nat)
    (plain : Plain δ) : Envelope σ :=
  ⟨version, id, kind, seq, engine.encrypt plain ⟨version, id, kind, seq, name⟩⟩

def write (s : Store) (name : Name) (kind : Kind) (seq : Nat) (plain : Plain δ) : Envelope σ :=
  sealFile engine s.envelopeVersion s.id name kind seq plain

def read (s : Store) (d : StateDir σ) (name : Name) (kind : Kind) (seq : Nat) :
    Except String (Nat × Plain δ × Store) :=
  match d.lookup name with
  | none => .error "file does not exist"
  | some e =>
    if e.version < 1 ∨ currentEnvelopeVersion < e.version ∨
        (kind ≠ .header ∧ s.envelopeVersion < e.version) ∨ e.kind ≠ kind ∨
        (seq ≠ maxUint64 ∧ e.sequence ≠ seq) ∨ e.storageID = "" ∨
        (s.id ≠ "" ∧ s.id ≠ e.storageID) then
      .error "state envelope identity mismatch"
    else match engine.decrypt e.ciphertext
        ⟨e.version, e.storageID, e.kind, e.sequence, name⟩ with
      | none => .error "cannot authenticate state: wrong key or corrupted file"
      | some plain => .ok (e.sequence, plain, { s with
          envelopeVersion := if kind = .header then e.version else s.envelopeVersion
          id := e.storageID })

def readDocument (s : Store) (d : StateDir σ) (name : Name) (kind : Kind) (seq : Nat) :
    Except String (List (Record δ) × Store) := do
  let (_, plain, s) ← read engine s d name kind seq
  match plain with
  | .document records => .ok (records, s)
  | _ => .error "invalid state document"

def Name.contents : Name → Option (Kind × Nat)
  | .journal seq => some (.transaction, seq)
  | .page seq _ => some (.snapshot, seq)
  | .historyPage seq _ => some (.snapshot, seq)
  | _ => none

/- Documents are immutable once written, so the cache of the source is left out. -/
def load (s : Store) (d : StateDir σ) (name : Name) : Option (List (Record δ)) := do
  let (kind, seq) ← name.contents
  match readDocument engine s d name kind seq with
  | .ok (records, _) => some records
  | .error _ => none

def record (s : Store) (d : StateDir σ) (ref : Reference) : Option (Record δ) :=
  (load engine s d ref.file).bind (fun doc => doc[ref.slot]?)

def view (s : Store) (d : StateDir σ) : Index (Record δ) where
  refs := fun bucket key => (s.index.refs bucket key).bind (record engine s d)
  ordered := s.index.ordered

end Files

section Open

variable {δ σ : Type} (engine : Engine δ σ)

def openHistory (d : StateDir σ) (seq : Nat) :
    List Name → List Name → Store → Except String Store
  | [], _, s => .ok s
  | name :: rest, seen, s =>
    match historyPageIdentity name with
    | none => .error "invalid history page reference"
    | some (pageSeq, _) =>
      if seq < pageSeq ∨ name ∈ seen then .error "invalid history page reference"
      else do
        let (doc, s) ← readDocument engine s d name .snapshot pageSeq
        if doc.any (fun r => !historyBucket r.bucket || r.delete) then
          .error "invalid immutable history record"
        let s ← apply s doc name true
        openHistory d seq rest (name :: seen) s

def openPages (d : StateDir σ) (seq : Nat) : Nat → List Name → Store → Except String Store
  | _, [], s => .ok s
  | i, name :: rest, s =>
    if name ≠ .page seq i then .error "invalid snapshot page reference"
    else do
      let (doc, s) ← readDocument engine s d name .snapshot seq
      let s ← apply s doc name true
      openPages d seq (i + 1) rest s

def openManifest (d : StateDir σ) (s : Store) : Except String Store :=
  if .manifest ∈ d then do
    let (seq, plain, s) ← read engine s d .manifest .manifest maxUint64
    match plain with
    | .manifest m => do
      let s := { s with sequence := seq, snapshotSequence := seq }
      let s ← openHistory engine d seq m.historyPages [] s
      openPages engine d seq 0 m.pages { s with historyPages := m.historyPages }
    | _ => .error "invalid state manifest"
  else .ok s

def Name.journalSeq : Name → Option Nat
  | .journal seq => some seq
  | _ => none

/- `os.ReadDir` lists a directory in the order of its names. -/
def journalEntries (d : StateDir σ) : List Nat :=
  (d.keys.filterMap Name.journalSeq).insertionSort (· ≤ ·)

def openJournal (d : StateDir σ) : List Nat → Store → Except String Store
  | [], s => .ok s
  | seq :: rest, s =>
    if seq ≤ s.snapshotSequence then openJournal d rest s
    else if seq ≠ (s.sequence + 1) % 2 ^ 64 then .error "journal sequence gap"
    else do
      let (doc, s) ← readDocument engine s d (.journal seq) .transaction seq
      let s ← apply s doc (.journal seq) false
      openJournal d rest { s with
        sequence := seq
        journalCount := s.journalCount + 1
        journalBytes := s.journalBytes + ((d.lookup (.journal seq)).map engine.fileSize).getD 0 }

def readHeader (d : StateDir σ) (s : Store) : Except String Store := do
  let (_, plain, s) ← read engine s d .store .header 0
  match plain with
  | .header format =>
    if format = stateFormat then .ok s else .error "unsupported state format"
  | _ => .error "unsupported state format"

/-- What `open` does once the header is there. A head that lags behind a published
transaction is written again before the store is returned. -/
def recover (d : StateDir σ) (s : Store) : Except String (Store × List (StateAction σ)) := do
  let (committed, _, s) ← read engine s d .head .head maxUint64
  let s ← openManifest engine d s
  let s ← openJournal engine d (journalEntries d) s
  if s.sequence < committed then .error "committed journal tail is missing"
  else if committed < s.sequence then
    .ok (s, [.put .head (write engine s .head .head s.sequence .head)])
  else .ok (s, [])

def firstActions (s : Store) : List (StateAction σ) :=
  [.put .store (write engine s .store .header 0 (.header stateFormat)),
    .put .head (write engine s .head .head 0 .head)]

/-- `Open`. The first start writes the header and the head; `id` is the random
identity it draws. -/
def openStore (id : Identity) (d : StateDir σ) : Except String (Store × List (StateAction σ)) :=
  if .store ∈ d then do
    let s ← readHeader engine d (emptyStore "")
    recover engine d s
  else if d.keys ≠ [] then .error "refusing to initialize nonempty state directory"
  else do
    let first := firstActions engine (emptyStore id.text)
    let (s, repair) ← recover engine (performAll d first) (emptyStore id.text)
    .ok (s, first ++ repair)

end Open

section Compact

variable {δ σ : Type} (engine : Engine δ σ)

/-- The local variables of `compact`. A new page is kept with its document. -/
structure Compaction (δ : Type) where
  pages : List Name
  historyPages : List Name
  newPages : List (Name × List (Record δ))
  history : Bool
  doc : List (Record δ)
  size : Nat

def Compaction.flush (seq : Nat) (a : Compaction δ) : Compaction δ :=
  match a.doc with
  | [] => a
  | _ :: _ =>
    if a.history then
      let name := Name.historyPage seq a.newPages.length
      { a with historyPages := a.historyPages ++ [name]
               newPages := a.newPages ++ [(name, a.doc)], doc := [], size := 0 }
    else
      let name := Name.page seq a.pages.length
      { a with pages := a.pages ++ [name]
               newPages := a.newPages ++ [(name, a.doc)], doc := [], size := 0 }

def Compaction.add (seq : Nat) (a : Compaction δ) (r : Record δ) : Compaction δ :=
  let a := { a with doc := a.doc ++ [r], size := a.size + (r.data.map engine.dataSize).getD 0 }
  if pageRecords ≤ a.doc.length ∨ pageBytes ≤ a.size then a.flush seq else a

def compactKeys (s : Store) (d : StateDir σ) (bucket : String) :
    List String → Compaction δ → Compaction δ × Option String
  | [], a => (a, none)
  | key :: rest, a =>
    match (s.index.refs bucket key).bind (record engine s d) with
    | none => (a, some "invalid state record location")
    | some r => compactKeys s d bucket rest (a.add engine s.sequence r)

/- History records are never rewritten: only those no history page holds yet are. -/
def compactIds (s : Store) (bucket : String) : List String :=
  if historyBucket bucket then
    ((s.pendingHistory.filter (fun p => p.1 = bucket)).image Prod.snd).sort (· ≤ ·)
  else s.index.keys bucket ""

def compactBuckets (s : Store) (d : StateDir σ) :
    List String → Compaction δ → Compaction δ × Option String
  | [], a => (a.flush s.sequence, none)
  | bucket :: rest, a =>
    let a := { a.flush s.sequence with history := historyBucket bucket }
    match compactKeys engine s d bucket (compactIds s bucket) a with
    | (a, some e) => (a, some e)
    | (a, none) => compactBuckets s d rest a

def pageActions (s : Store) (pages : List (Name × List (Record δ))) : List (StateAction σ) :=
  pages.map (fun p => .put p.1 (write engine s p.1 .snapshot s.sequence (.document p.2)))

def applyPages (s : Store) (d : StateDir σ) : List Name → Except String Store
  | [] => .ok s
  | name :: rest => do
    let (doc, s) ← readDocument engine s d name .snapshot s.sequence
    let s ← apply s doc name false
    applyPages s d rest

def Name.inSnapshots : Name → Bool
  | .page _ _ => true
  | .historyPage _ _ => true
  | _ => false

/- Removals go through each directory in listing order; which order that is does
not matter to anything below, so the order of the directory is taken. -/
def staleActions (d : StateDir σ) (live : List Name) : List (StateAction σ) :=
  ((d.keys.filter (fun name => name.journalSeq.isSome)) ++
    d.keys.filter (fun name => name.inSnapshots && decide (name ∉ live))).map .remove

/-- `compact`: the pages, the manifest that publishes them, and only then the
removal of what the manifest supersedes. -/
def compact (s : Store) (d : StateDir σ) : List (StateAction σ) × Except String Store :=
  if s.sequence = s.snapshotSequence then ([], .ok s)
  else
    let start : Compaction δ := ⟨[], s.historyPages, [], false, [], 0⟩
    match compactBuckets engine s d (s.buckets.insertionSort (· ≤ ·)) start with
    | (a, some e) => (pageActions engine s a.newPages, .error e)
    | (a, none) =>
      let manifest := write engine s .manifest .manifest s.sequence
        (.manifest ⟨a.pages, a.historyPages⟩)
      let published := pageActions engine s a.newPages ++ [.put .manifest manifest]
      let d := performAll d published
      match applyPages engine { s with historyPages := a.historyPages } d
          (a.newPages.map Prod.fst) with
      | .error e => (published, .error e)
      | .ok s =>
        (published ++ staleActions d (a.pages ++ a.historyPages),
          .ok { s with snapshotSequence := s.sequence, journalCount := 0, journalBytes := 0 })

end Compact

section Update

variable {δ σ : Type} (engine : Engine δ σ)

/-- A security version the node knows, as every caller of `ensureSecurityVersion` passes. -/
structure SecurityVersion where
  value : Nat
  known : value ≤ currentEnvelopeVersion

/-- What the function given to `update` does: the versions it asks for before it
adds its records, and the records or the error it ends with. -/
structure Body (δ : Type) where
  raises : List SecurityVersion
  result : Except String (List (Record δ))

/-- The file changes of an operation, the store after it and what it answers. -/
structure Effect (σ : Type) where
  actions : List (StateAction σ)
  store : Store
  answer : Except String Unit

def ensureSecurityVersion (s : Store) (required : SecurityVersion) : Store × List (StateAction σ) :=
  if required.value ≤ s.envelopeVersion then (s, [])
  else
    let s := { s with envelopeVersion := required.value }
    (s, [.put .store (write engine s .store .header 0 (.header stateFormat))])

def raiseAll : Store → List SecurityVersion → Store × List (StateAction σ)
  | s, [] => (s, [])
  | s, v :: rest =>
    let (s, first) := ensureSecurityVersion engine s v
    let (s, more) := raiseAll s rest
    (s, first ++ more)

/-- The checks `update` makes on the records of a transaction, in their order. -/
def checkRecords {ρ δ : Type} (ix : Index ρ) :
    List (String × String) → List (Record δ) → Except String Unit
  | _, [] => .ok ()
  | seen, r :: rest =>
    if r.bucket = "" ∨ r.key = "" then .error "empty state record identity"
    else if historyBucket r.bucket = true then
      if (ix.refs r.bucket r.key).isSome = true ∨ r.delete = true ∨ (r.bucket, r.key) ∈ seen then
        .error "history records are append-only"
      else checkRecords ix ((r.bucket, r.key) :: seen) rest
    else checkRecords ix seen rest

/-- The journal file and the head of a transaction, and the store once it is applied. -/
def append (s : Store) (records : List (Record δ)) : List (StateAction σ) × Except String Store :=
  let seq := (s.sequence + 1) % 2 ^ 64
  let file := write engine s (.journal seq) .transaction seq (.document records)
  let written := [.put (.journal seq) file, .put .head (write engine s .head .head seq .head)]
  match apply s records (.journal seq) false with
  | .error e => (written, .error e)
  | .ok applied => (written, .ok { applied with
      sequence := seq
      journalCount := applied.journalCount + 1
      journalBytes := applied.journalBytes + engine.fileSize file })

/- An error after the first write poisons the store of the source: it then refuses
every call until the directory is opened again. -/
def commit (s : Store) (d : StateDir σ) (records : List (Record δ)) : Effect σ :=
  match append engine s records with
  | (written, .error e) => ⟨written, s, .error e⟩
  | (written, .ok s) =>
    if compactTransactions ≤ s.journalCount ∨ compactBytes ≤ s.journalBytes then
      match compact engine s (performAll d written) with
      | (actions, .ok s) => ⟨written ++ actions, s, .ok ()⟩
      | (actions, .error e) => ⟨written ++ actions, s, .error e⟩
    else ⟨written, s, .ok ()⟩

/-- `update`: run the body on what the store holds, check its records, write the
journal file and the head, then bring the index up to date. -/
def update (s : Store) (d : StateDir σ) (fn : Index (Record δ) → Body δ) : Effect σ :=
  let body := fn (view engine s d)
  let (s, raised) := raiseAll engine s body.raises
  match body.result with
  | .error e => ⟨raised, s, .error e⟩
  | .ok [] => ⟨raised, s, .ok ()⟩
  | .ok records =>
    match checkRecords s.index [] records with
    | .error e => ⟨raised, s, .error e⟩
    | .ok () =>
      let effect := commit engine s (performAll d raised) records
      { effect with actions := raised ++ effect.actions }

end Update

end Jolt.State
