import Jolt.Base.Runs
import Mathlib.Data.List.Basic

/-! The table of requests that wait for a person's approval. Each call of the store is one
transaction: it commits a new table, or returns early and leaves the table as it was. -/
namespace Jolt.Approvals

section Operations

abbrev Bytes := List UInt8

abbrev Instant := Int

inductive PendingState where
  | pending | executing | executed | failed | rejected | expired | indeterminate
  deriving DecidableEq

def PendingState.decided : PendingState → Bool
  | .pending | .executing => false
  | _ => true

def pendingLifetime : Int := 300000000000

def pendingKeep : Int := 2592000000000000

structure PendingRequirement where
  path : String
  capability : String
  deriving DecidableEq

inductive PendingKind where
  | replay | plan | transfer
  deriving DecidableEq

def PendingKind.parse (kind : String) : Option PendingKind :=
  if kind = "" ∨ kind = "replay" then some .replay
  else if kind = "plan" then some .plan
  else if kind = "transfer" then some .transfer
  else none

structure Ask where
  kind : String
  credentialID : String
  requesterType : String
  requesterID : String
  method : String
  nodeID : String
  resource : String
  rawQuery : String
  body : Bytes
  summary : String
  requirements : List PendingRequirement

structure PendingOperation where
  id : String
  kind : PendingKind
  credentialID : String
  requesterType : String
  requesterID : String
  method : String
  nodeID : String
  resource : String
  rawQuery : String
  body : Bytes
  bodySHA256 : String
  summary : String
  requirements : List PendingRequirement
  state : PendingState
  createdAt : Instant
  expiresAt : Instant
  decidedByType : String
  decidedByID : String
  decidedAt : Option Instant
  note : String
  resultStatus : Int
  resultBody : Bytes
  deriving DecidableEq

abbrev Table := List PendingOperation

end Operations

section Store

inductive StoreError where
  | notFound
  | conflict
  | pendingExpired
  | pendingTooMany
  | pendingCorrupt
  | other (text : String)
  deriving DecidableEq

abbrev Digest := Bytes → String

def PendingOperation.integrityOK (digest : Digest) (op : PendingOperation) : Bool :=
  op.bodySHA256 == digest op.body

/-- `UPDATE … WHERE id=? AND state=?` -/
def Table.update (rows : Table) (id : String) (state : PendingState)
    (change : PendingOperation → PendingOperation) : Table :=
  rows.map fun op => if op.id = id ∧ op.state = state then change op else op

def Table.changed (rows : Table) (id : String) (state : PendingState) : Nat :=
  rows.countP fun op => op.id = id ∧ op.state = state

def Table.row (rows : Table) (id : String) : Option PendingOperation :=
  rows.find? fun op => op.id = id

def expirePending (now : Instant) (rows : Table) : Table :=
  let closed := rows.map fun op =>
    if op.state = .pending ∧ op.expiresAt ≤ now then { op with state := .expired } else op
  closed.filter fun op => !(op.state.decided && decide (op.expiresAt < now - pendingKeep))

def Table.waiting (rows : Table) (ask : Ask) (kind : PendingKind) (sum : String) :
    Option PendingOperation :=
  rows.find? fun op => op.requesterType = ask.requesterType ∧ op.requesterID = ask.requesterID ∧
    op.state = .pending ∧ op.kind = kind ∧ op.method = ask.method ∧ op.nodeID = ask.nodeID ∧
    op.resource = ask.resource ∧ op.rawQuery = ask.rawQuery ∧ op.bodySHA256 = sum

def Table.openFor (rows : Table) (ask : Ask) : Nat :=
  rows.countP fun op => op.requesterType = ask.requesterType ∧ op.requesterID = ask.requesterID ∧
    op.state = .pending

def newOperation (digest : Digest) (ask : Ask) (kind : PendingKind) (id : String)
    (now : Instant) : PendingOperation where
  id := id
  kind := kind
  credentialID := ask.credentialID
  requesterType := ask.requesterType
  requesterID := ask.requesterID
  method := ask.method
  nodeID := ask.nodeID
  resource := ask.resource
  rawQuery := ask.rawQuery
  body := ask.body
  bodySHA256 := digest ask.body
  summary := if ask.summary = "" then "\x7b\x7d" else ask.summary
  requirements := ask.requirements
  state := .pending
  createdAt := now
  expiresAt := now + pendingLifetime
  decidedByType := ""
  decidedByID := ""
  decidedAt := none
  note := ""
  resultStatus := 0
  resultBody := []

/-- Stores a request, or returns the identical one that is still waiting. The identifier
is drawn at random; the table holds no two rows with the same one. -/
def createPendingOperation (digest : Digest) (rows : Table) (ask : Ask) (maxPerRequester : Int)
    (random : String) (now : Instant) : Except StoreError (PendingOperation × Bool) × Table :=
  let swept := expirePending now rows
  match PendingKind.parse ask.kind with
  | none => (.error (.other "unknown pending operation kind"), rows)
  | some kind =>
    match swept.waiting ask kind (digest ask.body) with
    | some existing => (.ok (existing, true), rows)
    | none =>
      if maxPerRequester ≤ swept.openFor ask then (.error .pendingTooMany, rows)
      else
        let op := newOperation digest ask kind ("pop_" ++ random) now
        if (swept.row op.id).isSome then (.error (.other "UNIQUE constraint failed"), rows)
        else (.ok (op, false), swept ++ [op])

def getPendingOperation (rows : Table) (id : String) (now : Instant) :
    Except StoreError PendingOperation × Table :=
  let swept := expirePending now rows
  match swept.row id with
  | none => (.error .notFound, rows)
  | some op => (.ok op, swept)

def listPendingOperations (rows : Table) (now : Instant) : Table := expirePending now rows

def claimPendingOperation (digest : Digest) (rows : Table) (id byType byID : String)
    (now : Instant) : Except StoreError PendingOperation × Table :=
  match rows.row id with
  | none => (.error .notFound, rows)
  | some op =>
    if op.state = .pending ∧ ¬ now < op.expiresAt then
      (.error .pendingExpired, rows.update id .pending fun op => { op with state := .expired })
    else if op.integrityOK digest = false then (.error .pendingCorrupt, rows)
    else if rows.changed id .pending ≠ 1 then (.error .conflict, rows)
    else
      let decide := fun op : PendingOperation => { op with
        state := .executing, decidedByType := byType, decidedByID := byID, decidedAt := some now }
      (.ok (decide op), rows.update id .pending decide)

def finishPendingOperation (rows : Table) (id : String) (status : Int) (body : Bytes) :
    Except StoreError Unit × Table :=
  let state := if 400 ≤ status then PendingState.failed else .executed
  if rows.changed id .executing ≠ 1 then (.error .conflict, rows)
  else
    (.ok (), rows.update id .executing fun op => { op with
      state, resultStatus := status, resultBody := body.take 8192 })

def rejectPendingOperation (rows : Table) (id byType byID note : String) (now : Instant) :
    Except StoreError PendingOperation × Table :=
  let swept := expirePending now rows
  match swept.row id with
  | none => (.error .notFound, rows)
  | some op =>
    if op.state ≠ .pending then (.error .conflict, rows)
    else
      (.ok { op with state := .rejected, note }, swept.update id .pending fun op => { op with
        state := .rejected, decidedByType := byType, decidedByID := byID, decidedAt := some now,
        note })

/-- Runs when the database opens: what was executing may or may not have reached the node. -/
def recoverPendingOperations (rows : Table) : Table :=
  rows.map fun op => if op.state = .executing then { op with state := .indeterminate } else op

end Store

section History

/-- A call of the store with the time it is made with, or a restart of control. A call that
the database does not carry out is rolled back. -/
inductive Call where
  | create (ask : Ask) (maxPerRequester : Int) (random : String) (now : Instant)
  | get (id : String) (now : Instant)
  | list (now : Instant)
  | claim (id byType byID : String) (now : Instant)
  | finish (id : String) (status : Int) (body : Bytes)
  | reject (id byType byID note : String) (now : Instant)
  | rolledBack
  | restart

inductive Decision where
  | claimed (id : String) (now : Instant)
  | rejected (id : String)
  deriving DecidableEq

def Decision.id : Decision → String
  | .claimed id _ => id
  | .rejected id => id

/-- The table with its past: the identifiers that were given out, each with the time the
request expires, and the decisions, the latest first. -/
structure History where
  rows : Table
  issued : List (String × Instant)
  decisions : List Decision

def History.empty : History := ⟨[], [], []⟩

inductive Answer where
  | created (op : PendingOperation)
  | claimed (op : PendingOperation)
  | rejected (op : PendingOperation)

def History.next (digest : Digest) (h : History) : Call → Option (History × Option Answer)
  | .create ask maxPerRequester random now =>
    match createPendingOperation digest h.rows ask maxPerRequester random now with
    | (.ok (op, false), rows) =>
      some (⟨rows, (op.id, op.expiresAt) :: h.issued, h.decisions⟩, some (.created op))
    | (_, rows) => some ({ h with rows }, none)
  | .get id now => some ({ h with rows := (getPendingOperation h.rows id now).2 }, none)
  | .list now => some ({ h with rows := listPendingOperations h.rows now }, none)
  | .claim id byType byID now =>
    match claimPendingOperation digest h.rows id byType byID now with
    | (.ok op, rows) =>
      some (⟨rows, h.issued, .claimed id now :: h.decisions⟩, some (.claimed op))
    | (.error _, rows) => some ({ h with rows }, none)
  | .finish id status body =>
    some ({ h with rows := (finishPendingOperation h.rows id status body).2 }, none)
  | .reject id byType byID note now =>
    match rejectPendingOperation h.rows id byType byID note now with
    | (.ok op, rows) => some (⟨rows, h.issued, .rejected id :: h.decisions⟩, some (.rejected op))
    | (.error _, rows) => some ({ h with rows }, none)
  | .rolledBack => some (h, none)
  | .restart => some ({ h with rows := recoverPendingOperations h.rows }, none)

def Unrepeated (h : History) : Call → History → Prop
  | .create _ _ random _, _ => ∀ issue ∈ h.issued, issue.1 ≠ "pop_" ++ random
  | _, _ => True

end History

end Jolt.Approvals
