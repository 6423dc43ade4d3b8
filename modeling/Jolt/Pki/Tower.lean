import Jolt.Pki.Passes
import Jolt.Base.Runs

/-! The calls that change the authority: passes, revocations, and the rotations of the
intermediate and of the root. A call other than a pass writes its rows and then makes a pass,
all under one lock. -/
namespace Jolt.Pki
open Jolt.Trust

variable (env : Env)

section Calls

def errNoRoot : String := "the certificate authority has no root yet"
def errNoRotation : String := "there is no root rotation to do that to"
def errRotationBusy : String := "a root rotation is already under way"
def errTooManyIssuers : String :=
  "an earlier intermediate is still in use; wait for it to leave the bundle before issuing another"
def errUseRotation : String :=
  "this is the active intermediate: rotate it instead of revoking it"
def errCannotRevokeRoot : String := "a root is retired by a root rotation, never revoked"
def errTooManyRevoked : String := "the revocation list is full"

structure Loaded where
  active : PKIObject
  next : Option PKIObject
  retired : Option PKIObject

def load (db : Database) : Except String Loaded :=
  match activeRoot env db.roots with
  | none => .error errNoRoot
  | some active =>
    .ok ⟨active, lastIn .next (env.listed db.roots), lastIn .retired (env.listed db.roots)⟩

def inBundle (db : Database) : List PKIObject := db.intermediates.filter (·.state != .revoked)

/-- Subject and reason of a revocation are kept for people only and left out. -/
def revocationObject (serial : String) (notAfter now : Int) : PKIObject where
  id := serial
  state := .active
  serial := serial
  fingerprint := ""
  publicPart := ""
  secret := ""
  notBefore := now
  notAfter := if notAfter = zeroInstant then now + maxLeafValidity else notAfter
  createdAt := now

/-- `strings.ToLower(strings.TrimSpace(serial))` -/
def normalSerial (serial : String) : String :=
  String.ofList (((serial.toList.dropWhile isSpace).reverse.dropWhile isSpace).reverse.map
    Char.toLower)

def revoke (serial : String) (notAfter now : Int) (db : Database) :
    Except String (Option Database) :=
  let serial := normalSerial serial
  if !lowercaseHex serial then .error "the serial must be lowercase hexadecimal"
  else
    match load env db with
    | .error text => .error text
    | .ok v =>
      if (v.active :: (v.next.toList ++ v.retired.toList)).any (·.serial == serial) then
        .error errCannotRevokeRoot
      else if db.intermediates.any fun o => o.serial == serial && o.state == .active then
        .error errUseRotation
      else if db.revocations.any (·.serial == serial) then .ok none
      else if maxRevokedSerials ≤ db.revocations.length then .error errTooManyRevoked
      else
        .ok (some { db with
          revocations := upsert db.revocations (revocationObject serial notAfter now) })

/-- With `revokePrevious` every earlier intermediate leaves the bundle at once. -/
def rotateIntermediate (revokePrevious : Bool) (now : Int) (draw : CertificateDraw)
    (db : Database) : Except String (Option Database) :=
  match load env db with
  | .error text => .error text
  | .ok v =>
    if maxBundleIssuers < (if revokePrevious then 0 else (inBundle db).length) + 1 then
      .error errTooManyIssuers
    else
      match newIntermediateObject env v.active now draw with
      | .error text => .error text
      | .ok created =>
        if revokePrevious then
          .ok (some { db with
            intermediates := upsert (db.intermediates.map ({ · with state := .revoked })) created
            revocations := ((inBundle db).map fun o =>
              revocationObject o.serial o.notAfter now).foldl upsert db.revocations })
        else
          .ok (some { db with
            intermediates := upsert (db.intermediates.map fun o =>
              if o.state = .active then { o with state := .retired } else o) created })

def beginRootRotation (now : Int) (draw : CertificateDraw) (db : Database) :
    Except String (Option Database) :=
  match load env db with
  | .error text => .error text
  | .ok v =>
    if v.next.isSome ∨ v.retired.isSome then .error errRotationBusy
    else
      match newRootObject env now .next draw with
      | .error text => .error text
      | .ok created => .ok (some { db with roots := upsert db.roots created })

/-- The next root becomes the active one and issues an intermediate at once. -/
def promoteRoot (now : Int) (draw : CertificateDraw) (db : Database) :
    Except String (Option Database) :=
  match load env db with
  | .error text => .error text
  | .ok v =>
    match v.next with
    | none => .error errNoRotation
    | some next =>
      if maxBundleIssuers < (inBundle db).length + 1 then .error errTooManyIssuers
      else
        match newIntermediateObject env { next with state := .active } now draw with
        | .error text => .error text
        | .ok created =>
          .ok (some { db with
            roots := setState v.active.id .retired (setState next.id .active db.roots)
            intermediates := upsert (db.intermediates.map fun o =>
              if o.state = .active then { o with state := .retired } else o) created })

def retireRoot (db : Database) : Except String (Option Database) :=
  match load env db with
  | .error text => .error text
  | .ok v =>
    match v.retired with
    | none => .error errNoRotation
    | some retired =>
      match env.crypto.parseCertificate retired.publicPart with
      | .error text => .error text
      | .ok old =>
        .ok (some { db with
          roots := db.roots.filter (·.id != retired.id)
          intermediates := db.intermediates.filter fun o =>
            match env.crypto.parseCertificate o.publicPart with
            | .ok cert => !env.crypto.checkSignatureFrom cert old
            | .error _ => true })

end Calls

section Machine

/-- The authority; `owed` while a call has written its rows and not yet made its pass. The
last time that was read, the time of the last pass and the bundles published so far, the
newest first, are remembered besides. -/
structure Tower where
  db : Database
  view : Option View
  owed : Bool
  clock : Int
  passed : Option Int
  published : List Bundle
  deriving DecidableEq

def Tower.empty : Tower := ⟨.empty, none, false, 0, none, []⟩

inductive Step where
  | ensure (pass : Pass)
  | revoke (now : Int) (serial : String) (notAfter : Int)
  | rotateIntermediate (now : Int) (revokePrevious : Bool) (draw : CertificateDraw)
  | beginRootRotation (now : Int) (draw : CertificateDraw)
  | promoteRoot (now : Int) (draw : CertificateDraw)
  | retireRoot (now : Int)

def Step.now : Step → Int
  | .ensure pass => pass.now
  | .revoke now _ _ | .rotateIntermediate now _ _ | .beginRootRotation now _
  | .promoteRoot now _ | .retireRoot now => now

def Step.rows (db : Database) : Step → Except String (Option Database)
  | .ensure _ => .ok none
  | .revoke now serial notAfter => Pki.revoke env serial notAfter now db
  | .rotateIntermediate now revokePrevious draw =>
    Pki.rotateIntermediate env revokePrevious now draw db
  | .beginRootRotation now draw => Pki.beginRootRotation env now draw db
  | .promoteRoot now draw => Pki.promoteRoot env now draw db
  | .retireRoot _ => Pki.retireRoot env db

def Tower.pass (s : Tower) (pass : Pass) : Tower :=
  let outcome := ensureLocked env pass s.db
  { db := outcome.db
    view := outcome.view.or s.view
    owed := false
    clock := pass.now
    passed := some pass.now
    published := outcome.published.toList ++ s.published }

def Tower.next (s : Tower) : Step → Option (Tower × Option Unit)
  | .ensure pass => some (s.pass env pass, none)
  | step =>
    if s.owed then none
    else
      match step.rows env s.db with
      | .ok (some db) => some ({ s with db, owed := true, clock := step.now }, none)
      | .ok none | .error _ => some ({ s with clock := step.now }, none)

end Machine

end Jolt.Pki
