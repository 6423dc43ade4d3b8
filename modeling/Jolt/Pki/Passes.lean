import Jolt.Pki.Objects
import Jolt.Base.Loops

/-! One pass over the authority: create what is missing, renew what is due, retire what is
old, and publish a bundle when what nodes must trust has changed. Everything a pass changes
is written in one transaction. -/
namespace Jolt.Pki
open Jolt.Trust Jolt.Base

variable (env : Env)

section Certificates

def currentIssuer (intermediates : List PKIObject) : Option PKIObject :=
  best (·.createdAt) ((env.listed intermediates).filter (·.state == .active))

def activeRoot (roots : List PKIObject) : Option PKIObject := lastIn .active (env.listed roots)

def ensureRoot (now : Int) (draw : CertificateDraw) (roots : List PKIObject) :
    Except String (PKIObject × List PKIObject) :=
  match activeRoot env roots with
  | some root =>
    match env.crypto.parseCertificate root.publicPart with
    | .error text => .error text
    | .ok _ => .ok (root, roots)
  | none =>
    match newRootObject env now .active draw with
    | .error text => .error text
    | .ok created => .ok (created, upsert roots created)

/-- The roots that the bundle lists: the active one, the next one and the retired one. -/
def rootObjects (root : PKIObject) (roots : List PKIObject) : List PKIObject :=
  root :: ((lastIn .next (env.listed roots)).toList ++ (lastIn .retired (env.listed roots)).toList)

def keptRevocation (now : Int) (object : PKIObject) : Bool :=
  decide (now ≤ object.notAfter + revocationKeep)

def setState (id : String) (state : ObjectState) (rows : List PKIObject) : List PKIObject :=
  rows.map fun row => if row.id = id then { row with state } else row

def renewalDue (now : Int) : Option PKIObject → Bool
  | none => true
  | some issuer => renewDue issuer.notBefore issuer.notAfter now

/-- The outcome of the renewal: the issuer, the rows, and whether the renewal waits for the
root key. -/
def renewIssuer (now : Int) (draw : CertificateDraw) (root : PKIObject)
    (intermediates : List PKIObject) : Except String (PKIObject × List PKIObject × Bool) :=
  match currentIssuer env intermediates with
  | some issuer =>
    if !renewDue issuer.notBefore issuer.notAfter now then .ok (issuer, intermediates, false)
    else if root.secret = "" then
      if issuer.notAfter ≤ now then .error errRootUnavailable
      else .ok (issuer, intermediates, true)
    else
      match newIntermediateObject env root now draw with
      | .error text => .error text
      | .ok created =>
        .ok (created, upsert (setState issuer.id .retired intermediates) created, false)
  | none =>
    match newIntermediateObject env root now draw with
    | .error text => .error text
    | .ok created => .ok (created, upsert intermediates created, false)

def keptIntermediate (now : Int) (object : PKIObject) : Bool :=
  !((object.state == .retired || object.state == .revoked) && decide (object.notAfter < now))

end Certificates

section SigningKeys

def activeKey (now : Int) (draw : KeyDraw) (rows : List PKIObject) :
    Except String (SigningKey × List PKIObject) :=
  match lastIn .active (env.listed rows) with
  | none =>
    let key := createKey env now .active draw
    .ok (key, upsert rows key.object)
  | some object =>
    match loadKey env object true with
    | .error text => .error text
    | .ok key => .ok (key, rows)

/-- A successor is published beside the key, and takes over once nodes had time to learn of
it. The keys, the object of the key that now signs, and the rows. -/
def succession (now : Int) (draw : KeyDraw) (key : SigningKey) (rows : List PKIObject) :
    Except String (List SigningKey × PKIObject × List PKIObject) :=
  match lastIn .pending (env.listed rows) with
  | some pending =>
    if pending.createdAt + signingPromoteAfter ≤ now then
      match loadKey env { pending with state := .active } true with
      | .error text => .error text
      | .ok promoted =>
        -- the replaced key was loaded before, so this does not fail
        match loadKey env { key.object with state := .retired } false with
        | .error text => .error text
        | .ok old => .ok ([promoted, old], promoted.object,
            setState pending.id .active (setState key.object.id .retired rows))
    else
      match loadKey env pending false with
      | .error text => .error text
      | .ok loaded => .ok ([key, loaded], key.object, rows)
  | none =>
    if key.object.createdAt + signingRotateAfter ≤ now then
      let successor := { createKey env now .pending draw with seed := none }
      .ok ([key, successor], key.object, upsert rows successor.object)
    else .ok ([key], key.object, rows)

/-- A replaced key stays until it expires or the overlap with its successor is over. -/
def keptKey (now : Int) (active object : PKIObject) : Bool :=
  decide (now < object.notAfter) && decide (now < active.createdAt + signingOverlap)

def retiring (rows : List PKIObject) : List PKIObject :=
  (env.listed rows).filter fun object => !(object.state == .active || object.state == .pending)

def manageSigningKeys (now : Int) (draw : KeyDraw) (rows : List PKIObject) :
    Except String (List SigningKey × List PKIObject) :=
  match activeKey env now draw rows with
  | .error text => .error text
  | .ok (key, started) =>
    match succession env now draw key started with
    | .error text => .error text
    | .ok (keys, active, moved) =>
      match ((retiring env rows).filter (keptKey now active)).mapM (loadKey env · false) with
      | .error text => .error text
      | .ok kept =>
        let removed := ((retiring env rows).filter (!keptKey now active ·)).map (·.id)
        .ok (keys ++ kept, moved.filter fun row => !removed.contains row.id)

end SigningKeys

section Publication

def bundleKey (key : SigningKey) : BundleKey :=
  ⟨key.object.id, key.object.publicPart, key.object.notAfter⟩

/-- What a bundle should say: the active root first, the intermediates by age, the keys and
the revoked serials in order. -/
def desiredBundle (root : PKIObject) (roots intermediates : List PKIObject)
    (keys : List SigningKey) (revocations : List PKIObject) : Bundle where
  version := 0
  issuedAt := zeroInstant
  roots := (rootObjects env root roots).map (·.publicPart)
  intermediates :=
    (((env.listed intermediates).filter (·.state != .revoked)).insertionSort
      (·.createdAt ≤ ·.createdAt)).map (·.publicPart)
  signingKeys := (keys.map bundleKey).insertionSort (·.id ≤ ·.id)
  revokedSerials := ((revocations.map (·.serial)).dedup).insertionSort (· ≤ ·)
  signature := ⟨"", ""⟩

def sameTrust (a b : Bundle) : Bool :=
  a.roots == b.roots && a.intermediates == b.intermediates && a.signingKeys == b.signingKeys &&
    a.revokedSerials == b.revokedSerials

/-- The version as `%012d` prints it. -/
def bundleID (version : Int) : String :=
  if 0 ≤ version ∧ version < 10 ^ 12 then String.ofList (digits 12 version.toNat)
  else toString version

def latestBundle (bundles : List PKIObject) : Option PKIObject := best (·.id) bundles

def signBundle (b : Bundle) (key : SigningKey) : Except String Bundle :=
  match key.seed with
  | none => .error "invalid bundle signing key"
  | some seed =>
    if !validKeyID key.object.id then .error "invalid bundle signing key"
    else .ok { b with signature := ⟨key.object.id, env.sign seed (b.payload env.crypto)⟩ }

def keptBundles (bundles : List PKIObject) : List PKIObject :=
  let sorted := bundles.insertionSort (·.id ≤ ·.id)
  sorted.drop (sorted.length - keepBundles)

def bundleRow (b : Bundle) (now : Int) : PKIObject where
  id := bundleID b.version
  state := .current
  serial := ""
  fingerprint := ""
  publicPart := env.crypto.marshal b
  secret := ""
  notBefore := now
  notAfter := now
  createdAt := now

/-- The bundle in use after the pass, the rows, and the bundle if it is a new one. -/
def publishBundle (now : Int) (desired : Bundle) (keys : List SigningKey)
    (bundles : List PKIObject) : Except String (Bundle × List PKIObject × Option Bundle) :=
  let publishAfter (version : Int) : Except String (Bundle × List PKIObject × Option Bundle) :=
    match (keys.filter (·.object.state == .active)).getLast? with
    | none => .error "there is no active signing key" -- the source does not get here
    | some active =>
      match signBundle env { desired with version := version + 1, issuedAt := now } active with
      | .error text => .error text
      | .ok signed => .ok (signed, keptBundles (upsert bundles (bundleRow env signed now)),
          some signed)
  match latestBundle (env.listed bundles) with
  | none => publishAfter 0
  | some latest =>
    match parseBundle env.crypto latest.publicPart with
    | .error text => .error ("stored trust bundle: " ++ text)
    | .ok current =>
      if sameTrust current desired then .ok (current, bundles, none)
      else publishAfter current.version

end Publication

section Pass

structure View where
  signingID : String
  signing : Option (List UInt8)
  bundle : Bundle
  issuer : PKIObject
  deriving DecidableEq

/-- What a pass reads from the clock and the libraries, and whether a certificate of the
control tower's own has to be issued again. -/
structure Pass where
  now : Int
  root : CertificateDraw
  intermediate : CertificateDraw
  key : KeyDraw
  reissue : Bool
  deriving DecidableEq

/-- Swaps in the new view. A certificate is only issued by an issuer that has not expired. -/
def publish (pass : Pass) (roots : List PKIObject) (issuer : PKIObject) (keys : List SigningKey)
    (bundle : Bundle) : Except String View :=
  match authority env issuer with
  | .error text => .error text
  | .ok cert =>
    if pass.reissue ∧ cert.notAfter ≤ pass.now then .error "the issuer has expired"
    else
      match roots.mapM fun root => env.crypto.parseCertificate root.publicPart with
      | .error text => .error text
      | .ok _ =>
        let active := (keys.filter (·.object.state == .active)).getLast?
        .ok ⟨(active.map (·.object.id)).getD "", active.bind (·.seed), bundle, issuer⟩

/-- The database after a pass, the view if it was swapped, the bundle if a new one was
published, and the error. -/
structure Outcome where
  db : Database
  view : Option View
  published : Option Bundle
  error : Option String
  deriving DecidableEq

def Outcome.failed (db : Database) (text : String) : Outcome := ⟨db, none, none, some text⟩

def Outcome.committed (db : Database) (published : Option Bundle) (blocked : Bool) :
    Except String View → Outcome
  | .error text => ⟨db, none, published, some text⟩
  | .ok view => ⟨db, some view, published, if blocked then some errRootUnavailable else none⟩

def ensureLocked (pass : Pass) (db : Database) : Outcome :=
  match ensureRoot env pass.now pass.root db.roots with
  | .error text => .failed db text
  | .ok (root, roots) =>
    let revocations := db.revocations.filter (keptRevocation pass.now)
    match renewIssuer env pass.now pass.intermediate root db.intermediates with
    | .error text => .failed db text
    | .ok (issuer, renewed, blocked) =>
      let intermediates := renewed.filter (keptIntermediate pass.now)
      match manageSigningKeys env pass.now pass.key db.signingKeys with
      | .error text => .failed db text
      | .ok (keys, signingKeys) =>
        match publishBundle env pass.now
            (desiredBundle env root db.roots intermediates keys revocations) keys db.bundles with
        | .error text => .failed db text
        | .ok (bundle, bundles, published) =>
          .committed ⟨roots, intermediates, signingKeys, bundles, revocations⟩ published blocked
            (publish env pass (rootObjects env root db.roots) issuer keys bundle)

end Pass

end Jolt.Pki
