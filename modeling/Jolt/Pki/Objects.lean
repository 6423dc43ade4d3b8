import Jolt.Trust.Bundle

/-! What the certificate authority of the control tower stores, and how it makes and reads
it. The standard library makes certificates and keys; what it makes is given to the functions
here as a draw. -/
namespace Jolt.Pki
open Jolt.Trust

section Durations

def second : Int := 1000000000
def minute : Int := 60 * second
def hour : Int := 60 * minute
def day : Int := 24 * hour

def rootValidity : Int := 10 * 365 * day
def intermediateValidity : Int := 2 * 365 * day
def maxLeafValidity : Int := 180 * day
def clockSkew : Int := 5 * minute

def signingKeyValidity : Int := 90 * day
def signingRotateAfter : Int := 60 * day
def signingPromoteAfter : Int := 7 * day
def signingOverlap : Int := 14 * day
def revocationKeep : Int := day
def keepBundles : Nat := 5

theorem day_pos : 0 < day := by decide

def toSecond (t : Int) : Int := t - t % second

def renewDue (notBefore notAfter now : Int) : Bool :=
  decide (notBefore + ((notAfter - notBefore) * 2).tdiv 3 ≤ now)

end Durations

section Rows

inductive ObjectState where
  | active | pending | retired | current | next | revoked
  deriving DecidableEq

/-- A row. The kind is left to the list the row is in, and `id` is what follows the kind in
its ID, so rows of different kinds never have the same ID. -/
structure PKIObject where
  id : String
  state : ObjectState
  serial : String
  fingerprint : String
  publicPart : String
  secret : String
  notBefore : Int
  notAfter : Int
  createdAt : Int
  deriving DecidableEq

structure Database where
  roots : List PKIObject
  intermediates : List PKIObject
  signingKeys : List PKIObject
  bundles : List PKIObject
  revocations : List PKIObject
  deriving DecidableEq

def Database.empty : Database := ⟨[], [], [], [], []⟩

def PKIObject.update (row object : PKIObject) : PKIObject :=
  { row with
    state := object.state, publicPart := object.publicPart, secret := object.secret,
    notAfter := object.notAfter }

def upsert (rows : List PKIObject) (object : PKIObject) : List PKIObject :=
  if rows.any (·.id == object.id) then
    rows.map fun row => if row.id = object.id then row.update object else row
  else rows ++ [object]

def lastIn (state : ObjectState) (rows : List PKIObject) : Option PKIObject :=
  (rows.filter (·.state == state)).getLast?

end Rows

section Library

/-- What the authority takes from its libraries: certificates, the order of the rows in a
listing, the day in the name of a key, and keys sealed under the key of the database. -/
structure Env where
  crypto : Crypto
  listed : List PKIObject → List PKIObject
  formatDay : Int → String
  unsealKey : String → Except String Unit
  unsealSeed : String → Except String (List UInt8)
  publicOf : List UInt8 → List UInt8
  sign : List UInt8 → String → String

structure CertificateDraw where
  pem : String
  secret : String
  deriving DecidableEq

structure KeyDraw where
  suffix : String
  publicKey : List UInt8
  seed : List UInt8
  encoded : String
  secret : String
  deriving DecidableEq

variable (env : Env)

def errRootUnavailable : String := "the root key is not available to renew the intermediate"
def seedSize : Nat := 32

def authority (object : PKIObject) : Except String Certificate :=
  match env.crypto.parseCertificate object.publicPart with
  | .error text => .error text
  | .ok cert =>
    match env.unsealKey object.secret with
    | .error text => .error text
    | .ok () => .ok cert

def certificateRow (id : String) (cert : Certificate) (state : ObjectState)
    (draw : CertificateDraw) (now : Int) : PKIObject where
  id := id
  state := state
  serial := cert.serial
  fingerprint := cert.fingerprint
  publicPart := draw.pem
  secret := draw.secret
  notBefore := cert.notBefore
  notAfter := cert.notAfter
  createdAt := now

def newRootObject (now : Int) (state : ObjectState) (draw : CertificateDraw) :
    Except String PKIObject :=
  match env.crypto.parseCertificate draw.pem with
  | .error text => .error text
  | .ok cert =>
    .ok (certificateRow (String.ofList (cert.fingerprint.toList.take 12)) cert state draw now)

def newIntermediate (root : Certificate) (now : Int) (draw : CertificateDraw) :
    Except String Certificate :=
  if root.notAfter < now + intermediateValidity then
    .error "the root expires before the intermediate would"
  else env.crypto.parseCertificate draw.pem

def newIntermediateObject (root : PKIObject) (now : Int) (draw : CertificateDraw) :
    Except String PKIObject :=
  if root.secret = "" then .error errRootUnavailable
  else
    match authority env root with
    | .error text => .error text
    | .ok rootCert =>
      match newIntermediate env rootCert now draw with
      | .error text => .error text
      | .ok cert => .ok (certificateRow cert.serial cert .active draw now)

/-- A signing key as it is held in memory; only the active key has its private part. -/
structure SigningKey where
  object : PKIObject
  seed : Option (List UInt8)
  publicKey : List UInt8
  deriving DecidableEq

def loadKey (object : PKIObject) (withPrivate : Bool) : Except String SigningKey :=
  match env.crypto.decodeBase64 object.publicPart with
  | none => .error "stored signing key is malformed"
  | some publicKey =>
    if publicKey.length ≠ publicKeySize then .error "stored signing key is malformed"
    else if withPrivate = false then .ok ⟨object, none, publicKey⟩
    else
      match env.unsealSeed object.secret with
      | .error text => .error text
      | .ok seed =>
        if seed.length ≠ seedSize then .error "stored signing key is malformed"
        else if env.publicOf seed ≠ publicKey then
          .error "stored signing key does not match its public key"
        else .ok ⟨object, some seed, publicKey⟩

def newSigningKeyID (now : Int) (suffix : String) : String :=
  "ct-" ++ env.formatDay now ++ "-" ++ suffix

def createKey (now : Int) (state : ObjectState) (draw : KeyDraw) : SigningKey where
  object :=
    { id := newSigningKeyID env now draw.suffix, state, serial := "", fingerprint := "",
      publicPart := draw.encoded, secret := draw.secret, notBefore := now,
      notAfter := now + signingKeyValidity, createdAt := now }
  seed := some draw.seed
  publicKey := draw.publicKey

end Library

end Jolt.Pki
