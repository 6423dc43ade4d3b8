import Mathlib

/-! Trust bundles. The control tower tells its nodes which roots, intermediates and signing
keys to trust and which serials it revoked; a node takes a bundle over only if it is newer
than the one it has and signed by a key that one lists. Control and node share this code.
Certificates, signatures and encodings are left to the standard library. Times are
nanoseconds since 1970. -/
namespace Jolt.Trust

section Formats

/-- The time that `IsZero` reports, the start of the year 1. -/
def zeroInstant : Int := -62135596800000000000

structure Certificate where
  fingerprint : String
  serial : String
  isCA : Bool
  basicConstraintsValid : Bool
  notBefore : Int
  notAfter : Int
  deriving DecidableEq

structure BundleKey where
  id : String
  key : String
  notAfter : Int
  deriving DecidableEq

structure BundleSignature where
  keyID : String
  value : String
  deriving DecidableEq

structure Bundle where
  version : Int
  issuedAt : Int
  roots : List String
  intermediates : List String
  signingKeys : List BundleKey
  revokedSerials : List String
  signature : BundleSignature
  deriving DecidableEq

/-- The standard library: certificates, signatures, and the encodings of keys and bundles. -/
structure Crypto where
  parseCertificate : String → Except String Certificate
  checkSignatureFrom : Certificate → Certificate → Bool
  decodeBase64 : String → Option (List UInt8)
  verify : List UInt8 → String → List UInt8 → Bool
  marshal : Bundle → String
  unmarshal : String → Except String Bundle

def bundleDomain : String := "jolt-trust-bundle-v1\n"
def maxBundleRoots : Nat := 2
def maxBundleIssuers : Nat := 2
def maxBundleKeys : Nat := 16
def maxRevokedSerials : Nat := 1024
def maxBundleBytes : Nat := 262144
def publicKeySize : Nat := 32
def signatureSize : Nat := 64

variable (crypto : Crypto)

def Bundle.payload (b : Bundle) : String :=
  bundleDomain ++ crypto.marshal { b with signature := ⟨"", ""⟩ }

def parseBundle (data : String) : Except String Bundle :=
  if maxBundleBytes < data.utf8ByteSize then .error "trust bundle is too large"
  else crypto.unmarshal data

end Formats

section Identifiers

/-- `unicode.IsSpace` -/
def isSpace (c : Char) : Bool :=
  let n := c.toNat
  (9 ≤ n && n ≤ 13) || n == 0x20 || n == 0x85 || n == 0xA0 || n == 0x1680 ||
    (0x2000 ≤ n && n ≤ 0x200A) || n == 0x2028 || n == 0x2029 || n == 0x202F || n == 0x205F ||
    n == 0x3000

def identifier (value : String) (required : Bool) : Bool :=
  let letters := value.toList
  if letters.isEmpty then !required
  else
    decide (value.utf8ByteSize ≤ 128) && !letters.head?.any isSpace &&
      !letters.getLast?.any isSpace &&
      letters.all fun c => 0x21 ≤ c.toNat && c.toNat != 0x7f && !(['/', '\\', '?', '#'].contains c)

def validKeyID (value : String) : Bool := identifier value true

def lowercaseHex (value : String) : Bool :=
  !value.toList.isEmpty && decide (value.utf8ByteSize ≤ 64) &&
    value.toList.all fun c => ('0' ≤ c && c ≤ '9') || ('a' ≤ c && c ≤ 'f')

end Identifiers

section Bundles

variable (crypto : Crypto)

/-- The roots and intermediates, parsed, or the error of the first that is malformed. -/
def Bundle.certificates (b : Bundle) : Except String (List Certificate × List Certificate) :=
  match b.roots.mapM crypto.parseCertificate with
  | .error text => .error text
  | .ok roots =>
    match b.intermediates.mapM crypto.parseCertificate with
    | .error text => .error text
    | .ok intermediates => .ok (roots, intermediates)

def BundleKey.publicKey (entry : BundleKey) : Option (List UInt8) :=
  match crypto.decodeBase64 entry.key with
  | some raw => if raw.length = publicKeySize then some raw else none
  | none => none

/-- The signing key of an identifier that is valid at the time; a later entry goes before an
earlier one with the same identifier. -/
def Bundle.publicKey (b : Bundle) (now : Int) (id : String) : Option (List UInt8) :=
  b.signingKeys.reverse.findSome? fun entry =>
    if entry.id = id ∧ now < entry.notAfter then entry.publicKey crypto else none

/-- Signing keys that are well formed, with identifiers that are not used twice. -/
def signingKeysValid : List String → List BundleKey → Bool
  | _, [] => true
  | seen, entry :: rest =>
    validKeyID entry.id && (entry.publicKey crypto).isSome && !seen.contains entry.id &&
      entry.notAfter != zeroInstant && signingKeysValid (entry.id :: seen) rest

def usableRoot (now : Int) (root : Certificate) : Bool :=
  root.isCA && root.basicConstraintsValid && !decide (root.notAfter < now)

def usableIssuer (now : Int) (roots : List Certificate) (issuer : Certificate) : Bool :=
  issuer.isCA && !decide (issuer.notAfter < now) &&
    (roots.any fun root => root.fingerprint != issuer.fingerprint &&
      crypto.checkSignatureFrom issuer root) &&
    !crypto.checkSignatureFrom issuer issuer

def Bundle.countsValid (b : Bundle) : Bool :=
  decide (1 ≤ b.roots.length) && decide (b.roots.length ≤ maxBundleRoots) &&
    decide (1 ≤ b.intermediates.length) && decide (b.intermediates.length ≤ maxBundleIssuers) &&
    decide (1 ≤ b.signingKeys.length) && decide (b.signingKeys.length ≤ maxBundleKeys) &&
    decide (b.revokedSerials.length ≤ maxRevokedSerials)

def Bundle.validate (b : Bundle) (now : Int) : Except String Unit :=
  if b.version < 1 then .error "trust bundle version must be positive"
  else if !b.countsValid then .error "trust bundle has an unexpected number of entries"
  else if !signingKeysValid crypto [] b.signingKeys then
    .error "trust bundle has an invalid signing key"
  else if !b.revokedSerials.all lowercaseHex then
    .error "trust bundle has an invalid revoked serial"
  else
    match b.certificates crypto with
    | .error text => .error text
    | .ok (roots, intermediates) =>
      if !roots.all (usableRoot now) then .error "trust bundle has an unusable root"
      else if !intermediates.all (usableIssuer crypto now roots) then
        .error "trust bundle has an intermediate no listed root signed"
      else .ok ()

def Bundle.rootSet (b : Bundle) : List String :=
  b.roots.filterMap fun value =>
    match crypto.parseCertificate value with
    | .ok cert => some cert.fingerprint
    | .error _ => none

def Bundle.signedBy (b : Bundle) (key : Option (List UInt8)) : Except String Unit :=
  match key with
  | none => .error "trust bundle is signed by a key that is not trusted"
  | some key =>
    match crypto.decodeBase64 b.signature.value with
    | none => .error "trust bundle signature is malformed"
    | some signature =>
      if signature.length ≠ signatureSize then .error "trust bundle signature is malformed"
      else if !crypto.verify key (b.payload crypto) signature then
        .error "trust bundle signature is invalid"
      else .ok ()

/-- Whether a node may take the candidate over: against the bundle it has, or, for its first
bundle, against the pinned fingerprint of a root. -/
def verifyBundle (candidate : Bundle) (previous : Option Bundle) (rootPin : String)
    (now : Int) : Except String Unit :=
  match candidate.validate crypto now with
  | .error text => .error text
  | .ok () =>
    match previous with
    | some previous =>
      if candidate.version ≤ previous.version then
        .error "trust bundle is not newer than the one in use"
      else if !(candidate.rootSet crypto).any ((previous.rootSet crypto).contains ·) then
        .error "trust bundle drops every root of the one in use"
      else candidate.signedBy crypto (previous.publicKey crypto now candidate.signature.keyID)
    | none =>
      if !(candidate.rootSet crypto).any fun fingerprint =>
          rootPin != "" && fingerprint == rootPin then
        .error "trust bundle has no root with the pinned fingerprint"
      else candidate.signedBy crypto (candidate.publicKey crypto now candidate.signature.keyID)

variable {crypto} {candidate previous : Bundle} {rootPin : String} {now : Int}

theorem verifyBundle_newer (accepted : verifyBundle crypto candidate (some previous) rootPin now =
    .ok ()) : previous.version < candidate.version := by
  unfold verifyBundle at accepted
  split at accepted
  · cases accepted
  dsimp only at accepted
  split at accepted
  · cases accepted
  · rename_i newer
    exact Int.not_le.mp newer

end Bundles

end Jolt.Trust
