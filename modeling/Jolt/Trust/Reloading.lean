import Jolt.Trust.Rollback

/-! Reading stored trust back. A node stores a bundle as it encodes it itself, which may be longer
than the text it received, and reads it under the same limit. -/
namespace Jolt.Trust
open List

section Storing

variable (crypto : Crypto) (chains : Chains)

/-- `Enroll`, up to the record it stores. -/
def Manager.enroll (m : Manager) (pin : String) (bundle : Bundle)
    (certPEM keyB64 operationalHash : String) (now stamp : Int) : Except String ManagedTrust :=
  if m.managed then .error "this node is already enrolled"
  else if !lowercaseHex operationalHash || operationalHash.utf8ByteSize != 64 then
    .error "the operational token hash must be a SHA-256"
  else
    match verifyBundle crypto bundle none pin now with
    | .error text => .error text
    | .ok () =>
      match chains.loadPair certPEM keyB64 with
      | .error text => .error text
      | .ok () =>
        match chains.checkServerChain bundle certPEM now with
        | .error text => .error text
        | .ok () => .ok ⟨pin, crypto.marshal bundle, certPEM, keyB64, operationalHash, "", stamp, stamp⟩

/-- The record that enrolling with a bundle, or adopting it, stores. -/
inductive Stores (m : Manager) (bundle : Bundle) (state : ManagedTrust) : Prop where
  | enroll {pin certPEM keyB64 operationalHash : String} {now stamp : Int}
      (done : m.enroll crypto chains pin bundle certPEM keyB64 operationalHash now stamp = .ok state)
  | adopt {now stamp : Int} {key : Except String String}
      (done : Request.record crypto chains m now stamp key (.adopt bundle) = .ok state)

end Storing

section Loading

variable {crypto : Crypto} {chains : Chains} {m : Manager} {bundle : Bundle} {state : ManagedTrust}

theorem Stores.record (stores : Stores crypto chains m bundle state)
    (paired : m.managed = true → chains.loadPair m.state.apiCertPEM m.state.apiKey = .ok ()) :
    state.bundle = crypto.marshal bundle ∧
      chains.loadPair state.apiCertPEM state.apiKey = .ok () := by
  cases stores with
  | enroll done =>
    unfold Manager.enroll at done
    repeat' split at done
    all_goals cases done
    rename_i loads _ _
    exact ⟨rfl, loads⟩
  | adopt done =>
    simp only [Request.record] at done
    repeat' split at done
    all_goals cases done
    rename_i managed _ _ _
    exact ⟨rfl, paired (by simpa using managed)⟩

end Loading

section Samples

/-- A certificate with text before it, which decoding skips. -/
def paddedRoot : Nat → String
  | 0 => "root"
  | n + 1 => "<" ++ paddedRoot n

/-- The same text in an encoded bundle, as `json.Marshal` writes it. -/
def escapedRoot : Nat → String
  | 0 => "root"
  | n + 1 => "\\u003c" ++ escapedRoot n

def paddedBundle (n : Nat) : Bundle := { sampleBundle 2 with roots := [paddedRoot n] }

/-- A bundle is encoded as its root. -/
def paddedCrypto (n : Nat) : Crypto :=
  { sampleCrypto with
    parseCertificate text :=
      sampleCrypto.parseCertificate (String.ofList (text.toList.dropWhile (· = '<')))
    marshal b := if b.version = 1 then "root" else escapedRoot n
    unmarshal text :=
      if text = "root" then .ok (sampleBundle 1)
      else if text = paddedRoot n ∨ text = escapedRoot n then .ok (paddedBundle n)
      else .error "malformed trust bundle" }

def paddedRecord : ManagedTrust := { sampleRecord with bundle := "root" }

variable {n : Nat}

theorem size_root : "root".utf8ByteSize = 4 := by decide

theorem size_paddedRoot : (paddedRoot n).utf8ByteSize = n + 4 := by
  induction n with
  | zero => exact size_root
  | succ n ih =>
    have one : "<".utf8ByteSize = 1 := by decide
    rw [paddedRoot, String.utf8ByteSize_append, ih, one]
    omega

theorem size_escapedRoot : (escapedRoot n).utf8ByteSize = 6 * n + 4 := by
  induction n with
  | zero => exact size_root
  | succ n ih =>
    have six : "\\u003c".utf8ByteSize = 6 := by decide
    rw [escapedRoot, String.utf8ByteSize_append, ih, six]
    omega

theorem unmarshal_padded (pos : 0 < n) {text : String}
    (one : text = paddedRoot n ∨ text = escapedRoot n) :
    (paddedCrypto n).unmarshal text = .ok (paddedBundle n) := by
  have other : text ≠ "root" := by
    intro same
    have four := same ▸ size_root
    rcases one with rfl | rfl
    · rw [size_paddedRoot] at four
      omega
    · rw [size_escapedRoot] at four
      omega
  simp only [paddedCrypto, if_neg other, if_pos one]

theorem paddedCrypto_faithful (pos : 0 < n) : Faithful (paddedCrypto n) := by
  intro data bundle read
  simp only [paddedCrypto] at read
  split_ifs at read
  · cases read
    rfl
  · cases read
    exact unmarshal_padded pos (.inr rfl)

theorem parse_padded (n : Nat) :
    (paddedCrypto n).parseCertificate (paddedRoot n) = .ok ⟨"root", "root", true, true, 0, 1000⟩ := by
  have skipped : (paddedRoot n).toList.dropWhile (· = '<') = "root".toList := by
    induction n with
    | zero => decide
    | succ n ih => simpa [paddedRoot] using ih
  simp only [paddedCrypto, skipped]
  decide

end Samples

end Jolt.Trust
