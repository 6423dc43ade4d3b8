import Jolt.Trust.Bundle
import Jolt.Base.Runs

/-! A node's manager of the trust it was enrolled with. Three calls change it: a newer bundle
is adopted, a certificate request is prepared, a certificate is installed. Each call reads the
manager under its lock, works on that copy, stores the whole record and then puts it into
the manager; calls run at the same time and nothing keeps them apart in between. -/
namespace Jolt.Trust
open Jolt.Base

section Records

/-- The record that is stored; the bundle is in it as text. -/
structure ManagedTrust where
  rootPin : String
  bundle : String
  apiCertPEM : String
  apiKey : String
  operationalHash : String
  pendingKey : String
  enrolledAt : Int
  updatedAt : Int
  deriving DecidableEq

structure Manager where
  state : ManagedTrust
  bundle : Bundle
  managed : Bool
  deriving DecidableEq

/-- The checks of names and certificates: that a name is a DNS name or an address, that a
certificate is one for the key, and that it chains to the bundle and was not revoked. -/
structure Chains where
  validName : String → Bool
  loadPair : String → String → Except String Unit
  checkServerChain : Bundle → String → Int → Except String Unit

inductive Arrival where
  | bundle (data : String)
  | names (names : List String)
  | certificate (certPEM : String)

inductive Request where
  | adopt (candidate : Bundle)
  | prepareCSR
  | installCertificate (certPEM : String)
  deriving DecidableEq

end Records

section Calls

variable (crypto : Crypto) (chains : Chains)

/-- The manager that a record makes; only its fields are written under the lock. -/
def Manager.apply (state : ManagedTrust) : Except String Manager :=
  match parseBundle crypto state.bundle with
  | .error text => .error text
  | .ok bundle =>
    match chains.loadPair state.apiCertPEM state.apiKey with
    | .error text => .error text
    | .ok () => .ok ⟨state, bundle, true⟩

def Arrival.request : Arrival → Except String Request
  | .bundle data =>
    match parseBundle crypto data with
    | .error text => .error text
    | .ok candidate => .ok (.adopt candidate)
  | .names asked =>
    if asked.length = 0 ∨ 16 < asked.length then
      .error "Between one and sixteen names are required."
    else if asked.all chains.validName then .ok .prepareCSR
    else .error "Each name must be a DNS name or an IP address."
  | .certificate certPEM =>
    if certPEM.toList.all isSpace ∨ 32768 < certPEM.utf8ByteSize then
      .error "A certificate chain is required."
    else .ok (.installCertificate certPEM)

def sameDelivery (candidate current : Bundle) : Bool :=
  candidate.version == current.version && crypto.marshal candidate == crypto.marshal current

/-- The record a call stores, worked out from the copy of the manager it read: none if the
call ends before, with or without an error. A new key is drawn for a certificate request. -/
def Request.record (m : Manager) (now stamp : Int) (key : Except String String) :
    Request → Except (Option String) ManagedTrust
  | .adopt candidate =>
    if m.managed = false then .error (some "this node is not enrolled")
    else if sameDelivery crypto candidate m.bundle then .error none
    else
      match verifyBundle crypto candidate (some m.bundle) "" now with
      | .error text => .error (some text)
      | .ok () => .ok { m.state with bundle := crypto.marshal candidate, updatedAt := stamp }
  | .prepareCSR =>
    if m.managed = false then .error (some "this node is not enrolled")
    else
      match key with
      | .error text => .error (some text)
      | .ok pendingKey => .ok { m.state with pendingKey, updatedAt := stamp }
  | .installCertificate certPEM =>
    if m.managed = false then .error (some "this node is not enrolled")
    else if m.state.pendingKey = "" then .error (some "no certificate request is pending")
    else
      match chains.loadPair certPEM m.state.pendingKey with
      | .error text => .error (some text)
      | .ok () =>
        match chains.checkServerChain m.bundle certPEM now with
        | .error text => .error (some text)
        | .ok () => .ok { m.state with
            apiCertPEM := certPEM, apiKey := m.state.pendingKey, pendingKey := "",
            updatedAt := stamp }

/-- The store takes only a record with a pinned root and a bundle, and may fail. -/
def putManagedTrust (written : Except String Unit) (value : ManagedTrust) : Except String Unit :=
  if value.rootPin = "" ∨ value.bundle = "" then
    .error "managed trust needs a pinned root and a bundle"
  else written

def Request.finish (state : ManagedTrust) (m : Manager) : Request → Except String Manager
  | .prepareCSR => .ok { m with state }
  | .adopt _ | .installCertificate _ => Manager.apply crypto chains state

end Calls

section Interleaving

inductive Progress where
  | begun (request : Request)
  | read (request : Request) (copy : Manager)
  | stored (request : Request) (state : ManagedTrust)
  | ended (error : Option String)
  deriving DecidableEq

/-- The manager, the record in the store, and the calls. -/
structure Node where
  manager : Manager
  record : ManagedTrust
  calls : List Progress
  deriving DecidableEq

/-- The next step of one of the calls; a step before a write includes the call's own work. -/
inductive Step where
  | arrive (arrival : Arrival)
  | read (call : Nat)
  | put (call : Nat) (now stamp : Int) (key : Except String String)
      (written : Except String Unit)
  | set (call : Nat)

variable (crypto : Crypto) (chains : Chains)

def Node.progress (s : Node) (call : Nat) (progress : Progress) : Node :=
  { s with calls := s.calls.set call progress }

def Node.next (s : Node) : Step → Option (Node × Option Unit)
  | .arrive arrival =>
    match arrival.request crypto chains with
    | .error text => some ({ s with calls := s.calls ++ [.ended (some text)] }, none)
    | .ok request => some ({ s with calls := s.calls ++ [.begun request] }, none)
  | .read call =>
    match s.calls[call]? with
    | some (.begun request) => some (s.progress call (.read request s.manager), none)
    | _ => none
  | .put call now stamp key written =>
    match s.calls[call]? with
    | some (.read request copy) =>
      match request.record crypto chains copy now stamp key with
      | .error text => some (s.progress call (.ended text), none)
      | .ok state =>
        match putManagedTrust written state with
        | .error text => some (s.progress call (.ended (some text)), none)
        | .ok () => some ({ s.progress call (.stored request state) with record := state }, none)
    | _ => none
  | .set call =>
    match s.calls[call]? with
    | some (.stored request state) =>
      match request.finish crypto chains state s.manager with
      | .error text => some (s.progress call (.ended (some text)), none)
      | .ok manager => some ({ s.progress call (.ended none) with manager }, none)
    | _ => none

def Node.load (record : ManagedTrust) : Except String Node :=
  match Manager.apply crypto chains record with
  | .error text => .error text
  | .ok manager => .ok ⟨manager, record, []⟩

/-- The version of a bundle as it is stored; a text that holds none has version 0. -/
def storedVersion (text : String) : Int :=
  match crypto.unmarshal text with
  | .ok bundle => bundle.version
  | .error _ => 0

end Interleaving

end Jolt.Trust
