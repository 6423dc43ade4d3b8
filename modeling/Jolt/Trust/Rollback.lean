import Jolt.Trust.Manager

/-! The bundle in force and the bundle in the store only get newer, as long as no call
writes over what another call wrote after the first one read the manager. -/
namespace Jolt.Trust
open Jolt.Base

section Versions

variable {crypto : Crypto} {chains : Chains}

def Faithful (crypto : Crypto) : Prop :=
  ∀ data bundle, crypto.unmarshal data = .ok bundle →
    crypto.unmarshal (crypto.marshal bundle) = .ok bundle

theorem storedVersion_ok {text : String} {bundle : Bundle}
    (read : crypto.unmarshal text = .ok bundle) :
    storedVersion crypto text = bundle.version := by
  rw [storedVersion, read]

theorem parseBundle_ok {text : String} {bundle : Bundle}
    (parsed : parseBundle crypto text = .ok bundle) : crypto.unmarshal text = .ok bundle := by
  unfold parseBundle at parsed
  split at parsed
  · cases parsed
  · exact parsed

theorem apply_ok {state : ManagedTrust} {m : Manager}
    (applied : Manager.apply crypto chains state = .ok m) :
    m.state = state ∧ m.bundle.version = storedVersion crypto state.bundle := by
  unfold Manager.apply at applied
  split at applied
  · cases applied
  rename_i bundle parsed
  split at applied
  · cases applied
  · cases applied
    exact ⟨rfl, (storedVersion_ok (parseBundle_ok parsed)).symm⟩

def Request.Readable (crypto : Crypto) : Request → Prop
  | .adopt candidate => crypto.unmarshal (crypto.marshal candidate) = .ok candidate
  | _ => True

theorem request_readable (faithful : Faithful crypto) {arrival : Arrival} {request : Request}
    (made : arrival.request crypto chains = .ok request) : request.Readable crypto := by
  cases arrival with
  | bundle data =>
    simp only [Arrival.request] at made
    split at made
    · cases made
    rename_i bundle parsed
    cases made
    exact faithful data bundle (parseBundle_ok parsed)
  | names names =>
    simp only [Arrival.request] at made
    split_ifs at made
    cases made
    trivial
  | certificate certPEM =>
    simp only [Arrival.request] at made
    split_ifs at made
    cases made
    trivial

theorem record_ok {request : Request} {copy : Manager} {now stamp : Int}
    {key : Except String String} {state : ManagedTrust} (readable : request.Readable crypto)
    (made : request.record crypto chains copy now stamp key = .ok state) :
    copy.bundle.version < storedVersion crypto state.bundle ∧
        (∃ candidate, request = .adopt candidate) ∨
      state.bundle = copy.state.bundle := by
  cases request with
  | adopt candidate =>
    simp only [Request.record] at made
    split_ifs at made
    split at made
    · cases made
    rename_i accepted
    cases made
    refine .inl ⟨?_, candidate, rfl⟩
    rw [storedVersion_ok readable]
    exact verifyBundle_newer accepted
  | prepareCSR =>
    simp only [Request.record] at made
    split_ifs at made
    split at made
    · cases made
    · cases made
      exact .inr rfl
  | installCertificate certPEM =>
    simp only [Request.record] at made
    split_ifs at made
    split at made
    · cases made
    split at made
    · cases made
    · cases made
      exact .inr rfl

end Versions

section Runs

variable (crypto : Crypto) (chains : Chains)

/-- Whenever a call writes, the store holds the record that the call last read or wrote. -/
def undisturbed (s : Node) : Step → Node → Bool
  | .put call _ _ _ _, _ =>
    match s.calls[call]? with
    | some (.read _ copy) => s.record = copy.state
    | _ => true
  | .set call, _ =>
    match s.calls[call]? with
    | some (.stored _ state) => s.record = state
    | _ => true
  | _, _ => true

def Undisturbed (s : Node) (step : Step) (t : Node) : Prop := undisturbed s step t = true

def Manager.Matched (m : Manager) : Prop := m.bundle.version = storedVersion crypto m.state.bundle

def Progress.Fits (version : Int) : Progress → Prop
  | .begun request => request.Readable crypto
  | .read request copy =>
    request.Readable crypto ∧ copy.Matched crypto ∧ copy.bundle.version ≤ version
  | .stored .prepareCSR state => storedVersion crypto state.bundle ≤ version
  | _ => True

/-- The bundle in force is at most as new as the stored one, and at least as new as any that
a call has read or leaves in force. -/
structure Ordered (s : Node) : Prop where
  matched : s.manager.Matched crypto
  kept : s.manager.bundle.version ≤ storedVersion crypto s.record.bundle
  fit : ∀ progress ∈ s.calls, progress.Fits crypto s.manager.bundle.version

def Newer (s t : Node) : Prop :=
  s.manager.bundle.version ≤ t.manager.bundle.version ∧
    storedVersion crypto s.record.bundle ≤ storedVersion crypto t.record.bundle

variable {crypto chains} {s t : Node}

theorem Newer.refl (s : Node) : Newer crypto s s := ⟨Int.le_refl _, Int.le_refl _⟩

theorem Newer.trans {u : Node} (first : Newer crypto s t) (second : Newer crypto t u) :
    Newer crypto s u :=
  ⟨Int.le_trans first.1 second.1, Int.le_trans first.2 second.2⟩

theorem Progress.Fits.mono {progress : Progress} {older newer : Int}
    (fits : progress.Fits crypto older) (le : older ≤ newer) : progress.Fits crypto newer := by
  cases progress with
  | begun request => exact fits
  | read request copy => exact ⟨fits.1, fits.2.1, Int.le_trans fits.2.2 le⟩
  | stored request state =>
    cases request with
    | prepareCSR => exact Int.le_trans fits le
    | adopt candidate => trivial
    | installCertificate certPEM => trivial
  | ended error => trivial

theorem Ordered.fit_set (ordered : Ordered crypto s) {version : Int}
    (le : s.manager.bundle.version ≤ version) {call : Nat} {progress : Progress}
    (fits : progress.Fits crypto version) :
    ∀ other ∈ s.calls.set call progress, other.Fits crypto version := by
  intro other inside
  rcases List.mem_or_eq_of_mem_set inside with before | now
  · exact (ordered.fit other before).mono le
  · exact now ▸ fits

theorem Ordered.progress (ordered : Ordered crypto s) {call : Nat} {progress : Progress}
    (fits : progress.Fits crypto s.manager.bundle.version) :
    Ordered crypto (s.progress call progress) :=
  ⟨ordered.matched, ordered.kept, ordered.fit_set (Int.le_refl _) fits⟩

theorem stored_newer {request : Request} {copy : Manager} {now stamp : Int}
    {key : Except String String} {state : ManagedTrust} {version : Int}
    (fits : (Progress.read request copy).Fits crypto version)
    (made : request.record crypto chains copy now stamp key = .ok state) :
    storedVersion crypto copy.state.bundle ≤ storedVersion crypto state.bundle ∧
      (Progress.stored request state).Fits crypto version := by
  obtain ⟨readable, matched, le⟩ := fits
  unfold Manager.Matched at matched
  have versions := record_ok readable made
  cases request with
  | adopt candidate =>
    refine ⟨?_, trivial⟩
    rcases versions with ⟨newer, _⟩ | same
    · omega
    · exact Int.le_of_eq (same ▸ rfl)
  | prepareCSR =>
    rcases versions with ⟨_, _, other⟩ | same
    · cases other
    rw [same]
    refine ⟨Int.le_refl _, ?_⟩
    show storedVersion crypto state.bundle ≤ version
    rw [same]
    omega
  | installCertificate certPEM =>
    rcases versions with ⟨_, _, other⟩ | same
    · cases other
    · rw [same]
      exact ⟨Int.le_refl _, trivial⟩

theorem finish_newer (ordered : Ordered crypto s) {request : Request} {state : ManagedTrust}
    {m : Manager} (current : s.record = state)
    (fits : (Progress.stored request state).Fits crypto s.manager.bundle.version)
    (made : request.finish crypto chains state s.manager = .ok m) :
    m.Matched crypto ∧ s.manager.bundle.version ≤ m.bundle.version ∧
      m.bundle.version ≤ storedVersion crypto state.bundle := by
  have kept := ordered.kept
  rw [current] at kept
  unfold Manager.Matched
  have applied (m : Manager) (made : Manager.apply crypto chains state = .ok m) :
      m.bundle.version = storedVersion crypto m.state.bundle ∧
        s.manager.bundle.version ≤ m.bundle.version ∧
        m.bundle.version ≤ storedVersion crypto state.bundle := by
    obtain ⟨same, version⟩ := apply_ok made
    rw [same]
    omega
  cases request with
  | adopt candidate => exact applied m made
  | installCertificate certPEM => exact applied m made
  | prepareCSR =>
    cases made
    have le : storedVersion crypto state.bundle ≤ s.manager.bundle.version := fits
    exact ⟨Int.le_antisymm kept le, Int.le_refl _, kept⟩

theorem next_ordered (faithful : Faithful crypto) {step : Step} {a : Option Unit}
    (moved : s.next crypto chains step = some (t, a)) (met : Undisturbed s step t)
    (ordered : Ordered crypto s) : Ordered crypto t ∧ Newer crypto s t := by
  cases step with
  | arrive arrival =>
    simp only [Node.next] at moved
    split at moved
    · cases moved
      refine ⟨⟨ordered.matched, ordered.kept, ?_⟩, Newer.refl s⟩
      simpa [Progress.Fits, or_imp, forall_and] using ordered.fit
    · rename_i request made
      cases moved
      refine ⟨⟨ordered.matched, ordered.kept, ?_⟩, Newer.refl s⟩
      simpa [Progress.Fits, or_imp, forall_and] using
        And.intro ordered.fit (request_readable faithful made)
  | read call =>
    simp only [Node.next] at moved
    split at moved
    · rename_i request found
      cases moved
      have fits := ordered.fit _ (List.mem_of_getElem? found)
      exact ⟨ordered.progress ⟨fits, ordered.matched, Int.le_refl _⟩, Newer.refl s⟩
    · cases moved
  | put call now stamp key written =>
    simp only [Node.next] at moved
    split at moved
    · rename_i request copy found
      have current : s.record = copy.state := by simpa [Undisturbed, undisturbed, found] using met
      have fits := ordered.fit _ (List.mem_of_getElem? found)
      split at moved
      · cases moved
        exact ⟨ordered.progress trivial, Newer.refl s⟩
      rename_i state made
      split at moved
      · cases moved
        exact ⟨ordered.progress trivial, Newer.refl s⟩
      cases moved
      obtain ⟨newer, stored⟩ := stored_newer fits made
      rw [← current] at newer
      have kept := Int.le_trans ordered.kept newer
      exact ⟨⟨ordered.matched, kept, (ordered.progress stored).fit⟩, Int.le_refl _, newer⟩
    · cases moved
  | set call =>
    simp only [Node.next] at moved
    split at moved
    · rename_i request state found
      have current : s.record = state := by simpa [Undisturbed, undisturbed, found] using met
      have fits := ordered.fit _ (List.mem_of_getElem? found)
      split at moved
      · cases moved
        exact ⟨ordered.progress trivial, Newer.refl s⟩
      rename_i manager made
      cases moved
      obtain ⟨matched, newer, kept⟩ := finish_newer ordered current fits made
      rw [← current] at kept
      exact ⟨⟨matched, kept, ordered.fit_set newer trivial⟩, newer, Int.le_refl _⟩
    · cases moved

theorem load_ordered {record : ManagedTrust} (loaded : Node.load crypto chains record = .ok s) :
    Ordered crypto s := by
  unfold Node.load at loaded
  split at loaded
  · cases loaded
  rename_i manager applied
  cases loaded
  obtain ⟨same, version⟩ := apply_ok applied
  refine ⟨?_, Int.le_of_eq version, by simp⟩
  rw [Manager.Matched, same]
  exact version

/-- Of two states of a run in which no call writes over what it has not read, the later one
has neither an older bundle in force nor an older one in the store. -/
theorem bundle_never_rolls_back (faithful : Faithful crypto) {record : ManagedTrust}
    {start : Node} (loaded : Node.load crypto chains record = .ok start)
    (run : Run (Node.next crypto chains) Undisturbed start s)
    (later : Run (Node.next crypto chains) Undisturbed s t) :
    s.manager.bundle.version ≤ t.manager.bundle.version ∧
      storedVersion crypto s.record.bundle ≤ storedVersion crypto t.record.bundle := by
  have ordered : Ordered crypto s :=
    run.keeps (fun _ _ _ _ moved met before => (next_ordered faithful moved met before).1)
      (load_ordered loaded)
  have both : Ordered crypto t ∧ Newer crypto s t :=
    later.keeps (P := fun u => Ordered crypto u ∧ Newer crypto s u)
      (fun _ _ _ _ moved met before =>
        have after := next_ordered faithful moved met before.1
        ⟨after.1, before.2.trans after.2⟩) ⟨ordered, Newer.refl s⟩
  exact both.2

end Runs

section Samples

def sampleBundle (version : Int) : Bundle where
  version := version
  issuedAt := 0
  roots := ["root"]
  intermediates := ["issuer"]
  signingKeys := [⟨"key", "public", 1000⟩]
  revokedSerials := []
  signature := ⟨"key", "signature"⟩

def sampleCrypto : Crypto where
  parseCertificate text :=
    if text = "root" ∨ text = "issuer" then .ok ⟨text, text, true, true, 0, 1000⟩
    else .error "malformed certificate"
  checkSignatureFrom child parent := child.fingerprint == "issuer" && parent.fingerprint == "root"
  decodeBase64 text :=
    if text = "public" then some (List.replicate publicKeySize 0)
    else if text = "signature" then some (List.replicate signatureSize 0)
    else none
  verify _ _ _ := true
  marshal b := if b.version = 1 then "1" else "2"
  unmarshal text :=
    if text = "1" then .ok (sampleBundle 1)
    else if text = "2" then .ok (sampleBundle 2)
    else .error "malformed trust bundle"

theorem sampleCrypto_faithful : Faithful sampleCrypto := by
  intro data bundle read
  simp only [sampleCrypto] at read
  split_ifs at read
  · cases read
    rfl
  · cases read
    rfl

def sampleChains : Chains := ⟨fun _ => true, fun _ _ => .ok (), fun _ _ _ => .ok ()⟩

def sampleRecord : ManagedTrust := ⟨"root", "1", "certificate", "private", "", "pending", 0, 0⟩

def sampleStart : Node := ⟨⟨sampleRecord, sampleBundle 1, true⟩, sampleRecord, []⟩

def sampleBegun : List Step := [.arrive (.certificate "renewed"), .arrive (.bundle "2")]

def adoption : List Step := [.read 1, .put 1 5 5 (.ok "") (.ok ()), .set 1]

def installation : List Step := [.put 0 6 6 (.ok "") (.ok ()), .set 0]

def sampleAdopted : Node :=
  (replay (Node.next sampleCrypto sampleChains) undisturbed sampleStart
    (sampleBegun ++ adoption)).getD sampleStart

def sampleInstalled : Node :=
  (replay (Node.next sampleCrypto sampleChains) undisturbed sampleAdopted
    (.read 0 :: installation)).getD sampleAdopted

theorem installed_in_turn :
    (sampleAdopted.manager.bundle.version ≤ sampleInstalled.manager.bundle.version ∧
      storedVersion sampleCrypto sampleAdopted.record.bundle ≤
        storedVersion sampleCrypto sampleInstalled.record.bundle) ∧
    sampleInstalled.manager.bundle.version = 2 ∧ sampleInstalled.record.apiKey = "pending" := by
  have loaded : Node.load sampleCrypto sampleChains sampleRecord = .ok sampleStart := by
    decide +kernel
  have adopted : Run (Node.next sampleCrypto sampleChains) Undisturbed sampleStart sampleAdopted :=
    Run.of_possible (fun _ _ _ checked => checked) (by decide +kernel) _
  have installed :
      Run (Node.next sampleCrypto sampleChains) Undisturbed sampleAdopted sampleInstalled :=
    Run.of_possible (fun _ _ _ checked => checked) (by decide +kernel) _
  exact ⟨bundle_never_rolls_back sampleCrypto_faithful loaded adopted installed,
    by decide +kernel, by decide +kernel⟩

/-- The installation reads before the adoption and writes after it. -/
theorem installation_rolls_back :
    ∃ start s t : Node, Faithful sampleCrypto ∧
      Node.load sampleCrypto sampleChains sampleRecord = .ok start ∧
      Run (Node.next sampleCrypto sampleChains) (fun _ _ _ => True) start s ∧
      Run (Node.next sampleCrypto sampleChains) (fun _ _ _ => True) s t ∧
      t.manager.bundle.version < s.manager.bundle.version ∧
      storedVersion sampleCrypto t.record.bundle < storedVersion sampleCrypto s.record.bundle := by
  have possible (s : Node) (steps : List Step)
      (happens : (replay (Node.next sampleCrypto sampleChains) (fun _ _ _ => true) s steps).isSome) :
      Run (Node.next sampleCrypto sampleChains) (fun _ _ _ => True) s
        ((replay (Node.next sampleCrypto sampleChains) (fun _ _ _ => true) s steps).getD s) :=
    Run.of_possible (fun _ _ _ _ => trivial) happens s
  refine ⟨sampleStart, _, _, sampleCrypto_faithful, by decide +kernel,
    possible _ (sampleBegun ++ [.read 0] ++ adoption) (by decide +kernel),
    possible _ installation (by decide +kernel), ?_, ?_⟩
  · decide +kernel
  · decide +kernel

end Samples

end Jolt.Trust
