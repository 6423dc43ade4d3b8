import Jolt.Pki.Renewal

/-! What a pass publishes. A pass that finds everything in order ends with a key to sign with,
an intermediate to issue with, and a bundle that lists both. -/
namespace Jolt.Pki
open Jolt.Trust Jolt.Base List

section Bundles

variable (env : Env)

/-- The bundle after a pass: the latest one if it says what is desired, and otherwise a new one,
signed by the active key. -/
inductive Publication (now : Int) (desired : Bundle) (key : SigningKey) (bundles : List PKIObject) :
    Bundle → List PKIObject → Option Bundle → Prop where
  | same {latest : PKIObject} {current : Bundle}
      (found : latestBundle (env.listed bundles) = some latest)
      (read : parseBundle env.crypto latest.publicPart = .ok current)
      (trust : sameTrust current desired = true) :
      Publication now desired key bundles current bundles none
  | new {version : Int} {seed : List UInt8} {signed : Bundle}
      (follows : latestBundle (env.listed bundles) = none ∧ version = 0 ∨
        ∃ latest current, latestBundle (env.listed bundles) = some latest ∧
          parseBundle env.crypto latest.publicPart = .ok current ∧ version = current.version)
      (opened : key.seed = some seed)
      (made : signed = { desired with
        version := version + 1, issuedAt := now,
        signature := ⟨key.object.id, env.sign seed
          (Bundle.payload env.crypto { desired with version := version + 1, issuedAt := now })⟩ }) :
      Publication now desired key bundles signed
        (keptBundles (upsert bundles (bundleRow env signed now))) (some signed)

variable {env} {now : Int} {desired : Bundle} {key : SigningKey} {keys : List SigningKey}
  {bundles rows : List PKIObject} {bundle : Bundle} {published : Option Bundle}

theorem signBundle_ok {seed : List UInt8} (opened : key.seed = some seed)
    (valid : validKeyID key.object.id = true) (b : Bundle) :
    signBundle env b key =
      .ok { b with signature := ⟨key.object.id, env.sign seed (b.payload env.crypto)⟩ } := by
  simp [signBundle, opened, valid]

theorem latestBundle_some (listing : env.Listing) {latest : PKIObject}
    (found : latestBundle (env.listed bundles) = some latest) :
    latest ∈ bundles ∧ ∀ row ∈ bundles, row.id ≤ latest.id := by
  rcases best_cases PKIObject.id (env.listed bundles) with
    ⟨_, missing⟩ | ⟨top, best, inside, above⟩
  · rw [latestBundle, missing] at found
    cases found
  rw [latestBundle, best] at found
  cases found
  exact ⟨(listing bundles).mem_iff.mp inside,
    fun row stored => above row ((listing bundles).mem_iff.mpr stored)⟩

theorem publishBundle_ok (now : Int) (desired : Bundle)
    (one : keys.filter (·.object.state == .active) = [key])
    (opened : key.Private env) (valid : validKeyID key.object.id = true)
    (listing : env.Listing)
    (readable : ∀ row ∈ bundles, ∃ b, parseBundle env.crypto row.publicPart = .ok b) :
    ∃ bundle rows published,
      publishBundle env now desired keys bundles = .ok (bundle, rows, published) ∧
        Publication env now desired key bundles bundle rows published := by
  obtain ⟨seed, private_part, _⟩ := opened
  have signs (b : Bundle) : signBundle env b key = _ := signBundle_ok private_part valid b
  rcases best_cases PKIObject.id (env.listed bundles) with
    ⟨_, found⟩ | ⟨latest, found, inside, _⟩
  · refine ⟨_, _, _, ?_, .new (.inl ⟨found, rfl⟩) private_part rfl⟩
    simp only [publishBundle, latestBundle, found, one, getLast?_singleton, signs]
  obtain ⟨current, read⟩ := readable latest ((listing bundles).mem_iff.mp inside)
  by_cases trust : sameTrust current desired = true
  · refine ⟨_, _, _, ?_, .same found read trust⟩
    simp only [publishBundle, latestBundle, found, read, trust, if_true]
  refine ⟨_, _, _, ?_, .new (.inr ⟨latest, current, found, read, rfl⟩) private_part rfl⟩
  simp only [publishBundle, latestBundle, found, read, trust, one, getLast?_singleton, signs,
    Bool.false_eq_true, if_false]

theorem Publication.content (publication : Publication env now desired key bundles bundle rows published) :
    bundle.roots = desired.roots ∧ bundle.intermediates = desired.intermediates ∧
      bundle.signingKeys = desired.signingKeys ∧
      bundle.revokedSerials = desired.revokedSerials := by
  cases publication with
  | same found read trust =>
    simp only [sameTrust, Bool.and_eq_true, beq_iff_eq] at trust
    exact ⟨trust.1.1.1, trust.1.1.2, trust.1.2, trust.2⟩
  | new follows opened made => simp [made]

theorem Publication.of_some {new : Bundle}
    (publication : Publication env now desired key bundles bundle rows (some new)) :
    bundle = new ∧ new.issuedAt = now ∧
      rows = keptBundles (upsert bundles (bundleRow env new now)) ∧
      (latestBundle (env.listed bundles) = none ∧ new.version = 1 ∨
        ∃ latest current, latestBundle (env.listed bundles) = some latest ∧
          parseBundle env.crypto latest.publicPart = .ok current ∧
          new.version = current.version + 1) := by
  cases publication with
  | new follows opened made =>
    refine ⟨rfl, by rw [made], rfl, ?_⟩
    rcases follows with ⟨first, version⟩ | ⟨latest, current, found, read, version⟩
    · exact .inl ⟨first, by rw [made, version]; rfl⟩
    · exact .inr ⟨latest, current, found, read, by rw [made, version]⟩

theorem Publication.signature {new : Bundle}
    (publication : Publication env now desired key bundles bundle rows (some new)) :
    ∃ seed payload, new.signature = ⟨key.object.id, env.sign seed payload⟩ := by
  cases publication with
  | new follows opened made =>
    rw [made]
    exact ⟨_, _, rfl⟩

theorem Publication.of_none
    (publication : Publication env now desired key bundles bundle rows none) :
    rows = bundles ∧ ∃ latest, latestBundle (env.listed bundles) = some latest ∧
      parseBundle env.crypto latest.publicPart = .ok bundle := by
  cases publication with
  | same found read trust => exact ⟨rfl, _, found, read⟩

end Bundles

section Passes

variable (env : Env)

/-- Everything a pass finds is in order, and what is due can be renewed. -/
structure PassReady (pass : Pass) (db : Database) (root : PKIObject) (roots : List PKIObject) :
    Prop where
  ensured : ensureRoot env pass.now pass.root db.roots = .ok (root, roots)
  kept : RootsKept env root roots
  listed : (rootObjects env root db.roots).Perm roots
  issuers : IssuersKept env (roots.map (·.publicPart)) root.notAfter db.intermediates
  makes : renewalDue pass.now (currentIssuer env db.intermediates) = true →
    pass.intermediate.ProperIssuer env pass.now root db.intermediates
  fits : renewalDue pass.now (currentIssuer env db.intermediates) = true →
    pass.now + intermediateValidity ≤ root.notAfter
  keys : ∃ keys rows, manageSigningKeys env pass.now pass.key db.signingKeys = .ok (keys, rows) ∧
    KeysManaged env pass.now pass.key db.signingKeys keys rows
  bundles : ∀ row ∈ db.bundles, ∃ b, parseBundle env.crypto row.publicPart = .ok b

/-- What a pass has done: the rows that it left, and the view that it swapped in. -/
structure PassDone (pass : Pass) (db : Database) (root : PKIObject) (roots : List PKIObject)
    (keys : List SigningKey) (key : SigningKey) (view : View) (published : Option Bundle)
    (after : Database) : Prop where
  rootRows : after.roots = roots
  issuers : IssuersRenewed env pass.now pass.intermediate (roots.map (·.publicPart)) root.notAfter
    db.intermediates view.issuer after.intermediates
  managed : KeysManaged env pass.now pass.key db.signingKeys keys after.signingKeys
  signer : keys.filter (·.object.state == .active) = [key]
  signingID : view.signingID = key.object.id
  revocations : after.revocations = db.revocations.filter (keptRevocation pass.now)
  publication : Publication env pass.now
    (desiredBundle env root db.roots after.intermediates keys after.revocations) key db.bundles
    view.bundle after.bundles published

variable {env} {pass : Pass} {db : Database} {root : PKIObject} {roots : List PKIObject}

theorem ensureLocked_ok (listing : env.Listing) (ready : PassReady env pass db root roots) :
    ∃ keys key view published after,
      ensureLocked env pass db = ⟨after, some view, published, none⟩ ∧
        PassDone env pass db root roots keys key view published after := by
  have usableRoot := ready.kept.usable root ready.kept.mem
  have listedRoot : root.publicPart ∈ roots.map (·.publicPart) :=
    mem_map_of_mem ready.kept.mem
  obtain ⟨issuer, renewed, renews, issuers⟩ := renewIssuer_ok listing usableRoot listedRoot
    ready.issuers ready.makes ready.fits
  obtain ⟨keys, rows, manages, managed⟩ := ready.keys
  obtain ⟨key, one, opened, decoded, live, known⟩ := managed.signer
  have inside : key.object ∈ rows := by
    have member : key ∈ keys.filter (·.object.state == .active) := by simp [one]
    exact managed.same.mem_iff.mp (mem_map_of_mem (mem_filter.mp member).1)
  have valid := (managed.kept.usable key.object inside).valid
  obtain ⟨bundle, bundles, published, publishes, publication⟩ :=
    publishBundle_ok pass.now (desiredBundle env root db.roots
      (renewed.filter (keptIntermediate pass.now)) keys
      (db.revocations.filter (keptRevocation pass.now))) one opened valid listing ready.bundles
  obtain ⟨cert, opens, ends⟩ := (issuers.kept.usable issuer issuers.mem).authority
  have parsed : ∃ certs, ((rootObjects env root db.roots).mapM fun row =>
      env.crypto.parseCertificate row.publicPart) = .ok certs := by
    have total (row : PKIObject) (inside : row ∈ rootObjects env root db.roots) :
        ∃ cert, env.crypto.parseCertificate row.publicPart = .ok cert := by
      have usable := ready.kept.usable row (ready.listed.mem_iff.mp inside)
      exact usable.certificate.imp fun _ found => found.1
    exact (mapM_ok total).imp fun _ found => found.1
  obtain ⟨certs, parses⟩ := parsed
  have current : ¬ (pass.reissue = true ∧ cert.notAfter ≤ pass.now) := by
    have later := issuers.live
    omega
  refine ⟨keys, key, ⟨key.object.id, key.seed, bundle, issuer⟩, published,
    ⟨roots, renewed.filter (keptIntermediate pass.now), rows, bundles,
      db.revocations.filter (keptRevocation pass.now)⟩, ?_,
    rfl, issuers, managed, one, rfl, rfl, publication⟩
  simp [ensureLocked, ready.ensured, renews, manages, publishes, publish, opens, current, parses,
    one, Outcome.committed]

end Passes

section Upkeep

variable (env : Env)

structure Pass.Makes (db : Database) (pass : Pass) : Prop where
  root : activeRoot env db.roots = none → pass.root.ProperRoot env pass.now db.roots
  intermediate : renewalDue pass.now (currentIssuer env db.intermediates) = true →
    ∀ root roots, ensureRoot env pass.now pass.root db.roots = .ok (root, roots) →
      pass.intermediate.ProperIssuer env pass.now root db.intermediates
  key : keyDue env pass.now db.signingKeys = true → pass.key.Proper env pass.now db.signingKeys

/-- Besides, a bundle that the pass stores can be read back. -/
structure Pass.Proper (db : Database) (pass : Pass) : Prop where
  makes : pass.Makes env db
  readable : ∀ b, (ensureLocked env pass db).published = some b →
    parseBundle env.crypto (env.crypto.marshal b) = .ok b

structure DatabaseKept (passed : Int) (root : PKIObject) (db : Database) : Prop where
  roots : RootsKept env root db.roots
  issuers : IssuersKept env (db.roots.map (·.publicPart)) root.notAfter db.intermediates
  keys : KeysKept env passed db.signingKeys
  bundles : ∀ row ∈ db.bundles, ∃ b, parseBundle env.crypto row.publicPart = .ok b

def Fits (now : Int) (db : Database) : Prop :=
  ∀ root, activeRoot env db.roots = some root →
    renewalDue now (currentIssuer env db.intermediates) = true →
    now + intermediateValidity ≤ root.notAfter

variable {env} {pass : Pass} {db : Database} {root : PKIObject} {roots : List PKIObject}
  {passed : Int}

theorem DatabaseKept.ready (listing : env.Listing) (kept : DatabaseKept env passed root db)
    (makes : pass.Makes env db) (later : 0 ≤ pass.now) (soon : pass.now ≤ passed + day)
    (fits : Fits env pass.now db) :
    PassReady env pass db root db.roots := by
  have ensured := ensureRoot_kept kept.roots listing pass.now pass.root
  exact
    { ensured
      kept := kept.roots
      listed := kept.roots.rootObjects listing
      issuers := kept.issuers
      makes := fun due => makes.intermediate due root db.roots ensured
      fits := fits root (kept.roots.activeRoot listing)
      keys := manageSigningKeys_kept listing kept.keys makes.key later soon
      bundles := kept.bundles }

theorem empty_ready (listing : env.Listing) (makes : pass.Makes env Database.empty)
    (later : 0 ≤ pass.now) :
    ∃ root, PassReady env pass Database.empty root [root] ∧
      root.notAfter = toSecond (pass.now + rootValidity) := by
  have listed_nil : env.listed [] = [] := perm_nil.mp (listing [])
  have no_root : activeRoot env [] = none := by simp [activeRoot, lastIn, listed_nil]
  have no_key : keyDue env pass.now [] = true := by simp [keyDue, lastIn, listed_nil]
  obtain ⟨root, ensured, kept, ends⟩ := ensureRoot_first listing (makes.root no_root)
  have long := lt_toSecond (pass.now + rootValidity)
  have enough : second + intermediateValidity ≤ rootValidity := by decide
  refine ⟨root, ⟨ensured, kept, ?_, ?_, ?_, ?_, ?_, by simp [Database.empty]⟩, ends⟩
  · simp [rootObjects, lastIn, listed_nil, Database.empty]
  · exact ⟨by simp [Database.empty], by simp [Database.empty], by simp [Database.empty],
      by simp [Database.empty], by simp [Database.empty]⟩
  · exact fun due => makes.intermediate due root [root] ensured
  · intro _
    omega
  · exact manage_first listing (makes.key no_key) later

theorem mem_upsert {rows : List PKIObject} {object row : PKIObject}
    (inside : row ∈ upsert rows object) : row ∈ rows ∨ row.publicPart = object.publicPart := by
  unfold upsert at inside
  split at inside
  · obtain ⟨before, stored, rfl⟩ := mem_map.mp inside
    split
    · exact .inr rfl
    · exact .inl stored
  · rcases mem_append.mp inside with stored | last
    · exact .inl stored
    · exact .inr (mem_singleton.mp last ▸ rfl)

theorem mem_keptBundles {rows : List PKIObject} {row : PKIObject} (inside : row ∈ keptBundles rows) :
    row ∈ rows :=
  (perm_insertionSort _ rows).mem_iff.mp (mem_of_mem_drop inside)

theorem PassDone.stored {keys : List SigningKey} {key : SigningKey} {view : View}
    {published : Option Bundle} {after : Database} {P : Bundle → Prop}
    (done : PassDone env pass db root roots keys key view published after)
    (readable : ∀ b, published = some b → parseBundle env.crypto (env.crypto.marshal b) = .ok b)
    (before : ∀ row ∈ db.bundles, ∃ b, parseBundle env.crypto row.publicPart = .ok b ∧ P b)
    (new : ∀ b, published = some b → P b) :
    ∀ row ∈ after.bundles, ∃ b, parseBundle env.crypto row.publicPart = .ok b ∧ P b := by
  intro row inside
  cases published with
  | none =>
    rw [done.publication.of_none.1] at inside
    exact before row inside
  | some b =>
    obtain ⟨_, _, stored, _⟩ := done.publication.of_some
    rw [stored] at inside
    rcases mem_upsert (mem_keptBundles inside) with old | same
    · exact before row old
    · exact ⟨b, by rw [same]; exact readable b rfl, new b rfl⟩

theorem PassDone.databaseKept {keys : List SigningKey} {key : SigningKey} {view : View}
    {published : Option Bundle} {after : Database}
    (done : PassDone env pass db root roots keys key view published after)
    (ready : PassReady env pass db root roots)
    (readable : ∀ b, published = some b → parseBundle env.crypto (env.crypto.marshal b) = .ok b) :
    DatabaseKept env pass.now root after where
  roots := done.rootRows ▸ ready.kept
  issuers := done.rootRows ▸ done.issuers.kept
  keys := done.managed.kept
  bundles := by
    have stored := done.stored (P := fun _ => True) readable
      (fun row inside => (ready.bundles row inside).imp fun _ read => ⟨read, trivial⟩)
      fun _ _ => trivial
    exact fun row inside => (stored row inside).imp fun _ found => found.1

end Upkeep

end Jolt.Pki
