import Jolt.Pki.Calls
import Jolt.Pki.Lifetime

/-! Every bundle that is published can be taken over by a node that has the one before. It is
well formed, newer, shares a root, and is signed by a key that the one before lists. -/
namespace Jolt.Pki
open Jolt.Trust Jolt.Base List

section Validity

variable {env : Env} {crypto : Crypto} {now : Int}

theorem signingKeysValid_of_nodup {entries : List BundleKey} {seen : List String}
    (valid : ∀ entry ∈ entries, validKeyID entry.id = true ∧
      (entry.publicKey crypto).isSome = true ∧ entry.notAfter ≠ zeroInstant)
    (distinct : (entries.map (·.id)).Nodup) (unseen : ∀ entry ∈ entries, entry.id ∉ seen) :
    signingKeysValid crypto seen entries = true := by
  induction entries generalizing seen with
  | nil => rfl
  | cons entry entries ih =>
    obtain ⟨named, decoded, lasting⟩ := valid entry (by simp)
    obtain ⟨other, rest⟩ := nodup_cons.mp distinct
    have unused : ∀ e ∈ entries, e.id ∉ entry.id :: seen := by
      intro e inside found
      rcases mem_cons.mp found with same | earlier
      · exact other (mem_map.mpr ⟨e, inside, same⟩)
      · exact unseen e (by simp [inside]) earlier
    have later := ih (fun e inside => valid e (by simp [inside])) rest unused
    have new : entry.id ∉ seen := unseen entry (by simp)
    simp [signingKeysValid, named, decoded, lasting, later, new]

theorem publicKey_of_mem {b : Bundle} {entry : BundleKey} {key : List UInt8}
    (distinct : (b.signingKeys.map (·.id)).Nodup) (inside : entry ∈ b.signingKeys)
    (live : now < entry.notAfter) (decoded : entry.publicKey crypto = some key) :
    b.publicKey crypto now entry.id = some key := by
  have found : (b.publicKey crypto now entry.id).isSome = true := by
    rw [Bundle.publicKey, findSome?_isSome_iff]
    exact ⟨entry, mem_reverse.mpr inside, by simp [live, decoded]⟩
  obtain ⟨result, same⟩ := Option.isSome_iff_exists.mp found
  rw [same]
  obtain ⟨other, member, gives⟩ := exists_of_findSome?_eq_some same
  split at gives
  · rename_i named
    have equal : other = entry :=
      inj_on_of_nodup_map distinct (mem_reverse.mp member) inside named.1
    rw [← gives, equal, decoded]
  · cases gives

theorem certificates_usable {b : Bundle} {roots : List String}
    (same : b.roots.Perm roots)
    (rootsUsable : ∀ text ∈ roots, ∃ cert, crypto.parseCertificate text = .ok cert ∧
      usableRoot now cert = true)
    (issuersUsable : ∀ text ∈ b.intermediates, ∃ cert, crypto.parseCertificate text = .ok cert ∧
      cert.isCA = true ∧ now ≤ cert.notAfter ∧ crypto.checkSignatureFrom cert cert = false ∧
      ∃ root ∈ roots, ∃ signer, crypto.parseCertificate root = .ok signer ∧
        signer.fingerprint ≠ cert.fingerprint ∧ crypto.checkSignatureFrom cert signer = true) :
    ∃ certs issuers, b.certificates crypto = .ok (certs, issuers) ∧
      certs.all (usableRoot now) = true ∧
      issuers.all (usableIssuer crypto now certs) = true := by
  obtain ⟨certs, parsed, fromRoots, toRoots⟩ := mapM_ok fun text inside =>
    (rootsUsable text (same.mem_iff.mp inside)).imp fun _ found => found.1
  obtain ⟨issuers, read, fromIssuers, _⟩ := mapM_ok fun text inside =>
    (issuersUsable text inside).imp fun _ found => found.1
  refine ⟨certs, issuers, ?_, ?_, ?_⟩
  · rw [Bundle.certificates, parsed]
    dsimp only
    rw [read]
  · rw [all_eq_true]
    intro cert inside
    obtain ⟨text, listed, gives⟩ := fromRoots cert inside
    obtain ⟨found, reads, usable⟩ := rootsUsable text (same.mem_iff.mp listed)
    cases gives.symm.trans reads
    exact usable
  · rw [all_eq_true]
    intro cert inside
    obtain ⟨text, listed, gives⟩ := fromIssuers cert inside
    obtain ⟨found, reads, isCA, live, other, root, member, signer, parses, differs, signed⟩ :=
      issuersUsable text listed
    cases gives.symm.trans reads
    obtain ⟨rootCert, stored, parsesTo⟩ := toRoots root (same.mem_iff.mpr member)
    cases parses.symm.trans parsesTo
    have unexpired : ¬ cert.notAfter < now := by omega
    have signedBy : (certs.any fun root => root.fingerprint != cert.fingerprint &&
        crypto.checkSignatureFrom cert root) = true :=
      any_eq_true.mpr ⟨signer, stored, by simp [differs, signed]⟩
    simp [usableIssuer, isCA, unexpired, signedBy, other]

end Validity

section Passes

variable {env : Env} {pass : Pass} {db after : Database} {root : PKIObject}
  {roots : List PKIObject} {keys : List SigningKey} {key : SigningKey} {view : View}
  {published : Option Bundle} {b : Bundle}

def PKIObject.entry (object : PKIObject) : BundleKey :=
  ⟨object.id, object.publicPart, object.notAfter⟩

variable (env) in
/-- What a bundle lists, in whatever order, is what is stored. -/
structure Lists (roots : List PKIObject) (after : Database) (b : Bundle) : Prop where
  roots : b.roots.Perm (roots.map (·.publicPart))
  intermediates : b.intermediates.Perm ((inBundle after).map (·.publicPart))
  keys : b.signingKeys.Perm (after.signingKeys.map PKIObject.entry)
  revoked : ∀ serial ∈ b.revokedSerials, ∃ row ∈ after.revocations, row.serial = serial
  few : b.revokedSerials.length ≤ after.revocations.length

theorem PassDone.lists (listing : env.Listing) (ready : PassReady env pass db root roots)
    (done : PassDone env pass db root roots keys key view published after) :
    Lists roots after view.bundle := by
  obtain ⟨sameRoots, sameIssuers, sameKeys, sameSerials⟩ := done.publication.content
  refine ⟨?_, ?_, ?_, ?_, ?_⟩
  · rw [sameRoots]
    exact ready.listed.map _
  · rw [sameIssuers]
    exact ((perm_insertionSort _ _).trans ((listing _).filter _)).map _
  · rw [sameKeys]
    have objects := done.managed.same.map PKIObject.entry
    rw [map_map] at objects
    exact (perm_insertionSort _ _).trans objects
  · rw [sameSerials]
    intro serial inside
    have member := mem_dedup.mp ((perm_insertionSort _ _).mem_iff.mp inside)
    exact mem_map.mp member
  · rw [sameSerials]
    show (List.insertionSort _ ((after.revocations.map (·.serial)).dedup)).length ≤ _
    rw [length_insertionSort]
    exact ((dedup_sublist _).length_le).trans (by rw [length_map])

theorem roots_unexpired (kept : RootsKept env root roots) {now : Int} (live : now ≤ root.notAfter)
    (spared : ∀ old ∈ roots, old.state = .retired → now ≤ old.notAfter) :
    ∀ row ∈ roots, now ≤ row.notAfter := by
  intro row inside
  rcases kept.shape with perm | ⟨next, perm, _, longer⟩ | ⟨old, perm, at_old⟩
  · have same : row = root := by simpa using perm.mem_iff.mp inside
    exact same ▸ live
  · have either : row = root ∨ row = next := by simpa using perm.mem_iff.mp inside
    rcases either with rfl | rfl
    · exact live
    · omega
  · have either : row = root ∨ row = old := by simpa using perm.mem_iff.mp inside
    rcases either with rfl | rfl
    · exact live
    · exact spared row inside at_old

theorem PassDone.validate (ready : PassReady env pass db root roots)
    (done : PassDone env pass db root roots keys key view published after)
    (lists : Lists roots after b) (version : 1 ≤ b.version)
    (standing : Standing env pass.now pass.now root after)
    (spared : ∀ old ∈ roots, old.state = .retired → pass.now ≤ old.notAfter) :
    b.validate env.crypto pass.now = .ok () := by
  have live := done.issuers.live
  have within := done.issuers.kept.within _ done.issuers.mem done.issuers.active
  have unexpired := roots_unexpired ready.kept (show pass.now ≤ root.notAfter by omega) spared
  have counts : b.countsValid = true := by
    have rootCount := lists.roots.length_eq
    have issuerCount := lists.intermediates.length_eq
    have keyCount := lists.keys.length_eq
    have someRoot := length_pos_of_mem ready.kept.mem
    have someIssuer : 0 < (inBundle after).length :=
      length_pos_of_mem (mem_filter.mpr ⟨done.issuers.mem, by simp [done.issuers.active]⟩)
    have keysBound := done.managed.kept.shape.length_le
    have rootsBound := ready.kept.length_le
    have revokedBound := lists.few
    have few := standing.few
    have revoked := standing.revoked
    rw [length_map] at rootCount issuerCount keyCount
    have keysLimit : 2 ≤ maxBundleKeys := by decide
    simp only [Bundle.countsValid, Bool.and_eq_true, decide_eq_true_eq]
    omega
  have signing : signingKeysValid env.crypto [] b.signingKeys = true := by
    refine signingKeysValid_of_nodup ?_ ?_ (by simp)
    · intro entry inside
      obtain ⟨row, stored, rfl⟩ := mem_map.mp (lists.keys.mem_iff.mp inside)
      obtain ⟨⟨publicKey, seed, pair⟩, valid, life, recent⟩ := done.managed.kept.usable row stored
      refine ⟨valid, by simp [BundleKey.publicKey, PKIObject.entry, pair.decoded, pair.publicSize], ?_⟩
      have later : zeroInstant < 0 + signingKeyValidity := by decide
      show row.notAfter ≠ zeroInstant
      omega
    · rw [(lists.keys.map (·.id)).nodup_iff, map_map]
      exact done.managed.kept.distinct
  have hex : b.revokedSerials.all lowercaseHex = true := by
    rw [all_eq_true]
    intro serial inside
    obtain ⟨row, stored, rfl⟩ := lists.revoked serial inside
    exact standing.serials row stored
  have certificates := @certificates_usable env.crypto pass.now b _ lists.roots
    (fun text inside => ?_) (fun text inside => ?_)
  · obtain ⟨certs, issuers, parsed, usable, usable'⟩ := certificates
    have positive : ¬ b.version < 1 := by omega
    simp [Bundle.validate, positive, counts, signing, hex, parsed, usable, usable']
  · obtain ⟨row, stored, rfl⟩ := mem_map.mp inside
    obtain ⟨cert, parsed, isCA, valid, ends⟩ := (ready.kept.usable row stored).certificate
    have live := unexpired row stored
    have current : ¬ cert.notAfter < pass.now := by omega
    exact ⟨cert, parsed, by simp [usableRoot, isCA, valid, current]⟩
  · obtain ⟨row, stored, rfl⟩ := mem_map.mp (lists.intermediates.mem_iff.mp inside)
    have member := (mem_filter.mp stored).1
    obtain ⟨rootText, listed, cert, signed, ends⟩ :=
      (done.issuers.kept.usable row member).certificate
    have live := done.issuers.unexpired row member
    exact ⟨cert, signed.parsed, signed.isCA, by omega, signed.notItself, rootText, listed,
      signed.signed⟩

end Passes

section Latest

variable {env : Env} {bundles : List PKIObject} {row : PKIObject}

theorem bundleID_lt {version : Int} (positive : 0 ≤ version) (bound : version + 1 < 10 ^ 12) :
    bundleID version < bundleID (version + 1) := by
  have first : 0 ≤ version ∧ version < 10 ^ 12 := by omega
  have second : 0 ≤ version + 1 ∧ version + 1 < 10 ^ 12 := by omega
  rw [bundleID, if_pos first, bundleID, if_pos second, String.lt_iff_toList_lt,
    String.toList_ofList, String.toList_ofList]
  have less : version.toNat < (version + 1).toNat := by omega
  have small : (version + 1).toNat < 10 ^ 12 := by omega
  exact digits_lt less small

theorem mem_keptBundles_last (below : ∀ other ∈ bundles, other.id < row.id) :
    row ∈ keptBundles (bundles ++ [row]) := by
  let sorted := (bundles ++ [row]).insertionSort (·.id ≤ ·.id)
  have perm : sorted.Perm (bundles ++ [row]) := perm_insertionSort _ _
  have ordered : sorted.Pairwise (·.id ≤ ·.id) := pairwise_insertionSort _ _
  have split : sorted.take (sorted.length - keepBundles) ++ sorted.drop (sorted.length - keepBundles) =
      sorted := take_append_drop _ _
  have stored : row ∈ sorted := perm.mem_iff.mpr (by simp)
  rw [← split] at stored ordered
  rcases mem_append.mp stored with early | late
  · have kept : sorted.drop (sorted.length - keepBundles) ≠ [] := by
      intro empty
      have none_left := congrArg List.length empty
      have length : sorted.length = bundles.length + 1 := by
        rw [perm.length_eq, length_append, length_singleton]
      have five : 0 < keepBundles := by decide
      rw [length_drop, length_nil] at none_left
      omega
    obtain ⟨last, inside⟩ := exists_mem_of_ne_nil _ kept
    have above := (pairwise_append.mp ordered).2.2 row early last inside
    rcases mem_append.mp (perm.mem_iff.mp (mem_of_mem_drop inside)) with old | new
    · exact absurd above (not_le.mpr (below last old))
    have same : last = row := mem_singleton.mp new
    rw [same] at inside
    exact inside
  · exact late

theorem latestBundle_published (listing : env.Listing)
    (below : ∀ other ∈ bundles, other.id < row.id) :
    latestBundle (env.listed (keptBundles (upsert bundles row))) = some row := by
  rw [upsert_new fun other inside => (below other inside).ne]
  have member := (listing (keptBundles (bundles ++ [row]))).mem_iff.mpr (mem_keptBundles_last below)
  rcases best_cases PKIObject.id (env.listed (keptBundles (bundles ++ [row]))) with
    ⟨empty, _⟩ | ⟨top, found, inside, above⟩
  · rw [empty] at member
    cases member
  rw [latestBundle, found]
  have stored := mem_keptBundles ((listing _).mem_iff.mp inside)
  rcases mem_append.mp stored with old | new
  · exact absurd (above row member) (not_le.mpr (below top old))
  · rw [mem_singleton.mp new]

end Latest

section Runs

variable (env : Env)

def Adopts (new old : Bundle) : Prop :=
  ∀ rootPin, verifyBundle env.crypto new (some old) rootPin new.issuedAt = .ok ()

/-- The last bundle that was published is the latest that is stored, and lists the keys and
the roots; a call that has not yet made its pass may have added a root. -/
structure Announced (owed : Bool) (root : PKIObject) (db : Database) (last : Bundle) : Prop where
  latest : ∃ row, latestBundle (env.listed db.bundles) = some row ∧
    row.id = bundleID last.version ∧ parseBundle env.crypto row.publicPart = .ok last
  version : 1 ≤ last.version
  keys : last.signingKeys.Perm (db.signingKeys.map PKIObject.entry)
  active : root.publicPart ∈ last.roots
  all : owed = false → ∀ row ∈ db.roots, row.publicPart ∈ last.roots

variable {env} {pass : Pass} {db after : Database} {root : PKIObject} {roots : List PKIObject}
  {keys : List SigningKey} {key : SigningKey} {view : View} {new old : Bundle} {passed : Int}

theorem PassDone.signs (done : PassDone env pass db root roots keys key view (some new) after)
    (kept : KeysKept env passed db.signingKeys)
    (listed : old.signingKeys.Perm (db.signingKeys.map PKIObject.entry)) :
    new.signedBy env.crypto (old.publicKey env.crypto pass.now new.signature.keyID) = .ok () := by
  obtain ⟨signer, one, ⟨seed, opened, signs⟩, decoded, live, known⟩ := done.managed.signer
  have same : signer = key := by simpa [done.signer] using one.symm
  subst same
  have stored : db.signingKeys ≠ [] := by
    have some_key := kept.shape.length_le.1
    exact ne_nil_of_length_pos some_key
  obtain ⟨row, inside, sameID, samePart, sameEnd⟩ := known stored
  obtain ⟨publicKey, _, pair⟩ := (kept.usable row inside).pair
  have read : row.entry.publicKey env.crypto = some signer.publicKey := by
    have equal : some publicKey = some signer.publicKey := by
      rw [← pair.decoded, ← decoded, samePart]
    simp only [BundleKey.publicKey, PKIObject.entry, pair.decoded, pair.publicSize, if_true]
    exact equal
  have distinct : (old.signingKeys.map (·.id)).Nodup := by
    rw [(listed.map (·.id)).nodup_iff, map_map]
    exact kept.distinct
  have member : row.entry ∈ old.signingKeys := listed.mem_iff.mpr (mem_map_of_mem inside)
  have trusted := publicKey_of_mem distinct member (show pass.now < row.notAfter by omega) read
  have publication := done.publication
  generalize view.bundle = bundle at publication
  generalize after.bundles = bundles at publication
  cases publication with
  | @new version found signed follows private_part made =>
    cases opened.symm.trans private_part
    have payload : new.payload env.crypto = Bundle.payload env.crypto
        { desiredBundle env root db.roots after.intermediates keys after.revocations with
          version := version + 1, issuedAt := pass.now } := by
      rw [made]
      rfl
    obtain ⟨signature, reads, size, verifies⟩ := signs (new.payload env.crypto)
    have value : new.signature = ⟨signer.object.id, env.sign seed (new.payload env.crypto)⟩ := by
      rw [payload, made]
    rw [value, sameID]
    rw [show row.id = row.entry.id from rfl, trusted]
    simp [Bundle.signedBy, value, reads, size, verifies]

theorem PassDone.adopts {owed : Bool} (ready : PassReady env pass db root roots)
    (done : PassDone env pass db root roots keys key view (some new) after)
    (kept : KeysKept env passed db.signingKeys) (announced : Announced env owed root db old)
    (lists : Lists roots after new) (valid : new.validate env.crypto pass.now = .ok ())
    (stamped : new.issuedAt = pass.now) (newer : old.version < new.version) : Adopts env new old := by
  intro rootPin
  obtain ⟨cert, parsed, _⟩ := (ready.kept.usable root ready.kept.mem).certificate
  have inNew : root.publicPart ∈ new.roots :=
    lists.roots.mem_iff.mpr (mem_map_of_mem ready.kept.mem)
  have fingerprint (b : Bundle) (inside : root.publicPart ∈ b.roots) :
      cert.fingerprint ∈ b.rootSet env.crypto :=
    mem_filterMap.mpr ⟨root.publicPart, inside, by simp [parsed]⟩
  have shared : (new.rootSet env.crypto).any ((old.rootSet env.crypto).contains ·) = true :=
    any_eq_true.mpr ⟨cert.fingerprint, fingerprint new inNew,
      contains_iff_mem.mpr (fingerprint old announced.active)⟩
  have signed := done.signs kept announced.keys
  have later : ¬ new.version ≤ old.version := by omega
  rw [stamped]
  simp only [verifyBundle, valid, later, shared, if_false, Bool.not_true, Bool.false_eq_true]
  exact signed

theorem PassDone.announced_new (listing : env.Listing) (ready : PassReady env pass db root roots)
    (done : PassDone env pass db root roots keys key view (some new) after)
    (lists : Lists roots after new) (version : 1 ≤ new.version)
    (stored : after.bundles = keptBundles (upsert db.bundles (bundleRow env new pass.now)))
    (below : ∀ row ∈ db.bundles, row.id < bundleID new.version)
    (readable : parseBundle env.crypto (env.crypto.marshal new) = .ok new) :
    Announced env false root after new := by
  have latest : latestBundle (env.listed after.bundles) = some (bundleRow env new pass.now) := by
    rw [stored]
    exact latestBundle_published listing below
  have listed (row : PKIObject) (inside : row ∈ roots) : row.publicPart ∈ new.roots :=
    lists.roots.mem_iff.mpr (mem_map_of_mem inside)
  exact ⟨⟨_, latest, rfl, readable⟩, version, lists.keys, listed root ready.kept.mem,
    fun _ row inside => listed row (done.rootRows ▸ inside)⟩

theorem PassDone.standing {published : Option Bundle} (ready : PassReady env pass db root roots)
    (done : PassDone env pass db root roots keys key view published after)
    (readable : ∀ b, published = some b → parseBundle env.crypto (env.crypto.marshal b) = .ok b)
    (few : (inBundle db).length ≤ maxBundleIssuers) (room : Room env pass.now db)
    (serials : ∀ row ∈ db.revocations, lowercaseHex row.serial = true)
    (revoked : db.revocations.length ≤ maxRevokedSerials)
    (born : ∀ row ∈ roots, row.notAfter ≤ toSecond (pass.now + rootValidity)) :
    Standing env pass.now pass.now root after where
  kept := done.databaseKept ready readable
  few := done.issuers.few ready.issuers.states few room
  serials row inside := by
    rw [done.revocations] at inside
    exact serials row (mem_filter.mp inside).1
  revoked := by
    rw [done.revocations]
    exact (length_filter_le _ _).trans revoked
  born row inside := born row (done.rootRows ▸ inside)

end Runs

section Histories

variable (env : Env)

/-- Each bundle is well formed when it is published, and is taken over from the one before. -/
structure Acceptable (published : List Bundle) : Prop where
  valid : ∀ b ∈ published, b.validate env.crypto b.issuedAt = .ok ()
  chain : published.IsChain (Adopts env)

/-- Where the calls can lead: nothing yet, or everything in order. -/
inductive Reached (s : Tower) : Prop where
  | fresh (db : s.db = .empty) (published : s.published = []) (passed : s.passed = none)
      (clock : 0 ≤ s.clock)
  | running (root : PKIObject) (passed : Int) (last : Bundle) (rest : List Bundle)
      (at_pass : s.passed = some passed) (early : 0 ≤ passed) (before : passed ≤ s.clock)
      (standing : Standing env passed s.clock root s.db)
      (announced : Announced env s.owed root s.db last) (published : s.published = last :: rest)
      (acceptable : Acceptable env s.published)

variable {env} {s t : Tower} {pass : Pass} {step : Step}

section

variable (listing : env.Listing)
include listing

theorem reached_first (empty : s.db = .empty) (unpublished : s.published = [])
    (later : 0 ≤ pass.now) (proper : pass.Proper env s.db) :
    Reached env (s.pass env pass) := by
  rw [empty] at proper
  obtain ⟨root, ready, ends⟩ := empty_ready listing proper.makes later
  obtain ⟨keys, key, view, published, after, passes, done⟩ := ensureLocked_ok listing ready
  have readable := proper.readable
  rw [passes] at readable
  have outcome : s.pass env pass = ⟨after, (some view).or s.view, false, pass.now, some pass.now,
      published.toList ++ s.published⟩ := by rw [Tower.pass, empty, passes]
  have listed_nil : env.listed [] = [] := perm_nil.mp (listing [])
  have no_latest : latestBundle (env.listed Database.empty.bundles) = none := by
    rw [show Database.empty.bundles = [] from rfl, listed_nil]
    rfl
  have room : Room env pass.now Database.empty := fun _ => Nat.zero_le _
  have standing := done.standing ready readable (Nat.zero_le _) room (by simp [Database.empty])
    (Nat.zero_le _) (by simp [ends])
  have lists := done.lists listing ready
  cases published with
  | none =>
    obtain ⟨_, latest, found, _⟩ := done.publication.of_none
    rw [no_latest] at found
    cases found
  | some new =>
    obtain ⟨same, stamped, stored, ⟨_, version⟩ | ⟨latest, _, found, _⟩⟩ := done.publication.of_some
    · rw [same] at lists
      have announced := done.announced_new listing ready lists (by omega) stored
        (by simp [Database.empty]) (readable new rfl)
      have valid := done.validate ready lists (by omega) standing (by simp [ready.kept.active])
      rw [outcome, unpublished]
      refine .running root pass.now new [] rfl later (Int.le_refl _) standing announced rfl ⟨?_, ?_⟩
      · simpa [stamped] using valid
      · exact .singleton new
    · rw [no_latest] at found
      cases found

theorem Announced.below {owed : Bool} {root : PKIObject} {db : Database} {last : Bundle}
    (announced : Announced env owed root db last) (bound : last.version + 1 < 10 ^ 12) :
    ∀ row ∈ db.bundles, row.id < bundleID (last.version + 1) := by
  intro row inside
  obtain ⟨latest, found, named, _⟩ := announced.latest
  have positive := announced.version
  have le := (latestBundle_some listing found).2 row inside
  rw [named] at le
  exact lt_of_le_of_lt le (bundleID_lt (by omega) bound)

theorem reached_again {root : PKIObject} {passed : Int} {last : Bundle} {rest : List Bundle}
    (at_pass : s.passed = some passed) (early : 0 ≤ passed) (before : passed ≤ s.clock)
    (standing : Standing env passed s.clock root s.db)
    (announced : Announced env s.owed root s.db last) (published : s.published = last :: rest)
    (acceptable : Acceptable env s.published) (admitted : Admitted env s (.ensure pass))
    (spares : (Step.ensure pass).Spares env s) : Reached env (s.pass env pass) := by
  obtain ⟨fits, room, spared, bound⟩ := spares
  have later : s.clock ≤ pass.now := admitted.later
  have proper : pass.Proper env s.db := admitted.makes
  have now : 0 ≤ pass.now := by omega
  have ready := standing.kept.ready listing proper.makes now (admitted.soon pass passed rfl at_pass)
    fits
  obtain ⟨keys, key, view, fresh, after, passes, done⟩ := ensureLocked_ok listing ready
  have readable := proper.readable
  rw [passes] at readable
  have outcome : s.pass env pass = ⟨after, (some view).or s.view, false, pass.now, some pass.now,
      fresh.toList ++ s.published⟩ := by rw [Tower.pass, passes]
  have standing' := done.standing ready readable standing.few room standing.serials standing.revoked
    (standing.later later).born
  have lists := done.lists listing ready
  obtain ⟨row, found, named, read⟩ := announced.latest
  rw [outcome]
  cases fresh with
  | none =>
    obtain ⟨stored, latest, latestFound, latestRead⟩ := done.publication.of_none
    cases found.symm.trans latestFound
    cases read.symm.trans latestRead
    have listed (row : PKIObject) (inside : row ∈ s.db.roots) : row.publicPart ∈ view.bundle.roots :=
      lists.roots.mem_iff.mpr (mem_map_of_mem inside)
    refine .running root pass.now view.bundle rest rfl now (Int.le_refl _) standing'
      ⟨⟨row, ?_, named, read⟩, announced.version, lists.keys, listed root ready.kept.mem, ?_⟩
      published acceptable
    · show latestBundle (env.listed after.bundles) = some row
      rw [stored]
      exact found
    · exact fun _ row inside => listed row (done.rootRows ▸ inside)
  | some new =>
    obtain ⟨same, stamped, stored, ⟨missing, _⟩ | ⟨latest, current, latestFound, latestRead, version⟩⟩ :=
      done.publication.of_some
    · cases found.symm.trans missing
    cases found.symm.trans latestFound
    cases read.symm.trans latestRead
    rw [same] at lists
    have newest : last.version + 1 < 10 ^ 12 := bound last (by rw [published]; rfl)
    have positive := announced.version
    have below := announced.below listing newest
    rw [← version] at below
    have announced' := done.announced_new listing ready lists (by omega) stored below
      (readable new rfl)
    have valid := done.validate ready lists (by omega) standing' spared
    have adopts := done.adopts ready standing.kept.keys announced lists valid stamped (by omega)
    refine .running root pass.now new (last :: rest) rfl now (Int.le_refl _) standing' announced'
      (by simp [published]) ⟨?_, ?_⟩
    · intro b inside
      rcases mem_cons.mp inside with rfl | earlier
      · exact stamped ▸ valid
      · exact acceptable.valid b earlier
    · have chain := acceptable.chain
      rw [published] at chain
      simp only [Option.toList_some, cons_append, nil_append, published]
      exact .cons_cons adopts chain

theorem reached_call (reached : Reached env s) (idle : s.owed = false)
    (admitted : Admitted env s step) (spares : step.Spares env s) :
    (∀ db, step.rows env s.db = .ok (some db) →
      Reached env { s with db, owed := true, clock := step.now }) ∧
    Reached env { s with clock := step.now } := by
  have later := admitted.later
  cases reached with
  | fresh empty published passed clock =>
    refine ⟨fun db done => ?_, .fresh empty published passed (by show 0 ≤ step.now; omega)⟩
    rw [empty] at done
    exact absurd done (rows_empty listing step db)
  | running root passed last rest at_pass early before standing announced published acceptable =>
    have standing' := standing.later later
    refine ⟨fun db done => ?_, .running root passed last rest at_pass early (by show _ ≤ step.now; omega)
      standing' announced published acceptable⟩
    obtain ⟨⟨root', after, text⟩, keys, bundles⟩ :=
      rows_kept listing standing' admitted.makes spares done
    obtain ⟨row, stored, same⟩ := mem_map.mp text
    refine .running root' passed last rest at_pass early (by show _ ≤ step.now; omega) after
      ⟨?_, announced.version, ?_, ?_, ?_⟩ published acceptable
    · show ∃ row, latestBundle (env.listed db.bundles) = some row ∧ _
      rw [bundles]
      exact announced.latest
    · show last.signingKeys.Perm (db.signingKeys.map PKIObject.entry)
      rw [keys]
      exact announced.keys
    · rw [← same]
      exact announced.all idle row stored
    · nofun

theorem reached_next {answer : Option Unit} (moved : Tower.next env s step = some (t, answer))
    (admitted : Admitted env s step) (spares : step.Spares env s) (reached : Reached env s) :
    Reached env t := by
  cases step with
  | ensure pass =>
    cases moved
    cases reached with
    | fresh empty published passed clock =>
      have later : s.clock ≤ pass.now := admitted.later
      exact reached_first listing empty published (by omega) admitted.makes
    | running root passed last rest at_pass early before standing announced published acceptable =>
      exact reached_again listing at_pass early before standing announced published acceptable
        admitted spares
  | revoke | rotateIntermediate | beginRootRotation | promoteRoot | retireRoot =>
    simp only [Tower.next] at moved
    split at moved
    · cases moved
    rename_i idle
    obtain ⟨wrote, refused⟩ := reached_call listing reached (by simpa using idle) admitted spares
    split at moved
    · rename_i db done
      cases moved
      exact wrote db done
    · cases moved
      exact refused
    · cases moved
      exact refused

end

variable (env) in
def Orderly (s : Tower) (step : Step) (_ : Tower) : Prop := Admitted env s step ∧ step.Spares env s

/-- In every run of calls at times that do not decrease, with passes a day apart at most, in
which each renewal that falls due fits under the root and into the bundle, each revocation of
intermediates fits into the list, and no retired root is kept beyond its end: each bundle that
was published is well formed when it is, and is taken over by a node with the one before. -/
theorem published_bundles_are_adopted (listing : env.Listing)
    (run : Run (Tower.next env) (Orderly env) Tower.empty t) : Acceptable env t.published := by
  have reached : Reached env t := by
    refine run.keeps ?_ (.fresh rfl rfl rfl (Int.le_refl 0))
    rintro u step v answer moved ⟨admitted, spares⟩ before
    exact reached_next listing moved admitted spares before
  cases reached with
  | fresh _ published =>
    rw [published]
    exact ⟨by simp, .nil⟩
  | running _ _ _ _ _ _ _ _ _ _ acceptable => exact acceptable

end Histories

section Samples

/-- Goes through the rows before it hands them on, so that what follows is computed from them. -/
def forced {α : Type} : List PKIObject → (List PKIObject → α) → α
  | [], f => f []
  | row :: rows, f => forced rows fun rest => f (row :: rest)

theorem forced_eq {α : Type} (rows : List PKIObject) (f : List PKIObject → α) :
    forced rows f = f rows := by
  induction rows generalizing f with
  | nil => rfl
  | cons row rows ih => exact ih _

/-- So many daily passes, the first of them on this day, while each is in order: the database after
them and the bundles published so far. -/
def sampleDays (orderly : Nat → Database → List Bundle → Bool) :
    Nat → Nat → Database → List Bundle → Option (Database × List Bundle)
  | 0, _, db, published => some (db, published)
  | n + 1, today, db, published =>
    let outcome := ensureLocked sampleEnv (samplePass today) db
    if freeNames today db && orderly today db published && outcome.published.all fun b =>
        decide (parseBundle sampleCrypto (sampleCrypto.marshal b) = .ok b) then
      forced outcome.db.roots fun roots => forced outcome.db.intermediates fun intermediates =>
        forced outcome.db.signingKeys fun signingKeys => forced outcome.db.bundles fun bundles =>
          forced outcome.db.revocations fun revocations =>
            sampleDays orderly n (today + 1)
              ⟨roots, intermediates, signingKeys, bundles, revocations⟩
              (outcome.published.toList ++ published)
    else none

theorem Sampled.days {meets : Tower → Step → Tower → Prop}
    {orderly : Nat → Database → List Bundle → Bool} {n today : Nat} {db after : Database}
    {published made : List Bundle} {s : Tower} (met : ∀ {s today}, Scheduled sampleEnv s (samplePass today) →
      orderly today s.db s.published = true →
      meets s (.ensure (samplePass today)) (s.pass sampleEnv (samplePass today)))
    (small : today + n ≤ 10000) (sampled : Sampled meets today db published s)
    (found : sampleDays orderly n today db published = some (after, made)) :
    ∃ t, Sampled meets (today + n) after made t ∧ (s.owed = false → t.owed = false) := by
  induction n generalizing today db published s with
  | zero =>
    cases found
    exact ⟨s, sampled, id⟩
  | succ n ih =>
    simp only [sampleDays] at found
    split at found
    · rename_i checked
      simp only [Bool.and_eq_true, Option.all_eq_true, decide_eq_true_eq] at checked
      obtain ⟨⟨free, orders⟩, readable⟩ := checked
      have scheduled := sampled.scheduled ⟨sample_makes free (by omega), readable⟩
      have next := sampled.pass (met scheduled (sampled.db ▸ sampled.published ▸ orders))
      rw [show today + (n + 1) = today + 1 + n by omega]
      obtain ⟨t, reached, idle⟩ := ih (by omega) next (by simpa only [forced_eq] using found)
      exact ⟨t, reached, fun _ => idle rfl⟩
    · cases found

/-- Nothing that a pass makes is one too many: only the first pass renews an intermediate. -/
def roomy (today : Nat) (db : Database) (published : List Bundle) : Bool :=
  (!renewalDue (today * day) (currentIssuer sampleEnv db.intermediates) ||
      db.roots.isEmpty && db.intermediates.isEmpty) &&
    db.roots.all (·.state != .retired) && published.head?.all (decide <| ·.version < 1000)

theorem roomy_orderly {s t : Tower} {today : Nat}
    (scheduled : Scheduled sampleEnv s (samplePass today))
    (room : roomy today s.db s.published = true) :
    Orderly sampleEnv s (.ensure (samplePass today)) t := by
  simp only [roomy, Bool.and_eq_true, Bool.or_eq_true, Bool.not_eq_true', List.isEmpty_iff, all_eq_true,
    bne_iff_ne, Option.all_eq_true, decide_eq_true_eq] at room
  obtain ⟨⟨renews, roots⟩, versions⟩ := room
  refine ⟨⟨scheduled.later, ?_, scheduled.proper⟩, ?_, ?_, ?_, ?_⟩
  · rintro pass passed ⟨⟩ known
    exact scheduled.soon passed known
  · intro root active due
    rcases renews with idle | ⟨none_left, _⟩
    · cases idle.symm.trans due
    · rw [none_left] at active
      cases active
  · intro due
    rcases renews with idle | ⟨_, none_left⟩
    · cases idle.symm.trans due
    · simp [none_left]
  · exact fun old inside retired => absurd retired (roots old inside)
  · intro b first
    have bound := versions b first
    omega

/-- The rows after a pass, a rotation of the intermediate on the next day, and the passes of so many
days from then on. -/
def rotatedUntil (days : Nat) : Option (Database × List Bundle) :=
  (sampleDays roomy 1 0 .empty []).bind fun (db, published) =>
    match rotateIntermediate sampleEnv false (samplePass 1).now (samplePass 1).intermediate db with
    | .ok (some rotated) =>
      if db.intermediates.all (·.id != serialText 1) && db.roots.all firstRoot then
        sampleDays roomy days 1 rotated published
      else none
    | _ => none

theorem rotatedUntil_sampled {days : Nat} (small : days ≤ 9000) {db : Database}
    {published : List Bundle} (found : rotatedUntil days = some (db, published)) :
    ∃ s, Sampled (Orderly sampleEnv) (1 + days) db published s := by
  obtain ⟨⟨before, earlier⟩, first, rest⟩ := Option.bind_eq_some_iff.mp found
  have start : Sampled (Orderly sampleEnv) 0 .empty [] .empty := .empty
  obtain ⟨s, ⟨run, rfl, rfl, later, soon⟩, idle⟩ := start.days roomy_orderly (by decide) first
  dsimp only at rest
  split at rest
  · rename_i rotated done
    split_ifs at rest with names
    simp only [Bool.and_eq_true, all_eq_true, bne_iff_ne, firstRoot, beq_iff_eq] at names
    obtain ⟨free, roots⟩ := names
    have moved : Tower.next sampleEnv s (.rotateIntermediate (samplePass 1).now false
        (samplePass 1).intermediate) =
        some ({ s with db := rotated, owed := true, clock := (samplePass 1).now }, none) := by
      simp only [Tower.next, idle rfl, Step.rows, done, Bool.false_eq_true, if_false, Step.now]
    have admitted : Admitted sampleEnv s (.rotateIntermediate (samplePass 1).now false
        (samplePass 1).intermediate) := by
      refine ⟨later, fun _ _ other => (by cases other), fun root active => ?_⟩
      have inside : root ∈ s.db.roots := (mem_filter.mp (mem_of_getLast? active)).1
      exact sample_properIssuer (by decide) (show 0 < 10000 by decide) (roots root inside).2 free
    have rotated' : Sampled (Orderly sampleEnv) 1 rotated s.published _ :=
      ⟨.step run moved ⟨admitted, trivial⟩, rfl, rfl, Int.le_refl _, soon⟩
    obtain ⟨t, reached, _⟩ := rotated'.days roomy_orderly (by omega) rest
    exact ⟨t, reached⟩
  · cases rest

/-- On this day the pass publishes a third intermediate. -/
def publishesThird (today : Nat) (db : Database) (published : List Bundle) : Bool :=
  freeNames today db && !published.isEmpty &&
    match (ensureLocked sampleEnv (samplePass today) db).published with
    | none => false
    | some b => b.intermediates.length == 3 && decide (1 ≤ b.version) &&
        decide (parseBundle sampleCrypto (sampleCrypto.marshal b) = .ok b)

theorem sample_third : ((rotatedUntil 487).any fun found =>
    publishesThird 488 found.1 found.2) = true := by
  decide +kernel

/-- The renewal on day 488 publishes a third intermediate, which no node takes over. -/
theorem third_intermediate_is_refused :
    ∃ t new old rest, Run (Tower.next sampleEnv) (fun s step _ => Admitted sampleEnv s step)
        Tower.empty t ∧ t.published = new :: old :: rest ∧ new.intermediates.length = 3 ∧
      verifyBundle sampleEnv.crypto new (some old) "" new.issuedAt =
        .error "trust bundle has an unexpected number of entries" := by
  obtain ⟨⟨db, published⟩, found, third⟩ := (Option.any_eq_true _ _).mp sample_third
  obtain ⟨s, sampled⟩ := rotatedUntil_sampled (by decide) found
  simp only [publishesThird, Bool.and_eq_true] at third
  obtain ⟨⟨free, before⟩, publishes⟩ := third
  split at publishes
  · cases publishes
  rename_i b new
  simp only [Bool.and_eq_true, beq_iff_eq, decide_eq_true_eq] at publishes
  obtain ⟨⟨three, version⟩, readable⟩ := publishes
  have scheduled := sampled.scheduled ⟨sample_makes free (by decide), fun b' same => by
    cases new.symm.trans same
    exact readable⟩
  have run : Run (Tower.next sampleEnv) (fun s step _ => Admitted sampleEnv s step) Tower.empty s :=
    sampled.run.mono fun _ _ _ met => met.1
  have admitted : Admitted sampleEnv s (.ensure (samplePass 488)) := by
    refine ⟨scheduled.later, ?_, scheduled.proper⟩
    rintro pass passed ⟨⟩ known
    exact scheduled.soon passed known
  obtain ⟨old, rest, rfl⟩ := exists_cons_of_ne_nil (by simpa using before)
  refine ⟨_, b, old, rest, .step run rfl admitted, ?_, three, ?_⟩
  · simp [Tower.pass, sampled.db, sampled.published, new]
  have counts : b.countsValid = false := by
    simp [Bundle.countsValid, three, maxBundleIssuers]
  have positive : ¬ b.version < 1 := by omega
  simp [verifyBundle, Bundle.validate, positive, counts]

theorem bundles_before_third_are_adopted :
    ∃ t, sampleEnv.Listing ∧ Run (Tower.next sampleEnv) (Orderly sampleEnv) Tower.empty t ∧
      t.published ≠ [] ∧ Acceptable sampleEnv t.published := by
  obtain ⟨⟨db, published⟩, found, third⟩ := (Option.any_eq_true _ _).mp sample_third
  obtain ⟨s, sampled⟩ := rotatedUntil_sampled (by decide) found
  simp only [publishesThird, Bool.and_eq_true, Bool.not_eq_true', List.isEmpty_eq_false_iff] at third
  exact ⟨s, sampleEnv_listing, sampled.run, sampled.published ▸ third.1.2,
    published_bundles_are_adopted sampleEnv_listing sampled.run⟩

end Samples

end Jolt.Pki
