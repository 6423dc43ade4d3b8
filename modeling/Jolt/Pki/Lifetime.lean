import Jolt.Pki.Survival

/-! How long the authority lives when it is left to itself: until the first renewal that does
not fit under the root, two years before the root expires. -/
namespace Jolt.Pki
open Jolt.Trust Jolt.Base List

section Lifetime

variable {env : Env} {s : Tower} {pass : Pass}

theorem daily_stage (listing : env.Listing)
    (run : Run (Tower.next env) (Daily env) Tower.empty s) : Stage env s := by
  refine run.keeps ?_ (.fresh rfl rfl (Int.le_refl 0))
  rintro u step v a moved ⟨pass, rfl, met⟩ before
  cases moved
  exact (stage_next listing before met).2

/-- In every run of passes a day apart at most, from an empty database: the next pass succeeds
and leaves a key and an intermediate in force if and only if a renewal that is due fits under
the root. -/
theorem pass_survives_iff_renewal_fits (listing : env.Listing)
    (run : Run (Tower.next env) (Daily env) Tower.empty s) (scheduled : Scheduled env s pass) :
    Survives pass.now (ensureLocked env pass s.db) ↔ Fits env pass.now s.db :=
  (stage_next listing (daily_stage listing run) scheduled).1

end Lifetime

section Samples

variable {db : Database} {made n today : Nat} {root : PKIObject}

def mark (n : Nat) : Char := Char.ofNat (n + 128)

def unmark (c : Char) : Nat := c.toNat - 128

def daysOf (t : Int) : Nat := (t / day).toNat

def sampleText (kind : Char) (made : Nat) : String := String.ofList [kind, mark made]

def sampleCertificate (kind : Char) (validity : Int) (made : Nat) : Certificate where
  fingerprint := sampleText kind made
  serial := String.ofList (digits 4 made)
  isCA := true
  basicConstraintsValid := true
  notBefore := toSecond (made * day - clockSkew)
  notAfter := toSecond (made * day + validity)

def sampleKeys : List Char → List BundleKey
  | id :: ends :: rest =>
    ⟨String.ofList ['c', 't', '-', id, '-', '0', '0'], "key", unmark ends * day⟩ :: sampleKeys rest
  | _ => []

def sampleLetters (b : Bundle) : List Char :=
  mark b.version.toNat :: mark (daysOf b.issuedAt) :: b.signature.keyID.toList.getD 3 ' ' ::
    mark b.roots.length :: mark b.intermediates.length ::
    (b.roots ++ b.intermediates).map (·.toList.getD 1 ' ') ++
    b.signingKeys.flatMap fun key => [key.id.toList.getD 3 ' ', mark (daysOf key.notAfter)]

def sampleUnmarshal : List Char → Except String Bundle
  | version :: issued :: signer :: roots :: intermediates :: rest =>
    .ok
      { version := unmark version
        issuedAt := unmark issued * day
        roots := (rest.take (unmark roots)).map fun c => String.ofList ['r', c]
        intermediates := ((rest.drop (unmark roots)).take (unmark intermediates)).map fun c =>
          String.ofList ['i', c]
        signingKeys := sampleKeys (rest.drop (unmark roots + unmark intermediates))
        revokedSerials := []
        signature := ⟨String.ofList ['c', 't', '-', signer, '-', '0', '0'], "signature"⟩ }
  | _ => .error "invalid trust bundle"

def sampleCrypto : Crypto where
  parseCertificate text :=
    match text.toList with
    | ['r', c] => .ok (sampleCertificate 'r' rootValidity (unmark c))
    | ['i', c] => .ok (sampleCertificate 'i' intermediateValidity (unmark c))
    | _ => .error "malformed certificate"
  checkSignatureFrom child parent :=
    child.fingerprint.toList.head? == some 'i' && parent.fingerprint.toList.head? == some 'r'
  decodeBase64 text :=
    if text = "key" then some (List.replicate publicKeySize 0)
    else if text = "signature" then some (List.replicate signatureSize 0)
    else none
  verify _ _ _ := true
  marshal b := String.ofList (sampleLetters b)
  unmarshal text := sampleUnmarshal text.toList

def sampleEnv : Env where
  crypto := sampleCrypto
  listed := id
  formatDay t := String.ofList [mark (daysOf t)]
  unsealKey _ := .ok ()
  unsealSeed _ := .ok (List.replicate seedSize 0)
  publicOf _ := List.replicate publicKeySize 0
  sign _ _ := "signature"

theorem sampleEnv_listing : sampleEnv.Listing := fun rows => .refl rows

def samplePass (today : Nat) : Pass where
  now := today * day
  root := ⟨sampleText 'r' today, "sealed"⟩
  intermediate := ⟨sampleText 'i' today, "sealed"⟩
  key := ⟨"00", List.replicate publicKeySize 0, List.replicate seedSize 0, "key", "sealed"⟩
  reissue := false

/-- The serial of an intermediate and the ID of a key, by the day they were made. -/
def serialText (made : Nat) : String := String.ofList (digits 4 made)

def keyText (made : Nat) : String := String.ofList ['c', 't', '-', mark made, '-', '0', '0']

theorem toNat_ofNat (valid : n.isValidChar) : (Char.ofNat n).toNat = n := by
  rw [Char.ofNat, dif_pos valid]
  rfl

theorem mark_toNat (small : n < 30000) : (mark n).toNat = n + 128 := by
  have low : n + 128 < 55296 := by omega
  exact toNat_ofNat (.inl low)

theorem unmark_mark (small : n < 30000) : unmark (mark n) = n := by
  have same := mark_toNat small
  unfold unmark
  omega

theorem daysOf_mul (n : Nat) : daysOf (n * day) = n := by
  have positive := day_pos
  rw [daysOf, Int.mul_ediv_cancel _ (by omega)]
  exact Int.toNat_natCast n

theorem sample_keyID (made : Nat) : newSigningKeyID sampleEnv (made * day) "00" = keyText made := by
  simp [newSigningKeyID, sampleEnv, daysOf_mul, keyText, ← String.toList_inj]

theorem parse_root (small : made < 30000) :
    sampleCrypto.parseCertificate (sampleText 'r' made) =
      .ok (sampleCertificate 'r' rootValidity made) := by
  simp [sampleCrypto, sampleText, unmark_mark small]

theorem parse_issuer (small : made < 30000) :
    sampleCrypto.parseCertificate (sampleText 'i' made) =
      .ok (sampleCertificate 'i' intermediateValidity made) := by
  simp [sampleCrypto, sampleText, unmark_mark small]

theorem utf8ByteSize_ofList_le (l : List Char) :
    (String.ofList l).utf8ByteSize ≤ 4 * l.length := by
  rw [String.utf8ByteSize_ofList]
  induction l with
  | nil => simp
  | cons c l ih =>
    have one := Char.utf8Size_le_four c
    simp only [String.utf8Len_cons, length_cons]
    omega

theorem validKeyID_keyText (small : made < 10000) :
    validKeyID (keyText made) = true := by
  have code : (mark made).toNat = made + 128 := mark_toNat (by omega)
  have size : (keyText made).utf8ByteSize ≤ 128 :=
    (utf8ByteSize_ofList_le _).trans (by simp)
  have other (c : Char) (low : c.toNat < 128) : mark made ≠ c := by
    intro same
    rw [same] at code
    omega
  have above : 33 ≤ (mark made).toNat ∧ (mark made).toNat ≠ 127 := by omega
  have letters : (keyText made).toList = ['c', 't', '-', mark made, '-', '0', '0'] := by
    simp [keyText]
  unfold validKeyID identifier
  simp only [letters]
  simp [size]
  exact ⟨⟨by decide, by decide⟩, above, other '/' (by decide), other '\\' (by decide),
    other '?' (by decide), other '#' (by decide)⟩

theorem lowercaseHex_serialText (made : Nat) : lowercaseHex (serialText made) = true := by
  have size : (serialText made).utf8ByteSize ≤ 64 := by
    have bound := utf8ByteSize_ofList_le (digits 4 made)
    rw [digits_length] at bound
    exact bound.trans (by decide)
  have letters : (serialText made).toList = digits 4 made := by simp [serialText]
  have nonempty : (digits 4 made).isEmpty = false := by
    rw [isEmpty_eq_false_iff, ← length_pos_iff, digits_length]
    decide
  have decimal : (digits 4 made).all (fun c =>
      ('0' ≤ c && c ≤ '9') || ('a' ≤ c && c ≤ 'f')) = true := by
    rw [all_eq_true]
    intro c inside
    obtain ⟨low, high⟩ := mem_digits inside
    simp [low, high]
  simp [lowercaseHex, letters, nonempty, size, decimal]

theorem sampleEnv_crypto : sampleEnv.crypto = sampleCrypto := rfl

theorem samplePass_root (today : Nat) :
    (samplePass today).root = ⟨sampleText 'r' today, "sealed"⟩ := rfl

theorem samplePass_intermediate (today : Nat) :
    (samplePass today).intermediate = ⟨sampleText 'i' today, "sealed"⟩ := rfl

theorem sampleCertificate_notBefore (kind : Char) (validity : Int) (made : Nat) :
    (sampleCertificate kind validity made).notBefore = toSecond (made * day - clockSkew) := rfl

theorem sampleCertificate_notAfter (kind : Char) (validity : Int) (made : Nat) :
    (sampleCertificate kind validity made).notAfter = toSecond (made * day + validity) := rfl

theorem sample_rootCertificate (small : today < 10000) :
    RootCertificate sampleEnv (sampleText 'r' today) (toSecond (today * day + rootValidity)) := by
  refine ⟨sampleCertificate 'r' rootValidity today, ?_, rfl, rfl,
    sampleCertificate_notAfter 'r' rootValidity today⟩
  rw [sampleEnv_crypto]
  exact parse_root (by omega)

theorem sample_properRoot (small : today < 10000) :
    (samplePass today).root.ProperRoot sampleEnv (today * day) [] := by
  rw [samplePass_root]
  exact ⟨sample_rootCertificate small, by simp, rfl, by simp⟩

theorem sample_properIssuer {rows : List PKIObject} (small : today < 10000) (early : made < 10000)
    (text : root.publicPart = sampleText 'r' made)
    (fresh : ∀ row ∈ rows, row.id ≠ serialText today) :
    (samplePass today).intermediate.ProperIssuer sampleEnv (today * day) root rows := by
  have signed : SignedCertificate sampleEnv root.publicPart (sampleText 'i' today)
      (sampleCertificate 'i' intermediateValidity today) := by
    rw [text]
    refine ⟨?_, rfl, ?_, sampleCertificate 'r' rootValidity made, ?_, ?_, ?_⟩
    · rw [sampleEnv_crypto]
      exact parse_issuer (by omega)
    · simp only [sampleEnv, sampleCrypto, sampleCertificate, sampleText, String.toList_ofList]
      rfl
    · rw [sampleEnv_crypto]
      exact parse_root (by omega)
    · simp [sampleCertificate, sampleText, ← String.toList_inj]
    · simp only [sampleEnv, sampleCrypto, sampleCertificate, sampleText, String.toList_ofList]
      rfl
  rw [samplePass_intermediate]
  exact ⟨⟨sampleCertificate 'i' intermediateValidity today, signed,
    sampleCertificate_notBefore 'i' intermediateValidity today,
    sampleCertificate_notAfter 'i' intermediateValidity today, lowercaseHex_serialText today, fresh⟩,
    rfl⟩

theorem sample_properKey {rows : List PKIObject} (small : today < 10000)
    (fresh : ∀ row ∈ rows, row.id ≠ keyText today) :
    (samplePass today).key.Proper sampleEnv (today * day) rows := by
  have name : newSigningKeyID sampleEnv (today * day) (samplePass today).key.suffix =
      keyText today := sample_keyID today
  have pair : KeyPair sampleEnv (samplePass today).key.encoded (samplePass today).key.secret
      (samplePass today).key.publicKey (samplePass today).key.seed := by
    refine ⟨rfl, length_replicate, rfl, length_replicate, rfl, ?_⟩
    intro payload
    exact ⟨List.replicate signatureSize 0, rfl, length_replicate, rfl⟩
  exact ⟨pair, name ▸ validKeyID_keyText small, name ▸ fresh⟩

def firstRoot (row : PKIObject) : Bool := row.state == .active && row.publicPart == sampleText 'r' 0

/-- The rows leave the names free that a pass gives, and the root is the one of the first day. -/
def freeNames (today : Nat) (db : Database) : Bool :=
  db.roots.all firstRoot &&
    (!renewalDue (today * day) (currentIssuer sampleEnv db.intermediates) ||
      db.intermediates.all (·.id != serialText today)) &&
    (!keyDue sampleEnv (today * day) db.signingKeys || db.signingKeys.all (·.id != keyText today))

theorem sample_root (known : ∀ row ∈ db.roots, row.publicPart = sampleText 'r' 0)
    {roots : List PKIObject} (ensured : ensureRoot sampleEnv (today * day) (samplePass today).root
      db.roots = .ok (root, roots)) :
    root.publicPart = sampleText 'r' 0 ∨ root.publicPart = sampleText 'r' today := by
  unfold ensureRoot at ensured
  split at ensured
  · rename_i found active
    split at ensured
    · cases ensured
    · cases ensured
      exact .inl (known root (mem_filter.mp (mem_of_getLast? active)).1)
  · split at ensured
    · cases ensured
    rename_i created made
    cases ensured
    unfold newRootObject at made
    split at made <;> cases made
    exact .inr rfl

theorem sample_makes (free : freeNames today db = true) (small : today < 10000) :
    (samplePass today).Makes sampleEnv db := by
  simp only [freeNames, firstRoot, Bool.and_eq_true, Bool.or_eq_true, Bool.not_eq_true',
    ← Bool.not_eq_true, ← imp_iff_not_or, all_eq_true, beq_iff_eq, bne_iff_ne] at free
  obtain ⟨⟨roots, issuers⟩, keys⟩ := free
  refine ⟨?_, ?_, fun due => sample_properKey small (keys due)⟩
  · intro missing
    have none_left : db.roots = [] := by
      simp only [activeRoot, lastIn, sampleEnv, id, getLast?_eq_none_iff,
        filter_eq_nil_iff, beq_iff_eq] at missing
      exact eq_nil_iff_forall_not_mem.mpr fun row inside =>
        missing row inside (roots row inside).1
    rw [none_left]
    exact sample_properRoot small
  · intro due root after ensured
    rcases sample_root (fun row inside => (roots row inside).2) ensured with text | text
    · exact sample_properIssuer small (by decide) text (issuers due)
    · exact sample_properIssuer small small text (issuers due)

theorem serialText_ne (before : made < today) (small : today < 10000) :
    serialText made ≠ serialText today := by
  intro same
  have less := digits_lt before (show today < 10 ^ 4 by omega)
  rw [String.ofList_inj.mp same] at less
  exact List.lt_irrefl _ less

theorem keyText_ne (before : made < today) (small : today < 10000) :
    keyText made ≠ keyText today := by
  intro same
  have letters := String.ofList_inj.mp same
  simp only [cons.injEq, and_true, true_and] at letters
  have number := congrArg unmark letters
  rw [unmark_mark (by omega), unmark_mark (by omega)] at number
  omega

def PlainKey (key : BundleKey) : Prop :=
  ∃ made ends : Nat, ends < 30000 ∧ key = ⟨keyText made, "key", ends * day⟩

/-- The bundles that the encoding keeps. -/
structure Plain (b : Bundle) : Prop where
  version : ∃ n : Nat, n < 30000 ∧ b.version = n
  issued : ∃ n : Nat, n < 30000 ∧ b.issuedAt = n * day
  roots : b.roots.length < 10000 ∧ ∀ text ∈ b.roots, ∃ made, text = sampleText 'r' made
  intermediates : b.intermediates.length < 10000 ∧
    ∀ text ∈ b.intermediates, ∃ made, text = sampleText 'i' made
  keys : b.signingKeys.length < 10000 ∧ ∀ key ∈ b.signingKeys, PlainKey key
  revoked : b.revokedSerials = []
  signature : ∃ made, b.signature = ⟨keyText made, "signature"⟩

theorem sampleKeys_letters {keys : List BundleKey} (plain : ∀ key ∈ keys, PlainKey key) :
    sampleKeys (keys.flatMap fun key => [key.id.toList.getD 3 ' ', mark (daysOf key.notAfter)]) =
      keys := by
  induction keys with
  | nil => rfl
  | cons key rest ih =>
    rw [forall_mem_cons] at plain
    obtain ⟨⟨made, ends, small, rfl⟩, others⟩ := plain
    simp only [flatMap_cons, cons_append, nil_append, sampleKeys, ih others, daysOf_mul,
      unmark_mark small]
    simp [keyText]

theorem sampleText_letters {texts : List String} {kind : Char}
    (plain : ∀ text ∈ texts, ∃ made, text = sampleText kind made) :
    (texts.map (·.toList.getD 1 ' ')).map (fun c => String.ofList [kind, c]) = texts := by
  rw [map_map]
  refine (map_congr_left fun text inside => ?_).trans (map_id texts)
  obtain ⟨made, rfl⟩ := plain text inside
  simp [sampleText]

theorem sampleLetters_length {b : Bundle} (plain : Plain b) :
    4 * (sampleLetters b).length ≤ maxBundleBytes := by
  have few := plain.roots.1
  have fewer := plain.intermediates.1
  have fewest := plain.keys.1
  simp [sampleLetters, maxBundleBytes]
  omega

theorem sampleUnmarshal_letters {b : Bundle} (plain : Plain b) :
    sampleUnmarshal (sampleLetters b) = .ok b := by
  obtain ⟨version, issuedAt, roots, intermediates, keys, revoked, signature⟩ := b
  obtain ⟨⟨number, low, rfl⟩, ⟨issued, early, rfl⟩, ⟨few, isRoot⟩, ⟨fewer, isIssuer⟩,
    ⟨_, isKey⟩, rfl, signer, rfl⟩ := plain
  have roots_count : unmark (mark roots.length) = roots.length :=
    unmark_mark (few.trans (by decide))
  have issuers_count : unmark (mark intermediates.length) = intermediates.length :=
    unmark_mark (fewer.trans (by decide))
  have rootLetters : (roots.map (·.toList.getD 1 ' ')).length = roots.length := length_map _
  have issuerLetters : (intermediates.map (·.toList.getD 1 ' ')).length = intermediates.length :=
    length_map _
  simp only [sampleLetters, sampleUnmarshal, map_append, append_assoc, cons_append,
    Int.toNat_natCast, daysOf_mul, unmark_mark low, unmark_mark early, roots_count, issuers_count,
    take_left' rootLetters, ← drop_drop, drop_left' rootLetters, take_left' issuerLetters,
    drop_left' issuerLetters, sampleText_letters isRoot, sampleText_letters isIssuer,
    sampleKeys_letters isKey]
  simp [keyText]

theorem Plain.readable {b : Bundle} (plain : Plain b) :
    parseBundle sampleCrypto (sampleCrypto.marshal b) = .ok b := by
  have marshals : sampleCrypto.marshal b = String.ofList (sampleLetters b) := rfl
  have unmarshals (text : String) : sampleCrypto.unmarshal text = sampleUnmarshal text.toList := rfl
  have size := (utf8ByteSize_ofList_le (sampleLetters b)).trans (sampleLetters_length plain)
  rw [marshals, parseBundle, if_neg (Nat.not_lt.mpr size), unmarshals, String.toList_ofList]
  exact sampleUnmarshal_letters plain

def RootMade (row : PKIObject) : Prop :=
  row.state = .active ∧ row.publicPart = sampleText 'r' 0 ∧ row.notAfter = toSecond rootValidity

def IssuerMade (today : Nat) (row : PKIObject) : Prop :=
  ∃ made < today, row.id = serialText made ∧ row.publicPart = sampleText 'i' made

def KeyMade (today : Nat) (row : PKIObject) : Prop :=
  ∃ made < today, row.id = keyText made ∧ row.publicPart = "key" ∧
    row.notAfter = (made + 90 : Nat) * day

/-- What the passes before a day can have made. -/
structure Grown (today : Nat) (db : Database) : Prop where
  roots : ∀ row ∈ db.roots, RootMade row
  issuers : ∀ row ∈ db.intermediates, IssuerMade today row
  keys : ∀ row ∈ db.signingKeys, KeyMade today row
  bundles : ∀ row ∈ db.bundles, ∃ b, parseBundle sampleCrypto row.publicPart = .ok b ∧
    0 ≤ b.version ∧ b.version ≤ today
  revocations : db.revocations = []

theorem Grown.free (grown : Grown today db) (small : today < 10000) : freeNames today db = true := by
  simp only [freeNames, firstRoot, Bool.and_eq_true, Bool.or_eq_true, all_eq_true, beq_iff_eq,
    bne_iff_ne]
  refine ⟨⟨fun row inside => ?_, .inr fun row inside same => ?_⟩, .inr fun row inside same => ?_⟩
  · exact ⟨(grown.roots row inside).1, (grown.roots row inside).2.1⟩
  · obtain ⟨made, before, name, _⟩ := grown.issuers row inside
    exact serialText_ne before small (name.symm.trans same)
  · obtain ⟨made, before, name, _⟩ := grown.keys row inside
    exact keyText_ne before small (name.symm.trans same)

theorem Grown.later (grown : Grown made db) (le : made ≤ today) : Grown today db where
  roots := grown.roots
  issuers row inside := by
    obtain ⟨n, before, names⟩ := grown.issuers row inside
    exact ⟨n, by omega, names⟩
  keys row inside := by
    obtain ⟨n, before, names⟩ := grown.keys row inside
    exact ⟨n, by omega, names⟩
  bundles row inside := by
    obtain ⟨b, read, positive, before⟩ := grown.bundles row inside
    exact ⟨b, read, positive, by omega⟩
  revocations := grown.revocations

section

variable {roots : List PKIObject} {keys : List SigningKey} {key : SigningKey} {view : View}
  {published : Option Bundle} {after : Database}
  (done : PassDone sampleEnv (samplePass today) db root roots keys key view published after)
include done

theorem Grown.issuers_next (grown : Grown today db) (small : today < 10000) :
    ∀ row ∈ after.intermediates, IssuerMade (today + 1) row := by
  intro row inside
  have old := (grown.later (Nat.le_succ today)).issuers
  rcases done.issuers.source with ⟨_, same⟩ | ⟨_, ⟨_, text, cert, parsed, name⟩, _, same⟩
  · rw [same] at inside
    exact old row (mem_filter.mp inside).1
  rw [same] at inside
  rcases mem_append.mp inside with kept | last
  · obtain ⟨before, stored, id, text, _⟩ := mem_retireActive (mem_filter.mp kept).1
    rw [IssuerMade, id, text]
    exact old before stored
  · rw [mem_singleton.mp last]
    rw [samplePass_intermediate] at parsed
    dsimp only at parsed
    rw [sampleEnv_crypto, parse_issuer (by omega)] at parsed
    cases parsed
    exact ⟨today, Nat.lt_succ_self today, name, text⟩

theorem Grown.keys_next (grown : Grown today db) :
    ∀ row ∈ after.signingKeys, KeyMade (today + 1) row := by
  intro row inside
  rcases done.managed.source row inside with ⟨old, stored, id, text, ends⟩ | ⟨id, text, ends⟩
  · rw [KeyMade, id, text, ends]
    exact (grown.later (Nat.le_succ today)).keys old stored
  · refine ⟨today, Nat.lt_succ_self today, id.trans (sample_keyID today), text, ends.trans ?_⟩
    show (today : Int) * day + 90 * day = _
    push_cast
    ring

theorem Grown.version_next (grown : Grown today db) {b : Bundle} (new : published = some b) :
    0 ≤ b.version ∧ b.version ≤ (today + 1 : Nat) := by
  have publication := done.publication
  rw [new] at publication
  rcases publication.of_some.2.2.2 with ⟨_, first⟩ | ⟨latest, current, found, read, follows⟩
  · omega
  · obtain ⟨b', read', positive, before⟩ :=
      grown.bundles latest (latestBundle_some sampleEnv_listing found).1
    cases read'.symm.trans read
    omega

theorem Grown.plain (grown : Grown today db) (small : today < 9000)
    (ready : PassReady sampleEnv (samplePass today) db root roots)
    (known : ∀ row ∈ roots, RootMade row) {b : Bundle}
    (new : published = some b) : Plain b := by
  have version := grown.version_next done new
  have publication := done.publication
  rw [new] at publication
  obtain ⟨same, issued, _, _⟩ := publication.of_some
  obtain ⟨rootTexts, issuerTexts, keyEntries, revoked⟩ := publication.content
  obtain ⟨seed, payload, signature⟩ := publication.signature
  rw [same] at rootTexts issuerTexts keyEntries revoked
  have issuers := grown.issuers_next done (by omega)
  have named := grown.keys_next done
  have entry (k : SigningKey) (inside : k ∈ keys) : k.object ∈ after.signingKeys :=
    done.managed.same.mem_iff.mp (mem_map_of_mem inside)
  have signer : key ∈ keys := by
    have one : key ∈ keys.filter (·.object.state == .active) := by simp [done.signer]
    exact (mem_filter.mp one).1
  refine ⟨⟨b.version.toNat, by omega, by omega⟩, ⟨today, by omega, issued⟩, ⟨?_, ?_⟩, ⟨?_, ?_⟩,
    ⟨?_, ?_⟩, ?_, ?_⟩
  · have few := ready.kept.length_le
    rw [rootTexts]
    show ((rootObjects _ _ _).map _).length < _
    rw [length_map, ready.listed.length_eq]
    exact few.trans_lt (by decide)
  · intro text inside
    rw [rootTexts] at inside
    obtain ⟨row, listed, rfl⟩ := mem_map.mp inside
    exact ⟨0, (known row (ready.listed.mem_iff.mp listed)).2.1⟩
  · have names : after.intermediates.map (·.id) ⊆ (range (today + 1)).map serialText := by
      intro id inside
      obtain ⟨row, stored, rfl⟩ := mem_map.mp inside
      obtain ⟨made, before, name, _⟩ := issuers row stored
      exact mem_map.mpr ⟨made, mem_range.mpr before, name.symm⟩
    have few := (subperm_of_subset done.issuers.kept.distinct names).length_le
    rw [length_map, length_map, length_range] at few
    rw [issuerTexts]
    show ((insertionSort _ (filter _ _)).map _).length < _
    rw [length_map, length_insertionSort]
    exact (length_filter_le _ _).trans_lt
      (by rw [(sampleEnv_listing after.intermediates).length_eq]; omega)
  · intro text inside
    rw [issuerTexts] at inside
    obtain ⟨row, listed, rfl⟩ := mem_map.mp inside
    have stored := (mem_filter.mp ((perm_insertionSort _ _).mem_iff.mp listed)).1
    obtain ⟨made, _, _, text⟩ := issuers row stored
    exact ⟨made, text⟩
  · have few := done.managed.kept.shape.length_le.2
    rw [← done.managed.same.length_eq, length_map] at few
    rw [keyEntries]
    show (insertionSort _ _).length < _
    rw [length_insertionSort, length_map]
    omega
  · intro k inside
    rw [keyEntries] at inside
    obtain ⟨k', listed, rfl⟩ := mem_map.mp ((perm_insertionSort _ _).mem_iff.mp inside)
    obtain ⟨made, before, id, text, ends⟩ := named _ (entry k' listed)
    exact ⟨made, made + 90, by omega, by rw [bundleKey, id, text, ends]⟩
  · rw [revoked, show after.revocations = [] by rw [done.revocations, grown.revocations]; rfl]
    rfl
  · obtain ⟨made, _, id, _⟩ := named _ (entry key signer)
    exact ⟨made, by rw [signature, id]; rfl⟩

theorem Grown.next (grown : Grown today db) (small : today < 9000)
    (ready : PassReady sampleEnv (samplePass today) db root roots)
    (known : ∀ row ∈ roots, RootMade row) :
    Grown (today + 1) after ∧ ∀ b, published = some b →
      parseBundle sampleCrypto (sampleCrypto.marshal b) = .ok b := by
  have readable (b : Bundle) (new : published = some b) :=
    (grown.plain done small ready known new).readable
  refine ⟨⟨done.rootRows ▸ known, grown.issuers_next done (by omega), grown.keys_next done, ?_, ?_⟩,
    readable⟩
  · exact done.stored readable (grown.later (Nat.le_succ today)).bundles fun b new =>
      grown.version_next done new
  · rw [done.revocations, grown.revocations]
    rfl

end

end Samples

section Days

variable {meets : Tower → Step → Tower → Prop} {n today : Nat} {db : Database}
  {published : List Bundle} {s : Tower}

/-- A run that has come to this day. -/
structure Sampled (meets : Tower → Step → Tower → Prop) (today : Nat) (db : Database)
    (published : List Bundle) (s : Tower) : Prop where
  run : Run (Tower.next sampleEnv) meets Tower.empty s
  db : s.db = db
  published : s.published = published
  later : s.clock ≤ today * day
  soon : ∀ passed, s.passed = some passed → today * day ≤ passed + day

theorem Sampled.empty : Sampled meets 0 .empty [] .empty :=
  ⟨.refl, rfl, rfl, by decide, nofun⟩

theorem Sampled.scheduled (sampled : Sampled meets today db published s)
    (proper : (samplePass today).Proper sampleEnv db) : Scheduled sampleEnv s (samplePass today) :=
  ⟨sampled.later, sampled.soon, sampled.db ▸ proper⟩

theorem Sampled.pass (sampled : Sampled meets today db published s)
    (met : meets s (.ensure (samplePass today)) (s.pass sampleEnv (samplePass today))) :
    Sampled meets (today + 1) (ensureLocked sampleEnv (samplePass today) db).db
      ((ensureLocked sampleEnv (samplePass today) db).published.toList ++ published)
      (s.pass sampleEnv (samplePass today)) := by
  obtain ⟨run, rfl, rfl, later, soon⟩ := sampled
  have positive := day_pos
  have grown : ((today + 1 : Nat) : Int) * day = today * day + day := by
    push_cast
    ring
  refine ⟨.step run rfl met, rfl, rfl, ?_, fun passed same => ?_⟩
  · show (today : Int) * day ≤ _
    omega
  cases same
  show _ ≤ (today : Int) * day + day
  omega

/-- The pass of a day finds what it needs and leaves it to the next. -/
theorem Sampled.grows (sampled : Sampled (Daily sampleEnv) today s.db s.published s)
    (grown : Grown today s.db) (started : today ≠ 0 → s.db.roots ≠ []) (small : today < 9000) :
    Scheduled sampleEnv s (samplePass today) ∧
      Grown (today + 1) (ensureLocked sampleEnv (samplePass today) s.db).db ∧
      (ensureLocked sampleEnv (samplePass today) s.db).db.roots ≠ [] := by
  have makes := sample_makes (grown.free (by omega)) (by omega)
  rcases (daily_stage sampleEnv_listing sampled.run).found sampleEnv_listing sampled.later
    sampled.soon makes with ⟨_, _, root, roots, ready, rows⟩ | ⟨root, at_last, kept, due, short⟩
  · obtain ⟨keys, key, view, published, after, passes, done⟩ :=
      ensureLocked_ok sampleEnv_listing ready
    have known : ∀ row ∈ roots, RootMade row := by
      rcases rows with ⟨empty, rfl, ends⟩ | rfl
      · have first : today = 0 := by
          by_contra other
          exact started other (by rw [empty]; rfl)
        rw [first] at ready ends
        have text := sample_root (fun row inside => (grown.roots row inside).2.1) ready.ensured
        rw [forall_mem_singleton]
        exact ⟨ready.kept.active, text.elim id id, ends.trans (by decide)⟩
      · exact grown.roots
    obtain ⟨next, readable⟩ := grown.next done small ready known
    have proper : (samplePass today).Proper sampleEnv s.db := ⟨makes, passes ▸ readable⟩
    rw [passes]
    exact ⟨sampled.scheduled proper, next, ne_nil_of_mem (done.rootRows ▸ ready.kept.mem)⟩
  · have refused := ensureLocked_refused sampleEnv_listing kept due short
    have proper : (samplePass today).Proper sampleEnv s.db := ⟨makes, by rw [refused]; nofun⟩
    rw [refused]
    exact ⟨sampled.scheduled proper, grown.later (Nat.le_succ today), ne_nil_of_mem kept.roots.mem⟩

/-- A pass on each day, for nearly ten years. -/
theorem daily_grown (few : n ≤ 3640) : ∃ s, Sampled (Daily sampleEnv) n s.db s.published s ∧
    Grown n s.db ∧ Scheduled sampleEnv s (samplePass n) ∧ (n ≠ 0 → s.db.roots ≠ []) := by
  suffices reached : ∃ s, Sampled (Daily sampleEnv) n s.db s.published s ∧ Grown n s.db ∧
      (n ≠ 0 → s.db.roots ≠ []) by
    obtain ⟨s, sampled, grown, started⟩ := reached
    exact ⟨s, sampled, grown, (sampled.grows grown started (by omega)).1, started⟩
  induction n with
  | zero => exact ⟨.empty, .empty, ⟨nofun, nofun, nofun, nofun, rfl⟩, fun other => absurd rfl other⟩
  | succ today ih =>
    obtain ⟨s, sampled, grown, started⟩ := ih (by omega)
    obtain ⟨scheduled, after, rooted⟩ := sampled.grows grown started (by omega)
    exact ⟨s.pass sampleEnv (samplePass today), sampled.pass ⟨_, rfl, scheduled⟩, after,
      fun _ => rooted⟩

/-- Ten days before the root expires the intermediate is due, however late it was made. -/
theorem due_at_end {roots : List String} {rows : List PKIObject}
    (kept : IssuersKept sampleEnv roots (toSecond rootValidity) rows) :
    renewalDue (samplePass 3640).now (currentIssuer sampleEnv rows) = true := by
  rcases currentIssuer_cases sampleEnv_listing kept.single with ⟨missing, _⟩ | ⟨issuer, found, one⟩
  · rw [missing]
    rfl
  have inside : issuer ∈ rows ∧ issuer.state = .active := by
    have active : issuer ∈ rows.filter (·.state == .active) := by simp [one]
    simpa using active
  have row := kept.usable issuer inside.1
  have within := kept.within issuer inside.1 inside.2
  have begins := toSecond_le (issuer.createdAt - clockSkew)
  have ends := lt_toSecond (issuer.createdAt + intermediateValidity)
  rw [found]
  refine row.due_iff.mpr ?_
  rw [← row.begins] at begins
  rw [← row.ends] at ends
  have now : (samplePass 3640).now = 3640 * day := rfl
  have limit : toSecond rootValidity = 3650 * day := by decide
  have margin : 0 < second ∧ second < day ∧ 0 < clockSkew ∧ intermediateValidity = 730 * day := by
    decide
  rw [now, dueAt]
  omega

/-- Ten days before the root expires no pass succeeds any more. -/
theorem unattended_authority_stops :
    ∃ s root, Run (Tower.next sampleEnv) (Daily sampleEnv) Tower.empty s ∧
      Scheduled sampleEnv s (samplePass 3640) ∧ activeRoot sampleEnv s.db.roots = some root ∧
      (samplePass 3640).now < root.notAfter ∧
      (ensureLocked sampleEnv (samplePass 3640) s.db).error =
        some "the root expires before the intermediate would" := by
  obtain ⟨s, sampled, grown, scheduled, started⟩ := daily_grown (Nat.le_refl 3640)
  obtain ⟨root, at_last, kept⟩ :=
    (daily_stage sampleEnv_listing sampled.run).databaseKept (started (by decide))
  have ends := (grown.roots root kept.roots.mem).2.2
  have refused := ensureLocked_refused sampleEnv_listing kept (due_at_end (ends ▸ kept.issuers))
    (show root.notAfter < (samplePass 3640).now + _ by rw [ends]; decide)
  refine ⟨s, root, sampled.run, scheduled, kept.roots.activeRoot sampleEnv_listing, ?_, ?_⟩
  · rw [ends]
    decide
  · rw [refused]
    rfl

/-- On the second day a renewal would fit. -/
theorem second_day_survives :
    ∃ s, Run (Tower.next sampleEnv) (Daily sampleEnv) Tower.empty s ∧
      Scheduled sampleEnv s (samplePass 1) ∧ Fits sampleEnv (samplePass 1).now s.db ∧
      Survives (samplePass 1).now (ensureLocked sampleEnv (samplePass 1) s.db) := by
  obtain ⟨s, sampled, grown, scheduled, _⟩ := daily_grown (show 1 ≤ 3640 by decide)
  have fits : Fits sampleEnv (samplePass 1).now s.db := by
    intro root active _
    rw [(grown.roots root (mem_filter.mp (mem_of_getLast? active)).1).2.2]
    decide
  exact ⟨s, sampled.run, scheduled, fits,
    (pass_survives_iff_renewal_fits sampleEnv_listing sampled.run scheduled).mpr fits⟩

end Days

end Jolt.Pki
