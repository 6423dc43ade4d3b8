import Jolt.Pki.KeyRotation

/-! The certificates over the passes. One intermediate issues at most; it is replaced when two
thirds of its life have passed, and stays listed until it expires. -/
namespace Jolt.Pki
open Jolt.Trust List

section Times

theorem toSecond_le (t : Int) : toSecond t ≤ t := by
  have rest : 0 ≤ t % second := Int.emod_nonneg t (by decide)
  unfold toSecond
  omega

theorem lt_toSecond (t : Int) : t - second < toSecond t := by
  have rest : t % second < second := Int.emod_lt_of_pos t (by decide)
  unfold toSecond
  omega

theorem renewDue_iff {notBefore notAfter now : Int} (ordered : notBefore ≤ notAfter) :
    renewDue notBefore notAfter now = true ↔
      notBefore + (notAfter - notBefore) * 2 / 3 ≤ now := by
  rw [renewDue, decide_eq_true_eq, Int.tdiv_eq_ediv_of_nonneg (by omega)]

end Times

section Contracts

variable (env : Env)
variable {draw : CertificateDraw} {now : Int} {object : PKIObject} {roots : List String}

def RootCertificate (text : String) (notAfter : Int) : Prop :=
  ∃ cert, env.crypto.parseCertificate text = .ok cert ∧ cert.isCA = true ∧
    cert.basicConstraintsValid = true ∧ cert.notAfter = notAfter

/-- A certificate that a root signed, and that did not sign itself. -/
structure SignedCertificate (rootText text : String) (cert : Certificate) : Prop where
  parsed : env.crypto.parseCertificate text = .ok cert
  isCA : cert.isCA = true
  notItself : env.crypto.checkSignatureFrom cert cert = false
  signed : ∃ root, env.crypto.parseCertificate rootText = .ok root ∧
    root.fingerprint ≠ cert.fingerprint ∧ env.crypto.checkSignatureFrom cert root = true

/-- A root as the library makes it, with an ID that no other root has. -/
structure CertificateDraw.ProperRoot (now : Int) (rows : List PKIObject)
    (draw : CertificateDraw) : Prop where
  certificate : RootCertificate env draw.pem (toSecond (now + rootValidity))
  secret : draw.secret ≠ ""
  unsealed : env.unsealKey draw.secret = .ok ()
  fresh : ∀ cert, env.crypto.parseCertificate draw.pem = .ok cert → ∀ row ∈ rows,
    row.id ≠ String.ofList (cert.fingerprint.toList.take 12)

/-- An intermediate as the library makes it under a root, with a serial of its own. -/
structure CertificateDraw.ProperIssuer (now : Int) (root : PKIObject) (rows : List PKIObject)
    (draw : CertificateDraw) : Prop where
  certificate : ∃ cert, SignedCertificate env root.publicPart draw.pem cert ∧
    cert.notBefore = toSecond (now - clockSkew) ∧
    cert.notAfter = toSecond (now + intermediateValidity) ∧ lowercaseHex cert.serial = true ∧
    ∀ row ∈ rows, row.id ≠ cert.serial
  unsealed : env.unsealKey draw.secret = .ok ()

structure RootRow (object : PKIObject) : Prop where
  certificate : RootCertificate env object.publicPart object.notAfter
  secret : object.secret ≠ ""
  unsealed : env.unsealKey object.secret = .ok ()

structure IssuerRow (roots : List String) (object : PKIObject) : Prop where
  certificate : ∃ root ∈ roots, ∃ cert, SignedCertificate env root object.publicPart cert ∧
    cert.notAfter = object.notAfter
  begins : object.notBefore = toSecond (object.createdAt - clockSkew)
  ends : object.notAfter = toSecond (object.createdAt + intermediateValidity)
  serial : lowercaseHex object.serial = true
  unsealed : env.unsealKey object.secret = .ok ()

def PKIObject.Issued (now : Int) (draw : CertificateDraw) (object : PKIObject) : Prop :=
  object.createdAt = now ∧ object.publicPart = draw.pem ∧
    ∃ cert, env.crypto.parseCertificate draw.pem = .ok cert ∧ object.id = cert.serial

variable {env}

theorem RootRow.withState (row : RootRow env object) (state : ObjectState) :
    RootRow env { object with state } :=
  ⟨row.certificate, row.secret, row.unsealed⟩

theorem IssuerRow.withState (row : IssuerRow env roots object) (state : ObjectState) :
    IssuerRow env roots { object with state } :=
  ⟨row.certificate, row.begins, row.ends, row.serial, row.unsealed⟩

theorem RootRow.authority (row : RootRow env object) :
    ∃ cert, authority env object = .ok cert ∧ cert.notAfter = object.notAfter := by
  obtain ⟨cert, parsed, _, _, ends⟩ := row.certificate
  exact ⟨cert, by simp [Pki.authority, parsed, row.unsealed], ends⟩

theorem IssuerRow.authority (row : IssuerRow env roots object) :
    ∃ cert, authority env object = .ok cert ∧ cert.notAfter = object.notAfter := by
  obtain ⟨_, _, cert, signed, ends⟩ := row.certificate
  exact ⟨cert, by simp [Pki.authority, signed.parsed, row.unsealed], ends⟩

def dueAt (issuer : PKIObject) : Int :=
  issuer.notBefore + (issuer.notAfter - issuer.notBefore) * 2 / 3

theorem IssuerRow.lasts (row : IssuerRow env roots object) :
    object.notBefore + 3 < object.notAfter := by
  have begins := toSecond_le (object.createdAt - clockSkew)
  have ends := lt_toSecond (object.createdAt + intermediateValidity)
  have lasting : 3 < clockSkew + intermediateValidity - second := by decide
  rw [row.begins, row.ends]
  omega

theorem IssuerRow.due_iff (row : IssuerRow env roots object) :
    renewDue object.notBefore object.notAfter now = true ↔ dueAt object ≤ now := by
  have lasts := row.lasts
  exact renewDue_iff (by omega)

theorem IssuerRow.live (row : IssuerRow env roots object)
    (early : renewDue object.notBefore object.notAfter now = false) : now < object.notAfter := by
  have lasts := row.lasts
  have before : ¬ dueAt object ≤ now := by
    rw [← row.due_iff, early]
    decide
  unfold dueAt at before
  omega

theorem newIntermediateObject_ok {root : PKIObject} {rows : List PKIObject}
    (usable : RootRow env root) (proper : draw.ProperIssuer env now root rows)
    (fits : now + intermediateValidity ≤ root.notAfter) (listed : root.publicPart ∈ roots) :
    ∃ created, newIntermediateObject env root now draw = .ok created ∧
      created.state = .active ∧ created.Issued env now draw ∧ IssuerRow env roots created ∧
      ∀ row ∈ rows, row.id ≠ created.id := by
  obtain ⟨rootCert, opened, ends⟩ := usable.authority
  obtain ⟨cert, signed, begins, finishes, serial, fresh⟩ := proper.certificate
  have enough : ¬ rootCert.notAfter < now + intermediateValidity := by omega
  refine ⟨certificateRow cert.serial cert .active draw now, ?_, rfl,
    ⟨rfl, rfl, cert, signed.parsed, rfl⟩, ⟨⟨root.publicPart, listed, cert, signed, rfl⟩, begins, finishes, serial, proper.unsealed⟩,
    fresh⟩
  simp only [newIntermediateObject, if_neg usable.secret, opened, newIntermediate, if_neg enough,
    signed.parsed]

theorem newIntermediateObject_refused {root : PKIObject} (usable : RootRow env root)
    (short : root.notAfter < now + intermediateValidity) :
    newIntermediateObject env root now draw =
      .error "the root expires before the intermediate would" := by
  obtain ⟨rootCert, opened, ends⟩ := usable.authority
  have outlived : rootCert.notAfter < now + intermediateValidity := by omega
  simp only [newIntermediateObject, if_neg usable.secret, opened, newIntermediate, if_pos outlived]

theorem newRootObject_ok {rows : List PKIObject} (proper : draw.ProperRoot env now rows)
    (state : ObjectState) :
    ∃ created, newRootObject env now state draw = .ok created ∧ created.state = state ∧
      created.notAfter = toSecond (now + rootValidity) ∧ RootRow env created ∧
      ∀ row ∈ rows, row.id ≠ created.id := by
  obtain ⟨cert, parsed, isCA, valid, ends⟩ := proper.certificate
  refine ⟨certificateRow (String.ofList (cert.fingerprint.toList.take 12)) cert state draw now, ?_,
    rfl, ends, ⟨⟨cert, parsed, isCA, valid, rfl⟩, proper.secret, proper.unsealed⟩, proper.fresh cert parsed⟩
  simp only [newRootObject, parsed]

end Contracts

section Roots

variable (env : Env)

/-- The stored roots: the active one, and one beside it at most, which is the next one and
lasts longer, or the retired one. -/
structure RootsKept (root : PKIObject) (rows : List PKIObject) : Prop where
  usable : ∀ row ∈ rows, RootRow env row
  distinct : (rows.map (·.id)).Nodup
  active : root.state = .active
  shape : rows.Perm [root] ∨
    (∃ next, rows.Perm [root, next] ∧ next.state = .next ∧ root.notAfter ≤ next.notAfter) ∨
    ∃ old, rows.Perm [root, old] ∧ old.state = .retired

variable {env} {root : PKIObject} {rows : List PKIObject}

theorem RootsKept.mem (kept : RootsKept env root rows) : root ∈ rows := by
  rcases kept.shape with perm | ⟨_, perm, _⟩ | ⟨_, perm, _⟩ <;> exact perm.mem_iff.mpr (by simp)

theorem RootsKept.length_le (kept : RootsKept env root rows) : rows.length ≤ maxBundleRoots := by
  rcases kept.shape with perm | ⟨_, perm, _⟩ | ⟨_, perm, _⟩ <;>
    simp [perm.length_eq, maxBundleRoots]

theorem RootsKept.activeRoot (kept : RootsKept env root rows) (listing : env.Listing) :
    activeRoot env rows = some root := by
  rcases kept.shape with perm | ⟨next, perm, at_next, _⟩ | ⟨old, perm, at_old⟩
  · exact lastIn_unique listing perm kept.active (by simp)
  · exact lastIn_unique listing perm kept.active (by simp [at_next])
  · exact lastIn_unique listing perm kept.active (by simp [at_old])

variable (env root rows) in
/-- The roots by their states: the active one, and beside it the next or the retired one. -/
inductive RootsFound : Prop where
  | alone (perm : rows.Perm [root]) (no_next : lastIn .next (env.listed rows) = none)
      (no_retired : lastIn .retired (env.listed rows) = none)
  | joined (next : PKIObject) (perm : rows.Perm [root, next]) (at_next : next.state = .next)
      (longer : root.notAfter ≤ next.notAfter)
      (found : lastIn .next (env.listed rows) = some next)
      (no_retired : lastIn .retired (env.listed rows) = none)
  | replaced (old : PKIObject) (perm : rows.Perm [root, old]) (at_old : old.state = .retired)
      (no_next : lastIn .next (env.listed rows) = none)
      (found : lastIn .retired (env.listed rows) = some old)

section

variable (kept : RootsKept env root rows) (listing : env.Listing)
include kept listing

theorem RootsKept.found :
    RootsFound env root rows := by
  have first := kept.active
  have absent {others : List PKIObject} (perm : rows.Perm others) (state : ObjectState)
      (elsewhere : ∀ row ∈ others, row.state ≠ state) : lastIn state (env.listed rows) = none :=
    lastIn_none listing fun row inside => elsewhere row (perm.mem_iff.mp inside)
  rcases kept.shape with perm | ⟨next, perm, at_next, longer⟩ | ⟨old, perm, at_old⟩
  · exact .alone perm (absent perm .next (by simp [first])) (absent perm .retired (by simp [first]))
  · exact .joined next perm at_next longer
      (lastIn_unique listing (perm.trans (.swap _ _ [])) at_next (by simp [first]))
      (absent perm .retired (by simp [first, at_next]))
  · exact .replaced old perm at_old (absent perm .next (by simp [first, at_old]))
      (lastIn_unique listing (perm.trans (.swap _ _ [])) at_old (by simp [first]))

theorem RootsKept.rootObjects :
    (rootObjects env root rows).Perm rows := by
  cases kept.found listing with
  | alone perm no_next no_retired => simpa [Pki.rootObjects, no_next, no_retired] using perm.symm
  | joined next perm _ _ found no_retired =>
    simpa [Pki.rootObjects, found, no_retired] using perm.symm
  | replaced old perm _ no_next found => simpa [Pki.rootObjects, found, no_next] using perm.symm

theorem ensureRoot_kept (now : Int) (draw : CertificateDraw) :
    ensureRoot env now draw rows = .ok (root, rows) := by
  obtain ⟨cert, parsed, _⟩ := (kept.usable root kept.mem).certificate
  simp only [ensureRoot, kept.activeRoot listing, parsed]

end

theorem ensureRoot_first (listing : env.Listing) {now : Int} {draw : CertificateDraw}
    (proper : draw.ProperRoot env now []) :
    ∃ root, ensureRoot env now draw [] = .ok (root, [root]) ∧ RootsKept env root [root] ∧
      root.notAfter = toSecond (now + rootValidity) := by
  obtain ⟨root, made, active, ends, usable, _⟩ := newRootObject_ok proper .active
  have listed_nil : env.listed [] = [] := perm_nil.mp (listing [])
  refine ⟨root, ?_, ⟨by simpa using usable, by simp, active, .inl (.refl _)⟩, ends⟩
  simp [ensureRoot, Pki.activeRoot, lastIn, listed_nil, made, upsert]

end Roots

section Issuers

variable (env : Env)
variable {created issuer : PKIObject} {draw : CertificateDraw}

def retireActive (rows : List PKIObject) : List PKIObject :=
  rows.map fun o => if o.state = .active then { o with state := .retired } else o

/-- The stored intermediates: signed by the roots, and one at most that issues, which ends with
the active root. -/
structure IssuersKept (roots : List String) (limit : Int) (rows : List PKIObject) : Prop where
  usable : ∀ row ∈ rows, IssuerRow env roots row
  distinct : (rows.map (·.id)).Nodup
  states : ∀ row ∈ rows, row.state = .active ∨ row.state = .retired ∨ row.state = .revoked
  single : (rows.filter (·.state == .active)).length ≤ 1
  within : ∀ row ∈ rows, row.state = .active → row.notAfter ≤ limit

/-- What a pass leaves of the intermediates: one that issues, and none that has expired. The
one that issues was there and is not yet due, or was made now in place of one that is. -/
structure IssuersRenewed (now : Int) (draw : CertificateDraw) (roots : List String) (limit : Int)
    (before : List PKIObject) (issuer : PKIObject) (rows : List PKIObject) : Prop where
  kept : IssuersKept env roots limit rows
  mem : issuer ∈ rows
  active : issuer.state = .active
  live : now < issuer.notAfter
  unexpired : ∀ row ∈ rows, now ≤ row.notAfter
  source : renewalDue now (currentIssuer env before) = false ∧
      rows = before.filter (keptIntermediate now) ∨
    renewalDue now (currentIssuer env before) = true ∧ issuer.Issued env now draw ∧
      (∀ row ∈ before, row.id ≠ issuer.id) ∧
      rows = (retireActive before).filter (keptIntermediate now) ++ [issuer]

variable {env} {roots : List String} {limit : Int} {rows : List PKIObject} {now : Int}

theorem currentIssuer_single (listing : env.Listing)
    (one : rows.filter (·.state == .active) = [issuer]) : currentIssuer env rows = some issuer := by
  have perm := (listing rows).filter (·.state == .active)
  rw [one] at perm
  rw [currentIssuer, perm_singleton.mp perm]
  rfl

theorem currentIssuer_cases (listing : env.Listing)
    (single : (rows.filter (·.state == .active)).length ≤ 1) :
    (currentIssuer env rows = none ∧ ∀ row ∈ rows, row.state ≠ .active) ∨
      ∃ issuer, currentIssuer env rows = some issuer ∧
        rows.filter (·.state == .active) = [issuer] := by
  have perm := (listing rows).filter (·.state == .active)
  match found : rows.filter (·.state == .active) with
  | [] =>
    refine .inl ⟨?_, by simpa using found⟩
    rw [found] at perm
    rw [currentIssuer, perm_nil.mp perm]
    rfl
  | [issuer] => exact .inr ⟨issuer, currentIssuer_single listing found, found⟩
  | _ :: _ :: _ => simp [found] at single

theorem IssuersKept.sublist (kept : IssuersKept env roots limit rows) {fewer : List PKIObject}
    (sub : fewer.Sublist rows) : IssuersKept env roots limit fewer where
  usable row inside := kept.usable row (sub.mem inside)
  distinct := kept.distinct.sublist (sub.map _)
  states row inside := kept.states row (sub.mem inside)
  single := (sub.filter _).length_le.trans kept.single
  within row inside := kept.within row (sub.mem inside)

theorem IssuersKept.rooted (kept : IssuersKept env roots limit rows) {more : List String}
    (sub : roots ⊆ more) : IssuersKept env more limit rows where
  usable row inside := by
    obtain ⟨⟨root, listed, signed⟩, begins, ends, serial, unsealed⟩ := kept.usable row inside
    exact ⟨⟨root, sub listed, signed⟩, begins, ends, serial, unsealed⟩
  distinct := kept.distinct
  states := kept.states
  single := kept.single
  within := kept.within

theorem keptIntermediate_active {object : PKIObject} (active : object.state = .active) :
    keptIntermediate now object = true := by
  simp [keptIntermediate, active]

theorem keptIntermediate_other {object : PKIObject} (kept : keptIntermediate now object = true)
    (other : object.state = .retired ∨ object.state = .revoked) : now ≤ object.notAfter := by
  rcases other with state | state <;> simpa [keptIntermediate, state] using kept

theorem IssuersKept.unchanged (listing : env.Listing) (draw : CertificateDraw)
    (kept : IssuersKept env roots limit rows) (one : rows.filter (·.state == .active) = [issuer])
    (early : renewDue issuer.notBefore issuer.notAfter now = false) :
    IssuersRenewed env now draw roots limit rows issuer (rows.filter (keptIntermediate now)) := by
  have inside : issuer ∈ rows.filter (·.state == .active) := by simp [one]
  obtain ⟨stored, at_active⟩ := mem_filter.mp inside
  have active : issuer.state = .active := by simpa using at_active
  have live := (kept.usable issuer stored).live early
  refine ⟨kept.sublist filter_sublist,
    mem_filter.mpr ⟨stored, keptIntermediate_active active⟩, active, live, ?_,
    .inl ⟨?_, rfl⟩⟩
  · intro row left
    obtain ⟨before, stays⟩ := mem_filter.mp left
    rcases kept.states row before with state | other
    · have same : row ∈ rows.filter (·.state == .active) :=
        mem_filter.mpr ⟨before, by simp [state]⟩
      rw [one, mem_singleton] at same
      rw [same]
      omega
    · exact keptIntermediate_other stays other
  · rw [currentIssuer_single listing one]
    exact early

theorem issuers_append (usable : ∀ row ∈ rows, IssuerRow env roots row)
    (distinct : (rows.map (·.id)).Nodup)
    (states : ∀ row ∈ rows, row.state = .retired ∨ row.state = .revoked)
    (row : IssuerRow env roots created) (fresh : ∀ row ∈ rows, row.id ≠ created.id)
    (active : created.state = .active) (within : created.notAfter ≤ limit) :
    IssuersKept env roots limit (rows ++ [created]) := by
  have old (o : PKIObject) (inside : o ∈ rows) : o.state ≠ .active := by
    rcases states o inside with state | state <;> simp [state]
  have none_active : rows.filter (·.state == .active) = [] := by simpa using old
  refine ⟨?_, distinct_append distinct fresh, ?_, ?_, ?_⟩
  · intro o inside
    rcases mem_append.mp inside with before | last
    · exact usable o before
    · exact mem_singleton.mp last ▸ row
  · intro o inside
    rcases mem_append.mp inside with before | last
    · exact .inr (states o before)
    · exact .inl (mem_singleton.mp last ▸ active)
  · simp [filter_append, none_active, active]
  · intro o inside issues
    rcases mem_append.mp inside with before | last
    · exact absurd issues (old o before)
    · exact mem_singleton.mp last ▸ within

theorem setState_issuer (kept : IssuersKept env roots limit rows)
    (one : rows.filter (·.state == .active) = [issuer]) :
    setState issuer.id .retired rows = retireActive rows := by
  have inside : issuer ∈ rows.filter (·.state == .active) := by simp [one]
  obtain ⟨stored, at_active⟩ := mem_filter.mp inside
  have active : issuer.state = .active := by simpa using at_active
  refine map_congr_left fun o before => ?_
  have same : o.id = issuer.id ↔ o.state = .active := by
    constructor
    · intro equal
      exact inj_on_of_nodup_map kept.distinct before stored equal ▸ active
    intro state
    have found : o ∈ rows.filter (·.state == .active) :=
      mem_filter.mpr ⟨before, by simp [state]⟩
    rw [one, mem_singleton] at found
    rw [found]
  simp only [same]

theorem mem_retireActive {o : PKIObject} (inside : o ∈ retireActive rows) :
    ∃ before ∈ rows, o.id = before.id ∧ o.publicPart = before.publicPart ∧
      o.notAfter = before.notAfter ∧ (o = before ∧ before.state ≠ .active ∨
        o = { before with state := .retired }) := by
  obtain ⟨before, stored, rfl⟩ := mem_map.mp inside
  refine ⟨before, stored, ?_⟩
  split
  · exact ⟨rfl, rfl, rfl, .inr rfl⟩
  · rename_i other
    exact ⟨rfl, rfl, rfl, .inl ⟨rfl, other⟩⟩

theorem retireActive_ids (rows : List PKIObject) :
    (retireActive rows).map (·.id) = rows.map (·.id) := by
  rw [retireActive, map_map]
  refine map_congr_left fun o _ => ?_
  show (if o.state = .active then { o with state := ObjectState.retired } else o).id = o.id
  split <;> rfl

theorem retireActive_usable (usable : ∀ row ∈ rows, IssuerRow env roots row) :
    ∀ row ∈ retireActive rows, IssuerRow env roots row := by
  intro row inside
  obtain ⟨before, stored, _, _, _, ⟨rfl, _⟩ | rfl⟩ := mem_retireActive inside
  · exact usable _ stored
  · exact (usable _ stored).withState _

theorem retireActive_states
    (states : ∀ row ∈ rows, row.state = .active ∨ row.state = .retired ∨ row.state = .revoked) :
    ∀ row ∈ retireActive rows, row.state = .retired ∨ row.state = .revoked := by
  intro row inside
  obtain ⟨before, stored, _, _, _, ⟨rfl, other⟩ | rfl⟩ := mem_retireActive inside
  · exact (states _ stored).resolve_left other
  · exact .inl rfl

theorem retireActive_listed (p : Int → Bool) (rows : List PKIObject) :
    ((retireActive rows).filter fun o => o.state != .revoked && p o.notAfter).length =
      (rows.filter fun o => o.state != .revoked && p o.notAfter).length := by
  rw [retireActive, filter_map, length_map]
  congr 1
  refine filter_congr fun o _ => ?_
  show ((if o.state = .active then { o with state := ObjectState.retired } else o).state !=
    .revoked && p (if o.state = .active then { o with state := .retired } else o).notAfter) = _
  split
  · rename_i active
    simp only [active]
    rfl
  · rfl

theorem IssuersRenewed.few {before : List PKIObject}
    (renewed : IssuersRenewed env now draw roots limit before issuer rows)
    (states : ∀ row ∈ before, row.state = .active ∨ row.state = .retired ∨ row.state = .revoked)
    (few : (before.filter (·.state != .revoked)).length ≤ maxBundleIssuers) (room : renewalDue now
      (currentIssuer env before) = true → (before.filter fun o => o.state != .revoked && decide (now
      ≤ o.notAfter)).length ≤ 1) :
    (rows.filter (·.state != .revoked)).length ≤ maxBundleIssuers := by
  rcases renewed.source with ⟨_, rfl⟩ | ⟨due, _, _, rfl⟩
  · exact ((filter_sublist.filter _).length_le).trans few
  have stays (o : PKIObject) (inside : o ∈ retireActive before) :
      keptIntermediate now o = decide (now ≤ o.notAfter) := by
    have unexpired : (!decide (o.notAfter < now)) = decide (now ≤ o.notAfter) := by
      rw [← decide_not, decide_eq_decide]
      exact Int.not_lt
    rcases retireActive_states states o inside with state | state <;>
      simp [keptIntermediate, state, unexpired]
  have old := room due
  rw [← retireActive_listed (fun ends => decide (now ≤ ends))] at old
  rw [filter_congr stays, filter_append, length_append, filter_filter]
  have last : ([issuer].filter (·.state != .revoked)).length ≤ 1 := length_filter_le _ _
  unfold maxBundleIssuers
  omega

theorem retireActive_fresh {id : String} (fresh : ∀ row ∈ rows, row.id ≠ id) :
    ∀ row ∈ retireActive rows, row.id ≠ id := by
  intro row inside
  obtain ⟨before, stored, same, _⟩ := mem_retireActive inside
  exact same ▸ fresh before stored

theorem retireActive_none (none_active : ∀ row ∈ rows, row.state ≠ .active) :
    retireActive rows = rows := by
  have same (row : PKIObject) (inside : row ∈ rows) :
      (if row.state = .active then { row with state := .retired } else row) = id row :=
    if_neg (none_active row inside)
  rw [retireActive, map_congr_left same, map_id]

theorem IssuersKept.succeeded {other : Int} (kept : IssuersKept env roots other rows)
    (row : IssuerRow env roots created) (fresh : ∀ row ∈ rows, row.id ≠ created.id)
    (active : created.state = .active) (within : created.notAfter ≤ limit) :
    IssuersKept env roots limit (retireActive rows ++ [created]) :=
  issuers_append (retireActive_usable kept.usable) ((retireActive_ids rows).symm ▸ kept.distinct)
    (retireActive_states kept.states) row (retireActive_fresh fresh) active within

theorem IssuersKept.renewed (kept : IssuersKept env roots limit rows)
    (due : renewalDue now (currentIssuer env rows) = true) (row : IssuerRow env roots created)
    (fresh : ∀ row ∈ rows, row.id ≠ created.id) (active : created.state = .active)
    (made : created.Issued env now draw) (fits : now + intermediateValidity ≤ limit) :
    IssuersRenewed env now draw roots limit rows created
      ((retireActive rows ++ [created]).filter (keptIntermediate now)) := by
  have lasting : second < intermediateValidity := by decide
  have ends := row.ends
  have at_now := made.1
  have before := toSecond_le (created.createdAt + intermediateValidity)
  have after := lt_toSecond (created.createdAt + intermediateValidity)
  have stays : keptIntermediate now created = true := keptIntermediate_active active
  have all := kept.succeeded row fresh active (by omega : created.notAfter ≤ limit)
  refine ⟨all.sublist filter_sublist, ?_, active, by omega, ?_, .inr ⟨due, made, fresh, ?_⟩⟩
  · exact mem_filter.mpr ⟨by simp, stays⟩
  · intro o inside
    obtain ⟨stored, stays⟩ := mem_filter.mp inside
    rcases mem_append.mp stored with old | last
    · exact keptIntermediate_other stays (retireActive_states kept.states o old)
    · rw [mem_singleton.mp last]
      omega
  · simp [filter_append, stays]

theorem renewIssuer_ok (listing : env.Listing) {root : PKIObject} (usableRoot : RootRow env root)
    (listedRoot : root.publicPart ∈ roots) (kept : IssuersKept env roots root.notAfter rows)
    (makes : renewalDue now (currentIssuer env rows) = true → draw.ProperIssuer env now root rows)
      (fits : renewalDue now (currentIssuer env rows) = true → now + intermediateValidity ≤
      root.notAfter) :
    ∃ issuer renewed, renewIssuer env now draw root rows = .ok (issuer, renewed, false) ∧
      IssuersRenewed env now draw roots root.notAfter rows issuer
        (renewed.filter (keptIntermediate now)) := by
  rcases currentIssuer_cases listing kept.single with ⟨missing, none_active⟩ | ⟨issuer, found, one⟩
  · have due : renewalDue now (currentIssuer env rows) = true := by simp [missing, renewalDue]
    obtain ⟨created, made, active, issued, row, fresh⟩ :=
      newIntermediateObject_ok usableRoot (makes due) (fits due) listedRoot
    refine ⟨created, retireActive rows ++ [created], ?_,
      kept.renewed due row fresh active issued (fits due)⟩
    simp only [renewIssuer, missing, made, upsert_new fresh, retireActive_none none_active]
  · by_cases early : renewDue issuer.notBefore issuer.notAfter now = false
    · refine ⟨issuer, rows, ?_, kept.unchanged listing draw one early⟩
      simp [renewIssuer, found, early]
    have late : renewDue issuer.notBefore issuer.notAfter now = true := by simpa using early
    have due : renewalDue now (currentIssuer env rows) = true := by simp [found, renewalDue, late]
    obtain ⟨created, made, active, issued, row, fresh⟩ :=
      newIntermediateObject_ok usableRoot (makes due) (fits due) listedRoot
    refine ⟨created, retireActive rows ++ [created], ?_,
      kept.renewed due row fresh active issued (fits due)⟩
    have changed : upsert (setState issuer.id .retired rows) created =
        retireActive rows ++ [created] := by
      rw [setState_issuer kept one]
      exact upsert_new (retireActive_fresh fresh)
    simp [renewIssuer, found, late, usableRoot.secret, made, changed]

theorem renewIssuer_refused (listing : env.Listing) {root : PKIObject}
    (usableRoot : RootRow env root) (kept : IssuersKept env roots root.notAfter rows)
    (due : renewalDue now (currentIssuer env rows) = true)
    (short : root.notAfter < now + intermediateValidity) :
    renewIssuer env now draw root rows =
      .error "the root expires before the intermediate would" := by
  have refused : newIntermediateObject env root now draw =
      .error "the root expires before the intermediate would" :=
    newIntermediateObject_refused usableRoot short
  rcases currentIssuer_cases listing kept.single with ⟨missing, _⟩ | ⟨issuer, found, _⟩
  · simp only [renewIssuer, missing, refused]
  have late : renewDue issuer.notBefore issuer.notAfter now = true := by
    simpa [found, renewalDue] using due
  simp [renewIssuer, found, late, usableRoot.secret, refused]

end Issuers

end Jolt.Pki
