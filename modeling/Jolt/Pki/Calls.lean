import Jolt.Pki.Publication
import Jolt.Pki.Tower

/-! What the calls leave for their pass. Each of them keeps the stored roots, intermediates,
keys and revocations in order, and does not touch the keys and the bundles. -/
namespace Jolt.Pki
open Jolt.Trust List

section Standing

variable (env : Env)

/-- The database between passes, at a time: in order as a pass leaves it, with no more listed
than a bundle may list, and no root that was made later than now. -/
structure Standing (passed clock : Int) (root : PKIObject) (db : Database) : Prop where
  kept : DatabaseKept env passed root db
  few : (inBundle db).length ≤ maxBundleIssuers
  serials : ∀ row ∈ db.revocations, lowercaseHex row.serial = true
  revoked : db.revocations.length ≤ maxRevokedSerials
  born : ∀ row ∈ db.roots, row.notAfter ≤ toSecond (clock + rootValidity)

/-- What a call leaves: keys and bundles as they were, and an active root that was among the
roots before. -/
structure CallKept (passed now : Int) (before after : Database) : Prop where
  standing : ∃ root, Standing env passed now root after ∧
    root.publicPart ∈ before.roots.map (·.publicPart)
  keys : after.signingKeys = before.signingKeys
  bundles : after.bundles = before.bundles

variable {env} {passed clock now : Int} {root : PKIObject} {db after : Database}

theorem toSecond_mono {a b : Int} (le : a ≤ b) : toSecond a ≤ toSecond b := by
  have positive : 0 < second := by decide
  have parts (t : Int) : toSecond t = second * (t / second) := by
    have whole := Int.mul_ediv_add_emod t second
    unfold toSecond
    omega
  rw [parts a, parts b]
  exact Int.mul_le_mul_of_nonneg_left (Int.ediv_le_ediv positive le) (by omega)

theorem Standing.later (standing : Standing env passed clock root db) (le : clock ≤ now) :
    Standing env passed now root db where
  kept := standing.kept
  few := standing.few
  serials := standing.serials
  revoked := standing.revoked
  born row inside := (standing.born row inside).trans (toSecond_mono (by omega))

theorem Standing.load (listing : env.Listing) (standing : Standing env passed clock root db) :
    load env db = .ok ⟨root, lastIn .next (env.listed db.roots),
      lastIn .retired (env.listed db.roots)⟩ := by
  simp only [Pki.load, standing.kept.roots.activeRoot listing]

end Standing

section Rows

variable {env : Env} {rows : List PKIObject} {object : PKIObject}

theorem any_upsert {id : String} (stored : rows.any (·.id == id) = true) :
    (upsert rows object).any (·.id == id) = true := by
  obtain ⟨row, inside, same⟩ := any_eq_true.mp stored
  unfold upsert
  split
  · refine any_eq_true.mpr ⟨_, mem_map_of_mem inside, ?_⟩
    split <;> exact same
  · exact any_eq_true.mpr ⟨row, by simp [inside], same⟩

theorem mem_foldl_upsert {added : List PKIObject} {row : PKIObject}
    (inside : row ∈ added.foldl upsert rows) :
    ∃ source ∈ rows ++ added, row.serial = source.serial := by
  induction added generalizing rows with
  | nil => exact ⟨row, by simpa using inside, rfl⟩
  | cons object added ih =>
    obtain ⟨source, found, same⟩ := ih inside
    rcases mem_append.mp found with written | later
    · have origin : ∃ first ∈ rows ++ [object], source.serial = first.serial := by
        unfold upsert at written
        split at written
        · obtain ⟨first, stored, rfl⟩ := mem_map.mp written
          refine ⟨first, by simp [stored], ?_⟩
          split <;> rfl
        · exact ⟨source, written, rfl⟩
      obtain ⟨first, stored, equal⟩ := origin
      refine ⟨first, ?_, same.trans equal⟩
      rcases mem_append.mp stored with old | last
      · simp [old]
      · simp [mem_singleton.mp last]
    · exact ⟨source, by simp [later], same⟩

theorem length_foldl_upsert (added rows : List PKIObject) :
    (added.foldl upsert rows).length ≤
      rows.length + (added.filter fun o => !rows.any (·.id == o.id)).length := by
  induction added generalizing rows with
  | nil => simp
  | cons object added ih =>
    have rest := ih (upsert rows object)
    have fewer : (added.filter fun o => !(upsert rows object).any (·.id == o.id)).length ≤
        (added.filter fun o => !rows.any (·.id == o.id)).length := by
      refine (monotone_filter_right added fun o missing => ?_).length_le
      rw [Bool.not_eq_true'] at missing ⊢
      rw [← Bool.not_eq_true] at missing ⊢
      exact fun stored => missing (any_upsert stored)
    have written : (upsert rows object).length + (added.filter fun o =>
        !rows.any (·.id == o.id)).length ≤ rows.length +
          ((object :: added).filter fun o => !rows.any (·.id == o.id)).length := by
      unfold upsert
      split
      · rename_i stored
        rw [filter_cons_of_neg (by simp [stored]), length_map]
      rename_i missing
      rw [filter_cons_of_pos (by simpa using missing), length_append,
        length_singleton, length_cons]
      omega
    rw [foldl_cons]
    omega

end Rows

section Calls

variable {env : Env} {passed now : Int} {root : PKIObject} {db after : Database}
  {draw : CertificateDraw}
variable {created : PKIObject} {roots : List String} {rows : List PKIObject}

theorem newIntermediateObject_made {object : PKIObject} (usable : RootRow env object)
    (proper : draw.ProperIssuer env now object rows) (listed : object.publicPart ∈ roots)
    (made : newIntermediateObject env object now draw = .ok created) :
    created.state = .active ∧ IssuerRow env roots created ∧
      (∀ row ∈ rows, row.id ≠ created.id) ∧ created.notAfter ≤ object.notAfter := by
  by_cases short : object.notAfter < now + intermediateValidity
  · rw [newIntermediateObject_refused usable short] at made
    cases made
  obtain ⟨other, same, active, issued, row, fresh⟩ :=
    newIntermediateObject_ok usable proper (by omega) listed
  cases same.symm.trans made
  have ends := toSecond_le (created.createdAt + intermediateValidity)
  have at_now := issued.1
  have finish := row.ends
  exact ⟨active, row, fresh, by omega⟩

theorem revoke_kept (listing : env.Listing) (standing : Standing env passed now root db)
    {serial : String} {notAfter : Int}
    (done : revoke env serial notAfter now db = .ok (some after)) :
    CallKept env passed now db after := by
  simp only [revoke, standing.load listing] at done
  split at done
  · cases done
  rename_i hex
  split at done
  · cases done
  split at done
  · cases done
  split at done
  · cases done
  split at done
  · cases done
  cases done
  let object := revocationObject (normalSerial serial) notAfter now
  have added : upsert db.revocations object = [object].foldl upsert db.revocations := rfl
  refine ⟨⟨root, ⟨⟨standing.kept.roots, standing.kept.issuers, standing.kept.keys,
    standing.kept.bundles⟩, standing.few, ?_, ?_, standing.born⟩,
    mem_map_of_mem standing.kept.roots.mem⟩, rfl, rfl⟩
  · intro row inside
    obtain ⟨source, found, same⟩ := mem_foldl_upsert (added ▸ inside)
    rw [same]
    rcases mem_append.mp found with old | last
    · exact standing.serials source old
    have valid : lowercaseHex (normalSerial serial) = true := by simpa using hex
    rw [mem_singleton.mp last]
    exact valid
  · have longer := length_foldl_upsert [object] db.revocations
    have one := length_filter_le (fun o => !db.revocations.any (·.id == o.id)) [object]
    rw [length_singleton] at one
    show (upsert db.revocations object).length ≤ maxRevokedSerials
    rw [added]
    omega

theorem IssuersKept.replaced {limit other : Int} (kept : IssuersKept env roots other rows)
    (row : IssuerRow env roots created) (fresh : ∀ row ∈ rows, row.id ≠ created.id)
    (active : created.state = .active) (within : created.notAfter ≤ limit) :
    upsert (rows.map ({ · with state := .revoked })) created =
        rows.map ({ · with state := .revoked }) ++ [created] ∧
      IssuersKept env roots limit (rows.map ({ · with state := .revoked }) ++ [created]) := by
  have origin (o : PKIObject) (inside : o ∈ rows.map ({ · with state := .revoked })) :
      ∃ old ∈ rows, o = { old with state := .revoked } := by
    obtain ⟨old, stored, rfl⟩ := mem_map.mp inside
    exact ⟨old, stored, rfl⟩
  have unused : ∀ o ∈ rows.map ({ · with state := .revoked }), o.id ≠ created.id := by
    intro o inside
    obtain ⟨old, stored, rfl⟩ := origin o inside
    exact fresh old stored
  refine ⟨upsert_new unused, issuers_append ?_ ?_ ?_ row unused active within⟩
  · intro o inside
    obtain ⟨old, stored, rfl⟩ := origin o inside
    exact (kept.usable old stored).withState _
  · rw [map_map]
    exact kept.distinct
  · intro o inside
    obtain ⟨old, stored, rfl⟩ := origin o inside
    exact .inr rfl

theorem listed_succeeded (fresh : ∀ row ∈ rows, row.id ≠ created.id)
    (fewer : ¬ maxBundleIssuers < (rows.filter (·.state != .revoked)).length + 1) :
    ((upsert (retireActive rows) created).filter (·.state != .revoked)).length ≤
      maxBundleIssuers := by
  have same := retireActive_listed (fun _ => true) rows
  simp only [Bool.and_true] at same
  have one := length_filter_le (·.state != .revoked) [created]
  rw [length_singleton] at one
  rw [upsert_new (retireActive_fresh fresh), filter_append, length_append, same]
  omega

theorem rotateIntermediate_kept (listing : env.Listing) (standing : Standing env passed now root db)
    (proper : draw.ProperIssuer env now root db.intermediates)
    (done : rotateIntermediate env false now draw db = .ok (some after)) :
    CallKept env passed now db after := by
  have kept := standing.kept
  have listed : root.publicPart ∈ db.roots.map (·.publicPart) := mem_map_of_mem kept.roots.mem
  have usable := kept.roots.usable root kept.roots.mem
  simp only [rotateIntermediate, standing.load listing, Bool.false_eq_true, if_false] at done
  split at done
  · cases done
  rename_i fewer
  split at done
  · cases done
  rename_i created made
  obtain ⟨active, row, fresh, within⟩ := newIntermediateObject_made usable proper listed made
  cases done
  have joined : upsert (retireActive db.intermediates) created =
      retireActive db.intermediates ++ [created] := upsert_new (retireActive_fresh fresh)
  have issuers := kept.issuers.succeeded row fresh active within
  rw [← joined] at issuers
  refine ⟨⟨root, ⟨⟨kept.roots, issuers, kept.keys, kept.bundles⟩, ?_, standing.serials,
    standing.revoked, standing.born⟩, listed⟩, rfl, rfl⟩
  exact listed_succeeded fresh fewer

def RevocationsFit (db : Database) : Prop :=
  db.revocations.length +
    ((inBundle db).filter fun o => !db.revocations.any (·.id == o.serial)).length ≤
      maxRevokedSerials

theorem rotateIntermediate_revoking_kept (listing : env.Listing)
    (standing : Standing env passed now root db)
    (proper : draw.ProperIssuer env now root db.intermediates)
    (space : RevocationsFit db) (done : rotateIntermediate env true now draw db = .ok (some after)) :
    CallKept env passed now db after := by
  have kept := standing.kept
  have listed : root.publicPart ∈ db.roots.map (·.publicPart) := mem_map_of_mem kept.roots.mem
  have usable := kept.roots.usable root kept.roots.mem
  simp only [rotateIntermediate, standing.load listing, if_true] at done
  split at done
  · cases done
  split at done
  · cases done
  rename_i created made
  obtain ⟨active, row, fresh, within⟩ := newIntermediateObject_made usable proper listed made
  cases done
  obtain ⟨joined, issuers⟩ := kept.issuers.replaced row fresh active within
  refine ⟨⟨root, ⟨⟨kept.roots, joined ▸ issuers, kept.keys, kept.bundles⟩, ?_, ?_, ?_,
    standing.born⟩, listed⟩, rfl, rfl⟩
  · simp only [inBundle, joined, filter_append]
    have none_listed : (db.intermediates.map ({ · with state := .revoked })).filter
        (·.state != .revoked) = [] := by simp
    have one := length_filter_le (·.state != .revoked) [created]
    rw [none_listed, nil_append]
    exact one.trans (by simp [maxBundleIssuers])
  · intro o inside
    obtain ⟨source, found, same⟩ := mem_foldl_upsert inside
    rw [same]
    rcases mem_append.mp found with old | new
    · exact standing.serials source old
    · obtain ⟨issuer, listed, rfl⟩ := mem_map.mp new
      exact (kept.issuers.usable issuer (mem_filter.mp listed).1).serial
  · refine (length_foldl_upsert _ db.revocations).trans ?_
    rw [filter_map, length_map]
    exact space

theorem beginRootRotation_kept (listing : env.Listing) (standing : Standing env passed now root db)
    (proper : draw.ProperRoot env now db.roots)
    (done : beginRootRotation env now draw db = .ok (some after)) :
    CallKept env passed now db after := by
  have kept := standing.kept
  obtain ⟨created, made, at_next, ends, usable, fresh⟩ := newRootObject_ok proper .next
  simp only [beginRootRotation, standing.load listing, made] at done
  split at done
  · cases done
  rename_i idle
  cases done
  have joined : upsert db.roots created = db.roots ++ [created] := upsert_new fresh
  have longer := standing.born root kept.roots.mem
  have shape : (db.roots ++ [created]).Perm [root, created] := by
    cases kept.roots.found listing with
    | alone perm => exact perm.append_right [created]
    | joined next _ _ _ found => simp [found] at idle
    | replaced old _ _ _ found => simp [found] at idle
  have roots : RootsKept env root (db.roots ++ [created]) := by
    refine ⟨?_, distinct_append kept.roots.distinct fresh, kept.roots.active,
      .inr (.inl ⟨created, shape, at_next, by omega⟩)⟩
    intro row inside
    rcases mem_append.mp inside with old | last
    · exact kept.roots.usable row old
    · exact mem_singleton.mp last ▸ usable
  have issuers : IssuersKept env ((db.roots ++ [created]).map (·.publicPart)) root.notAfter
      db.intermediates := by
    refine kept.issuers.rooted fun text inside => ?_
    rw [map_append]
    exact mem_append_left _ inside
  rw [← joined] at roots issuers
  refine ⟨⟨root, ⟨⟨roots, issuers, kept.keys, kept.bundles⟩, standing.few, standing.serials,
    standing.revoked, ?_⟩, mem_map_of_mem kept.roots.mem⟩, rfl, rfl⟩
  intro row inside
  rcases mem_append.mp (joined ▸ inside) with old | last
  · exact standing.born row old
  · rw [mem_singleton.mp last, ends]

theorem setState_texts (id : String) (state : ObjectState) (rows : List PKIObject) :
    (setState id state rows).map (·.publicPart) = rows.map (·.publicPart) := by
  rw [setState, map_map]
  refine map_congr_left fun row _ => ?_
  show (if row.id = id then { row with state } else row).publicPart = row.publicPart
  split <;> rfl

theorem RootsKept.promoted {next : PKIObject} (kept : RootsKept env root rows)
    (perm : rows.Perm [root, next]) :
    RootsKept env { next with state := .active }
      (setState root.id .retired (setState next.id .active rows)) := by
  have apart : root.id ≠ next.id := by
    have distinct := (perm.map (·.id)).nodup_iff.mp kept.distinct
    simpa using distinct
  have states : (setState root.id .retired (setState next.id .active rows)).Perm
      [{ root with state := .retired }, { next with state := .active }] := by
    have moved := (perm.map fun row => if row.id = next.id then { row with state := .active } else
      row).map fun row => if row.id = root.id then { row with state := .retired } else row
    simpa [setState, apart, apart.symm] using moved
  refine ⟨?_, ?_, rfl, .inr (.inr ⟨_, states.trans (.swap _ _ []), rfl⟩)⟩
  · intro row inside
    obtain ⟨middle, inner, origin⟩ := mem_setState inside
    obtain ⟨old, stored, source⟩ := mem_setState inner
    have usable : RootRow env middle := by
      rcases source with rfl | rfl
      · exact kept.usable _ stored
      · exact (kept.usable old stored).withState _
    rcases origin with rfl | rfl
    · exact usable
    · exact usable.withState _
  · rw [setState_ids, setState_ids]
    exact kept.distinct

theorem promoteRoot_kept (listing : env.Listing) (standing : Standing env passed now root db)
    (proper : ∀ next, lastIn .next (env.listed db.roots) = some next →
      draw.ProperIssuer env now next db.intermediates)
    (done : promoteRoot env now draw db = .ok (some after)) :
    CallKept env passed now db after := by
  have kept := standing.kept
  simp only [promoteRoot, standing.load listing] at done
  cases kept.roots.found listing with
  | alone perm no_next => simp [no_next] at done
  | replaced old perm at_old no_next => simp [no_next] at done
  | joined next perm at_next longer found =>
    simp only [found] at done
    split at done
    · cases done
    rename_i fewer
    split at done
    · cases done
    rename_i created made
    have stored : next ∈ db.roots := perm.mem_iff.mpr (by simp)
    have listed : next.publicPart ∈ db.roots.map (·.publicPart) := mem_map_of_mem stored
    have usable := (kept.roots.usable next stored).withState .active
    obtain ⟨active, row, fresh, within⟩ :=
      newIntermediateObject_made usable ⟨(proper next found).1, (proper next found).2⟩ listed made
    cases done
    have roots := kept.roots.promoted perm
    have issuers := kept.issuers.succeeded row fresh active within
    have texts : (setState root.id .retired (setState next.id .active db.roots)).map
        (·.publicPart) = db.roots.map (·.publicPart) := by
      rw [setState_texts, setState_texts]
    rw [← upsert_new (retireActive_fresh fresh), ← texts] at issuers
    refine ⟨⟨_, ⟨⟨roots, issuers, kept.keys, kept.bundles⟩, listed_succeeded fresh fewer,
      standing.serials, standing.revoked, ?_⟩, listed⟩, rfl, rfl⟩
    intro row inside
    obtain ⟨middle, inner, origin⟩ := mem_setState inside
    obtain ⟨old, stored, source⟩ := mem_setState inner
    have same : row.notAfter = old.notAfter := by
      rcases origin with rfl | rfl <;> rcases source with rfl | rfl <;> rfl
    rw [same]
    exact standing.born old stored

theorem IssuersKept.without {rest : List String} {limit : Int} {old : String} {cert : Certificate}
    (kept : IssuersKept env roots limit rows) (parsed : env.crypto.parseCertificate old = .ok cert)
    (others : ∀ text ∈ roots, text = old ∨ text ∈ rest) :
    IssuersKept env rest limit (rows.filter fun o =>
      match env.crypto.parseCertificate o.publicPart with
      | .ok issuer => !env.crypto.checkSignatureFrom issuer cert
      | .error _ => true) := by
  refine ⟨?_, (kept.sublist filter_sublist).distinct, (kept.sublist filter_sublist).states,
    (kept.sublist filter_sublist).single, (kept.sublist filter_sublist).within⟩
  intro row inside
  obtain ⟨stored, other⟩ := mem_filter.mp inside
  obtain ⟨⟨text, listed, issuer, signature, same⟩, begins, ends, serial, unsealed⟩ :=
    kept.usable row stored
  refine ⟨⟨text, ?_, issuer, signature, same⟩, begins, ends, serial, unsealed⟩
  rcases others text listed with rfl | left
  · obtain ⟨found, reads, _, checks⟩ := signature.signed
    cases parsed.symm.trans reads
    simp [signature.parsed, checks] at other
  · exact left

theorem retireRoot_kept (listing : env.Listing) (standing : Standing env passed now root db)
    (done : retireRoot env db = .ok (some after)) : CallKept env passed now db after := by
  have kept := standing.kept
  simp only [retireRoot, standing.load listing] at done
  cases kept.roots.found listing with
  | alone perm no_next no_retired => simp [no_retired] at done
  | joined next perm at_next longer found no_retired => simp [no_retired] at done
  | replaced old perm at_old no_next found =>
    simp only [found] at done
    split at done
    · cases done
    rename_i cert parsed
    cases done
    have apart : root.id ≠ old.id := by
      have distinct := (perm.map (·.id)).nodup_iff.mp kept.roots.distinct
      simpa using distinct
    have left : (db.roots.filter (·.id != old.id)).Perm [root] := by
      simpa [apart] using perm.filter (·.id != old.id)
    have roots : RootsKept env root (db.roots.filter (·.id != old.id)) :=
      ⟨fun row inside => kept.roots.usable row (mem_filter.mp inside).1,
        kept.roots.distinct.sublist (filter_sublist.map _), kept.roots.active, .inl left⟩
    have others (text : String) (inside : text ∈ db.roots.map (·.publicPart)) :
        text = old.publicPart ∨
          text ∈ (db.roots.filter (·.id != old.id)).map (·.publicPart) := by
      obtain ⟨signer, member, rfl⟩ := mem_map.mp inside
      have either : signer = root ∨ signer = old := by simpa using perm.mem_iff.mp member
      rcases either with rfl | rfl
      · exact .inr (mem_map_of_mem (left.mem_iff.mpr (by simp)))
      · exact .inl rfl
    have signed := kept.issuers.without parsed others
    refine ⟨⟨root, ⟨⟨roots, signed, kept.keys, kept.bundles⟩, ?_, standing.serials,
      standing.revoked, ?_⟩, mem_map_of_mem kept.roots.mem⟩, rfl, rfl⟩
    · exact ((filter_sublist.filter _).length_le).trans standing.few
    · intro row inside
      exact standing.born row (mem_filter.mp inside).1

end Calls

section Steps

variable (env : Env)

def Step.Makes (s : Tower) : Step → Prop
  | .ensure pass => pass.Proper env s.db
  | .revoke _ _ _ | .retireRoot _ => True
  | .rotateIntermediate now _ draw => ∀ root, activeRoot env s.db.roots = some root →
      draw.ProperIssuer env now root s.db.intermediates
  | .beginRootRotation now draw => draw.ProperRoot env now s.db.roots
  | .promoteRoot now draw => ∀ next, lastIn .next (env.listed s.db.roots) = some next →
      draw.ProperIssuer env now next s.db.intermediates

/-- The calls as they come: at times that do not decrease, with passes a day apart at most. -/
structure Admitted (s : Tower) (step : Step) : Prop where
  later : s.clock ≤ step.now
  soon : ∀ pass passed, step = .ensure pass → s.passed = some passed → pass.now ≤ passed + day
  makes : step.Makes env s

/-- A renewal that is due finds at most one other intermediate that the bundle would list. -/
def Room (now : Int) (db : Database) : Prop :=
  renewalDue now (currentIssuer env db.intermediates) = true →
    (db.intermediates.filter fun o => o.state != .revoked && decide (now ≤ o.notAfter)).length ≤ 1

/-- What keeps the bundles acceptable. At a pass, a renewal that is due has to fit under the
root and into the bundle, a retired root must not have expired, and the number of the next
bundle must have twelve digits at most. -/
def Step.Spares (s : Tower) : Step → Prop
  | .ensure pass => Fits env pass.now s.db ∧ Room env pass.now s.db ∧
      (∀ old ∈ s.db.roots, old.state = .retired → pass.now ≤ old.notAfter) ∧
      ∀ b ∈ s.published.head?, b.version + 1 < 10 ^ 12
  | .rotateIntermediate _ true _ => RevocationsFit s.db
  | _ => True

variable {env} {passed : Int} {root : PKIObject} {s : Tower} {after : Database} {step : Step}

theorem rows_kept (listing : env.Listing) (standing : Standing env passed step.now root s.db)
    (makes : step.Makes env s) (spares : step.Spares env s)
    (done : step.rows env s.db = .ok (some after)) : CallKept env passed step.now s.db after := by
  have active := standing.kept.roots.activeRoot listing
  cases step with
  | ensure pass => cases done
  | revoke now serial notAfter =>
    have revoked : revoke env serial notAfter now s.db = .ok (some after) := done
    exact revoke_kept listing standing revoked
  | rotateIntermediate now revokePrevious draw =>
    cases revokePrevious with
    | false => exact rotateIntermediate_kept listing standing (makes root active) done
    | true =>
      have space : RevocationsFit s.db := spares
      exact rotateIntermediate_revoking_kept listing standing (makes root active) space done
  | beginRootRotation now draw => exact beginRootRotation_kept listing standing makes done
  | promoteRoot now draw => exact promoteRoot_kept listing standing makes done
  | retireRoot now => exact retireRoot_kept listing standing done

theorem rows_empty (listing : env.Listing) (step : Step) (db : Database) :
    step.rows env .empty ≠ .ok (some db) := by
  have listed_nil : env.listed [] = [] := perm_nil.mp (listing [])
  have no_root : load env .empty = .error errNoRoot := by
    simp [load, activeRoot, lastIn, Database.empty, listed_nil]
  intro done
  cases step with
  | ensure pass => cases done
  | revoke now serial notAfter =>
    simp only [Step.rows, revoke, no_root] at done
    split at done <;> cases done
  | rotateIntermediate now revokePrevious draw =>
    simp [Step.rows, rotateIntermediate, no_root] at done
  | beginRootRotation now draw => simp [Step.rows, beginRootRotation, no_root] at done
  | promoteRoot now draw => simp [Step.rows, promoteRoot, no_root] at done
  | retireRoot now => simp [Step.rows, retireRoot, no_root] at done

end Steps

end Jolt.Pki
