import Jolt.Pki.Passes

/-! The signing keys over the passes. There is one active key; beside it there may be its
successor, which is waiting, or the key it replaced, never both. With a pass every day the
active key is never older than 68 days. -/
namespace Jolt.Pki
open Jolt.Trust List

section Rows

variable {env : Env} {rows : List PKIObject} {object : PKIObject}

def Env.Listing (env : Env) : Prop := ∀ rows, (env.listed rows).Perm rows

theorem upsert_new (fresh : ∀ row ∈ rows, row.id ≠ object.id) :
    upsert rows object = rows ++ [object] := by
  have absent : rows.any (·.id == object.id) = false := by simpa using fresh
  rw [upsert, absent]
  rfl

theorem lastIn_unique (listing : env.Listing) {rest : List PKIObject} {state : ObjectState}
    (perm : rows.Perm (object :: rest)) (at_state : object.state = state)
    (others : ∀ row ∈ rest, row.state ≠ state) :
    lastIn state (env.listed rows) = some object := by
  have none_left : rest.filter (·.state == state) = [] := by simpa using others
  have one : ((env.listed rows).filter (·.state == state)).Perm [object] := by
    have filtered := ((listing rows).trans perm).filter (·.state == state)
    simpa [at_state, none_left] using filtered
  rw [lastIn, perm_singleton.mp one]
  rfl

theorem lastIn_none (listing : env.Listing) {state : ObjectState}
    (others : ∀ row ∈ rows, row.state ≠ state) : lastIn state (env.listed rows) = none := by
  have none_left : (env.listed rows).filter (·.state == state) = [] := by
    simpa using fun row inside => others row ((listing rows).mem_iff.mp inside)
  rw [lastIn, none_left]
  rfl

theorem mem_setState {id : String} {state : ObjectState} {row : PKIObject}
    (inside : row ∈ setState id state rows) :
    ∃ before ∈ rows, row = before ∨ row = { before with state } := by
  obtain ⟨before, stored, rfl⟩ := mem_map.mp inside
  refine ⟨before, stored, ?_⟩
  split
  · exact .inr rfl
  · exact .inl rfl

theorem setState_ids (id : String) (state : ObjectState) (rows : List PKIObject) :
    (setState id state rows).map (·.id) = rows.map (·.id) := by
  rw [setState, map_map]
  refine map_congr_left fun row _ => ?_
  show (if row.id = id then { row with state } else row).id = row.id
  split <;> rfl

def PKIObject.KeptFrom (row : PKIObject) (before : List PKIObject) : Prop :=
  ∃ old ∈ before, row.id = old.id ∧ row.publicPart = old.publicPart ∧ row.notAfter = old.notAfter

theorem PKIObject.KeptFrom.of_mem (inside : object ∈ rows) : object.KeptFrom rows :=
  ⟨object, inside, rfl, rfl, rfl⟩

end Rows

section Keys

variable {env : Env} {now : Int} {draw : KeyDraw} {rows : List PKIObject}

/-- The library signs with the private part what it verifies with the public part. -/
def Env.Signs (env : Env) (seed publicKey : List UInt8) : Prop :=
  ∀ payload, ∃ signature, env.crypto.decodeBase64 (env.sign seed payload) = some signature ∧
    signature.length = signatureSize ∧ env.crypto.verify publicKey payload signature = true

/-- The texts of a key pair can be read back and belong together. -/
structure KeyPair (env : Env) (encoded secret : String) (publicKey seed : List UInt8) :
    Prop where
  decoded : env.crypto.decodeBase64 encoded = some publicKey
  publicSize : publicKey.length = publicKeySize
  unsealed : env.unsealSeed secret = .ok seed
  seedSize : seed.length = seedSize
  belong : env.publicOf seed = publicKey
  signs : env.Signs seed publicKey

/-- A key as the library makes it, with an ID that no other key has. -/
structure KeyDraw.Proper (env : Env) (now : Int) (rows : List PKIObject) (draw : KeyDraw) :
    Prop where
  pair : KeyPair env draw.encoded draw.secret draw.publicKey draw.seed
  valid : validKeyID (newSigningKeyID env now draw.suffix) = true
  fresh : ∀ row ∈ rows, row.id ≠ newSigningKeyID env now draw.suffix

structure KeyRow (env : Env) (object : PKIObject) : Prop where
  pair : ∃ publicKey seed, KeyPair env object.publicPart object.secret publicKey seed
  valid : validKeyID object.id = true
  life : object.notAfter = object.createdAt + signingKeyValidity
  recent : 0 ≤ object.createdAt

theorem KeyRow.withState {object : PKIObject} (row : KeyRow env object) (state : ObjectState) :
    KeyRow env { object with state } :=
  ⟨row.pair, row.valid, row.life, row.recent⟩

theorem KeyDraw.Proper.row (proper : draw.Proper env now rows) (later : 0 ≤ now)
    (state : ObjectState) : KeyRow env (createKey env now state draw).object :=
  ⟨⟨_, _, proper.pair⟩, proper.valid, rfl, later⟩

def SigningKey.Private (env : Env) (key : SigningKey) : Prop :=
  ∃ seed, key.seed = some seed ∧ env.Signs seed key.publicKey

theorem loadKey_private {object : PKIObject} (row : KeyRow env object) :
    ∃ key, loadKey env object true = .ok key ∧ key.object = object ∧ key.Private env ∧
      env.crypto.decodeBase64 object.publicPart = some key.publicKey := by
  obtain ⟨publicKey, seed, pair⟩ := row.pair
  refine ⟨⟨object, some seed, publicKey⟩, ?_, rfl, ⟨seed, rfl, pair.signs⟩, pair.decoded⟩
  simp [loadKey, pair.decoded, pair.publicSize, pair.unsealed, pair.seedSize, pair.belong]

theorem loadKey_public {object : PKIObject} (row : KeyRow env object) :
    ∃ key, loadKey env object false = .ok key ∧ key.object = object := by
  obtain ⟨publicKey, seed, pair⟩ := row.pair
  refine ⟨⟨object, none, publicKey⟩, ?_, rfl⟩
  simp [loadKey, pair.decoded, pair.publicSize]

end Keys

section Shapes

variable (env : Env)

inductive KeyShape (passed : Int) (rows : List PKIObject) : Prop where
  | alone (a : PKIObject) (perm : rows.Perm [a]) (active : a.state = .active)
      (young : passed < a.createdAt + signingRotateAfter)
  | announced (a p : PKIObject) (perm : rows.Perm [a, p]) (active : a.state = .active)
      (pending : p.state = .pending) (young : p.createdAt < a.createdAt + signingRotateAfter + day)
      (waiting : passed < p.createdAt + signingPromoteAfter)
  | replaced (a r : PKIObject) (perm : rows.Perm [a, r]) (active : a.state = .active)
      (retired : r.state = .retired) (young : passed < a.createdAt + signingRotateAfter)

theorem KeyShape.length_le {passed : Int} {rows : List PKIObject} (shape : KeyShape passed rows) :
    1 ≤ rows.length ∧ rows.length ≤ 2 := by
  cases shape with
  | alone a perm => simp [perm.length_eq]
  | announced a p perm => simp [perm.length_eq]
  | replaced a r perm => simp [perm.length_eq]

/-- The stored keys: usable, told apart by their IDs, and in one of the shapes. -/
structure KeysKept (passed : Int) (rows : List PKIObject) : Prop where
  usable : ∀ row ∈ rows, KeyRow env row
  distinct : (rows.map (·.id)).Nodup
  shape : KeyShape passed rows

/-- What a pass does to the keys: the rows it leaves, which were there or were made now, and a
key that signs, whose row was there unless there were none. -/
structure KeysManaged (now : Int) (draw : KeyDraw) (before : List PKIObject)
    (keys : List SigningKey) (rows : List PKIObject) : Prop where
  kept : KeysKept env now rows
  same : (keys.map (·.object)).Perm rows
  source : ∀ row ∈ rows, row.KeptFrom before ∨ row.id = newSigningKeyID env now draw.suffix ∧
    row.publicPart = draw.encoded ∧ row.notAfter = now + signingKeyValidity
  signer : ∃ key, keys.filter (·.object.state == .active) = [key] ∧ key.Private env ∧
    env.crypto.decodeBase64 key.object.publicPart = some key.publicKey ∧
    now < key.object.notAfter ∧ (before ≠ [] → key.object.KeptFrom before)

def keyDue (now : Int) (rows : List PKIObject) : Bool :=
  match lastIn .active (env.listed rows) with
  | none => true
  | some active => (lastIn .pending (env.listed rows)).isNone &&
      decide (active.createdAt + signingRotateAfter ≤ now)

variable {env} {now passed : Int} {draw : KeyDraw} {rows : List PKIObject}

theorem keyDue_alone (listing : env.Listing) {a : PKIObject} {rest : List PKIObject}
    (perm : rows.Perm (a :: rest)) (active : a.state = .active)
    (others : ∀ row ∈ rest, row.state ≠ .active) (settled : ∀ row ∈ rows, row.state ≠ .pending)
    (due : a.createdAt + signingRotateAfter ≤ now) : keyDue env now rows = true := by
  simp [keyDue, lastIn_unique listing perm active others, lastIn_none listing settled, due]

theorem retiring_perm (listing : env.Listing) {others : List PKIObject}
    (perm : rows.Perm others) : (retiring env rows).Perm
      (others.filter fun o => !(o.state == .active || o.state == .pending)) :=
  ((listing rows).trans perm).filter _

theorem manageSigningKeys_ok {key : SigningKey} {started : List PKIObject}
    {keys kept : List SigningKey} {active : PKIObject} {moved : List PKIObject}
    (first : activeKey env now draw rows = .ok (key, started))
    (second : succession env now draw key started = .ok (keys, active, moved))
    (third : ((retiring env rows).filter (keptKey now active)).mapM (loadKey env · false) =
      .ok kept) :
    manageSigningKeys env now draw rows = .ok (keys ++ kept, moved.filter fun row =>
      !(((retiring env rows).filter (!keptKey now active ·)).map (·.id)).contains row.id) := by
  simp only [manageSigningKeys, first, second, third]

theorem manageSigningKeys_simple {key : SigningKey} {started : List PKIObject}
    {keys : List SigningKey} {active : PKIObject} {moved : List PKIObject}
    (first : activeKey env now draw rows = .ok (key, started))
    (second : succession env now draw key started = .ok (keys, active, moved))
    (none_retiring : retiring env rows = []) :
    manageSigningKeys env now draw rows = .ok (keys, moved) := by
  have third : ((retiring env rows).filter (keptKey now active)).mapM (loadKey env · false) =
      .ok [] := by
    rw [none_retiring]
    rfl
  rw [manageSigningKeys_ok first second third]
  simp [none_retiring]

theorem activeKey_loads (now : Int) (draw : KeyDraw) (listing : env.Listing) {a : PKIObject}
    {rest : List PKIObject}
    (perm : rows.Perm (a :: rest)) (usable : KeyRow env a) (active : a.state = .active)
    (others : ∀ row ∈ rest, row.state ≠ .active) :
    ∃ key, activeKey env now draw rows = .ok (key, rows) ∧ key.object = a ∧ key.Private env ∧
      env.crypto.decodeBase64 a.publicPart = some key.publicKey := by
  obtain ⟨key, loaded, same, secret, decoded⟩ := loadKey_private usable
  refine ⟨key, ?_, same, secret, decoded⟩
  rw [activeKey, lastIn_unique listing perm active others]
  simp only [loaded]

theorem distinct_append {object : PKIObject} (distinct : (rows.map (·.id)).Nodup)
    (fresh : ∀ row ∈ rows, row.id ≠ object.id) : ((rows ++ [object]).map (·.id)).Nodup := by
  rw [map_append, nodup_append]
  refine ⟨distinct, nodup_singleton _, ?_⟩
  intro id inside other last
  obtain ⟨row, stored, rfl⟩ := mem_map.mp inside
  have same : other = object.id := by simpa using last
  exact same ▸ fresh row stored

theorem usable_append {object : PKIObject} (usable : ∀ row ∈ rows, KeyRow env row)
    (new : KeyRow env object) : ∀ row ∈ rows ++ [object], KeyRow env row := by
  intro row inside
  rcases mem_append.mp inside with before | last
  · exact usable row before
  · exact mem_singleton.mp last ▸ new

theorem source_append {before : List PKIObject} (old : ∀ row ∈ rows, row.KeptFrom before) :
    ∀ row ∈ rows ++ [(createKey env now .pending draw).object], row.KeptFrom before ∨
      row.id = newSigningKeyID env now draw.suffix ∧ row.publicPart = draw.encoded ∧
        row.notAfter = now + signingKeyValidity := by
  intro row inside
  rcases mem_append.mp inside with stored | last
  · exact .inl (old row stored)
  · rw [mem_singleton.mp last]
    exact .inr ⟨rfl, rfl, rfl⟩

theorem manage_first (listing : env.Listing) (proper : draw.Proper env now []) (later : 0 ≤ now) :
    ∃ keys rows, manageSigningKeys env now draw [] = .ok (keys, rows) ∧
      KeysManaged env now draw [] keys rows := by
  have positive := day_pos
  have listed_nil : env.listed [] = [] := perm_nil.mp (listing [])
  obtain ⟨key, made⟩ : ∃ key, key = createKey env now .active draw := ⟨_, rfl⟩
  have row : KeyRow env key.object := made ▸ proper.row later .active
  have active : key.object.state = .active := made ▸ rfl
  have created : key.object.createdAt = now := made ▸ rfl
  have young : now < key.object.createdAt + signingRotateAfter := by
    unfold signingRotateAfter
    omega
  have first : activeKey env now draw [] = .ok (key, [key.object]) := by
    simp [activeKey, lastIn, listed_nil, upsert, made]
  have second : succession env now draw key [key.object] = .ok ([key], key.object, [key.object]) := by
    have alone : lastIn .pending (env.listed [key.object]) = none :=
      lastIn_none listing (by simp [active])
    rw [succession, alone]
    simp only [if_neg (Int.not_le.mpr young)]
  refine ⟨_, _, manageSigningKeys_simple first second (by simp [retiring, listed_nil]), ?_⟩
  refine ⟨⟨by simpa using row, by simp, .alone key.object (.refl _) active young⟩, by simp, ?_, key,
    by simp [active], ?_, ?_, ?_, by simp⟩
  · simp [made, createKey]
  · exact made ▸ ⟨draw.seed, rfl, proper.pair.signs⟩
  · exact made ▸ proper.pair.decoded
  · rw [row.life]
    unfold signingKeyValidity
    omega

theorem succession_alone (now : Int) (draw : KeyDraw) (key : SigningKey) (listing : env.Listing)
    (settled : ∀ row ∈ rows, row.state ≠ .pending) :
    succession env now draw key rows =
      if key.object.createdAt + signingRotateAfter ≤ now then
        .ok ([key, { createKey env now .pending draw with seed := none }], key.object,
          upsert rows (createKey env now .pending draw).object)
      else .ok ([key], key.object, rows) := by
  rw [succession, lastIn_none listing settled]

theorem KeyRow.live {a : PKIObject} (row : KeyRow env a)
    (young : passed < a.createdAt + signingRotateAfter) (soon : now ≤ passed + day) :
    now < a.notAfter := by
  have positive := day_pos
  rw [row.life]
  unfold signingKeyValidity
  unfold signingRotateAfter at young
  omega

section

variable (listing : env.Listing) (usable : ∀ row ∈ rows, KeyRow env row)
  (distinct : (rows.map (·.id)).Nodup) (soon : now ≤ passed + day)
include listing usable distinct soon

/-- The keys that the active one replaced are removed; a successor is made when it is due. -/
theorem manage_alone {a : PKIObject} {rest : List PKIObject} (perm : rows.Perm (a :: rest))
    (active : a.state = .active) (young : passed < a.createdAt + signingRotateAfter)
    (retired : ∀ row ∈ rest, row.state = .retired)
    (dropped : ∀ row ∈ rest, keptKey now a row = false)
    (makes : keyDue env now rows = true → draw.Proper env now rows) (later : 0 ≤ now) :
    ∃ keys after, manageSigningKeys env now draw rows = .ok (keys, after) ∧
      KeysManaged env now draw rows keys after := by
  have inside : a ∈ rows := perm.mem_iff.mpr mem_cons_self
  obtain ⟨key, first, rfl, secret, decoded⟩ := activeKey_loads now draw listing perm
    (usable a inside) active (by simp +contextual [retired])
  have live := (usable _ inside).live young soon
  have known : rows ≠ [] → key.object.KeptFrom rows := fun _ => .of_mem inside
  have settled (row : PKIObject) (stored : row ∈ rows) : row.state ≠ .pending := by
    rcases mem_cons.mp (perm.mem_iff.mp stored) with rfl | old
    · simp [active]
    · simp [retired row old]
  have second := succession_alone now draw key listing settled
  have outgoing : (retiring env rows).Perm rest := by
    have filtered := retiring_perm listing perm
    rwa [filter_cons_of_neg (by simp [active]), filter_eq_self.mpr (by simp +contextual [retired])]
      at filtered
  have third : ((retiring env rows).filter (keptKey now key.object)).mapM (loadKey env · false) =
      .ok [] := by
    rw [filter_eq_nil_iff.mpr fun row old => by simp [dropped row (outgoing.mem_iff.mp old)]]
    rfl
  obtain ⟨gone, removed⟩ : ∃ gone, gone =
      ((retiring env rows).filter (!keptKey now key.object ·)).map (·.id) := ⟨_, rfl⟩
  have ids (id : String) : id ∈ gone ↔ id ∈ rest.map (·.id) := by
    rw [removed, filter_eq_self.mpr fun row old => by simp [dropped row (outgoing.mem_iff.mp old)]]
    exact (outgoing.map _).mem_iff
  have left : (rows.filter fun row => !gone.contains row.id).Perm [key.object] := by
    have filtered := perm.filter fun row => !gone.contains row.id
    have apart : key.object.id ∉ rest.map (·.id) :=
      (nodup_cons.mp ((perm.map (·.id)).nodup_iff.mp distinct)).1
    have none_left : rest.filter (fun row => !gone.contains row.id) = [] :=
      filter_eq_nil_iff.mpr fun row old => by simpa [ids] using ⟨row, old, rfl⟩
    rwa [filter_cons_of_pos (by simpa [ids] using apart), none_left] at filtered
  have usable_left : ∀ row ∈ rows.filter fun row => !gone.contains row.id, KeyRow env row :=
    fun row inside => usable row (mem_filter.mp inside).1
  have distinct_left : ((rows.filter fun row => !gone.contains row.id).map (·.id)).Nodup :=
    distinct.sublist (filter_sublist.map _)
  by_cases due : key.object.createdAt + signingRotateAfter ≤ now
  · have proper := makes (keyDue_alone listing perm active (by simp +contextual [retired]) settled due)
    rw [if_pos due, upsert_new proper.fresh] at second
    have managed := manageSigningKeys_ok first second third
    have other : (createKey env now .pending draw).object.id ∉ gone := by
      intro old
      obtain ⟨row, old, same⟩ := mem_map.mp ((ids _).mp old)
      exact proper.fresh row (perm.mem_iff.mpr (mem_cons_of_mem _ old)) same
    rw [← removed, filter_append, filter_cons_of_pos (by simpa using other), filter_nil]
      at managed
    have both := left.append_right [(createKey env now .pending draw).object]
    refine ⟨_, _, managed, ⟨usable_append usable_left (proper.row later .pending),
      distinct_append distinct_left fun row inside => proper.fresh row (mem_filter.mp inside).1, ?_⟩,
      both.symm, source_append fun _ inside => .of_mem (mem_filter.mp inside).1, key, ?_, secret,
      decoded, live, known⟩
    · have positive := day_pos
      refine .announced key.object (createKey env now .pending draw).object both active rfl ?_ ?_
      · show now < _
        omega
      show now < now + signingPromoteAfter
      unfold signingPromoteAfter
      omega
    · simp [active, createKey]
  · rw [if_neg due] at second
    have managed := manageSigningKeys_ok first second third
    rw [← removed] at managed
    exact ⟨_, _, managed, ⟨usable_left, distinct_left,
      .alone key.object left active (Int.not_le.mp due)⟩, left.symm,
      fun _ inside => .inl (.of_mem (mem_filter.mp inside).1), key, by simp [active], secret, decoded,
      live, known⟩

theorem manage_announced {a p : PKIObject} (perm : rows.Perm [a, p])
    (active : a.state = .active) (pending : p.state = .pending)
    (young : p.createdAt < a.createdAt + signingRotateAfter + day)
    (waiting : passed < p.createdAt + signingPromoteAfter) :
    ∃ keys after, manageSigningKeys env now draw rows = .ok (keys, after) ∧
      KeysManaged env now draw rows keys after := by
  have positive := day_pos
  have rowA : KeyRow env a := usable a (perm.mem_iff.mpr (by simp))
  have rowP : KeyRow env p := usable p (perm.mem_iff.mpr (by simp))
  have apart : a.id ≠ p.id := by
    have both := (perm.map (·.id)).nodup_iff.mp distinct
    simpa using both
  have none_retiring : retiring env rows = [] := by
    have filtered := retiring_perm listing perm
    simpa [active, pending] using filtered
  have swapped : rows.Perm (p :: [a]) := perm.trans (.swap p a [])
  have found : lastIn .pending (env.listed rows) = some p :=
    lastIn_unique listing swapped pending (by simp [active])
  obtain ⟨key, first, rfl, secret, decoded⟩ :=
    activeKey_loads now draw listing perm rowA active (by simp [pending])
  by_cases due : p.createdAt + signingPromoteAfter ≤ now
  · obtain ⟨promoted, loaded, same, opened, read⟩ := loadKey_private (rowP.withState .active)
    obtain ⟨old, kept, retired⟩ := loadKey_public (rowA.withState .retired)
    have second : succession env now draw key rows = .ok ([promoted, old], promoted.object,
        setState p.id .active (setState key.object.id .retired rows)) := by
      simp only [succession, found, if_pos due, loaded, kept]
    have moved : (setState p.id .active (setState key.object.id .retired rows)).Perm
        [old.object, promoted.object] := by
      have both : setState p.id .active (setState key.object.id .retired [key.object, p]) =
          [old.object, promoted.object] := by
        simp [setState, apart, apart.symm, same, retired]
      exact both ▸ (perm.map _).map _
    refine ⟨_, _, manageSigningKeys_simple first second none_retiring, ⟨?_, ?_, ?_⟩, ?_, ?_, promoted,
      ?_, opened, ?_, ?_, ?_⟩
    · intro row inside
      obtain ⟨middle, between, change⟩ := mem_setState inside
      obtain ⟨before, stored, earlier⟩ := mem_setState between
      have first : KeyRow env middle := by
        rcases earlier with rfl | rfl
        · exact usable _ stored
        · exact (usable _ stored).withState _
      rcases change with rfl | rfl
      · exact first
      · exact first.withState _
    · rw [setState_ids, setState_ids]
      exact distinct
    · refine .replaced promoted.object old.object (moved.trans (.swap _ _ [])) (by rw [same])
        (by rw [retired]) ?_
      rw [same]
      unfold signingPromoteAfter at waiting
      unfold signingRotateAfter
      show now < p.createdAt + _
      omega
    · exact (moved.trans (.swap _ _ [])).symm
    · intro row inside
      obtain ⟨middle, between, change⟩ := mem_setState inside
      obtain ⟨before, stored, earlier⟩ := mem_setState between
      refine .inl ⟨before, stored, ?_⟩
      rcases earlier with rfl | rfl <;> rcases change with rfl | rfl <;> exact ⟨rfl, rfl, rfl⟩
    · simp [same, retired]
    · rw [same]
      exact read
    · rw [same]
      show now < p.notAfter
      rw [rowP.life]
      unfold signingPromoteAfter at waiting
      unfold signingKeyValidity
      omega
    · intro _
      exact ⟨p, perm.mem_iff.mpr (by simp), by rw [same], by rw [same], by rw [same]⟩
  · obtain ⟨loaded, kept, same⟩ := loadKey_public rowP
    have second : succession env now draw key rows = .ok ([key, loaded], key.object, rows) := by
      simp only [succession, found, if_neg due, kept]
    refine ⟨_, _, manageSigningKeys_simple first second none_retiring, ⟨usable, distinct,
      .announced key.object p perm active pending young (Int.not_le.mp due)⟩, ?_,
      fun _ inside => .inl (.of_mem inside), key, ?_, secret, decoded, ?_, ?_⟩
    · simpa [same] using perm.symm
    · simp [active, same, pending]
    · rw [rowA.life]
      unfold signingPromoteAfter at due
      unfold signingRotateAfter at young
      unfold signingKeyValidity
      omega
    · intro _
      exact .of_mem (perm.mem_iff.mpr (by simp))

theorem manage_replaced {a r : PKIObject} (perm : rows.Perm [a, r])
    (active : a.state = .active) (retired : r.state = .retired)
    (young : passed < a.createdAt + signingRotateAfter) (stays : keptKey now a r = true) :
    ∃ keys after, manageSigningKeys env now draw rows = .ok (keys, after) ∧
      KeysManaged env now draw rows keys after := by
  have insideA : a ∈ rows := perm.mem_iff.mpr (by simp)
  have one_retiring : retiring env rows = [r] := by
    have filtered := retiring_perm listing perm
    simpa [active, retired] using filtered
  have settled (row : PKIObject) (inside : row ∈ rows) : row.state ≠ .pending := by
    have either : row = a ∨ row = r := by simpa using perm.mem_iff.mp inside
    rcases either with rfl | rfl
    · simp [active]
    · simp [retired]
  obtain ⟨key, first, rfl, secret, decoded⟩ :=
    activeKey_loads now draw listing perm (usable a insideA) active (by simp [retired])
  have second := succession_alone now draw key listing settled
  -- within the overlap it is too early for a successor
  have early : ¬ key.object.createdAt + signingRotateAfter ≤ now := by
    have positive := day_pos
    simp only [keptKey, Bool.and_eq_true, decide_eq_true_eq] at stays
    have overlap := stays.2
    unfold signingOverlap at overlap
    unfold signingRotateAfter
    omega
  rw [if_neg early] at second
  obtain ⟨old, loaded, same⟩ := loadKey_public (usable r (perm.mem_iff.mpr (by simp)))
  have third : ((retiring env rows).filter (keptKey now key.object)).mapM (loadKey env · false) =
      .ok [old] := by
    simp [one_retiring, stays, loaded]
  have managed := manageSigningKeys_ok first second third
  simp only [one_retiring, filter_cons, stays] at managed
  refine ⟨_, _, managed, ?_, ?_, ?_, key, ?_, secret, decoded, (usable _ insideA).live young soon,
    fun _ => .of_mem insideA⟩
  · simpa using ⟨usable, distinct, .replaced key.object r perm active retired (Int.not_le.mp early)⟩
  · simpa [same] using perm.symm
  · intro row inside
    exact .inl (.of_mem (mem_filter.mp inside).1)
  · simp [active, same, retired]

end

theorem manageSigningKeys_kept (listing : env.Listing) (kept : KeysKept env passed rows)
    (makes : keyDue env now rows = true → draw.Proper env now rows) (later : 0 ≤ now)
    (soon : now ≤ passed + day) :
    ∃ keys after, manageSigningKeys env now draw rows = .ok (keys, after) ∧
      KeysManaged env now draw rows keys after := by
  obtain ⟨usable, distinct, shape⟩ := kept
  cases shape with
  | alone a perm active young =>
    exact manage_alone listing usable distinct soon perm active young (by simp) (by simp) makes later
  | announced a p perm active pending young waiting =>
    exact manage_announced listing usable distinct soon perm active pending young waiting
  | replaced a r perm active retired young =>
    cases stays : keptKey now a r with
    | true => exact manage_replaced listing usable distinct soon perm active retired young stays
    | false =>
      exact manage_alone listing usable distinct soon perm active young (by simpa using retired)
        (by simpa using stays) makes later

end Shapes

end Jolt.Pki
