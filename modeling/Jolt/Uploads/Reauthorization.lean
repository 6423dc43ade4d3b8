import Jolt.Base.Records
import Jolt.Base.Runs
import Jolt.Jobs.Lease

/-! Upload sessions and the replacement of the credential they are bound to. An envelope names the
request by the session, its credential and its authorization revision, so that it is accepted once. -/
namespace Jolt.Uploads
open Jolt.Base Jolt.Jobs

inductive UploadState where
  | receiving | publishing | completed | rejected
  deriving DecidableEq

structure UploadSession where
  authorizationActorID : String := ""
  authorizationCredentialID : String := ""
  authorizationRevision : UInt64 := 0
  state : UploadState := .receiving
  id : String
  mountID : String
  destination : String
  size : Int := 0
  overwrite : Bool := false
  createdAt : Time := 0
  updatedAt : Time := 0
  expiresAt : Time := 0
  deriving DecidableEq

inductive UploadError where
  | invalidSignature | forbidden | notFound | inUse | exists_
  | message (text : String)
  deriving DecidableEq

structure Sessions where
  ids : List String
  find : String → Option UploadSession

def Sessions.put (s : Sessions) (id : String) (v : UploadSession) : Sessions :=
  ⟨if id ∈ s.ids then s.ids else s.ids ++ [id], Function.update s.find id (some v)⟩

def Sessions.remove (s : Sessions) (id : String) : Sessions :=
  ⟨s.ids.filter (· ≠ id), Function.update s.find id none⟩

section Store

def createUploadSession (s : Sessions) (v : UploadSession) : Except UploadError Sessions :=
  if v.authorizationRevision ≠ 0 then
    .error (.message "invalid initial upload authorization revision")
  else if (v.authorizationActorID ≠ "" ∨ v.authorizationCredentialID ≠ "") ∧
      ¬(validKeyID v.authorizationActorID ∧ validKeyID v.authorizationCredentialID) then
    .error (.message "invalid upload authorization identity")
  else if (s.find v.id).isSome then .error .exists_
  else if s.ids.any fun key => (s.find key).any fun other => other.mountID == v.mountID &&
      other.destination == v.destination && other.state != .completed then .error .exists_
  else .ok (s.put v.id v)

variable {κ : Type} (signing : Signing κ)

def reauthorizationText (sessionID previousCredential : String) (revision : UInt64) : String :=
  sessionID ++ "\x00" ++ previousCredential ++ "\x00" ++ toString revision.toNat

def uploadReauthorizationRequestID (sessionID previousCredential : String) (revision : UInt64) :
    String :=
  "previous-" ++ signing.sha256 (reauthorizationText sessionID previousCredential revision)

def reauthorizeUploadSession (s : Sessions) (id actorID credentialID expectedRequestID : String) :
    Except UploadError Sessions :=
  if ¬(validKeyID actorID ∧ validKeyID credentialID) then
    .error (.message "invalid upload authorization identity")
  else
    match s.find id with
    | none => .error .notFound
    | some session =>
      if (session.authorizationActorID = "") ≠ (session.authorizationCredentialID = "") ∨
          session.authorizationActorID ≠ "" ∧ session.authorizationActorID ≠ actorID ∨
          session.authorizationRevision = ~~~0 ∨
          uploadReauthorizationRequestID signing id session.authorizationCredentialID
            session.authorizationRevision ≠ expectedRequestID then .error .inUse
      else .ok (s.put id { session with
        authorizationActorID := actorID
        authorizationCredentialID := credentialID
        authorizationRevision := session.authorizationRevision + 1 })

def touchUploadSession (s : Sessions) (id : String) (now expires : Time) :
    Except UploadError Sessions :=
  match s.find id with
  | none => .error .notFound
  | some v => .ok (s.put id { v with updatedAt := now, expiresAt := expires })

def updateUploadSession (s : Sessions) (v : UploadSession) : Except UploadError Sessions :=
  match s.find v.id with
  | none => .error .notFound
  | some old =>
    if old.mountID ≠ v.mountID ∨ old.destination ≠ v.destination ∨ old.size ≠ v.size ∨
        old.overwrite ≠ v.overwrite ∨ old.authorizationActorID ≠ v.authorizationActorID ∨
        old.authorizationCredentialID ≠ v.authorizationCredentialID ∨
        old.authorizationRevision ≠ v.authorizationRevision then .error .inUse
    else .ok (s.put v.id v)

def verifyUploadReauthorization (token : String) (keys : κ)
    (previousActor previousCredential receivingNode mountID destination sessionID : String)
    (revision : UInt64) (now : Time) : Option Claims :=
  match verifySigned signing token keys now with
  | none => none
  | some claims =>
    let b := claims.binding
    if receivingNode = "" ∨ sessionID = "" ∨
        (previousActor = "") ≠ (previousCredential = "") ∨
        previousActor ≠ "" ∧ b.actorID ≠ previousActor ∨
        b.requestID ≠ uploadReauthorizationRequestID signing sessionID previousCredential
          revision ∨
        b.operation ≠ "upload_reauthorize" ∨ b.planID ≠ sessionID ∨
        b.destinationNodeID ≠ receivingNode ∨ b.destinationMountID ≠ mountID ∨
        b.destinationRoot ≠ destination ∨ b.destinationGrantID ≠ "" ∨ b.sourceNodeID ≠ "" ∨
        b.sourceGrantID ≠ "" ∨ b.sourceMountID ≠ "" ∨ b.sourceRoot ≠ "" then none
    else some claims

/-- A request to reauthorize a session; `seen` is the session as the handler has read it. -/
structure Attempt (κ : Type) where
  token : String
  keys : κ
  node : String
  seen : UploadSession
  permitted : Bool
  now : Time

/-- The handler behind its signature check: verification, the filter's check, the store. -/
def Attempt.apply (a : Attempt κ) (s : Sessions) : Except UploadError Sessions :=
  match verifyUploadReauthorization signing a.token a.keys a.seen.authorizationActorID
      a.seen.authorizationCredentialID a.node a.seen.mountID a.seen.destination a.seen.id
      a.seen.authorizationRevision a.now with
  | none => .error .invalidSignature
  | some claims =>
    if a.permitted = false then .error .forbidden
    else reauthorizeUploadSession signing s a.seen.id claims.binding.actorID
      claims.binding.credentialID claims.binding.requestID

inductive Call (κ : Type) where
  | create (v : UploadSession)
  | reauthorize (a : Attempt κ)
  | touch (id : String) (now expires : Time)
  | update (v : UploadSession)
  | delete (id : String)

def Call.apply (s : Sessions) : Call κ → Except UploadError Sessions
  | .create v => createUploadSession s v
  | .reauthorize a => a.apply signing s
  | .touch id now expires => touchUploadSession s id now expires
  | .update v => updateUploadSession s v
  | .delete id => .ok (s.remove id)

def next (s : Sessions) (call : Call κ) : Option (Sessions × Option UploadError) :=
  match call.apply signing s with
  | .ok t => some (t, none)
  | .error e => some (s, some e)

end Store

section Runs

variable {κ : Type} {signing : Signing κ} {s t u : Sessions} {id : String} {v w : UploadSession}
  {call : Call κ} {a b : Attempt κ}

def UploadSession.reauthorized (v : UploadSession) (b : Binding) : UploadSession :=
  { v with
    authorizationActorID := b.actorID
    authorizationCredentialID := b.credentialID
    authorizationRevision := v.authorizationRevision + 1 }

/-- What an accepted attempt has shown, and what becomes of its session `v`. -/
structure Attempt.Accepted (signing : Signing κ) (a : Attempt κ) (s t : Sessions)
    (v : UploadSession) (b : Binding) : Prop where
  claims : ∃ claims, signing.decode a.token = some claims ∧ claims.binding = b
  session : b.planID = a.seen.id
  found : s.find a.seen.id = some v
  request : b.requestID = uploadReauthorizationRequestID signing a.seen.id
    v.authorizationCredentialID v.authorizationRevision
  named : b.actorID ≠ ""
  actor : v.authorizationActorID ≠ "" → b.actorID = v.authorizationActorID
  bounded : v.authorizationRevision ≠ ~~~0
  after : t = s.put a.seen.id (v.reauthorized b)

theorem Attempt.accepted (accepted : a.apply signing s = .ok t) :
    ∃ v b, a.Accepted signing s t v b := by
  unfold Attempt.apply at accepted
  split at accepted
  · cases accepted
  rename_i claims verified
  split_ifs at accepted
  unfold reauthorizeUploadSession at accepted
  split_ifs at accepted with invalid
  split at accepted
  · cases accepted
  rename_i v found
  split_ifs at accepted with refused
  cases accepted
  unfold verifyUploadReauthorization at verified
  split at verified
  · cases verified
  rename_i other signed
  dsimp only at verified
  split_ifs at verified with unbound
  cases verified
  simp only [not_or, not_and, not_not] at refused unbound
  refine ⟨v, claims.binding, ⟨claims, (verifySigned_some signed).decoded, rfl⟩,
    unbound.2.2.2.2.2.2.1, found, refused.2.2.2.symm,
    validKeyID_ne_empty invalid.1, fun bound => (refused.2.1 bound).symm,
    refused.2.2.1, rfl⟩

theorem Attempt.Accepted.raised {c : Binding} (done : a.Accepted signing s t v c) :
    (v.reauthorized c).authorizationRevision.toNat = v.authorizationRevision.toNat + 1 := by
  have bounded : v.authorizationRevision.toNat ≠ 2 ^ 64 - 1 := fun last =>
    done.bounded (UInt64.toNat_inj.mp last)
  have range := v.authorizationRevision.toNat_lt
  simp only [UploadSession.reauthorized, UInt64.toNat_add, UInt64.toNat_one]
  omega

def Call.Spares (id : String) : Call κ → Prop
  | .create v => v.id ≠ id
  | _ => True

def Keeps (v w : UploadSession) : Prop :=
  v.authorizationRevision.toNat ≤ w.authorizationRevision.toNat ∧
    (v.authorizationActorID ≠ "" → w.authorizationActorID = v.authorizationActorID)

theorem find_put (s : Sessions) (id key : String) (v : UploadSession) :
    (s.put id v).find key = if key = id then some v else s.find key := by
  simp [Sessions.put, Function.update_apply]

theorem Keeps.refl (v : UploadSession) : Keeps v v := ⟨le_refl _, fun _ => rfl⟩

theorem Keeps.trans {x : UploadSession} (first : Keeps v w) (second : Keeps w x) : Keeps v x := by
  refine ⟨first.1.trans second.1, fun bound => ?_⟩
  have same := first.2 bound
  rw [second.2 (by rwa [same]), same]

theorem kept_put {key : String} (found : s.find key = some v) (kept : Keeps v w) :
    ∀ y, (s.put key w).find id = some y → ∃ x, s.find id = some x ∧ Keeps x y := by
  intro y after
  rw [find_put] at after
  split_ifs at after with here
  · cases after
    exact ⟨v, here ▸ found, kept⟩
  · exact ⟨y, after, .refl y⟩

theorem Call.keeps (accepted : call.apply signing s = .ok t) (spares : call.Spares id) :
    ∀ y, t.find id = some y → ∃ x, s.find id = some x ∧ Keeps x y := by
  cases call with
  | create new =>
    simp only [Call.apply, createUploadSession] at accepted
    split_ifs at accepted
    cases accepted
    intro y after
    rw [find_put, if_neg (Ne.symm spares)] at after
    exact ⟨y, after, .refl y⟩
  | reauthorize a =>
    obtain ⟨old, b, done⟩ := Attempt.accepted accepted
    rw [done.after]
    exact kept_put done.found ⟨(Nat.le_succ _).trans done.raised.ge, done.actor⟩
  | touch key now expires =>
    simp only [Call.apply, touchUploadSession] at accepted
    split at accepted
    · cases accepted
    rename_i old there
    cases accepted
    exact kept_put there ⟨le_refl _, fun _ => rfl⟩
  | update new =>
    simp only [Call.apply, updateUploadSession] at accepted
    split at accepted
    · cases accepted
    rename_i old there
    split_ifs at accepted with changed
    cases accepted
    simp only [not_or, not_not] at changed
    obtain ⟨_, _, _, _, actor, _, revision⟩ := changed
    exact kept_put there ⟨(congrArg UInt64.toNat revision).le, fun _ => actor.symm⟩
  | delete key =>
    cases accepted
    intro y after
    simp only [Sessions.remove, Function.update_apply] at after
    split_ifs at after
    exact ⟨y, after, .refl y⟩

theorem next_some {e : Option UploadError} (moved : next signing s call = some (t, e)) :
    call.apply signing s = .ok t ∧ e = none ∨ t = s ∧ e ≠ none := by
  unfold next at moved
  split at moved
  · rename_i applied
    cases moved
    exact .inl ⟨applied, rfl⟩
  · cases moved
    exact .inr ⟨rfl, nofun⟩

theorem run_keeps (run : Run (next signing) (fun _ call _ => Call.Spares id call) s t) :
    ∀ y, t.find id = some y → ∃ x, s.find id = some x ∧ Keeps x y := by
  refine run.keeps (P := fun t => ∀ y, t.find id = some y → ∃ x, s.find id = some x ∧ Keeps x y)
    ?_ fun y found => ⟨y, found, .refl y⟩
  intro t call u e moved spares before z after
  rcases next_some moved with ⟨applied, _⟩ | ⟨rfl, _⟩
  · obtain ⟨y, there, second⟩ := call.keeps applied spares z after
    obtain ⟨x, found, first⟩ := before y there
    exact ⟨x, found, first.trans second⟩
  · exact before z after

theorem reauthorizationText_revision {credential credential' : String} {r r' : UInt64}
    (same : reauthorizationText id credential r = reauthorizationText id credential' r') :
    r = r' := by
  have free (n : Nat) : '\x00' ∉ (toString n).toList.reverse := fun inside =>
    absurd (isDigit_repr (List.mem_reverse.mp inside)) (by decide)
  have reversed := congrArg (fun text => text.toList.reverse) same
  simp only [reauthorizationText, String.toList_append, List.reverse_append] at reversed
  have digits := (append_cons_inj (free r.toNat) (free r'.toNat) reversed).1
  exact UInt64.toNat_inj.mp (nat_repr_inj (List.reverse_injective digits))

def Separates (signing : Signing κ) : Prop :=
  ∀ id credential r id' credential' r',
    signing.sha256 (reauthorizationText id credential r) =
        signing.sha256 (reauthorizationText id' credential' r') →
      reauthorizationText id credential r = reauthorizationText id' credential' r'

theorem Attempt.Accepted.unique (separates : Separates signing) {s' t' : Sessions}
    {v' : UploadSession} {c c' : Binding} (first : a.Accepted signing s t v c)
    (second : b.Accepted signing s' t' v' c') (same : b.token = a.token) :
    b.seen.id = a.seen.id ∧ v'.authorizationRevision = v.authorizationRevision := by
  obtain ⟨claims, decoded, rfl⟩ := first.claims
  obtain ⟨claims', decoded', rfl⟩ := second.claims
  rw [same, decoded] at decoded'
  cases decoded'
  have session := second.session.symm.trans first.session
  have request := second.request.symm.trans first.request
  rw [session] at request
  exact ⟨session, reauthorizationText_revision
    (separates _ _ _ _ _ _ ((String.append_right_inj _).mp request))⟩

/-- A refused attempt changes nothing; the actor a session is bound to stays; an accepted attempt
raises the session's revision by one and changes no other session, and its envelope is never
accepted again, in whatever run no other session takes its name. -/
theorem reauthorization_works_once (separates : Separates signing) (id : String) :
    (∀ s (b : Attempt κ) t e, next signing s (.reauthorize b) = some (t, some e) → t = s) ∧
    (∀ s t, Run (next signing) (fun _ call _ => Call.Spares id call) s t → ∀ x y,
      s.find id = some x → t.find id = some y → x.authorizationActorID ≠ "" →
        y.authorizationActorID = x.authorizationActorID) ∧
    (∀ s (a : Attempt κ) t, a.seen.id = id → next signing s (.reauthorize a) = some (t, none) →
      (∃ v w, s.find id = some v ∧ t.find id = some w ∧
        w.authorizationRevision.toNat = v.authorizationRevision.toNat + 1 ∧
        w.authorizationActorID ≠ "") ∧
      (∀ other, other ≠ id → t.find other = s.find other) ∧
      ∀ u, Run (next signing) (fun _ call _ => Call.Spares id call) t u →
        ∀ b : Attempt κ, b.token = a.token →
          ∃ e, next signing u (.reauthorize b) = some (u, some e)) := by
  refine ⟨fun s b t e refused => ?_, fun s t run x y found after bound => ?_, ?_⟩
  · rcases next_some refused with ⟨_, none⟩ | ⟨same, _⟩
    · cases none
    · exact same
  · obtain ⟨old, there, kept⟩ := run_keeps run y after
    cases found.symm.trans there
    exact kept.2 bound
  · rintro s a t rfl accepted
    obtain ⟨applied, _⟩ | ⟨_, refused⟩ := next_some accepted
    swap
    · exact absurd rfl refused
    obtain ⟨v, c, done⟩ := Attempt.accepted applied
    have after : t.find a.seen.id = some (v.reauthorized c) := by
      rw [done.after, find_put, if_pos rfl]
    refine ⟨⟨v, _, done.found, after, done.raised, done.named⟩, fun other apart => ?_, ?_⟩
    · rw [done.after, find_put, if_neg apart]
    intro u run b same
    cases again : next signing u (.reauthorize b) with
    | none =>
      unfold next at again
      split at again <;> cases again
    | some result =>
      obtain ⟨u', e⟩ := result
      rcases next_some again with ⟨applied', _⟩ | ⟨rfl, refused⟩
      · -- the session has a higher revision than the envelope names
        obtain ⟨v', c', done'⟩ := Attempt.accepted applied'
        obtain ⟨session, revision⟩ := done.unique separates done' same
        obtain ⟨old, there, kept⟩ := run_keeps run v' (session ▸ done'.found)
        cases after.symm.trans there
        have grown := kept.1
        rw [done.raised, revision] at grown
        omega
      · obtain ⟨e, rfl⟩ := Option.ne_none_iff_exists'.mp refused
        exact ⟨e, rfl⟩

/-- A hash that only makes its text an identifier, and one envelope for the first reauthorization of the session "u". -/
def sampleSigning : Signing Unit where
  sha256 := fun text => String.ofList (text.toList.map (Equiv.swap '\x00' '!'))
  jobOptionsDigest := fun _ => ""
  decode := fun token => if token ≠ "t" then none else some
    { version := 1, keyID := "k", issuedAt := 100, expiresAt := 120, context := "c"
      binding := { actorID := "a", credentialID := "c", operation := "upload_reauthorize",
                   requestID := "previous-u!!0", destinationNodeID := "n",
                   destinationMountID := "m", destinationRoot := "f", planID := "u" } }
  signed := fun _ _ _ => true
  decodeContext := fun _ => true

def sampleSession : UploadSession := { id := "u", mountID := "m", destination := "f" }

def sampleSessions : Sessions := (⟨[], fun _ => none⟩ : Sessions).put "u" sampleSession

def sampleAttempt : Attempt Unit := ⟨"t", (), "n", sampleSession, true, Time.ofUnix 110⟩

abbrev sampleReauthorized : Sessions :=
  (sampleAttempt.apply sampleSigning sampleSessions).toOption.getD sampleSessions

/-- The envelope is accepted, and refused when it comes a second time. -/
theorem sample_envelope_works_once :
    ∃ e, next sampleSigning sampleReauthorized (.reauthorize sampleAttempt) =
      some (sampleReauthorized, some e) := by
  have separates : Separates sampleSigning := by
    intro _ _ _ _ _ _ same
    have mapped := List.map_injective_iff.mpr (Equiv.injective _) (String.ofList_injective same)
    exact String.toList_injective mapped
  have accepted : next sampleSigning sampleSessions (.reauthorize sampleAttempt) =
      some (sampleReauthorized, none) := by
    unfold next sampleReauthorized
    cases applied : sampleAttempt.apply sampleSigning sampleSessions with
    | error e =>
      have fine : (sampleAttempt.apply sampleSigning sampleSessions).isOk = true := by decide +kernel
      rw [applied] at fine
      cases fine
    | ok t => simp [Call.apply, applied, Except.toOption]
  exact ((reauthorization_works_once separates "u").2.2 sampleSessions sampleAttempt
    sampleReauthorized rfl accepted).2.2 _ .refl sampleAttempt rfl

end Runs

end Jolt.Uploads
