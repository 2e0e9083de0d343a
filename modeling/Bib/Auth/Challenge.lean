import Bib.Auth.Service
import Bib.Grpc.AuditMiddleware

/-!
# Bib.Auth.Challenge

**Challenge-response authentication** (`internal/auth/challenge.go`, and `Challenge` and `VerifyChallenge` of
`grpc/services/auth/server.go`). `Get` takes a challenge out of the shared store under the lock. An event is a
`Challenge` call, a `VerifyChallenge` up to `Get`, one storage call of one under way, or a cleanup.

The invariant `SystemInv` counts: the challenge of an id in the store and the calls that took one of that id are
never more than the challenges issued under it.
-/

namespace Bib.Auth

open Bib.Domain Bib.Lib Bib.Grpc List KeyMap

/-! ### The store -/

structure Challenge where
  id : String
  publicKey : Bytes
  keyType : KeyType
  nonce : Bytes
  (createdAt expiresAt : Time)
  signatureAlgorithm : String

def Challenge.isExpired (now : Time) (c : Challenge) : Bool := now > c.expiresAt

structure ChallengeStore where
  challenges : KeyMap String Challenge
  ttl : Int

def newChallengeStore (ttl : Int) : ChallengeStore :=
  { challenges := .empty, ttl := if ttl ≤ 0 then 30000000000 else ttl }

/-- The two reads from `crypto/rand` of `Create`: 16 bytes for the id, 32 for the nonce. -/
structure Draw where
  (id nonce : Except String Bytes)

def ChallengeStore.create (publicKey : Bytes) (keyType : KeyType) (draw : Draw) (now : Time)
    (cs : ChallengeStore) : Except String Challenge × ChallengeStore :=
  match draw.id with
  | .error err => (.error ("failed to generate challenge ID: " ++ err), cs)
  | .ok idBytes =>
    match draw.nonce with
    | .error err => (.error ("failed to generate challenge nonce: " ++ err), cs)
    | .ok nonce =>
      let challenge : Challenge :=
        { id := hexEncode idBytes, publicKey, keyType, nonce, createdAt := now
          expiresAt := now + cs.ttl
          signatureAlgorithm := if keyType = .rsa then "rsa-sha2-256" else "ssh-ed25519" }
      (.ok challenge, { cs with challenges := cs.challenges.set challenge.id challenge })

def ChallengeStore.get (now : Time) (id : String) (cs : ChallengeStore) : Option Challenge × ChallengeStore :=
  match cs.challenges.get? id with
  | none => (none, cs)
  | some challenge =>
    (if challenge.isExpired now then none else some challenge,
      { cs with challenges := cs.challenges.delete id })

def ChallengeStore.cleanup (now : Time) (cs : ChallengeStore) : ChallengeStore :=
  { cs with challenges := cs.challenges.filter fun entry => !entry.2.isExpired now }

/-! ### The handlers -/

structure ClientInfo where
  (ipAddress userAgent version : String)
  metadata : List (String × String)

structure VerifyChallengeRequest where
  challengeID : String
  signature : Bytes
  (name email : String)
  clientInfo : Option ClientInfo

structure VerifyChallengeResponse where
  sessionToken : String
  expiresAt : Time
  user : User
  isNewUser : Bool
  session : Session

def authenticateRequest (challenge : Challenge) (req : VerifyChallengeRequest) : AuthenticateRequest :=
  { publicKey := challenge.publicKey
    keyType := challenge.keyType
    name := req.name
    email := req.email
    locale := ""
    sessionType := .grpc
    clientIP := (req.clientInfo.map ClientInfo.ipAddress).getD ""
    clientAgent := (req.clientInfo.map ClientInfo.userAgent).getD ""
    metadata :=
      match req.clientInfo with
      | none => Table.empty
      | some info =>
        let base : KeyMap String String :=
          if info.version ≠ "" then set Table.empty "client_version" info.version
          else Table.empty
        info.metadata.foldl (fun m pair => m.set pair.1 pair.2) base }

def authErrorToGRPC : AuthError → Status
  | .userNotFound => { code := .notFound, message := "user not found" }
  | .userPending => { code := .permissionDenied, message := "user account is pending approval" }
  | .userSuspended => { code := .permissionDenied, message := "user account is suspended" }
  | .autoRegDisabled => { code := .permissionDenied, message := "auto-registration is disabled" }
  | .unauthorized => { code := .unauthenticated, message := "unauthorized" }
  | .other text => { code := .internal, message := "authentication failed: " ++ text }

/-- The auth server: the keys, the service if it is configured, and the session timeout. -/
structure AuthServer (K : Type) where
  tools : KeyTools K
  authService : Option Service
  sessionTimeout : Int

/-- Where a call of `VerifyChallenge` stands that has taken its challenge. -/
inductive VerifyPc
  | taken
  | authenticating (pc : AuthPc)
  | done (result : Except Status VerifyChallengeResponse)

structure VerifyCall where
  req : VerifyChallengeRequest
  service : Service
  challenge : Challenge
  /-- The time at which `Get` looked at the clock. -/
  takenAt : Time
  pc : VerifyPc

/-- A challenge that `Challenge` returned, with the key in the request. -/
structure Issued where
  requested : Bytes
  challenge : Challenge

/-- The server at work: the store, the tables, all `VerifyChallenge` calls that took a challenge, and
the challenges issued so far. -/
structure System where
  store : ChallengeStore
  db : AuthDb
  calls : List VerifyCall
  issued : List Issued

variable {K : Type}

def AuthServer.challenge (server : AuthServer K) (publicKey : Bytes) (draw : Draw) (now : Time)
    (sys : System) : Except Status Challenge × System :=
  if publicKey.length = 0 then
    (.error { code := .invalidArgument, message := "public_key is required" }, sys)
  else
    match getPublicKeyInfo server.tools publicKey with
    | .error err => (.error { code := .invalidArgument, message := "invalid public key: " ++ err }, sys)
    | .ok info =>
      match sys.store.create info.keyBytes info.keyType draw now with
      | (.error err, store) =>
        (.error { code := .internal, message := "failed to create challenge: " ++ err },
          { sys with store })
      | (.ok challenge, store) =>
        (.ok challenge, { sys with store, issued := sys.issued ++ [{ requested := publicKey, challenge }] })

/-- `VerifyChallenge` up to and including `Get`. -/
def AuthServer.take (server : AuthServer K) (req : VerifyChallengeRequest) (now : Time)
    (sys : System) : Except Status Unit × System :=
  match server.authService with
  | none => (.error { code := .unavailable, message := "auth service not initialized" }, sys)
  | some service =>
    if req.challengeID = "" then
      (.error { code := .invalidArgument, message := "challenge_id is required" }, sys)
    else if req.signature.length = 0 then
      (.error { code := .invalidArgument, message := "signature is required" }, sys)
    else
      match sys.store.get now req.challengeID with
      | (none, store) =>
        (.error { code := .notFound, message := "challenge not found or expired" }, { sys with store })
      | (some challenge, store) =>
        (.ok (),
          { sys with
            store
            calls := sys.calls ++ [{ req, service, challenge, takenAt := now, pc := .taken }] })

/-- The answer of `VerifyChallenge` to the result of `Authenticate`. -/
def AuthServer.respond (server : AuthServer K) (now : Time) :
    Except AuthError AuthenticateResult → Except Status VerifyChallengeResponse
  | .error err => .error (authErrorToGRPC err)
  | .ok result =>
    .ok
      { sessionToken := result.session.id
        expiresAt := now +
          if server.sessionTimeout = 0 then 24 * 3600 * 1000000000 else server.sessionTimeout
        user := result.user
        isNewUser := result.isNew
        session := result.session }

/-- One step of a call that has taken its challenge. -/
def AuthServer.advance (server : AuthServer K) (input : StepInput) (call : VerifyCall)
    (db : AuthDb) : VerifyCall × AuthDb :=
  match call.pc with
  | .taken =>
    let c := call.challenge
    match verifySSHSignature server.tools c.publicKey c.keyType c.nonce call.req.signature with
    | .error err =>
      ({ call with
          pc := .done (.error
            { code := .unauthenticated, message := "signature verification failed: " ++ err }) }, db)
    | .ok () => ({ call with pc := .authenticating .lookup }, db)
  | .authenticating (.done result) => ({ call with pc := .done (server.respond input.now result) }, db)
  | .authenticating pc =>
    let (pc', db') := call.service.step (authenticateRequest call.challenge call.req) input pc db
    ({ call with pc := .authenticating pc' }, db')
  | .done result => ({ call with pc := .done result }, db)

/-! ### Runs -/

inductive Event
  | challenge (publicKey : Bytes) (draw : Draw) (now : Time)
  | verify (req : VerifyChallengeRequest) (now : Time)
  | advance (index : Nat) (input : StepInput)
  | cleanup (now : Time)

def AuthServer.step (server : AuthServer K) (sys : System) : Event → System
  | .challenge publicKey draw now => (server.challenge publicKey draw now sys).2
  | .verify req now => (server.take req now sys).2
  | .advance index input =>
    match sys.calls[index]? with
    | none => sys
    | some call =>
      let (call', db) := server.advance input call sys.db
      { sys with calls := sys.calls.set index call', db }
  | .cleanup now => { sys with store := sys.store.cleanup now }

/-- The server after start-up, with the store of `NewServerWithConfig`. -/
def System.start (db : AuthDb) : System :=
  { store := newChallengeStore 30000000000, db, calls := [], issued := [] }

def VerifyCall.response (call : VerifyCall) : Option VerifyChallengeResponse :=
  match call.pc with
  | .done (.ok response) => some response
  | _ => none

def System.sessionsFor (sys : System) (id : String) : List VerifyCall :=
  sys.calls.filter fun call => call.req.challengeID = id && call.response.isSome

def System.issuedIDs (sys : System) : List String := sys.issued.map fun i => i.challenge.id

structure Sound (tools : KeyTools K) (sys : System) : Prop where
  /-- Every session was returned for a challenge issued for the canonical form of a key, to the user
  of that key, taken in time and signed. -/
  justified : ∀ call ∈ sys.calls, ∀ response ∈ call.response, ∃ i ∈ sys.issued,
    i.challenge.id = call.req.challengeID ∧
    getPublicKeyInfo tools i.requested =
      .ok { keyType := i.challenge.keyType, keyBytes := i.challenge.publicKey } ∧
    response.user.publicKey = i.challenge.publicKey ∧
    call.takenAt ≤ i.challenge.expiresAt ∧
    Accepts tools i.challenge.publicKey i.challenge.keyType i.challenge.nonce call.req.signature
  /-- An id yields at most as many sessions as challenges were issued under it. -/
  perChallenge : ∀ id, (sys.sessionsFor id).length ≤ sys.issuedIDs.count id
  /-- So if the random source gives no id twice, an id yields at most one session. -/
  atMostOne : sys.issuedIDs.Nodup → ∀ id, (sys.sessionsFor id).length ≤ 1

/-! ### The invariant -/

def VerifyPc.verified : VerifyPc → Bool
  | .authenticating _ | .done (.ok _) => true
  | .taken | .done (.error _) => false

def VerifyPc.user : VerifyPc → Option User
  | .authenticating pc => pc.user
  | .done (.ok response) => some response.user
  | .taken | .done (.error _) => none

structure CallInv (tools : KeyTools K) (issued : List Issued) (call : VerifyCall) : Prop where
  issued : ∃ i ∈ issued, i.challenge = call.challenge
  id : call.req.challengeID = call.challenge.id
  inTime : call.takenAt ≤ call.challenge.expiresAt
  accepted : call.pc.verified = true → Accepts tools call.challenge.publicKey call.challenge.keyType
    call.challenge.nonce call.req.signature
  user : ∀ user ∈ call.pc.user, user.publicKey = call.challenge.publicKey

variable {tools : KeyTools K}

/-- Before the signature check, and after it has failed, there is nothing to show about signature
and user. -/
theorem CallInv.of_unverified {issued : List Issued} {call : VerifyCall}
    (hi : ∃ i ∈ issued, i.challenge = call.challenge)
    (hid : call.req.challengeID = call.challenge.id)
    (ht : call.takenAt ≤ call.challenge.expiresAt) (hv : call.pc.verified = false)
    (huser : call.pc.user = none) : CallInv tools issued call := by
  refine ⟨hi, hid, ht, fun h => ?_, fun user h => ?_⟩
  · rw [hv] at h
    cases h
  · rw [huser] at h
    cases h

def System.takenIDs (sys : System) : List String := sys.calls.map fun call => call.challenge.id

open Bib.Auth.System (issuedIDs takenIDs)

structure SystemInv (tools : KeyTools K) (sys : System) : Prop where
  canonical : ∀ i ∈ sys.issued, getPublicKeyInfo tools i.requested =
    .ok { keyType := i.challenge.keyType, keyBytes := i.challenge.publicKey }
  stored : ∀ entry ∈ sys.store.challenges.rows,
    entry.2.id = entry.1 ∧ ∃ i ∈ sys.issued, i.challenge = entry.2
  calls : ∀ call ∈ sys.calls, CallInv tools sys.issued call
  counted : ∀ id, sys.takenIDs.count id +
    (if (sys.store.challenges.get? id).isSome then 1 else 0) ≤ sys.issuedIDs.count id

section Steps

variable {server : AuthServer K} {sys : System}

/-- `Challenge` changes nothing, or issues a challenge for the canonical form of the key. -/
theorem challenge_cases (server : AuthServer K) (sys : System) (publicKey : Bytes) (draw : Draw)
    (now : Time) : (server.challenge publicKey draw now sys).2 = sys ∨ ∃ challenge : Challenge,
        getPublicKeyInfo server.tools publicKey =
          .ok { keyType := challenge.keyType, keyBytes := challenge.publicKey } ∧
        (server.challenge publicKey draw now sys).2 =
          { sys with
            store := { sys.store with
              challenges := sys.store.challenges.set challenge.id challenge }
            issued := sys.issued ++ [{ requested := publicKey, challenge }] } := by
  unfold AuthServer.challenge ChallengeStore.create
  split
  next => exact .inl rfl
  next =>
    split
    next => exact .inl rfl
    next info hinfo =>
      cases draw.id with
      | error err => exact .inl rfl
      | ok idBytes =>
        cases draw.nonce with
        | error err => exact .inl rfl
        | ok nonce => exact .inr ⟨_, hinfo, rfl⟩

/-- The first part of `VerifyChallenge` changes nothing, or takes the challenge out of the store; a
challenge that is not expired is handed to the call. -/
theorem take_cases (server : AuthServer K) (sys : System) (req : VerifyChallengeRequest)
    (now : Time) : (server.take req now sys).2 = sys ∨
      ∃ challenge, sys.store.challenges.get? req.challengeID = some challenge ∧
        ((server.take req now sys).2 =
            { sys with store := { sys.store with
                challenges := sys.store.challenges.delete req.challengeID } } ∨
          ∃ service, now ≤ challenge.expiresAt ∧
            (server.take req now sys).2 =
              { sys with
                store := { sys.store with
                  challenges := sys.store.challenges.delete req.challengeID }
                calls := sys.calls ++ [{ req, service, challenge, takenAt := now, pc := .taken }] }) := by
  unfold AuthServer.take ChallengeStore.get
  cases server.authService with
  | none => exact .inl rfl
  | some service =>
    by_cases hid : req.challengeID = ""
    · exact .inl (by simp [hid])
    · by_cases hs : req.signature.length = 0
      · exact .inl (by simp [hid, hs])
      · simp only [if_neg hid, if_neg hs]
        cases hg : sys.store.challenges.get? req.challengeID with
        | none => exact .inl rfl
        | some challenge =>
          refine .inr ⟨challenge, rfl, ?_⟩
          cases he : challenge.isExpired now with
          | true => exact .inl (by simp [he])
          | false =>
            refine .inr ⟨service, ?_, by simp [he]⟩
            simpa [Challenge.isExpired] using he

variable {issued : List Issued} {call : VerifyCall}

theorem callInv_advance (input : StepInput) (db : AuthDb) (h : CallInv server.tools issued call) :
    CallInv server.tools issued (server.advance input call db).1 ∧
      (server.advance input call db).1.challenge = call.challenge := by
  unfold AuthServer.advance
  split
  next hpc =>
    dsimp only
    split
    next => exact ⟨.of_unverified h.issued h.id h.inTime rfl rfl, rfl⟩
    next hverify =>
      refine ⟨⟨h.issued, h.id, h.inTime, fun _ => accepts_of_verifySSHSignature hverify, ?_⟩, rfl⟩
      intro user huser
      cases huser
  next result hpc =>
    have ha := h.accepted (by rw [hpc]; rfl)
    have huser := h.user
    rw [hpc] at huser
    cases result with
    | error err => exact ⟨.of_unverified h.issued h.id h.inTime rfl rfl, rfl⟩
    | ok result => exact ⟨⟨h.issued, h.id, h.inTime, fun _ => ha, huser⟩, rfl⟩
  next pc _ hpc =>
    have ha := h.accepted (by rw [hpc]; rfl)
    have huser := h.user
    rw [hpc] at huser
    exact ⟨⟨h.issued, h.id, h.inTime, fun _ => ha, publicKey_of_step huser⟩, rfl⟩
  next result hpc =>
    have ha := h.accepted
    have huser := h.user
    rw [hpc] at ha huser
    exact ⟨⟨h.issued, h.id, h.inTime, ha, huser⟩, rfl⟩

theorem CallInv.mono {tools : KeyTools K} (i : Issued)
    (h : CallInv tools issued call) : CallInv tools (issued ++ [i]) call := by
  obtain ⟨j, hj, hc⟩ := h.issued
  exact ⟨⟨j, mem_append_left _ hj, hc⟩, h.id, h.inTime, h.accepted, h.user⟩

theorem systemInv_start (tools : KeyTools K) (db : AuthDb) : SystemInv tools (System.start db) where
  canonical i hi := absurd hi not_mem_nil
  stored entry he := absurd he not_mem_nil
  calls call hcall := absurd hcall not_mem_nil
  counted id := by simp [System.start, newChallengeStore, takenIDs]

theorem systemInv_challenge (publicKey : Bytes) (draw : Draw) (now : Time) (h : SystemInv server.tools sys) :
    SystemInv server.tools (server.challenge publicKey draw now sys).2 := by
  obtain hs | ⟨challenge, hinfo, hn⟩ := challenge_cases server sys publicKey draw now
  · rw [hs]
    exact h
  · rw [hn]
    refine ⟨?_, ?_, fun call hcall => (h.calls call hcall).mono _, fun id => ?_⟩
    · intro i hi
      rcases mem_append.mp hi with hi | hi
      · exact h.canonical i hi
      · rw [mem_singleton.mp hi]
        exact hinfo
    · intro entry he
      rcases Table.mem_put.mp he with rfl | ⟨he, -⟩
      · exact ⟨rfl, _, mem_append_right _ (mem_singleton_self _), rfl⟩
      · obtain ⟨hid, i, hi, hc⟩ := h.stored entry he
        exact ⟨hid, i, mem_append_left _ hi, hc⟩
    · have hco := h.counted id
      simp only [issuedIDs, takenIDs, map_append, map_cons, map_nil,
        count_append, count_singleton, get?_set] at hco ⊢
      by_cases hid : id = challenge.id
      · simp only [hid, if_true, Option.isSome_some, beq_self_eq_true] at hco ⊢
        omega
      · simp only [if_neg hid, beq_iff_eq, if_neg (Ne.symm hid)] at hco ⊢
        omega

/-- Taking a challenge out of the store gives the count of its id to at most one call. -/
theorem systemInv_take (req : VerifyChallengeRequest) (now : Time) (h : SystemInv server.tools sys) :
    SystemInv server.tools (server.take req now sys).2 := by
  obtain hs | ⟨challenge, hg, hn⟩ := take_cases server sys req now
  · rw [hs]
    exact h
  · obtain ⟨hid, hi⟩ := h.stored (req.challengeID, challenge) (get?_eq_some_iff.mp hg)
    have hstored : ∀ entry ∈ (sys.store.challenges.delete req.challengeID).rows,
        entry.2.id = entry.1 ∧ ∃ i ∈ sys.issued, i.challenge = entry.2 :=
      fun entry he => h.stored entry (mem_of_mem_filter he)
    obtain hex | ⟨service, ht, hn⟩ := hn
    · rw [hex]
      refine ⟨h.canonical, hstored, h.calls, fun id => ?_⟩
      have hc := h.counted id
      simp only [issuedIDs, takenIDs, get?_delete] at hc ⊢
      split
      next => simp only [Option.isSome_none, Bool.false_eq_true, if_false]; omega
      next => exact hc
    · rw [hn]
      refine ⟨h.canonical, hstored, ?_, fun id => ?_⟩
      · intro call hcall
        rcases mem_append.mp hcall with hcall | hcall
        · exact h.calls call hcall
        · rw [mem_singleton.mp hcall]
          exact .of_unverified hi hid.symm ht rfl rfl
      · have hc := h.counted id
        simp only [issuedIDs, takenIDs, map_append, map_cons, map_nil,
          count_append, count_singleton, get?_delete, beq_iff_eq] at hc ⊢
        rw [hid]
        by_cases hr : id = req.challengeID
        · simp only [hr, hg, Option.isSome_some, if_true, Option.isSome_none] at hc ⊢
          simpa using hc
        · simp only [if_neg hr, if_neg (Ne.symm hr)] at hc ⊢
          simpa using hc

theorem systemInv_advance (index : Nat) (input : StepInput) (h : SystemInv server.tools sys) :
    SystemInv server.tools (server.step sys (.advance index input)) := by
  unfold AuthServer.step
  dsimp only
  split
  next => exact h
  next call hcall =>
    obtain ⟨hindex, rfl⟩ := List.getElem?_eq_some_iff.mp hcall
    obtain ⟨hi, hc⟩ := callInv_advance input sys.db (h.calls _ (getElem_mem hindex))
    refine ⟨h.canonical, h.stored, ?_, fun id => ?_⟩
    · intro call hmem
      rcases mem_or_eq_of_mem_set hmem with hmem | rfl
      · exact h.calls call hmem
      · exact hi
    · have hids : (sys.calls.set index (server.advance input sys.calls[index] sys.db).1).map
          (fun call => call.challenge.id) = sys.takenIDs := by
        have hlen : index < sys.takenIDs.length := by simpa [takenIDs] using hindex
        have hs : sys.takenIDs.set index sys.takenIDs[index] = sys.takenIDs := set_getElem_self hlen
        rw [map_set, hc]
        simpa [takenIDs] using hs
      have hco := h.counted id
      rw [← hids] at hco
      exact hco

theorem systemInv_cleanup (now : Time) (h : SystemInv server.tools sys) :
    SystemInv server.tools (server.step sys (.cleanup now)) := by
  have hs : ∀ entry ∈ (sys.store.cleanup now).challenges.rows, entry ∈ sys.store.challenges.rows :=
    fun entry he => mem_of_mem_filter he
  refine ⟨h.canonical, fun entry he => h.stored entry (hs entry he), h.calls, fun id => ?_⟩
  have hc := h.counted id
  cases hg : get? (sys.store.cleanup now).challenges id with
  | none =>
    simp only [AuthServer.step, hg, takenIDs, issuedIDs, Option.isSome_none,
      Bool.false_eq_true, if_false] at hc ⊢
    omega
  | some challenge =>
    have hb : sys.store.challenges.get? id = some challenge :=
      get?_eq_some_iff.mpr (hs _ (get?_eq_some_iff.mp hg))
    simp only [AuthServer.step, hg, hb, takenIDs, issuedIDs] at hc ⊢
    exact hc

theorem systemInv_step (event : Event) (h : SystemInv server.tools sys) :
    SystemInv server.tools (server.step sys event) := by
  cases event with
  | challenge publicKey draw now => exact systemInv_challenge publicKey draw now h
  | verify req now => exact systemInv_take req now h
  | advance index input => exact systemInv_advance index input h
  | cleanup now => exact systemInv_cleanup now h

end Steps

/-! ### Soundness -/

theorem SystemInv.sound {sys : System} (h : SystemInv tools sys) : Sound tools sys := by
  -- a call that returned a session has taken a challenge of the id it asked for
  have ht : ∀ id, (sys.sessionsFor id).length ≤ sys.takenIDs.count id := by
    intro id
    rw [System.sessionsFor, ← countP_eq_length_filter, takenIDs, count, countP_map]
    refine countP_mono_left fun call hcall hs => ?_
    simp only [Bool.and_eq_true, decide_eq_true_eq] at hs
    simp [← (h.calls call hcall).id, hs.1]
  have hp : ∀ id, (sys.sessionsFor id).length ≤ sys.issuedIDs.count id := fun id =>
    (ht id).trans ((Nat.le_add_right _ _).trans (h.counted id))
  refine ⟨?_, hp, fun hn id => (hp id).trans (nodup_iff_count_le_one.mp hn id)⟩
  intro call hcall response hr
  have hin := h.calls call hcall
  obtain ⟨i, hi, hc⟩ := hin.issued
  have hd : call.pc = .done (.ok response) := by
    unfold VerifyCall.response at hr
    split at hr
    next r hpc =>
      cases hr
      exact hpc
    next => cases hr
  refine ⟨i, hi, by rw [hc, hin.id], h.canonical i hi, ?_⟩
  rw [hc]
  exact ⟨hin.user response.user (by rw [hd]; rfl), hin.inTime, hin.accepted (by rw [hd]; rfl)⟩

/-- Every run of the auth server is sound, from any users and sessions: a session is returned only
for a challenge issued for the canonical key of its user, taken not after its expiry and with
an accepted signature, and no challenge yields two sessions. -/
theorem verifyChallenge_sound (server : AuthServer K) (db : AuthDb) (events : List Event) :
    Sound server.tools (events.foldl server.step (System.start db)) :=
  (Run.invariant (SystemInv server.tools) (fun _ => True) (fun _ event _ h => systemInv_step event h)
    (systemInv_start server.tools db) fun _ _ => trivial).sound

end Bib.Auth
