import Bib.Auth.Service
import Bib.Lib.Run

/-!
# Bib.Auth.Sessions

**The life of a session** (`GetSession`, `UpdateSessionActivity`, `EndSession` and `EndAllSessions` of
`internal/auth/service.go`). That a session has timed out is computed from its last activity whenever
`GetSession` is called. `UpdateSessionActivity` sets that time without looking at it, which is the only way back
(`dead_stays_dead_iff`).
-/

namespace Bib.Auth

open Bib.Domain Bib.Lib List Table

/-! ### The calls -/

inductive SessionError
  | sessionNotFound
  | sessionExpired
  | storage

/-- `time.Time.Sub`: a difference that a `Duration` cannot hold is cut off. -/
def since (now t : Time) : Int :=
  max (-9223372036854775808) (min 9223372036854775807 (now - t))

/-- A call of the service with its time; its reading and its writing statement may fail. -/
structure SessionInput where
  now : Time
  (readFails writeFails : Bool)

/-- `GetSession`; that the session could not be ended is ignored. -/
def getSession (timeout : Int) (input : SessionInput) (id : String) (db : AuthDb) :
    Except SessionError Session × AuthDb :=
  if input.readFails then (.error .storage, db)
  else
    match db.sessions.find? id with
    | none => (.error .sessionNotFound, db)
    | some session =>
      if session.endedAt.isSome then (.error .sessionNotFound, db)
      else if timeout > 0 ∧ since input.now session.lastActivityAt > timeout then
        (.error .sessionExpired, if input.writeFails then db else endSession input.now id db)
      else (.ok session, db)

def updateSession (session : Session) (db : AuthDb) : Except SessionError AuthDb :=
  match db.sessions.find? session.id with
  | none => .error .sessionNotFound
  | some row =>
    .ok
      { db with
        sessions := db.sessions.put
          { row with
            endedAt := session.endedAt, lastActivityAt := session.lastActivityAt
            metadata := session.metadata } }

def updateSessionActivity (input : SessionInput) (id : String) (db : AuthDb) : Except SessionError Unit × AuthDb :=
  if input.readFails then (.error .storage, db)
  else
    match db.sessions.find? id with
    | none => (.error .sessionNotFound, db)
    | some session =>
      if input.writeFails then (.error .storage, db)
      else
        match updateSession { session with lastActivityAt := input.now } db with
        | .error err => (.error err, db)
        | .ok db' => (.ok (), db')

def endSessionCall (input : SessionInput) (id : String) (db : AuthDb) : Except SessionError Unit × AuthDb :=
  if input.writeFails then (.error .storage, db)
  else if (db.sessions.find? id).all fun session => session.endedAt.isSome then
    (.error .sessionNotFound, db)
  else (.ok (), endSession input.now id db)

def endAllSessions (input : SessionInput) (userID : String) (db : AuthDb) : Except SessionError Unit × AuthDb :=
  if input.writeFails then (.error .storage, db) else (.ok (), endAllForUser input.now userID db)

inductive SessionOp
  | getSession (id : String)
  | updateSessionActivity (id : String)
  | endSession (id : String)
  | endAllSessions (userID : String)
  deriving DecidableEq

structure SessionCall where
  op : SessionOp
  input : SessionInput

def sessionStep (timeout : Int) (db : AuthDb) (call : SessionCall) : AuthDb :=
  match call.op with
  | .getSession id => (getSession timeout call.input id db).2
  | .updateSessionActivity id => (updateSessionActivity call.input id db).2
  | .endSession id => (endSessionCall call.input id db).2
  | .endAllSessions userID => (endAllSessions call.input userID db).2

/-! ### What a call does to a session -/

/-- What a call does to a session: nothing, an end, or a new time of activity. -/
inductive SessionChange (call : SessionCall) (session session' : Session) : Prop
  | keep (h : session' = session)
  | ended (h : session' = session.ended call.input.now)
  | refreshed (hop : call.op = .updateSessionActivity session.id)
      (hread : call.input.readFails = false) (hwrite : call.input.writeFails = false)
      (h : session' = { session with lastActivityAt := call.input.now })

theorem find?_endSession (now : Time) (id k : String) (db : AuthDb) :
    (endSession now id db).sessions.find? k = (db.sessions.find? k).map fun session =>
        if k = id then session.ended now else session := by
  unfold endSession
  by_cases hk : k = id
  · subst hk
    cases hf : db.sessions.find? k with
    | none => simp [hf]
    | some session =>
      have hke : session.id = k := key_of_find? hf
      by_cases he : session.endedAt.isSome = true
      · simp [he, hf, Session.ended]
      · simp [he, Session.ended, find?_put, hke]
  · simp only [hk, if_false, Option.map_id']
    split
    · rfl
    next session hf =>
      have hke : session.id = id := key_of_find? hf
      split
      · rfl
      · rw [find?_put]
        exact if_neg fun heq => hk (heq.trans hke)

theorem find?_endAllForUser (now : Time) (userID k : String) (db : AuthDb) :
    (endAllForUser now userID db).sessions.find? k = (db.sessions.find? k).map fun session =>
        if session.userID = userID then session.ended now else session :=
  find?_modify _ (fun session => by unfold Session.ended; split <;> [split; skip] <;> rfl) _ _

/-- A refresh that succeeds sets the time of the activity, and changes nothing else. -/
theorem find?_updateSessionActivity (input : SessionInput) (id k : String) (db : AuthDb) :
    (updateSessionActivity input id db).2.sessions.find? k =
      (db.sessions.find? k).map fun session =>
        if k = id ∧ input.readFails = false ∧ input.writeFails = false then
          { session with lastActivityAt := input.now }
        else session := by
  unfold updateSessionActivity
  cases hread : input.readFails with
  | true => simp
  | false =>
    cases hf : db.sessions.find? id with
    | none =>
      by_cases hk : k = id
      · simp [hk, hf]
      · simp [hk]
    | some session =>
      cases hwrite : input.writeFails with
      | true => simp
      | false =>
        have hke : session.id = id := key_of_find? hf
        simp only [updateSession, hke, hf, Bool.false_eq_true, if_false, and_self, and_true]
        rw [find?_put]
        by_cases hk : k = id
        · simp [hk, hf, hke]
        · simp [hk]

/-- The session under an id, if there is one, is changed as `SessionChange` says. -/
def ChangedAt (call : SessionCall) (id : String) (db db' : AuthDb) : Prop :=
  ∃ f : Session → Session, db'.sessions.find? id = (db.sessions.find? id).map f ∧
    ∀ session, session.id = id → SessionChange call session (f session)

section ChangedAt

variable (call : SessionCall) (id : String) (db : AuthDb)

theorem changedAt_refl : ChangedAt call id db db :=
  ⟨fun session => session, by simp, fun _ _ => .keep rfl⟩

theorem changedAt_endSession (id' : String) : ChangedAt call id db (endSession call.input.now id' db) := by
  refine ⟨_, find?_endSession call.input.now id' id db, fun session _ => ?_⟩
  split
  · exact .ended rfl
  · exact .keep rfl

theorem changedAt_getSession (timeout : Int) (id' : String) :
    ChangedAt call id db (getSession timeout call.input id' db).2 := by
  have hk := changedAt_refl call id db
  unfold getSession
  split
  · exact hk
  · split
    · exact hk
    · split
      · exact hk
      · split
        · split
          · exact hk
          · exact changedAt_endSession call id db id'
        · exact hk

theorem changedAt_updateSessionActivity {id' : String}
    (hop : call.op = .updateSessionActivity id') :
    ChangedAt call id db (updateSessionActivity call.input id' db).2 := by
  refine ⟨_, find?_updateSessionActivity call.input id' id db, fun session hid => ?_⟩
  split
  next hg =>
    refine .refreshed ?_ hg.2.1 hg.2.2 rfl
    rw [hop, hid, hg.1]
  · exact .keep rfl

theorem changedAt_endSessionCall (id' : String) : ChangedAt call id db (endSessionCall call.input id' db).2 := by
  unfold endSessionCall
  split
  · exact changedAt_refl call id db
  · split
    · exact changedAt_refl call id db
    · exact changedAt_endSession call id db id'

theorem changedAt_endAllSessions (userID : String) :
    ChangedAt call id db (endAllSessions call.input userID db).2 := by
  unfold endAllSessions
  split
  · exact changedAt_refl call id db
  · refine ⟨_, find?_endAllForUser call.input.now userID id db, fun session _ => ?_⟩
    split
    · exact .ended rfl
    · exact .keep rfl

/-- The sessions after a call are those before it, each kept, ended or refreshed. -/
theorem changedAt_sessionStep (timeout : Int) : ChangedAt call id db (sessionStep timeout db call) := by
  unfold sessionStep
  split
  · exact changedAt_getSession call id db timeout _
  next hop => exact changedAt_updateSessionActivity call id db hop
  · exact changedAt_endSessionCall call id db _
  · exact changedAt_endAllSessions call id db _

end ChangedAt

/-! ### Dead sessions -/

/-- The session has been ended, or has been idle for longer than the timeout. -/
def Session.dead (timeout : Int) (now : Time) (session : Session) : Bool :=
  session.endedAt.isSome || since now session.lastActivityAt > timeout

open Session (dead ended)

def Dead (timeout : Int) (now : Time) (id : String) (db : AuthDb) : Prop :=
  ∃ session, db.sessions.find? id = some session ∧ session.dead timeout now = true

/-- From now on, whatever of the calls is made, `GetSession` fails. -/
def NoMoreSession (timeout : Int) (now : Time) (id : String) (db : AuthDb) (calls : List SessionCall) : Prop :=
  ∀ done, done <+: calls → ∀ input : SessionInput, now ≤ input.now →
    (∀ call ∈ done, call.input.now ≤ input.now) →
    ∃ err, (getSession timeout input id (done.foldl (sessionStep timeout) db)).1 = .error err

/-- The condition on a call: a session that is refreshed is not dead by its idle time. -/
def refreshOk (timeout : Int) (id : String) (db : AuthDb) (call : SessionCall) : Bool :=
  !(call.op = .updateSessionActivity id && !call.input.readFails && !call.input.writeFails) ||
    (db.sessions.find? id).all fun session =>
      session.endedAt.isSome || since call.input.now session.lastActivityAt ≤ timeout

theorem since_mono {now now' : Int} (h : now ≤ now') (t : Int) : since now t ≤ since now' t := by
  unfold since
  omega

theorem since_self (now : Time) : since now now = 0 := by
  simp only [since, Int.sub_self]
  decide

variable {timeout : Int} {now : Time}

theorem Session.dead_mono {now' : Time} {session : Session} (h : now ≤ now')
    (hd : session.dead timeout now = true) : session.dead timeout now' = true := by
  have hs := since_mono h session.lastActivityAt
  simp only [dead, Bool.or_eq_true, decide_eq_true_eq] at hd ⊢
  exact hd.imp_right fun hi => Int.lt_of_lt_of_le hi hs

theorem isSome_endedAt_ended (now : Time) (session : Session) : (session.ended now).endedAt.isSome = true := by
  unfold ended
  split
  · assumption
  · rfl

/-- A call leaves a dead session dead, unless it is a refresh. -/
theorem dead_sessionStep {id : String} {db : AuthDb}
    {call : SessionCall} (hd : Dead timeout now id db) (hn : now ≤ call.input.now)
    (hok : refreshOk timeout id db call = true) :
    Dead timeout call.input.now id (sessionStep timeout db call) := by
  obtain ⟨session, hf, hs⟩ := hd
  have hk : session.id = id := key_of_find? hf
  have hl := Session.dead_mono hn hs
  obtain ⟨f, hstep, hc⟩ := changedAt_sessionStep call id db timeout
  refine ⟨f session, by rw [hstep, hf]; rfl, ?_⟩
  cases hc session hk with
  | keep h => rw [h]; exact hl
  | ended h => rw [h, dead, isSome_endedAt_ended, Bool.true_or]
  | refreshed hop hread hwrite h =>
    -- the session cannot be dead by its idle time, so it has been ended
    rw [hk] at hop
    simp only [refreshOk, hop, hread, hwrite, hf, Option.all_some, decide_true, Bool.not_false,
      Bool.and_true, Bool.not_true, Bool.false_or, Bool.or_eq_true, decide_eq_true_eq] at hok
    simp only [dead, Bool.or_eq_true, decide_eq_true_eq] at hl
    have he : session.endedAt.isSome = true := by
      rcases hok with he | hi
      · exact he
      · exact hl.resolve_right (by omega)
    rw [h, dead, he, Bool.true_or]

theorem getSession_of_dead (ht : 0 < timeout) {now : Time} {id : String}
    {db : AuthDb} (hd : Dead timeout now id db) (input : SessionInput) (hn : now ≤ input.now) :
    ∃ err, (getSession timeout input id db).1 = .error err := by
  obtain ⟨session, hf, hs⟩ := hd
  have hl := Session.dead_mono hn hs
  simp only [dead, Bool.or_eq_true, decide_eq_true_eq] at hl
  unfold getSession
  split
  · exact ⟨_, rfl⟩
  · simp only [hf]
    split
    · exact ⟨_, rfl⟩
    next he =>
      rw [if_pos ⟨ht, hl.resolve_left he⟩]
      exact ⟨_, rfl⟩

theorem noMoreSession_of_allSteps (ht : 0 < timeout) {now : Time}
    {id : String} {db : AuthDb} {calls : List SessionCall} (hd : Dead timeout now id db)
    (hs : (calls.map fun call => call.input.now).Pairwise (· ≤ ·))
    (hno : ∀ call ∈ calls, now ≤ call.input.now)
    (hok : Run.AllSteps (sessionStep timeout) (fun db call => refreshOk timeout id db call = true)
      db calls) : NoMoreSession timeout now id db calls := by
  induction calls generalizing now db with
  | nil =>
    intro done hdo input hinput _
    rw [prefix_nil.mp hdo]
    exact getSession_of_dead ht hd input hinput
  | cons call calls ih =>
    intro done hdo input hinput hall
    rcases prefix_cons_iff.mp hdo with hn | ⟨rest, hco, hrest⟩
    · rw [hn]
      exact getSession_of_dead ht hd input hinput
    · rw [map_cons, pairwise_cons] at hs
      subst hco
      have hcall := hno call mem_cons_self
      refine ih (dead_sessionStep hd hcall hok.1) hs.2 (fun call' hc' => ?_) hok.2 rest
        hrest input (hall call mem_cons_self) fun call' hc' => hall call' (mem_cons_of_mem _ hc')
      exact hs.1 _ (mem_map_of_mem hc')

/-- A refresh of a session that is dead by its idle time makes `GetSession` succeed. -/
theorem getSession_after_refresh (ht : 0 < timeout) {id : String} {db : AuthDb}
    {call : SessionCall} (hb : refreshOk timeout id db call = false) :
    Dead timeout call.input.now id db ∧
      ∃ session, (getSession timeout { call.input with readFails := false } id
        (sessionStep timeout db call)).1 = .ok session := by
  simp only [refreshOk, Bool.or_eq_false_iff, Bool.not_eq_false', Bool.and_eq_true,
    Bool.not_eq_true', decide_eq_true_eq] at hb
  obtain ⟨⟨⟨hop, hread⟩, hwrite⟩, hd⟩ := hb
  cases hf : db.sessions.find? id with
  | none => simp [hf] at hd
  | some session =>
    simp only [hf, Option.all_some, Bool.or_eq_false_iff, decide_eq_false_iff_not] at hd
    obtain ⟨he, hi⟩ := hd
    refine ⟨⟨session, hf, ?_⟩, { session with lastActivityAt := call.input.now }, ?_⟩
    · simp only [dead, Bool.or_eq_true, decide_eq_true_eq]
      exact .inr (Int.not_le.mp hi)
    · have ha : (sessionStep timeout db call).sessions.find? id =
          some { session with lastActivityAt := call.input.now } := by
        simp [sessionStep, hop, find?_updateSessionActivity, hf, hread, hwrite]
      have hy : ¬(timeout > 0 ∧ since call.input.now call.input.now > timeout) := by
        rw [since_self]
        omega
      simp [getSession, ha, he, hy]

/-- **Dead sessions stay dead** exactly if no refresh finds the session idle for longer than the
timeout. -/
theorem dead_stays_dead_iff (timeout : Int) (htimeout : 0 < timeout) (id : String) (db : AuthDb)
    (calls : List SessionCall) (hsorted : (calls.map fun call => call.input.now).Pairwise (· ≤ ·)) :
    (∀ before after, before ++ after = calls → ∀ now,
      (∀ call ∈ before, call.input.now ≤ now) → (∀ call ∈ after, now ≤ call.input.now) →
      Dead timeout now id (before.foldl (sessionStep timeout) db) →
      NoMoreSession timeout now id (before.foldl (sessionStep timeout) db) after) ↔
    Run.AllSteps (sessionStep timeout) (fun db call => refreshOk timeout id db call = true) db
      calls := by
  constructor
  · intro h
    refine Run.allSteps_of_forall_split fun before call after hsp => ?_
    subst hsp
    by_contra hb
    obtain ⟨hd, session, hs⟩ := getSession_after_refresh htimeout (Bool.eq_false_iff.mpr hb)
    rw [map_append, map_cons, pairwise_append, pairwise_cons] at hsorted
    obtain ⟨-, ⟨ha, -⟩, hbe⟩ := hsorted
    have hl : ∀ call' ∈ call :: after, call.input.now ≤ call'.input.now := by
      intro call' hc'
      rcases mem_cons.mp hc' with hsa | hl
      · exact hsa ▸ Int.le_refl _
      · exact ha _ (mem_map_of_mem hl)
    have hsa : ∀ call' ∈ [call], call'.input.now ≤ call.input.now := by
      intro call' hc'
      exact mem_singleton.mp hc' ▸ Int.le_refl _
    obtain ⟨err, he⟩ := h before (call :: after) rfl call.input.now
      (fun call' hc' => hbe _ (mem_map_of_mem hc') _ mem_cons_self) hl hd
      [call] (by simp) { call.input with readFails := false } (Int.le_refl _) hsa
    rw [foldl_cons, foldl_nil, hs] at he
    cases he
  · intro hok before after hsp now hbe ha hd
    subst hsp
    rw [map_append, pairwise_append] at hsorted
    exact noMoreSession_of_allSteps htimeout hd hsorted.2.1 ha (Run.allSteps_append.mp hok).2

def idleSession : AuthDb :=
  { users := .empty
    sessions := empty.put
      { id := "s", userID := "u", type := .grpc, clientIP := "", clientAgent := ""
        publicKeyFingerprint := "", nodeID := "", startedAt := 0, endedAt := none, lastActivityAt := 0
        metadata := .empty } }

def callAt (now : Time) (op : SessionOp) : SessionCall :=
  { op, input := { now, readFails := false, writeFails := false } }

def refreshedAndEnded : AuthDb :=
  [callAt 5 (.updateSessionActivity "s"), callAt 6 (.endSession "s")].foldl (sessionStep 10)
    idleSession

theorem dead_stays_dead_ended : Dead 10 6 "s" refreshedAndEnded ∧
    NoMoreSession 10 6 "s" refreshedAndEnded
      [callAt 7 (.updateSessionActivity "s"), callAt 8 (.getSession "s")] :=
  have hd : Dead 10 6 "s" refreshedAndEnded := ⟨_, rfl, by decide +kernel⟩
  ⟨hd, (dead_stays_dead_iff 10 (by decide) "s" idleSession
    [callAt 5 (.updateSessionActivity "s"), callAt 6 (.endSession "s"),
      callAt 7 (.updateSessionActivity "s"), callAt 8 (.getSession "s")] (by decide)).mpr
    (by decide +kernel) [callAt 5 (.updateSessionActivity "s"), callAt 6 (.endSession "s")] _ rfl 6
    (by decide) (by decide) hd⟩

/-- A session that has been idle for too long is back after a refresh. -/
theorem refresh_revives_session : Dead 10 11 "s" idleSession ∧
    (getSession 10 { now := 12, readFails := false, writeFails := false } "s"
      (sessionStep 10 idleSession (callAt 11 (.updateSessionActivity "s")))).1.isOk = true :=
  ⟨⟨_, rfl, by decide +kernel⟩, by decide +kernel⟩

end Bib.Auth
