import Bib.Domain.Chunk
import Bib.Lib.Run

/-!
# Bib.BreakGlass.Manager

**Emergency access to the database** (`breakglass/manager.go` and `breakglass/types.go`): one session at a time,
a temporary database user for it, and a monitor goroutine that ends it when it expires.

`Enable` asks the clock: a session whose time is up no longer counts. The monitor asks the state: it ends the
session it was started for, if that is still the current one. Between the expiry and the monitor's wake-up
`Enable` replaces the old session, and nobody drops its user (`sessions_cleaned_up`).
-/

namespace Bib.BreakGlass

open Bib.Domain Bib.Lib List

/-! ### Types -/

/-- `AccessLevel`, a string in the source. -/
inductive AccessLevel
  | readOnly
  | readWrite
  | other (text : String)

def AccessLevel.isValid : AccessLevel → Bool
  | readOnly | readWrite => true
  | other _ => false

inductive SessionState
  | inactive
  | active
  | expired
  | pendingAck
  deriving DecidableEq

/-- `User`, without the keys. -/
structure User where
  name : String
  accessLevel : AccessLevel

structure Session where
  id : String
  user : User
  reason : String
  accessLevel : AccessLevel
  (startedAt expiresAt : Time)
  (nodeID requestedBy connectionString dbUsername : String)
  state : SessionState
  recordingPath : String

def Session.isActive (now : Time) (session : Session) : Bool :=
  session.state = .active && now < session.expiresAt

structure QueryStats where
  queryCount : Int
  tablesAccessed : List String
  operationCounts : List (String × Int)

structure SessionReport where
  session : Session
  endedAt : Time
  duration : Int
  stats : QueryStats
  acknowledgedAt : Option Time
  (acknowledgedBy recordingPath : String)

/-- `Config`, as far as sessions depend on it. -/
structure Config where
  enabled : Bool
  maxDuration : Int
  defaultAccessLevel : AccessLevel
  (requireAcknowledgment sessionRecording : Bool)
  recordingPath : String

structure Database where
  (created dropped : List String)
  deriving DecidableEq

/-- `Manager`; `connect` is `GetConnectionString` of the database callback, if one is set. -/
structure Manager where
  config : Config
  nodeID : String
  session : Option Session
  pendingReports : List SessionReport
  connect : Option (String → String → String)

/-- `NewManager`, and `SetDatabaseCallback`. -/
def Manager.new (config : Config) (nodeID : String) (connect : Option (String → String → String)) : Manager :=
  { config, nodeID, session := none, pendingReports := [], connect }

/-! ### Operations -/

inductive BreakGlassError
  | notEnabled
  | alreadyActive
  | durationTooLong (requested maximum : Int)
  | noSession
  | notPending (sessionID : String)

/-- The text of the error; `showDuration` is `Duration.String`. -/
def BreakGlassError.message (showDuration : Int → String) : BreakGlassError → String
  | notEnabled => "break glass is not enabled"
  | alreadyActive => "a break glass session is already active"
  | durationTooLong requested maximum =>
    "requested duration " ++ showDuration requested ++ " exceeds maximum " ++ showDuration maximum
  | noSession => "no active break glass session"
  | notPending sessionID => "session not found or not pending acknowledgment: " ++ sessionID

/-- A call of `Enable`, with the random values it draws. -/
structure EnableCall where
  now : Time
  user : User
  reason : String
  duration : Int
  (requestedBy sessionID password : String)

def shortID (sessionID : String) : List Char := sessionID.toList.take 8

def dbUsername (sessionID : String) : String :=
  "breakglass_" ++ String.ofList ((shortID sessionID).filter fun c => c ≠ '-')

def newSession (call : EnableCall) (m : Manager) : Session :=
  let duration := if call.duration ≤ 0 then m.config.maxDuration else call.duration
  let username := dbUsername call.sessionID
  let path := if m.config.recordingPath = "" then "." else m.config.recordingPath
  { id := call.sessionID
    user := call.user
    reason := call.reason
    accessLevel :=
      if call.user.accessLevel.isValid then call.user.accessLevel else m.config.defaultAccessLevel
    startedAt := call.now
    expiresAt := call.now + duration
    nodeID := m.nodeID
    requestedBy := call.requestedBy
    connectionString := (m.connect.map fun connect => connect username call.password).getD ""
    dbUsername := username
    state := .active
    recordingPath :=
      if m.config.sessionRecording then
        path ++ "/breakglass_" ++ String.ofList (shortID call.sessionID) ++ ".rec"
      else "" }

def Manager.enable (call : EnableCall) (m : Manager) (db : Database) :
    Except BreakGlassError Session × Manager × Database :=
  if !m.config.enabled then (.error .notEnabled, m, db)
  else if m.session.any (Session.isActive call.now) then (.error .alreadyActive, m, db)
  else if m.config.maxDuration < call.duration then
    (.error (.durationTooLong call.duration m.config.maxDuration), m, db)
  else
    let session := newSession call m
    let db := if m.connect.isSome then { db with created := db.created ++ [session.dbUsername] } else db
    (.ok session, { m with session := some session }, db)

/-- `endSession`, with the session it is called for. -/
def Manager.endSession (now : Time) (expired : Bool) (stats : QueryStats) (session : Session)
    (m : Manager) (db : Database) : SessionReport × Manager × Database :=
  let session := { session with state := if expired then .expired else .pendingAck }
  let db :=
    if m.connect.isSome && session.dbUsername ≠ "" then
      { db with dropped := db.dropped ++ [session.dbUsername] }
    else db
  let session :=
    if m.config.requireAcknowledgment then { session with state := .pendingAck } else session
  let report : SessionReport :=
    { session, endedAt := now, duration := now - session.startedAt, stats
      acknowledgedAt := none, acknowledgedBy := "", recordingPath := session.recordingPath }
  let pendingReports :=
    if m.config.requireAcknowledgment then m.pendingReports ++ [report] else m.pendingReports
  (report, { m with session := none, pendingReports }, db)

def Manager.disable (now : Time) (stats : QueryStats) (m : Manager) (db : Database) :
    Except BreakGlassError SessionReport × Manager × Database :=
  match m.session with
  | none => (.error .noSession, m, db)
  | some session =>
    let (report, m, db) := m.endSession now false stats session db
    (.ok report, m, db)

/-- `Acknowledge`: the report, as it is from then on. -/
def Manager.acknowledge (now : Time) (sessionID acknowledgedBy : String) (m : Manager) :
    Except BreakGlassError SessionReport × Manager :=
  match m.pendingReports.findIdx? fun report => report.session.id = sessionID with
  | none => (.error (.notPending sessionID), m)
  | some idx =>
    match m.pendingReports[idx]? with
    | none => (.error (.notPending sessionID), m)
    | some report =>
      (.ok { report with acknowledgedAt := some now, acknowledgedBy },
        { m with pendingReports := m.pendingReports.eraseIdx idx })

/-! ### Runs -/

structure Monitor where
  sessionID : String
  /-- When its timer fires, once it has been set. -/
  wakeAt : Option Time

/-- The manager, its monitors, and what has happened so far. -/
structure World where
  manager : Manager
  db : Database
  monitors : List Monitor
  started : List Session
  reports : List SessionReport

inductive Event
  | enable (call : EnableCall)
  | disable (now : Time) (stats : QueryStats)
  | acknowledge (now : Time) (sessionID acknowledgedBy : String)
  /-- The `n`-th monitor goes on: it sets its timer, or it wakes up. -/
  | monitor (n : Nat) (now : Time) (stats : QueryStats)

def World.start (config : Config) (nodeID : String) (connect : Option (String → String → String)) : World :=
  { manager := .new config nodeID connect, db := ⟨[], []⟩, monitors := [], started := [], reports := [] }

def World.finish (now : Time) (expired : Bool) (stats : QueryStats) (session : Session) (w : World) : World :=
  { w with
    manager := (w.manager.endSession now expired stats session w.db).2.1
    db := (w.manager.endSession now expired stats session w.db).2.2
    reports := w.reports ++ [(w.manager.endSession now expired stats session w.db).1] }

def World.runMonitor (n : Nat) (monitor : Monitor) (now : Time) (stats : QueryStats) (w : World) : World :=
  match monitor.wakeAt with
  | none =>
    match w.manager.session with
    | none => { w with monitors := w.monitors.eraseIdx n }
    | some session =>
      if session.id ≠ monitor.sessionID then { w with monitors := w.monitors.eraseIdx n }
      else { w with monitors := w.monitors.set n { monitor with wakeAt := some session.expiresAt } }
  | some wakeAt =>
    if now < wakeAt then w
    else
      match w.manager.session with
      | none => { w with monitors := w.monitors.eraseIdx n }
      | some session =>
        if session.id = monitor.sessionID && session.state = .active then
          { w.finish now true stats session with monitors := w.monitors.eraseIdx n }
        else { w with monitors := w.monitors.eraseIdx n }

def World.step (w : World) : Event → World
  | .enable call =>
    match w.manager.enable call w.db with
    | (.error _, _, _) => w
    | (.ok session, manager, db) =>
      { w with
        manager, db
        monitors := w.monitors ++ [⟨session.id, none⟩]
        started := w.started ++ [session] }
  | .disable now stats =>
    match w.manager.disable now stats w.db with
    | (.error _, _, _) => w
    | (.ok report, manager, db) => { w with manager, db, reports := w.reports ++ [report] }
  | .acknowledge now sessionID acknowledgedBy =>
    { w with manager := (w.manager.acknowledge now sessionID acknowledgedBy).2 }
  | .monitor n now stats =>
    match w.monitors[n]? with
    | none => w
    | some monitor => w.runMonitor n monitor now stats

open World (finish step)

/-! ### No user and no session is left behind -/

/-- Every user that was created belongs to the current session or was dropped, and, where sessions are
acknowledged, every session but the current one has a report. -/
structure World.CleanedUp (w : World) : Prop where
  users : ∀ user ∈ w.db.created,
    (∃ session ∈ w.manager.session, session.dbUsername = user) ∨ user ∈ w.db.dropped
  reports : w.manager.config.requireAcknowledgment = true → ∀ session ∈ w.started,
    (∃ current ∈ w.manager.session, current.id = session.id) ∨
      ∃ report ∈ w.reports, report.session.id = session.id

/-- The condition on a step: no session that is over, but has not been collected, is there when
`Enable` is called, unless the call is refused. -/
def World.stepOk (w : World) : Event → Bool
  | .enable call =>
    !w.manager.config.enabled || w.manager.config.maxDuration < call.duration ||
      w.manager.session.all (Session.isActive call.now)
  | _ => true

/-- What the steps keep: users are only created through the callback, and a session has one. -/
structure World.Inv (w : World) : Prop extends w.CleanedUp where
  callback : w.db.created ≠ [] → w.manager.connect.isSome = true
  username : ∀ session ∈ w.manager.session, session.dbUsername ≠ ""

theorem dbUsername_ne_empty (sessionID : String) : dbUsername sessionID ≠ "" := fun h =>
  absurd (String.append_eq_empty_iff.mp h).1 (by decide)

theorem inv_start (config : Config) (nodeID : String) (connect : Option (String → String → String)) :
    (World.start config nodeID connect).Inv := by
  refine ⟨⟨?_, ?_⟩, ?_, ?_⟩ <;> simp [World.start, Manager.new]

variable {call : EnableCall} {w : World}

theorem enable_eq_ok {m m' : Manager} {db db' : Database} {session : Session}
    (h : m.enable call db = (.ok session, m', db')) :
    m.config.enabled = true ∧ m.session.any (Session.isActive call.now) = false ∧
      call.duration ≤ m.config.maxDuration ∧ session = newSession call m ∧
      m' = { m with session := some session } ∧
      db' = if m.connect.isSome then { db with created := db.created ++ [session.dbUsername] } else db := by
  unfold Manager.enable at h
  split at h
  · simp at h
  next he =>
    split at h
    · simp at h
    next ha =>
      split at h
      · simp at h
      next hd =>
        obtain ⟨rfl, rfl, rfl⟩ := h
        exact ⟨by simpa using he, by simpa using ha, Int.not_lt.mp hd, rfl, rfl, rfl⟩

/-- The condition leaves a successful `Enable` only a manager without a session. -/
theorem session_eq_none_of_stepOk (hok : w.stepOk (.enable call) = true) (he : w.manager.config.enabled = true)
    (ha : w.manager.session.any (Session.isActive call.now) = false)
    (hd : call.duration ≤ w.manager.config.maxDuration) : w.manager.session = none := by
  simp only [World.stepOk, he, Bool.not_true, Int.not_lt.mpr hd, decide_false, Bool.false_or] at hok
  cases hc : w.manager.session with
  | none => rfl
  | some current =>
    rw [hc] at hok ha
    simp only [Option.all_some, Option.any_some] at hok ha
    rw [hok] at ha
    cases ha

theorem inv_enable (h : w.Inv) (call : EnableCall) (hok : w.stepOk (.enable call) = true) :
    (w.step (.enable call)).Inv := by
  simp only [step]
  split
  next => exact h
  next session manager db heq =>
    obtain ⟨he, hac, hdu, hse, rfl, rfl⟩ := enable_eq_ok heq
    have hnone := session_eq_none_of_stepOk hok he hac hdu
    have hn : session.dbUsername ≠ "" := by
      rw [hse]
      exact dbUsername_ne_empty _
    refine ⟨⟨fun user huser => ?_, fun ha s hs => ?_⟩, fun hcr => ?_, fun s hs => ?_⟩
    · have hc : user ∈ w.db.created ∨ user = session.dbUsername := by
        cases hco : w.manager.connect.isSome with
        | false => exact .inl (by simpa [hco] using huser)
        | true => simpa [hco] using huser
      rcases hc with hold | rfl
      · rcases h.users user hold with ⟨current, hcu, -⟩ | hd
        · rw [hnone] at hcu
          cases hcu
        · right
          split <;> exact hd
      · exact .inl ⟨session, rfl, rfl⟩
    · rcases mem_append.mp hs with hold | hnew
      · rcases h.reports ha s hold with ⟨current, hcu, -⟩ | hr
        · rw [hnone] at hcu
          cases hcu
        · exact .inr hr
      · rw [mem_singleton.mp hnew]
        exact .inl ⟨session, rfl, rfl⟩
    · show w.manager.connect.isSome = true
      cases hco : w.manager.connect.isSome with
      | false => exact absurd (h.callback (by simpa [hco] using hcr)) (by simp [hco])
      | true => rfl
    · obtain rfl : session = s := by simpa using hs
      exact hn

theorem inv_finish (h : w.Inv) {session : Session} (hse : w.manager.session = some session)
    (now : Time) (expired : Bool) (stats : QueryStats) : (w.finish now expired stats session).Inv := by
  have hna : session.dbUsername ≠ "" := h.username session hse
  refine ⟨⟨fun user huser => .inr ?_, fun ha s hs => .inr ?_⟩, ?_, ?_⟩
  · have hcr : user ∈ w.db.created := by
      simp only [finish, Manager.endSession] at huser
      split at huser <;> exact huser
    have hc := h.callback (ne_nil_of_mem hcr)
    have hd : (w.finish now expired stats session).db.dropped =
        w.db.dropped ++ [session.dbUsername] := by
      simp [finish, Manager.endSession, hc, hna]
    rw [hd]
    rcases h.users user hcr with ⟨current, hcur, rfl⟩ | hold
    · obtain rfl : session = current := by simpa [hse] using hcur
      simp
    · exact mem_append_left _ hold
  · have hid : (w.manager.endSession now expired stats session w.db).1.session.id = session.id := by
      simp only [Manager.endSession]
      split <;> rfl
    rcases h.reports ha s hs with ⟨current, hcur, hcu⟩ | ⟨report, hre, hr⟩
    · obtain rfl : session = current := by simpa [hse] using hcur
      exact ⟨_, mem_append_right _ mem_cons_self, hid.trans hcu⟩
    · exact ⟨report, mem_append_left _ hre, hr⟩
  · intro hcr
    refine h.callback fun hn => hcr ?_
    simp only [finish, Manager.endSession]
    split <;> exact hn
  · simp [finish, Manager.endSession]

/-- What only moves monitors and takes reports from the pending ones keeps the invariant. -/
theorem Inv.congr {w' : World} (h : w.Inv) (hdb : w'.db = w.db)
    (hs : w'.manager.session = w.manager.session) (hco : w'.manager.config = w.manager.config)
    (hc : w'.manager.connect = w.manager.connect) (hst : w'.started = w.started)
    (hr : w'.reports = w.reports) : w'.Inv := by
  refine ⟨⟨?_, ?_⟩, ?_, ?_⟩
  · rw [hdb, hs]
    exact h.users
  · rw [hco, hst, hs, hr]
    exact h.reports
  · rw [hdb, hc]
    exact h.callback
  · rw [hs]
    exact h.username

theorem inv_monitor (h : w.Inv) (n : Nat) (monitor : Monitor) (now : Time)
    (stats : QueryStats) : (w.runMonitor n monitor now stats).Inv := by
  unfold World.runMonitor
  split
  · split
    · exact Inv.congr h rfl rfl rfl rfl rfl rfl
    · split <;> exact Inv.congr h rfl rfl rfl rfl rfl rfl
  · split
    · exact h
    · split
      · exact Inv.congr h rfl rfl rfl rfl rfl rfl
      next session hs =>
        split
        · exact Inv.congr (inv_finish h hs now true stats) rfl rfl rfl rfl rfl rfl
        · exact Inv.congr h rfl rfl rfl rfl rfl rfl

theorem acknowledge_frame (now : Time) (sessionID acknowledgedBy : String) (m : Manager) :
    (m.acknowledge now sessionID acknowledgedBy).2.session = m.session ∧
      (m.acknowledge now sessionID acknowledgedBy).2.config = m.config ∧
      (m.acknowledge now sessionID acknowledgedBy).2.connect = m.connect := by
  unfold Manager.acknowledge
  split
  · exact ⟨rfl, rfl, rfl⟩
  · split <;> exact ⟨rfl, rfl, rfl⟩

theorem inv_step (h : w.Inv) (event : Event) (hok : w.stepOk event = true) : (w.step event).Inv := by
  cases event with
  | enable call => exact inv_enable h call hok
  | disable now stats =>
    cases hs : w.manager.session with
    | none => simpa [step, Manager.disable, hs] using h
    | some session =>
      have hstep : w.step (.disable now stats) = w.finish now false stats session := by
        simp [step, Manager.disable, hs, finish]
      rw [hstep]
      exact inv_finish h hs now false stats
  | acknowledge now sessionID acknowledgedBy =>
    obtain ⟨hs, hco, hc⟩ := acknowledge_frame now sessionID acknowledgedBy w.manager
    exact Inv.congr h rfl hs hco hc rfl rfl
  | monitor n now stats =>
    simp only [step]
    split
    · exact h
    · exact inv_monitor h n _ now stats

/-- If no `Enable` replaces a session that was not collected yet, then in every state of the run all
users are accounted for and all sessions are reported. -/
theorem sessions_cleaned_up (config : Config) (nodeID : String)
    (connect : Option (String → String → String)) (events : List Event)
    (hok : Run.AllSteps World.step (fun w event => w.stepOk event = true)
      (World.start config nodeID connect) events) (n : Nat) :
    ((events.take n).foldl World.step (World.start config nodeID connect)).CleanedUp :=
  (Run.invariant_of_allSteps World.Inv (fun _ event h hstep => inv_step h event hstep)
    (inv_start config nodeID connect) hok n).toCleanedUp

def hourConfig : Config :=
  { enabled := true, maxDuration := 3600, defaultAccessLevel := .readOnly, requireAcknowledgment := true
    sessionRecording := false, recordingPath := "" }

def enableAt (now : Time) (sessionID : String) : EnableCall :=
  { now, user := ⟨"root", .other ""⟩, reason := "disk full", duration := 60, requestedBy := "ops"
    sessionID, password := "secret" }

def World.fresh : World := .start hourConfig "n" (some fun username _ => username)

def QueryStats.none : QueryStats := ⟨0, [], []⟩

/-- The monitor ends the first session in time; a second one follows. -/
def oneAfterAnother : List Event :=
  [.enable (enableAt 0 "aaaaaaaa-1"), .monitor 0 1 .none, .monitor 0 60 .none,
    .enable (enableAt 61 "bbbbbbbb-2"), .disable 70 .none]

theorem sessions_cleaned_up_oneAfterAnother :
    ((oneAfterAnother.take 5).foldl World.step World.fresh).CleanedUp ∧
      ((oneAfterAnother.take 5).foldl World.step World.fresh).db.created =
        ["breakglass_aaaaaaaa", "breakglass_bbbbbbbb"] := by
  refine ⟨sessions_cleaned_up hourConfig "n" _ oneAfterAnother ?_ 5, ?_⟩
  · decide +kernel
  · decide +kernel

/-- The second `Enable` comes when the first session is over, but before its monitor wakes up. -/
def enabledTooSoon : List Event :=
  [.enable (enableAt 0 "aaaaaaaa-1"), .monitor 0 1 .none, .enable (enableAt 60 "bbbbbbbb-2"),
    .monitor 0 61 .none, .disable 70 .none]

/-- Both sessions are over, but the user of the first one was never dropped, and it has no report. -/
theorem first_user_leaks : ¬ (enabledTooSoon.foldl World.step World.fresh).CleanedUp ∧
      (enabledTooSoon.foldl World.step World.fresh).db =
        ⟨["breakglass_aaaaaaaa", "breakglass_bbbbbbbb"], ["breakglass_bbbbbbbb"]⟩ ∧
      (enabledTooSoon.foldl World.step World.fresh).started.map Session.id =
        ["aaaaaaaa-1", "bbbbbbbb-2"] ∧
      (enabledTooSoon.foldl World.step World.fresh).reports.map (fun report => report.session.id) =
        ["bbbbbbbb-2"] := by
  have hdb : (enabledTooSoon.foldl World.step World.fresh).db =
      ⟨["breakglass_aaaaaaaa", "breakglass_bbbbbbbb"], ["breakglass_bbbbbbbb"]⟩ := by decide +kernel
  refine ⟨fun h => ?_, hdb, by decide +kernel, by decide +kernel⟩
  rcases h.users "breakglass_aaaaaaaa" (by simp [hdb]) with ⟨session, hc, -⟩ | hd
  · cases hc
  · simp [hdb] at hd

end Bib.BreakGlass
