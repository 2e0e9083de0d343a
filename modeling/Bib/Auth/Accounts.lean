import Bib.Auth.Service
import Bib.Lib.Calls
import Bib.Lib.Run

/-!
# Bib.Auth.Accounts

**Suspending a user and changing a role while the user logs in** (`Authenticate`, `SuspendUser` and
`SetUserRole` of `internal/auth/service.go`). All three read a user, change a field and write the whole record
back, so a login that has read the user before an administrator's write takes a suspension back. `settings_stay`
says that nothing else goes wrong.
-/

namespace Bib.Auth

open Bib.Domain Bib.Lib List Table

/-! ### Updating a user -/

def updatedUser (now : Time) (user row : User) : User :=
  { row with
    name := user.name, email := user.email, status := user.status, role := user.role
    locale := user.locale, updatedAt := now, lastLoginAt := user.lastLoginAt }

/-- An `Update` fails and changes nothing, or the row is replaced. -/
theorem updateUser_cases (now : Time) (user : User) (db : AuthDb) :
    (∃ err, updateUserResult user db = .error err ∧ updateUser now user db = db) ∨
    (updateUserResult user db = .ok () ∧ ∃ row, db.users.find? user.id = some row ∧
      updateUser now user db = { db with users := db.users.put (updatedUser now user row) }) := by
  unfold updateUserResult updateUser emailTaken
  cases user.validate with
  | error err => exact .inl ⟨_, rfl, rfl⟩
  | ok _ =>
    cases db.users.find? user.id with
    | none => exact .inl ⟨_, rfl, rfl⟩
    | some row =>
      simp only [Option.isNone_some, Bool.false_eq_true, if_false]
      split
      · exact .inl ⟨_, rfl, rfl⟩
      · exact .inr ⟨rfl, row, rfl, rfl⟩

/-! ### The calls -/

inductive AdminRequest
  | suspendUser (userID : String)
  | setUserRole (userID : String) (role : UserRole)
  deriving DecidableEq

def AdminRequest.userID : AdminRequest → String
  | suspendUser userID | setUserRole userID _ => userID

/-- The record with the field of the call set. -/
def AdminRequest.apply (user : User) : AdminRequest → User
  | suspendUser _ => { user with status := .suspended }
  | setUserRole _ role => { user with role }

inductive AdminPc
  | start
  | updating (user : User)
  | ending
  | done (result : Except AuthError Unit)

/-- `SetUserRole` refuses a role that does not exist. -/
def AdminRequest.refusal : AdminRequest → Option AuthError
  | suspendUser _ => none
  | setUserRole _ role => if role.isValid then none else some (.other "invalid user role")

/-- One step of `SuspendUser` or `SetUserRole`. -/
def AdminRequest.step (req : AdminRequest) (input : StepInput) (pc : AdminPc) (db : AuthDb) : AdminPc × AuthDb :=
  match pc with
  | .start =>
    match req.refusal, input.fault with
    | some err, _ => (.done (.error err), db)
    | none, some err => (.done (.error (.other ("failed to query user: " ++ err))), db)
    | none, none =>
      match getUser req.userID db with
      | none => (.done (.error .userNotFound), db)
      | some user => (.updating (req.apply user), db)
  | .updating user =>
    match input.fault with
    | some err => (.done (.error (.other ("failed to update user: " ++ err))), db)
    | none =>
      match updateUserResult user db, req with
      | .error err, _ => (.done (.error err), db)
      | .ok (), .suspendUser _ => (.ending, updateUser input.now user db)
      | .ok (), .setUserRole _ _ => (.done (.ok ()), updateUser input.now user db)
  | .ending =>
    match input.fault with
    | some err => (.done (.error (.other ("failed to end sessions: " ++ err))), db)
    | none => (.done (.ok ()), endAllForUser input.now req.userID db)
  | .done result => (.done result, db)

open AdminRequest (apply step suspendUser)

inductive AccountRequest
  | authenticate (req : AuthenticateRequest)
  | admin (req : AdminRequest)

inductive AccountCall
  | authenticate (req : AuthenticateRequest) (pc : AuthPc)
  | admin (req : AdminRequest) (pc : AdminPc)

/-- The calls on the database; a step is a storage call. -/
def Service.accounts (service : Service) : Calls.Machine AuthDb AccountRequest AccountCall StepInput where
  init
    | .authenticate req => .authenticate req .lookup
    | .admin req => .admin req .start
  step
    | input, .authenticate req pc, db =>
      (.authenticate req (service.step req input pc db).1, (service.step req input pc db).2)
    | input, .admin req pc, db => (.admin req (req.step input pc db).1, (req.step input pc db).2)

abbrev Accounts := Calls.World AuthDb AccountCall

/-! ### What a step does to the users -/

/-- The record that the next step of a call writes back, if it is an `Update`. -/
def AccountCall.nextUpdate (input : StepInput) : AccountCall → Option User
  | authenticate _ (.identified user _) =>
    match checkUserStatus user, input.fault with
    | .ok (), none => some { user with lastLoginAt := some input.now }
    | _, _ => none
  | admin _ (.updating user) => if input.fault.isNone then some user else none
  | _ => none

open AccountCall (nextUpdate)

theorem users_endSession (now : Time) (id : String) (db : AuthDb) : (endSession now id db).users = db.users := by
  unfold endSession
  split
  · rfl
  · split <;> rfl

variable {db db' : AuthDb} {user row : User} {req setting : AdminRequest} {call : AccountCall}
  {pc : AdminPc} {input : StepInput}

theorem users_of_createSession {session : Session}
    (h : createSession session db = .ok db') : db'.users = db.users := by
  unfold createSession at h
  split at h
  · cases h
  · split at h
    · cases h
    · cases h
      rfl

theorem users_of_createUser (h : createUser user db = .ok db') :
    db.users.find? user.id = none ∧ db'.users = db.users.put user := by
  unfold createUser at h
  split at h
  · cases h
  · split at h
    · cases h
    next hc =>
      cases h
      refine ⟨?_, rfl⟩
      cases hf : db.users.find? user.id with
      | none => rfl
      | some row =>
        have hid : row.id = user.id := key_of_find? hf
        have hcl : db.users.rows.any (clashes user) = true :=
          any_eq_true.mpr ⟨row, mem_of_find? hf, by simp [clashes, hid]⟩
        exact absurd hcl hc

/-- What a step does to the table of the users: an `Update`, a new user, or nothing. -/
inductive UsersStep (input : StepInput) (call : AccountCall) (db db' : AuthDb) : Prop
  | update (user : User) (hcall : call.nextUpdate input = some user)
      (husers : db'.users = (updateUser input.now user db).users)
  | create (user : User) (hcall : call.nextUpdate input = none)
      (hnew : db.users.find? user.id = none) (husers : db'.users = db.users.put user)
  | keep (hcall : call.nextUpdate input = none) (husers : db'.users = db.users)

/-- The next step neither creates nor updates a user. -/
def AuthPc.quiet : AuthPc → Bool
  | .creating _ | .identified _ _ => false
  | _ => true

theorem users_step_of_quiet (service : Service) (req : AuthenticateRequest) (input : StepInput)
    {pc : AuthPc} (db : AuthDb) (hpc : pc.quiet = true) :
    (service.step req input pc db).2.users = db.users := by
  cases pc with
  | lookup =>
    simp only [Service.step]
    split
    · rfl
    · split
      · rfl
      · split <;> [rfl; split <;> rfl]
  | registering =>
    simp only [Service.step]
    split <;> rfl
  | counting user isNew now =>
    simp only [Service.step]
    split <;> [split <;> rfl; rfl]
  | ending user isNew now oldest =>
    simp only [Service.step]
    split
    · rfl
    · exact users_endSession _ _ _
  | opening user isNew now =>
    simp only [Service.step]
    split
    · rfl
    · split
      · rfl
      next db' hc => exact users_of_createSession hc
  | done result => rfl
  | _ => cases hpc

theorem usersStep_authenticate (service : Service) (req : AuthenticateRequest) (input : StepInput)
    (pc : AuthPc) (db : AuthDb) :
    UsersStep input (.authenticate req pc) db (service.step req input pc db).2 := by
  cases pc with
  | creating user =>
    simp only [Service.step]
    split
    · exact .keep rfl rfl
    · split
      · exact .keep rfl rfl
      next db' hc =>
        obtain ⟨hnew, husers⟩ := users_of_createUser hc
        exact .create user rfl hnew husers
  | identified user isNew =>
    cases hs : checkUserStatus user with
    | error err =>
      refine .keep ?_ ?_
      · simp [nextUpdate, hs]
      · simp [Service.step, hs]
    | ok _ =>
      cases hf : input.fault with
      | none =>
        refine .update { user with lastLoginAt := some input.now } ?_ ?_
        · simp [nextUpdate, hs, hf]
        · simp only [Service.step, hs, hf]
          split <;> rfl
      | some err =>
        refine .keep ?_ ?_
        · simp [nextUpdate, hs, hf]
        · simp only [Service.step, hs, hf]
          split <;> rfl
  | lookup | registering | counting | ending | opening | done =>
    exact .keep rfl (users_step_of_quiet service req input db rfl)

theorem usersStep_admin (req : AdminRequest) (input : StepInput) (pc : AdminPc) (db : AuthDb) :
    UsersStep input (.admin req pc) db (req.step input pc db).2 := by
  cases pc with
  | start =>
    refine .keep rfl ?_
    simp only [step]
    split
    · rfl
    · rfl
    · split <;> rfl
  | updating user =>
    cases hf : input.fault with
    | some err =>
      refine .keep ?_ ?_
      · simp [nextUpdate, hf]
      · simp [step, hf]
    | none =>
      refine .update user ?_ ?_
      · simp [nextUpdate, hf]
      · simp only [step, hf]
        rcases updateUser_cases input.now user db with ⟨err, he, hs⟩ | ⟨hok, -⟩
        · rw [he, hs]
        · rw [hok]
          cases req <;> rfl
  | ending =>
    refine .keep rfl ?_
    simp only [step]
    split <;> rfl
  | done result => exact .keep rfl rfl

theorem usersStep (service : Service) (input : StepInput) (call : AccountCall) (db : AuthDb) :
    UsersStep input call db (service.accounts.step input call db).2 := by
  cases call with
  | authenticate req pc => exact usersStep_authenticate service req input pc db
  | admin req pc => exact usersStep_admin req input pc db

/-! ### Settings -/

/-- The field that a call has set is as the call has set it. -/
def AdminRequest.Stored (db : AuthDb) : AdminRequest → Prop
  | suspendUser userID => (db.users.find? userID).map User.status = some .suspended
  | setUserRole userID role => (db.users.find? userID).map User.role = some role

instance (db : AuthDb) (req : AdminRequest) : Decidable (req.Stored db) := by
  cases req <;> unfold AdminRequest.Stored <;> infer_instance

/-- The two calls are there to change the same field of the same user. -/
def AdminRequest.sameField : AdminRequest → AdminRequest → Bool
  | suspendUser userID, suspendUser userID' => userID = userID'
  | setUserRole userID _, setUserRole userID' _ => userID = userID'
  | _, _ => false

/-- The record carries the stored status and role, but for the field that the call is there to
change. -/
def AccountCall.current (user row : User) : AccountCall → Bool
  | authenticate _ _ => user.status = row.status && user.role = row.role
  | admin (.suspendUser _) _ => user.role = row.role
  | admin (.setUserRole _ _) _ => user.status = row.status

/-- The condition on an event: an `Update` finds the status and the role as its call has read
them. -/
def accountStepOk (w : Accounts) : Calls.Event AccountRequest StepInput → Bool
  | .start _ => true
  | .run i input =>
    match w.calls[i]? with
    | none => true
    | some call =>
      match call.nextUpdate input with
      | none => true
      | some user => (w.shared.users.find? user.id).all fun row => call.current user row

/-- The event is the `Update` of a call for the same field. -/
def changesField (setting : AdminRequest) (w : Accounts) : Calls.Event AccountRequest StepInput → Bool
  | .start _ => false
  | .run i input =>
    match w.calls[i]? with
    | some (.admin req (.updating _)) => input.fault.isNone && setting.sameField req
    | _ => false

def succeeds (w : Accounts) : Calls.Event AccountRequest StepInput → Option AdminRequest
  | .start _ => none
  | .run i input =>
    match w.calls[i]? with
    | some (.admin _ (.done _)) => none
    | some (.admin req pc) =>
      match (req.step input pc w.shared).1 with
      | .done (.ok ()) => some req
      | _ => none
    | _ => none

/-- What a call of an administrator holds: the record it is going to write, and the suspension it has
written. -/
def AccountCall.Inv (db : AuthDb) : AccountCall → Prop
  | admin req (.updating user) => user.id = req.userID ∧ req.apply user = user
  | admin (.suspendUser userID) .ending => (suspendUser userID).Stored db
  | admin (.setUserRole _ _) .ending => False
  | _ => True

theorem stored_iff : req.Stored db ↔ ∃ row, db.users.find? req.userID = some row ∧ req.apply row = row := by
  cases req <;>
  · simp only [AdminRequest.Stored, AdminRequest.userID, apply, Option.map_eq_some_iff]
    refine exists_congr fun row => and_congr_right fun _ => ?_
    cases row
    simp [eq_comm]

theorem apply_updatedUser {now : Time}
    (h : req.apply user = user) : req.apply (updatedUser now user row) = updatedUser now user row := by
  have hc : req.apply (updatedUser now user row) = updatedUser now (req.apply user) row := by
    cases req <;> rfl
  rw [hc, h]

/-- A record that is up to date carries the setting, unless its call is for the same field. -/
theorem sameField_or_apply (hc : call.current user row = true) (hrow : setting.apply row = row) :
    (∃ req pc, call = .admin req pc ∧ (req.userID = setting.userID → setting.sameField req = true)) ∨
    setting.apply user = user := by
  cases setting with
  | suspendUser userID =>
    have hs : row.status = .suspended := by rw [← hrow]; rfl
    have ha : user.status = row.status → apply user (.suspendUser userID) = user := by
      intro heq
      simp [apply, ← hs, ← heq]
    rcases call with ⟨req, pc⟩ | ⟨userID' | ⟨userID', role⟩, pc⟩
    · simp only [AccountCall.current, Bool.and_eq_true, decide_eq_true_eq] at hc
      exact .inr (ha hc.1)
    · exact .inl ⟨_, _, rfl, fun heq => decide_eq_true heq.symm⟩
    · exact .inr (ha (of_decide_eq_true hc))
  | setUserRole userID role =>
    have hrole : row.role = role := by rw [← hrow]; rfl
    have ha : user.role = row.role → apply user (.setUserRole userID role) = user := by
      intro heq
      simp [apply, ← hrole, ← heq]
    rcases call with ⟨req, pc⟩ | ⟨userID' | ⟨userID', role'⟩, pc⟩
    · simp only [AccountCall.current, Bool.and_eq_true, decide_eq_true_eq] at hc
      exact .inr (ha hc.2)
    · exact .inr (ha (of_decide_eq_true hc))
    · exact .inl ⟨_, _, rfl, fun heq => decide_eq_true heq.symm⟩

/-- An `Update` with the field set leaves it set, or fails. -/
theorem stored_update (now : Time) {user : User} {db : AuthDb}
    (hid : user.id = setting.userID) (ha : setting.apply user = user)
    (hok : updateUserResult user db = .ok ()) : setting.Stored (updateUser now user db) := by
  rcases updateUser_cases now user db with ⟨err, he, -⟩ | ⟨-, row, hrow, hu⟩
  · rw [hok] at he
    cases he
  · have hk : row.id = user.id := key_of_find? hrow
    rw [hu, stored_iff]
    refine ⟨updatedUser now user row, ?_, apply_updatedUser ha⟩
    rw [find?_put, if_pos]
    exact hid.symm.trans hk.symm

theorem updating_of_nextUpdate (h : (AccountCall.admin req pc).nextUpdate input = some user) :
    pc = .updating user ∧ input.fault = none := by
  cases pc with
  | updating user' =>
    simp only [nextUpdate, Option.ite_none_right_eq_some, Option.some.injEq,
      Option.isNone_iff_eq_none] at h
    exact ⟨by rw [h.2], h.1⟩
  | _ => cases h

section

variable (hstep : UsersStep input call db db') (hcall : call.Inv db)
  (hok : ∀ user row, call.nextUpdate input = some user → db.users.find? user.id = some row →
    call.current user row = true)
include hstep hcall hok

/-- A step keeps a setting, unless it is the `Update` of a call for the same field. -/
theorem stored_step (h : setting.Stored db) :
    (∃ req user, call = .admin req (.updating user) ∧ input.fault = none ∧
      setting.sameField req = true) ∨ setting.Stored db' := by
  obtain ⟨row, hrow, ha⟩ := stored_iff.mp h
  cases hstep with
  | keep hnone husers =>
    refine .inr (stored_iff.mpr ⟨row, ?_, ha⟩)
    rw [husers, hrow]
  | create user hnone hnew husers =>
    refine .inr (stored_iff.mpr ⟨row, ?_, ha⟩)
    have hne : setting.userID ≠ user.id := by
      intro heq
      rw [heq, hnew] at hrow
      cases hrow
    rw [husers, find?_put, if_neg hne, hrow]
  | update user hu husers =>
    rcases updateUser_cases input.now user db with ⟨err, -, hs⟩ | ⟨hre, row', hrow', hput⟩
    · refine .inr (stored_iff.mpr ⟨row, ?_, ha⟩)
      rw [husers, hs, hrow]
    · by_cases hid : user.id = setting.userID
      · rw [← hid] at hrow
        rcases sameField_or_apply (hok user row hu hrow) ha with
          ⟨req, pc, hr, hfi⟩ | huser
        · rw [hr] at hu hcall
          obtain ⟨hpc, hf⟩ := updating_of_nextUpdate hu
          rw [hpc] at hr hcall
          exact .inl ⟨req, user, hr, hf, hfi (hcall.1.symm.trans hid)⟩
        · have hstored := stored_update input.now hid huser hre
          rw [stored_iff] at hstored ⊢
          rw [husers]
          exact .inr hstored
      · refine .inr (stored_iff.mpr ⟨row, ?_, ha⟩)
        have hk : row'.id = user.id := key_of_find? hrow'
        have hne : setting.userID ≠ row'.id := fun heq => hid (hk.symm.trans heq.symm)
        rw [husers, hput, find?_put]
        exact (if_neg hne).trans hrow

/-- No step takes a suspension back. -/
theorem suspended_step {userID : String} (h : (suspendUser userID).Stored db) : (suspendUser userID).Stored db' := by
  rcases stored_step hstep hcall hok h with ⟨req, user, hr, hf, hfi⟩ | hstored
  · -- another suspension of the same user
    cases req with
    | setUserRole userID' role => cases hfi
    | suspendUser userID' =>
      have hs : userID = userID' := of_decide_eq_true hfi
      subst hr hs
      have hn : nextUpdate input (.admin (.suspendUser userID) (.updating user)) =
          some user := by simp [nextUpdate, hf]
      cases hstep with
      | keep hnone => cases hn.symm.trans hnone
      | create user' hnone => cases hn.symm.trans hnone
      | update user' hup husers =>
        obtain rfl : user = user' := Option.some.inj (hn.symm.trans hup)
        have hc : (suspendUser userID).Stored db' ↔
            (suspendUser userID).Stored (updateUser input.now user db) := by
          simp [AdminRequest.Stored, husers]
        rw [hc]
        rcases updateUser_cases input.now user db with ⟨err, -, hu⟩ | ⟨hre, -⟩
        · rw [hu]
          exact h
        · exact stored_update input.now hcall.1 hcall.2 hre
  · exact hstored

end

theorem inv_admin_step (req : AdminRequest) (input : StepInput) (pc : AdminPc) (db : AuthDb)
    (h : (AccountCall.admin req pc).Inv db) :
    (AccountCall.admin req (req.step input pc db).1).Inv (req.step input pc db).2 := by
  cases pc with
  | start =>
    simp only [step]
    split
    · trivial
    · trivial
    · split
      · trivial
      next user hg =>
        have hk : user.id = req.userID := key_of_find? (Option.eq_some_of_filter_eq_some hg)
        cases req <;> exact ⟨hk, rfl⟩
  | updating user =>
    simp only [step]
    split
    · trivial
    · split
      · trivial
      next hr => exact stored_update input.now h.1 h.2 hr
      · trivial
  | ending =>
    simp only [step]
    split <;> trivial
  | done result => exact h

def AccountsInv (w : Accounts) : Prop := ∀ call ∈ w.calls, call.Inv w.shared

theorem current_of_stepOk {w : Accounts} {i : Nat}
    (hcall : w.calls[i]? = some call) (hok : accountStepOk w (.run i input) = true) (user row : User)
    (hu : call.nextUpdate input = some user)
    (hrow : w.shared.users.find? user.id = some row) : call.current user row = true := by
  simpa [accountStepOk, hcall, hu, hrow] using hok

theorem AccountCall.Inv.mono (hk : ∀ userID, (suspendUser userID).Stored db →
      (suspendUser userID).Stored db') (h : call.Inv db) : call.Inv db' := by
  cases call with
  | authenticate req pc => trivial
  | admin req pc =>
    cases pc with
    | updating user => exact h
    | ending =>
      cases req with
      | suspendUser userID => exact hk userID h
      | setUserRole userID role => exact h
    | _ => trivial

theorem accountsInv_next (service : Service) (w : Accounts)
    (event : Calls.Event AccountRequest StepInput) (h : AccountsInv w)
    (hok : accountStepOk w event = true) : AccountsInv (service.accounts.next w event) := by
  refine Calls.Machine.forall_calls_next (fun call db => AccountCall.Inv db call) h ?_ ?_
  · intro request
    cases request <;> trivial
  · intro i input call he hg hcall
    subst he
    constructor
    · cases call with
      | authenticate req pc => trivial
      | admin req pc => exact inv_admin_step req input pc w.shared hcall
    · intro other hother
      refine AccountCall.Inv.mono (fun userID hstored => ?_) hother
      exact suspended_step (usersStep service input call w.shared) hcall
        (current_of_stepOk hg hok) hstored

/-- A step of an administrator's call that returns with success leaves the field set. -/
theorem stored_of_returns (hpc : ∀ result, pc ≠ .done result) (h : (AccountCall.admin req pc).Inv db)
    (hd : (req.step input pc db).1 = .done (.ok ())) : req.Stored (req.step input pc db).2 := by
  cases pc with
  | start =>
    simp only [step] at hd
    split at hd
    · cases hd
    · cases hd
    · split at hd <;> cases hd
  | updating user =>
    cases hf : input.fault with
    | some err => simp [step, hf] at hd
    | none =>
      simp only [step, hf] at hd ⊢
      cases hr : updateUserResult user db with
      | error err => simp [hr] at hd
      | ok _ =>
        cases req with
        | suspendUser userID => simp [hr] at hd
        | setUserRole userID role => exact stored_update input.now h.1 h.2 hr
  | ending =>
    cases req with
    | setUserRole userID role => exact absurd h id
    | suspendUser userID =>
      simp only [step]
      split <;> exact h
  | done result => exact absurd rfl (hpc result)

section

variable (service : Service) {w : Accounts} {setting : AdminRequest}
  {event : Calls.Event AccountRequest StepInput} (h : AccountsInv w)
include service h

theorem stored_of_succeeds (hs : succeeds w event = some setting) :
    setting.Stored (service.accounts.next w event).shared := by
  cases event with
  | start request => cases hs
  | run i input =>
    cases hg : w.calls[i]? with
    | none => simp [succeeds, hg] at hs
    | some call =>
      cases call with
      | authenticate req pc => simp [succeeds, hg] at hs
      | admin req pc =>
        have hcall := h _ (mem_of_getElem? hg)
        simp only [Calls.Machine.next, hg]
        simp only [succeeds, hg] at hs
        split at hs
        · cases hs
        next req' pc' hpc heq =>
          cases heq
          split at hs
          next hd =>
            cases hs
            exact stored_of_returns hpc hcall hd
          · cases hs
        · cases hs

theorem stored_next (hok : accountStepOk w event = true) (hstored : setting.Stored w.shared) :
    changesField setting w event = true ∨
      setting.Stored (service.accounts.next w event).shared := by
  refine Calls.Machine.next_rule
    (fun w' => changesField setting w event = true ∨ setting.Stored w'.shared) (.inr hstored)
    (fun _ _ => .inr hstored) ?_
  intro i input call he hg
  subst he
  rcases stored_step (usersStep service input call w.shared) (h call (mem_of_getElem? hg))
    (current_of_stepOk hg hok) hstored with ⟨req, user, hcall, hf, hfi⟩ | hs'
  · subst hcall
    refine .inl ?_
    simp [changesField, hg, hf, hfi]
  · exact .inr hs'

end

/-- **A setting that was made with success stays** until the `Update` of another call for the same
field, in every run in which every `Update` finds the status and the role as its call has read
them. -/
theorem settings_stay (service : Service) (db : AuthDb) (before after : List (Calls.Event AccountRequest StepInput))
    (event : Calls.Event AccountRequest StepInput) (setting : AdminRequest)
    (hok : Run.AllSteps service.accounts.next (fun w e => accountStepOk w e = true) (.idle db)
      (before ++ event :: after))
    (hsucceeds : succeeds (before.foldl service.accounts.next (.idle db)) event = some setting) :
    Run.Until service.accounts.next (fun w => setting.Stored w.shared)
      (fun w e => changesField setting w e = true)
      ((before ++ [event]).foldl service.accounts.next (.idle db)) after := by
  obtain ⟨hb, hev, ha⟩ := Run.allSteps_append.mp hok
  have hk := accountsInv_next service
  have hi : AccountsInv (before.foldl service.accounts.next (.idle db)) := by
    have hid : AccountsInv (.idle db) := fun call hcall => absurd hcall not_mem_nil
    have hr := Run.invariant_of_allSteps AccountsInv hk hid hb before.length
    rwa [take_length] at hr
  rw [foldl_append]
  refine Run.until_of_allSteps AccountsInv hk ?_ (hk _ event hi hev)
    (stored_of_succeeds service hi hsucceeds) ha
  intro w e hw he hstored
  exact stored_next service hw he hstored

def oneUser : AuthDb :=
  { users := empty.put
      { id := "u", publicKey := List.replicate 32 1, keyType := .ed25519
        publicKeyFingerprint := "f", name := "ann", email := "", status := .active, role := .user
        locale := "", createdAt := 0, updatedAt := 0, lastLoginAt := none }
    sessions := .empty }

def login : AccountRequest :=
  .authenticate
    { publicKey := List.replicate 32 1, keyType := .ed25519, name := "", email := "", locale := ""
      sessionType := .grpc, clientIP := "", clientAgent := "", metadata := .empty }

def quietInput (now : Time) : StepInput := { now, fault := none, random := some [] }

theorem settings_stay_login_later : Run.Until plainService.accounts.next
      (fun w => (AdminRequest.suspendUser "u").Stored w.shared)
      (fun w e => changesField (.suspendUser "u") w e = true)
      ([.start (.admin (.suspendUser "u")), .run 0 (quietInput 1), .run 0 (quietInput 2),
        .run 0 (quietInput 3)].foldl plainService.accounts.next (.idle oneUser))
      [.start login, .run 1 (quietInput 4), .run 1 (quietInput 5)] :=
  settings_stay plainService oneUser
    [.start (.admin (.suspendUser "u")), .run 0 (quietInput 1), .run 0 (quietInput 2)]
    [.start login, .run 1 (quietInput 4), .run 1 (quietInput 5)] (.run 0 (quietInput 3))
    (.suspendUser "u") (by decide +kernel) (by decide +kernel)

/-- A login that has read the user before the suspension writes the status back after it. -/
theorem login_undoes_suspension :
    let w := [.start login, .run 0 (quietInput 1), .start (.admin (.suspendUser "u")),
      .run 1 (quietInput 2), .run 1 (quietInput 3)].foldl plainService.accounts.next (.idle oneUser)
    succeeds w (.run 1 (quietInput 4)) = some (.suspendUser "u") ∧
    ¬Run.Until plainService.accounts.next
      (fun w => (AdminRequest.suspendUser "u").Stored w.shared)
      (fun w e => changesField (.suspendUser "u") w e = true)
      (plainService.accounts.next w (.run 1 (quietInput 4))) [.run 0 (quietInput 5)] := by
  refine ⟨by decide +kernel, ?_⟩
  rw [Run.Until, Run.Until]
  decide +kernel

end Bib.Auth
