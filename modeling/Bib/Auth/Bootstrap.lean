import Bib.Auth.Accounts

/-!
# Bib.Auth.Bootstrap

**The first administrator.** `Authenticate` registers unknown keys, and whoever finds no users becomes an
administrator. `IsFirstUser` and `Create` are two storage calls, so several first logins can all be told that
they are the first (`two_first_logins`). A login never changes the role of its user.
-/

namespace Bib.Auth

open Bib.Domain Bib.Lib List Function

/-- Any number of logins; a step is a storage call. -/
def Service.logins (service : Service) :
    Calls.Machine AuthDb AuthenticateRequest (AuthenticateRequest × AuthPc) StepInput where
  init req := (req, .lookup)
  step input call db :=
    ((call.1, (service.step call.1 input call.2 db).1), (service.step call.1 input call.2 db).2)

abbrev Logins := Calls.World AuthDb (AuthenticateRequest × AuthPc)
abbrev LoginEvent := Calls.Event AuthenticateRequest StepInput

def OneAdmin (db : AuthDb) : Prop :=
  ∀ a ∈ db.users.rows, ∀ b ∈ db.users.rows, a.role = .admin → b.role = .admin → a.id = b.id

/-- The condition on an event: an administrator that is created is the first user. -/
def BootstrapOk (w : Logins) : LoginEvent → Prop
  | .start _ => True
  | .run i input => ∀ req user, w.calls[i]? = some (req, .creating user) → input.fault = none →
      (createUser user w.shared).isOk = true → user.role = .admin → w.shared.users.rows = []

/-! ### Roles in the table -/

def profile (db : AuthDb) (id : String) : Option (UserRole × UserStatus) :=
  (db.users.find? id).map fun user => (user.role, user.status)

/-- What logins make of the table: everybody is active, and the first is an administrator. -/
structure TableInv (p : String → Option (UserRole × UserStatus)) : Prop where
  active : ∀ id role status, p id = some (role, status) → status = .active
  admin : (∃ id, p id ≠ none) → ∃ id, p id = some (.admin, .active)

def LoginInv (call : AuthenticateRequest × AuthPc) (p : String → Option (UserRole × UserStatus)) : Prop :=
  match call.2 with
  | .creating user => user.status = .active ∧ (user.role ≠ .admin → ∃ id, p id ≠ none)
  | .identified user _ => p user.id = some (user.role, user.status)
  | _ => True

variable {service : Service} {req : AuthenticateRequest} {pc : AuthPc} {db : AuthDb} {user : User}

theorem profile_of_mem (h : user ∈ db.users.rows) : profile db user.id = some (user.role, user.status) := by
  rw [profile, Table.mem_rows_iff.mp h, Option.map_some]

theorem exists_of_profile {id : String} {role : UserRole} {status : UserStatus}
    (h : profile db id = some (role, status)) : ∃ user ∈ db.users.rows, user.id = id ∧ user.role = role := by
  obtain ⟨user, hf, heq⟩ := Option.map_eq_some_iff.mp h
  exact ⟨user, Table.mem_of_find? hf, Table.key_of_find? hf, (Prod.mk.inj heq).1⟩

theorem rows_eq_nil_iff : db.users.rows = [] ↔ ∀ id, profile db id = none := by
  constructor
  · intro h id
    rw [profile, Table.find?, h]
    rfl
  · intro h
    refine eq_nil_iff_forall_not_mem.mpr fun user huser => ?_
    exact Option.some_ne_none _ ((profile_of_mem huser).symm.trans (h user.id))

theorem oneAdmin_iff (h : TableInv (profile db)) :
    OneAdmin db ↔ ∀ a b, profile db a = some (.admin, .active) → profile db b = some (.admin, .active) → a = b := by
  constructor
  · intro hone a b ha hb
    obtain ⟨user, huser, rfl, hrole⟩ := exists_of_profile ha
    obtain ⟨other, hother, rfl, hr'⟩ := exists_of_profile hb
    exact hone user huser other hother hrole hr'
  · intro hone a ha b hb hrole hr'
    have hpa := profile_of_mem ha
    have hpb := profile_of_mem hb
    rw [hrole, h.active _ _ _ hpa] at hpa
    rw [hr', h.active _ _ _ hpb] at hpb
    exact hone a.id b.id hpa hpb

/-- In a table of active users, `IsFirstUser` looks for an empty table. -/
theorem isFirstUser_iff (h : TableInv (profile db)) : isFirstUser db = true ↔ ∀ id, profile db id = none := by
  rw [← rows_eq_nil_iff, isFirstUser, decide_eq_true_eq, length_eq_zero_iff, filter_eq_nil_iff]
  constructor
  · intro hall
    refine eq_nil_iff_forall_not_mem.mpr fun user huser => hall user huser ?_
    rw [h.active _ _ _ (profile_of_mem huser)]
    rfl
  · intro hn
    rw [hn]
    exact fun _ huser => (not_mem_nil huser).elim

theorem registeredUser_profile (hrole : service.cfg.defaultRole ≠ "admin") (req : AuthenticateRequest)
    (now : Time) (first : Bool) :
    (registeredUser service.sha256 service.cfg now req first).status = .active ∧
      ((registeredUser service.sha256 service.cfg now req first).role = .admin ↔ first = true) := by
  have ht : UserRole.ofText service.cfg.defaultRole ≠ .admin := by
    unfold UserRole.ofText
    rw [if_neg hrole]
    split <;> [skip; split] <;> exact UserRole.noConfusion
  unfold registeredUser newUser
  dsimp only
  cases first <;> split <;> split <;> simp_all

/-- `Update` writes the role and the status back that are there. -/
theorem profile_updateUser (now : Time) (h : profile db user.id = some (user.role, user.status)) :
    profile (updateUser now user db) = profile db := by
  obtain ⟨-, -, hs⟩ | ⟨-, row, hrow, hu⟩ := updateUser_cases now user db
  · rw [hs]
  · funext id
    have hid : (updatedUser now user row).id = user.id := show row.id = user.id from Table.key_of_find? hrow
    rw [hu, profile, Table.find?_put, hid]
    by_cases heq : id = user.id
    · rw [if_pos heq, heq, h]
      rfl
    · rw [if_neg heq]
      rfl

/-- What a step of a login does: roles and states stay as they are, or a user is created. -/
theorem login_step (input : StepInput) (hrole : service.cfg.defaultRole ≠ "admin") (ht : TableInv (profile db))
    (h : LoginInv (req, pc) (profile db)) : (profile (service.step req input pc db).2 = profile db ∧
        LoginInv (req, (service.step req input pc db).1) (profile db) ∧
        ∀ user, pc = .creating user → input.fault = none → ¬ (createUser user db).isOk = true) ∨
      ∃ user, pc = .creating user ∧ input.fault = none ∧ (createUser user db).isOk = true ∧
        profile db user.id = none ∧ (service.step req input pc db).1 = .identified user true ∧
        profile (service.step req input pc db).2 =
          update (profile db) user.id (some (user.role, user.status)) := by
  have hq : pc.quiet = true → profile (service.step req input pc db).2 = profile db := by
    intro hpc
    funext id
    rw [profile, users_step_of_quiet service req input db hpc]
    rfl
  cases pc with
  | lookup =>
    refine .inl ⟨hq rfl, ?_, fun user hpc => by cases hpc⟩
    simp only [Service.step]
    split
    · trivial
    · split
      next user hfo => exact profile_of_mem (mem_of_find?_eq_some hfo)
      · split <;> [trivial; split <;> trivial]
  | registering =>
    refine .inl ⟨hq rfl, ?_, fun user hpc => by cases hpc⟩
    simp only [Service.step]
    split
    · trivial
    · obtain ⟨ha, had⟩ := registeredUser_profile hrole req input.now (isFirstUser db)
      refine ⟨ha, fun hother => ?_⟩
      rw [Ne, had, isFirstUser_iff ht] at hother
      exact not_forall.mp hother
  | creating user =>
    cases hf : input.fault with
    | some err =>
      simp only [Service.step, hf]
      exact .inl ⟨trivial, trivial, fun _ _ hnone => by cases hnone⟩
    | none =>
      cases hc : createUser user db with
      | error err =>
        simp only [Service.step, hf, hc]
        refine .inl ⟨trivial, trivial, fun other hpc _ => ?_⟩
        cases hpc
        rw [hc]
        exact Bool.false_ne_true
      | ok db' =>
        obtain ⟨hnew, husers⟩ := users_of_createUser hc
        have hstep : service.step req input (.creating user) db = (.identified user true, db') := by
          simp only [Service.step, hf, hc]
        rw [hstep]
        refine .inr ⟨user, rfl, rfl, by rw [hc]; rfl, by rw [profile, hnew]; rfl, rfl, ?_⟩
        funext id
        rw [profile, husers, Table.find?_put, update_apply, apply_ite (Option.map _)]
        rfl
  | identified user isNew =>
    refine .inl ?_
    simp only [Service.step]
    split
    · exact ⟨rfl, trivial, fun _ hpc => by cases hpc⟩
    · refine ⟨?_, ?_, fun _ hpc => by cases hpc⟩
      · split <;> dsimp only <;> split <;> [rfl; exact profile_updateUser _ h; rfl; exact profile_updateUser _ h]
      · split <;> trivial
  | counting user isNew now =>
    refine .inl ⟨hq rfl, ?_, fun user hpc => by cases hpc⟩
    simp only [Service.step]
    split <;> [split <;> trivial; trivial]
  | ending user isNew now oldest => exact .inl ⟨hq rfl, trivial, fun user hpc => by cases hpc⟩
  | opening user isNew now =>
    refine .inl ⟨hq rfl, ?_, fun user hpc => by cases hpc⟩
    simp only [Service.step]
    split <;> [trivial; split <;> trivial]
  | done result => exact .inl ⟨hq rfl, trivial, fun user hpc => by cases hpc⟩

/-! ### Creating a user -/

section Create

variable {p : String → Option (UserRole × UserStatus)} {user : User} (hnew : p user.id = none)
include hnew

theorem update_of_some {id : String} {x : UserRole × UserStatus} (h : p id = some x) :
    update p user.id (some (user.role, user.status)) id = some x := by
  rw [update_of_ne, h]
  rintro rfl
  rw [hnew] at h
  cases h

theorem TableInv.create (h : TableInv p) (hl : LoginInv (req, .creating user) p) :
    TableInv (update p user.id (some (user.role, user.status))) where
  active id role status hid := by
    rw [update_apply] at hid
    split at hid
    · cases hid
      exact hl.1
    · exact h.active id role status hid
  admin _ := by
    by_cases ha : user.role = .admin
    · exact ⟨user.id, by rw [update_self, ha, hl.1]⟩
    · obtain ⟨id, hid⟩ := h.admin (hl.2 ha)
      exact ⟨id, update_of_some hnew hid⟩

theorem LoginInv.create {call : AuthenticateRequest × AuthPc} (h : LoginInv call p) :
    LoginInv call (update p user.id (some (user.role, user.status))) := by
  obtain ⟨req, pc⟩ := call
  cases pc with
  | creating other =>
    refine ⟨h.1, fun _ => ⟨user.id, ?_⟩⟩
    rw [update_self]
    exact Option.some_ne_none _
  | identified other isNew => exact update_of_some hnew h
  | _ => trivial

/-- With at most one administrator before, there is at most one after exactly if a new one is the first user. -/
theorem oneAdmin_create_iff (h : TableInv p) (hac : user.status = .active)
    (hone : ∀ a b, p a = some (.admin, .active) → p b = some (.admin, .active) → a = b) :
    (∀ a b, update p user.id (some (user.role, user.status)) a = some (.admin, .active) →
        update p user.id (some (user.role, user.status)) b = some (.admin, .active) → a = b) ↔
      (user.role = .admin → ∀ id, p id = none) := by
  constructor
  · intro hall had
    by_contra hsome
    obtain ⟨id, hid⟩ := h.admin (not_forall.mp hsome)
    have heq := hall user.id id (by rw [update_self, had, hac]) (update_of_some hnew hid)
    rw [← heq, hnew] at hid
    cases hid
  · intro hf a b ha hb
    have hc : ∀ {id}, update p user.id (some (user.role, user.status)) id = some (.admin, .active) →
        (id = user.id ∧ user.role = .admin) ∨ p id = some (.admin, .active) := by
      intro id hid
      rw [update_apply] at hid
      split at hid
      next heq => exact .inl ⟨heq, (Prod.mk.inj (Option.some.inj hid)).1⟩
      · exact .inr hid
    -- an administrator that was there excludes a new one
    have hno : ∀ {id}, p id = some (.admin, .active) → user.role ≠ .admin := by
      intro id hid had
      rw [hf had id] at hid
      cases hid
    obtain ⟨hae, had⟩ | ha := hc ha
    · obtain ⟨hbe, -⟩ | hb := hc hb
      · rw [hae, hbe]
      · exact absurd had (hno hb)
    · obtain ⟨-, had⟩ | hb := hc hb
      · exact absurd had (hno ha)
      · exact hone a b ha hb

end Create

/-! ### Runs -/

structure LoginsInv (w : Logins) : Prop where
  table : TableInv (profile w.shared)
  calls : ∀ call ∈ w.calls, LoginInv call (profile w.shared)

theorem loginsInv_next (hrole : service.cfg.defaultRole ≠ "admin") {w : Logins} (h : LoginsInv w)
    (event : LoginEvent) : LoginsInv (service.logins.next w event) := by
  refine ⟨?_, Calls.Machine.forall_calls_next (fun call db => LoginInv call (profile db)) h.calls
    (fun _ => trivial) ?_⟩
  · refine Calls.Machine.next_rule (fun w => TableInv (profile w.shared)) h.table (fun _ _ => h.table) ?_
    intro i input call _ hg
    have hl := h.calls call (mem_of_getElem? hg)
    obtain ⟨req, pc⟩ := call
    rcases login_step input hrole h.table hl with ⟨hs, -⟩ | ⟨user, rfl, -, -, hnew, -, hu⟩
    · show TableInv (profile (service.step req input pc w.shared).2)
      rw [hs]
      exact h.table
    · show TableInv (profile (service.step req input (.creating user) w.shared).2)
      rw [hu]
      exact h.table.create hnew hl
  · intro i input call _ _ hl
    obtain ⟨req, pc⟩ := call
    show LoginInv (req, (service.step req input pc w.shared).1) (profile (service.step req input pc w.shared).2) ∧
      ∀ other, LoginInv other (profile w.shared) → LoginInv other (profile (service.step req input pc w.shared).2)
    rcases login_step input hrole h.table hl with ⟨hs, hse, -⟩ | ⟨user, rfl, -, -, hnew, hn, hu⟩
    · rw [hs]
      exact ⟨hse, fun _ hother => hother⟩
    · rw [hn, hu]
      refine ⟨?_, fun _ hother => hother.create hnew⟩
      show update _ user.id _ user.id = _
      rw [update_self]

theorem oneAdmin_next_iff (hrole : service.cfg.defaultRole ≠ "admin") {w : Logins} (h : LoginsInv w)
    (hone : OneAdmin w.shared) (event : LoginEvent) :
    OneAdmin (service.logins.next w event).shared ↔ BootstrapOk w event := by
  have hn := oneAdmin_iff (loginsInv_next hrole h event).table
  rw [oneAdmin_iff h.table] at hone
  cases event with
  | start request => exact iff_of_true (hn.mpr hone) trivial
  | run i input =>
    cases hg : w.calls[i]? with
    | none =>
      simp only [Calls.Machine.next, hg] at hn ⊢
      refine iff_of_true (hn.mpr hone) fun req user hcall => ?_
      rw [hg] at hcall
      cases hcall
    | some call =>
      have hl := h.calls call (mem_of_getElem? hg)
      obtain ⟨req, pc⟩ := call
      simp only [Calls.Machine.next, hg] at hn ⊢
      rw [hn]
      simp only [BootstrapOk, hg, Option.some.injEq, Prod.mk.injEq]
      rcases login_step input hrole h.table hl with
        ⟨hs, -, hr⟩ | ⟨user, rfl, hf, hok, hnew, -, hu⟩
      · rw [show profile (service.logins.step input (req, pc) w.shared).2 = profile w.shared from hs]
        refine iff_of_true hone fun _ user hcall hf hok => ?_
        exact absurd hok (hr user hcall.2 hf)
      · rw [show profile (service.logins.step input (req, .creating user) w.shared).2 = _ from hu,
          oneAdmin_create_iff hnew h.table hl.1 hone, rows_eq_nil_iff]
        constructor
        · intro hfi _ other hcall _ _ ha
          cases hcall.2
          exact hfi ha
        · intro hfi ha
          exact hfi req user ⟨rfl, rfl⟩ hf hok ha

/-- **Logins from an empty table make at most one administrator exactly as long as every administrator is created in
an empty table.** -/
theorem one_bootstrap_admin_iff (service : Service) (hrole : service.cfg.defaultRole ≠ "admin")
    (sessions : Table Session.id) (events : List LoginEvent) :
    (∀ done, done <+: events → OneAdmin (done.foldl service.logins.next (.idle ⟨.empty, sessions⟩)).shared) ↔
      Run.AllSteps service.logins.next BootstrapOk (.idle ⟨.empty, sessions⟩) events := by
  refine Run.forall_prefix_iff_allSteps LoginsInv (fun w => OneAdmin w.shared)
    (fun _ event h => loginsInv_next hrole h event) (fun _ event h hone => oneAdmin_next_iff hrole h hone event) ?_ ?_
  · refine ⟨⟨fun id role status hid => ?_, fun hsome => ?_⟩, fun call hcall => (not_mem_nil hcall).elim⟩
    · cases hid
    · obtain ⟨id, hid⟩ := hsome
      exact absurd rfl hid
  · intro a ha
    cases ha

def firstLogin (byte : UInt8) : AuthenticateRequest :=
  { publicKey := List.replicate 32 byte, keyType := .ed25519, name := "u", email := "", locale := ""
    sessionType := .grpc, clientIP := "", clientAgent := "", metadata := .empty }

/-- One login up to its `Create`, and then a second one. -/
def loginsInTurn : List LoginEvent :=
  [.start (firstLogin 1), .run 0 (quietInput 1), .run 0 (quietInput 2), .run 0 (quietInput 3),
    .start (firstLogin 2), .run 1 (quietInput 4), .run 1 (quietInput 5), .run 1 (quietInput 6)]

theorem one_bootstrap_admin_inTurn : plainService.cfg.defaultRole ≠ "admin" ∧
      (∀ done, done <+: loginsInTurn →
        OneAdmin (done.foldl plainService.logins.next (.idle ⟨.empty, .empty⟩)).shared) ∧
      (loginsInTurn.foldl plainService.logins.next (.idle ⟨.empty, .empty⟩)).shared.users.rows.map
        User.role = [.admin, .user] := by
  refine ⟨by decide, (one_bootstrap_admin_iff plainService (by decide) .empty loginsInTurn).mpr ?_,
    by decide +kernel⟩
  refine ⟨trivial, ?_, ?_, ?_, trivial, ?_, ?_, ?_, trivial⟩
  · rintro req user ⟨⟩
  · rintro req user ⟨⟩
  · exact fun _ _ _ _ _ _ => rfl
  · rintro req user ⟨⟩
  · rintro req user ⟨⟩
  · rintro req user ⟨⟩ - - ⟨⟩

/-- **Logins leave an administrator**: in every interleaving all users are active, and one of them is one. -/
theorem logins_leave_admin (service : Service) (hrole : service.cfg.defaultRole ≠ "admin")
    (sessions : Table Session.id) (events : List LoginEvent) :
    let users := (events.foldl service.logins.next (.idle ⟨.empty, sessions⟩)).shared.users.rows
    (∀ user ∈ users, user.status = .active) ∧ (users ≠ [] → ∃ user ∈ users, user.role = .admin) := by
  have h := (foldlRecOn (motive := LoginsInv) events _
    (b := .idle ⟨.empty, sessions⟩) ⟨⟨fun _ _ _ hid => (by cases hid), fun hsome => absurd rfl hsome.choose_spec⟩,
      fun _ hcall => (not_mem_nil hcall).elim⟩ fun _ h event _ => loginsInv_next hrole h event).table
  refine ⟨fun user hu => h.active _ _ _ (profile_of_mem hu), fun hne => ?_⟩
  obtain ⟨first, hfirst⟩ := exists_mem_of_ne_nil _ hne
  obtain ⟨id, hid⟩ := h.admin ⟨first.id, by simp [profile_of_mem hfirst]⟩
  obtain ⟨user, hu, -, hadmin⟩ := exists_of_profile hid
  exact ⟨user, hu, hadmin⟩

theorem first_login_leaves_admin : ∃ user ∈ ((.start (firstLogin 1) :: replicate 3 (.run 0 (quietInput 1))).foldl
      plainService.logins.next (.idle ⟨.empty, .empty⟩)).shared.users.rows, user.role = .admin :=
  (logins_leave_admin plainService (by decide) .empty _).2 (by decide +kernel)

/-- Two logins look for users before either is registered, and both become administrators. -/
theorem two_first_logins :
    let w := [.start (firstLogin 1), .start (firstLogin 2), .run 0 (quietInput 1), .run 1 (quietInput 1),
      .run 0 (quietInput 2), .run 1 (quietInput 2), .run 0 (quietInput 3), .run 1 (quietInput 3)].foldl
        plainService.logins.next (.idle ⟨.empty, .empty⟩)
    w.shared.users.rows.map User.role = [.admin, .admin] ∧ ¬ OneAdmin w.shared := by
  unfold OneAdmin
  decide +kernel

end Bib.Auth
