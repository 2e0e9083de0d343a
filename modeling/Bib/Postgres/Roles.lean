import Bib.Domain.Chunk

/-!
# Bib.Postgres.Roles

**The credentials of a node and the SQL that puts them into the database**
(`postgres/credentials/credentials.go` and `postgres/roles.go`). The database is a map from role name to
password, and statements are data. A text of several statements is one implicit transaction. What it has done to
a lookup is said by `get?_createRoles` and `dropRoles_eq_ok`.
-/

namespace Bib.Postgres

open Bib.Domain Bib.Lib List Table
open KeyMap (delete get? get?_set)

/-! ### Credentials -/

abbrev DBRole := String

def roleAdmin : DBRole := "bibd_admin"

def roleScrape : DBRole := "bibd_scrape"

def roleQuery : DBRole := "bibd_query"

def roleTransform : DBRole := "bibd_transform"

def roleAudit : DBRole := "bibd_audit"

def roleReadOnly : DBRole := "bibd_readonly"

def superuserName : String := "bibd_superuser"

def jobRoles : List DBRole :=
  [roleScrape, roleQuery, roleTransform, roleAudit, roleReadOnly]

def generatedNames : List String := superuserName :: roleAdmin :: jobRoles

inductive EncryptionMethod
  | x25519
  | hkdf
  | hybrid
  deriving DecidableEq

inductive CredentialStatus
  | active
  | retiring
  | expired
  deriving DecidableEq

structure RoleCredential where
  (username password : String)
  (createdAt expiresAt : Time)
  status : CredentialStatus
  deriving DecidableEq

/-- `Credentials`, without the reference to the previous set, which `Rotate` sets and clears. -/
structure Credentials where
  version : Int
  (generatedAt expiresAt : Time)
  encryptionMethod : EncryptionMethod
  (superuser admin : RoleCredential)
  roles : KeyMap DBRole RoleCredential
  deriving DecidableEq

def Credentials.roleKeys (creds : Credentials) : List DBRole := creds.roles.rows.map Prod.fst

/-- The part of the manager's `Config` that generating and rotating read. -/
structure Config where
  rotationInterval : Int
  /-- `RotationGracePeriod`, as a duration prints. -/
  rotationGracePeriod : String
  passwordLength : Nat
  encryptionMethod : EncryptionMethod

/-! ### Generating -/

/-- One read from `crypto/rand`: the bytes it yields, or an error text. -/
abbrev Entropy := Except String (Nat → UInt8)

def password (length : Nat) (read : Nat → UInt8) : String :=
  hexEncode ((List.range (length / 2)).map read)

def generatePassword (length : Nat) : Entropy → Except String String
  | .error err => .error ("failed to generate random bytes: " ++ err)
  | .ok read => .ok (password length read)

def freshCredential (config : Config) (now : Time) (username password : String) : RoleCredential :=
  { username, password, createdAt := now, expiresAt := now + config.rotationInterval, status := .active }

/-- The loop of `generate` over the job roles; `i` counts the reads. -/
def generateRoles (config : Config) (now : Time) (entropy : Nat → Entropy) :
    Nat → List DBRole → KeyMap DBRole RoleCredential → Except String (KeyMap DBRole RoleCredential)
  | _, [], acc => .ok acc
  | i, role :: rest, acc =>
    match generatePassword config.passwordLength (entropy i) with
    | .error err => .error err
    | .ok pass =>
      generateRoles config now entropy (i + 1) rest
        (acc.set role (freshCredential config now role pass))

/-- `Manager.generate`. The reads are numbered: superuser, admin, then the job roles. -/
def generate (config : Config) (now : Time) (entropy : Nat → Entropy) : Except String Credentials :=
  match generatePassword config.passwordLength (entropy 0) with
  | .error err => .error err
  | .ok superPass =>
    match generatePassword config.passwordLength (entropy 1) with
    | .error err => .error err
    | .ok adminPass =>
      match generateRoles config now entropy 2 jobRoles empty with
      | .error err => .error err
      | .ok roles =>
        .ok { version := 1
              generatedAt := now
              expiresAt := now + config.rotationInterval
              encryptionMethod := config.encryptionMethod
              superuser := freshCredential config now superuserName superPass
              admin := freshCredential config now roleAdmin adminPass
              roles }

/-- What all generated credentials have in common: the names of the roles are fixed, and a
job credential's username is the key it is under. -/
structure Generated (creds : Credentials) : Prop where
  superuser : creds.superuser.username = superuserName
  admin : creds.admin.username = roleAdmin
  roles : ∀ role, role ∈ creds.roleKeys ↔ role ∈ jobRoles
  username : ∀ entry ∈ creds.roles.rows, entry.2.username = entry.1

theorem generatePassword_eq_ok {length : Nat} {read : Entropy} {pass : String}
    (h : generatePassword length read = .ok pass) :
    ∃ bytes, read = .ok bytes ∧ pass = password length bytes := by
  cases read with
  | error err => cases h
  | ok bytes =>
    cases h
    exact ⟨bytes, rfl, rfl⟩

section Generate

variable {config : Config} {now : Time} {entropy : Nat → Entropy}

theorem generateRoles_eq_ok {i : Nat} {roles : List DBRole}
    {acc result : KeyMap DBRole RoleCredential}
    (h : generateRoles config now entropy i roles acc = .ok result)
    (ha : ∀ entry ∈ acc.rows, entry.2.username = entry.1) :
    (∀ role, role ∈ result.rows.map Prod.fst ↔ role ∈ roles ∨ role ∈ acc.rows.map Prod.fst) ∧
      ∀ entry ∈ result.rows, entry.2.username = entry.1 := by
  induction roles generalizing i acc with
  | nil =>
    cases h
    exact ⟨fun role => by simp, ha⟩
  | cons role rest ih =>
    rw [generateRoles] at h
    cases hp : generatePassword config.passwordLength (entropy i) with
    | error err =>
      rw [hp] at h
      cases h
    | ok pass =>
      rw [hp] at h
      have hs : ∀ entry ∈ (acc.set role (freshCredential config now role pass)).rows,
          entry.2.username = entry.1 := by
        intro entry he
        rcases mem_put.mp he with rfl | ⟨he, -⟩
        · rfl
        · exact ha entry he
      obtain ⟨hkeys, hn⟩ := ih h hs
      refine ⟨fun name => ?_, hn⟩
      rw [hkeys name, mem_cons]
      simp only [KeyMap.set, mem_map, mem_put]
      constructor
      · rintro (hna | ⟨entry, rfl | ⟨he, -⟩, rfl⟩)
        · exact .inl (.inr hna)
        · exact .inl (.inl rfl)
        · exact .inr ⟨entry, he, rfl⟩
      · rintro ((rfl | hna) | ⟨entry, he, rfl⟩)
        · exact .inr ⟨_, .inl rfl, rfl⟩
        · exact .inl hna
        · by_cases hrole : entry.1 = role
          · exact .inr ⟨_, .inl rfl, hrole.symm⟩
          · exact .inr ⟨entry, .inr ⟨he, hrole⟩, rfl⟩

/-- `generate` draws the superuser's password first, and its result is `Generated`. -/
theorem generate_eq_ok {creds : Credentials} (h : generate config now entropy = .ok creds) :
    Generated creds ∧ ∃ bytes, entropy 0 = .ok bytes ∧
      creds.superuser.password = password config.passwordLength bytes := by
  rw [generate] at h
  cases hs : generatePassword config.passwordLength (entropy 0) with
  | error err =>
    rw [hs] at h
    cases h
  | ok superPass =>
    cases ha : generatePassword config.passwordLength (entropy 1) with
    | error err =>
      rw [hs, ha] at h
      cases h
    | ok adminPass =>
      cases hr : generateRoles config now entropy 2 jobRoles empty with
      | error err =>
        rw [hs, ha, hr] at h
        cases h
      | ok roles =>
        rw [hs, ha, hr] at h
        cases h
        obtain ⟨hkeys, hn⟩ := generateRoles_eq_ok hr (by simp [empty])
        refine ⟨⟨rfl, rfl, fun role => ?_, hn⟩, ?_⟩
        · rw [Credentials.roleKeys, hkeys role]
          simp [empty]
        · exact generatePassword_eq_ok hs

end Generate

/-! ### The database and its statements -/

/-- The login roles of the database, with their passwords. -/
abbrev Database := KeyMap String String

inductive Statement
  /-- `IF NOT EXISTS … THEN CREATE ROLE … END IF`. -/
  | createIfMissing (name password : String)
  /-- `IF NOT EXISTS … THEN CREATE ROLE … ELSE ALTER ROLE … WITH PASSWORD … END IF`. -/
  | createOrAlter (name password : String)
  /-- `GRANT role TO admin`. -/
  | grant (role admin : String)
  /-- `REVOKE ALL PRIVILEGES … FROM role`. -/
  | revokeAll (role : String)
  /-- `DROP ROLE IF EXISTS name`. -/
  | dropIfExists (name : String)

def Database.exists? (db : Database) (name : String) : Bool := (db.get? name).isSome

/-- The error of a statement that names a role the database does not have. -/
def noSuchRole (name : String) : String := "role \"" ++ name ++ "\" does not exist"

def Statement.exec (db : Database) : Statement → Except String Database
  | createIfMissing name password => .ok (if db.exists? name then db else db.set name password)
  | createOrAlter name password => .ok (db.set name password)
  | grant role admin =>
    if !db.exists? role then .error (noSuchRole role)
    else if !db.exists? admin then .error (noSuchRole admin)
    else .ok db
  | revokeAll role => if db.exists? role then .ok db else .error (noSuchRole role)
  | dropIfExists name => .ok (db.delete name)

def execAll : Database → List Statement → Except String Database
  | db, [] => .ok db
  | db, stmt :: rest =>
    match stmt.exec db with
    | .error err => .error err
    | .ok db' => execAll db' rest

/-- `conn.Exec`: the whole text or nothing. `refused` is an error of the connection, or of the
database for a reason outside the model (objects that depend on a role, missing rights). -/
def connExec (refused : Option String) (db : Database) (sql : List Statement) : Except String Database :=
  match refused with
  | some err => .error err
  | none => execAll db sql

def roleDefinitions : List DBRole :=
  [roleScrape, roleQuery, roleTransform, roleAudit, roleReadOnly, roleAdmin]

/-- The statement for one job role; none if the role is not defined. -/
def createJobRole (entry : DBRole × RoleCredential) : Option Statement :=
  if entry.1 ∈ roleDefinitions then some (.createOrAlter entry.2.username entry.2.password)
  else none

/-- `GenerateCreateRolesSQL`. The order of a map's entries is the order of its rows; any other
order gives the same database for generated credentials. -/
def generateCreateRolesSQL (creds : Credentials) : List Statement :=
  .createIfMissing creds.superuser.username creds.superuser.password ::
  .createOrAlter creds.admin.username creds.admin.password ::
  (creds.roles.rows.filterMap createJobRole ++
    creds.roleKeys.map fun role => .grant role creds.admin.username)

/-- The names `GenerateDropRolesSQL` drops: the keys of `Roles`, then the admin. -/
def droppedNames (creds : Credentials) : List String := creds.roleKeys ++ [creds.admin.username]

/-- `GenerateDropRolesSQL`. The two `REVOKE` lines of a role are one statement here. -/
def generateDropRolesSQL (creds : Credentials) : List Statement :=
  creds.roleKeys.map .revokeAll ++ (droppedNames creds).map .dropIfExists

def createRoles (refused : Option String) (db : Database) (creds : Credentials) : Except String Database :=
  (connExec refused db (generateCreateRolesSQL creds)).mapError ("failed to create roles: " ++ ·)

def dropRoles (refused : Option String) (db : Database) (creds : Credentials) : Except String Database :=
  (connExec refused db (generateDropRolesSQL creds)).mapError ("failed to drop roles: " ++ ·)

/-! ### What the texts do to a lookup -/

section Lookup

variable {db db' : Database} {creds : Credentials} {refused : Option String}

theorem exists?_eq_true_iff {name : String} : db.exists? name = true ↔ db.get? name ≠ none := by
  rw [Database.exists?, Option.isSome_iff_ne_none]

theorem execAll_append (first second : List Statement) : execAll db (first ++ second) =
      match execAll db first with
      | .error err => .error err
      | .ok db' => execAll db' second := by
  induction first generalizing db with
  | nil => rfl
  | cons stmt rest ih =>
    rw [cons_append, execAll, execAll]
    cases stmt.exec db with
    | error err => rfl
    | ok db₁ => exact ih

theorem execAll_append_eq_ok {first second : List Statement} :
    execAll db (first ++ second) = .ok db' ↔
      ∃ db₁, execAll db first = .ok db₁ ∧ execAll db₁ second = .ok db' := by
  rw [execAll_append]
  cases execAll db first <;> simp

theorem mapError_eq_ok {f : String → String} {result : Except String Database} :
    result.mapError f = .ok db' ↔ result = .ok db' := by
  cases result <;> simp [Except.mapError]

theorem connExec_eq_ok {sql : List Statement} :
    connExec refused db sql = .ok db' ↔ refused = none ∧ execAll db sql = .ok db' := by
  cases refused <;> simp [connExec]

theorem execAll_cons_eq_ok {stmt : Statement} {rest : List Statement} :
    execAll db (stmt :: rest) = .ok db' ↔
      ∃ db₁, stmt.exec db = .ok db₁ ∧ execAll db₁ rest = .ok db' := by
  rw [execAll]
  cases stmt.exec db <;> simp

variable {roles : List DBRole}

theorem execAll_grant {admin : String}
    (h : execAll db (roles.map fun role => .grant role admin) = .ok db') : db' = db := by
  induction roles with
  | nil =>
    cases h
    rfl
  | cons role rest ih =>
    obtain ⟨db₁, hg, hrest⟩ := execAll_cons_eq_ok.mp h
    have hdb : db₁ = db := by
      simp only [Statement.exec] at hg
      split at hg
      · cases hg
      · split at hg
        · cases hg
        · cases hg
          rfl
    rw [hdb] at hrest
    exact ih hrest

/-- `REVOKE` changes no password, and fails for a role that does not exist. -/
theorem execAll_revoke : execAll db (roles.map .revokeAll) = .ok db' ↔
      (∀ role ∈ roles, db.get? role ≠ none) ∧ db' = db := by
  induction roles with
  | nil => simp [execAll, eq_comm]
  | cons role rest ih =>
    rw [map_cons, execAll, Statement.exec, forall_mem_cons]
    by_cases hrole : db.exists? role = true
    · rw [if_pos hrole, and_assoc, ← ih]
      exact ⟨fun h => ⟨exists?_eq_true_iff.mp hrole, h⟩, fun h => h.2⟩
    · rw [if_neg hrole]
      have hnone := mt exists?_eq_true_iff.mpr hrole
      constructor
      · intro h
        cases h
      · intro h
        exact absurd h.1.1 hnone

theorem execAll_drop (names : List String) : execAll db (names.map .dropIfExists) = .ok (names.foldl delete db) := by
  induction names generalizing db with
  | nil => rfl
  | cons name rest ih => exact ih

theorem get?_foldl_delete (names : List String) (name : String) :
    get? (names.foldl delete db) name =
      if name ∈ names then none else db.get? name := by
  induction names generalizing db with
  | nil => simp
  | cons dropped rest ih =>
    rw [foldl_cons, ih, KeyMap.get?_delete]
    by_cases hrest : name ∈ rest
    · simp [hrest]
    · simp [hrest]

/-- `DropRoles` succeeds if all job roles of the set exist, and then removes every role it
names, whatever its password. -/
theorem dropRoles_eq_ok : dropRoles refused db creds = .ok db' ↔
      refused = none ∧ (∀ role ∈ creds.roleKeys, db.get? role ≠ none) ∧
        db' = (droppedNames creds).foldl delete db := by
  rw [dropRoles, mapError_eq_ok, connExec_eq_ok, generateDropRolesSQL, execAll_append_eq_ok]
  refine and_congr_right fun _ => ?_
  constructor
  · rintro ⟨db₁, hr, hd⟩
    obtain ⟨he, rfl⟩ := execAll_revoke.mp hr
    rw [execAll_drop] at hd
    cases hd
    exact ⟨he, rfl⟩
  · rintro ⟨he, rfl⟩
    exact ⟨db, execAll_revoke.mpr ⟨he, rfl⟩, execAll_drop _⟩

theorem get?_createJobRoles {entries : List (DBRole × RoleCredential)}
    (h : execAll db (entries.filterMap createJobRole) = .ok db')
    (hn : (entries.map Prod.fst).Nodup) (hd : ∀ entry ∈ entries, entry.1 ∈ roleDefinitions)
    (hna : ∀ entry ∈ entries, entry.2.username = entry.1) :
    (∀ entry ∈ entries, db'.get? entry.1 = some entry.2.password) ∧
      ∀ name, name ∉ entries.map Prod.fst → db'.get? name = db.get? name := by
  induction entries generalizing db with
  | nil =>
    cases h
    exact ⟨fun entry he => absurd he not_mem_nil, fun name _ => rfl⟩
  | cons entry rest ih =>
    rw [forall_mem_cons] at hd hna
    rw [map_cons, nodup_cons] at hn
    rw [filterMap_cons, createJobRole, if_pos hd.1, hna.1] at h
    obtain ⟨hrest, hother⟩ := ih h hn.2 hd.2 hna.2
    refine ⟨forall_mem_cons.mpr ⟨?_, hrest⟩, fun name hno => ?_⟩
    · rw [hother entry.1 hn.1, get?_set, if_pos rfl]
    · rw [map_cons, mem_cons, not_or] at hno
      rw [hother name hno.2, get?_set, if_neg hno.1]

/-- After `CreateRoles` with generated credentials the admin and the job roles have their new
passwords. An existing superuser keeps the old one. -/
theorem get?_createRoles (hg : Generated creds) (h : createRoles refused db creds = .ok db') :
    (db'.get? superuserName =
        some ((db.get? superuserName).getD creds.superuser.password)) ∧
      (db'.get? roleAdmin = some creds.admin.password) ∧
      (∀ entry ∈ creds.roles.rows, db'.get? entry.1 = some entry.2.password) ∧
      ∀ name, name ∉ generatedNames → db'.get? name = db.get? name := by
  rw [createRoles, mapError_eq_ok, connExec_eq_ok] at h
  obtain ⟨dbSuper, hs, hrest⟩ := execAll_cons_eq_ok.mp h.2
  obtain ⟨dbAdmin, ha, hrest⟩ := execAll_cons_eq_ok.mp hrest
  obtain ⟨dbJobs, hjo, hgr⟩ := execAll_append_eq_ok.mp hrest
  cases execAll_grant hgr
  cases ha
  cases hs
  have hk : ∀ entry ∈ creds.roles.rows, entry.1 ∈ jobRoles := fun entry he =>
    (hg.roles entry.1).mp (mem_map_of_mem he)
  have hd : ∀ entry ∈ creds.roles.rows, entry.1 ∈ roleDefinitions := fun entry he =>
    (by decide : ∀ role ∈ jobRoles, role ∈ roleDefinitions) entry.1 (hk entry he)
  obtain ⟨hj, hother⟩ := get?_createJobRoles hjo creds.roles.nodup hd hg.username
  have hn : ∀ name, name ∉ jobRoles → name ∉ creds.roles.rows.map Prod.fst :=
    fun name hna hmem => hna ((hg.roles name).mp hmem)
  rw [hg.superuser, hg.admin] at hother
  refine ⟨?_, ?_, hj, fun name hna => ?_⟩
  · rw [hother _ (hn _ (by decide)), get?_set]
    by_cases hexists : db.exists? superuserName = true
    · rw [if_pos hexists]
      obtain ⟨pass, hp⟩ := Option.ne_none_iff_exists'.mp (exists?_eq_true_iff.mp hexists)
      rw [hp]
      rfl
    · have hnone : db.get? superuserName = none := by
        simpa [exists?_eq_true_iff] using hexists
      rw [if_neg hexists, get?_set, hnone]
      rfl
  · rw [hother _ (hn _ (by decide)), get?_set, if_pos rfl]
  · rw [generatedNames, mem_cons, mem_cons, not_or, not_or] at hna
    rw [hother name (hn name hna.2.2), get?_set, if_neg hna.2.1]
    split
    · rfl
    · rw [get?_set, if_neg hna.1]

end Lookup

end Bib.Postgres
