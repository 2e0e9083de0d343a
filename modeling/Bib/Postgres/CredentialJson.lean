import Bib.Lib.Json.Encoded
import Bib.Lib.Json.Nested
import Bib.Postgres.Roles
import Mathlib.Data.List.Sort

/-!
# Bib.Postgres.CredentialJson

**Credential sets as JSON**, as `Storage` writes them before it encrypts them.

`WireCredentials` has Go's own types, so that every text can be read. A set of `Bib.Postgres.Roles` is
written in this form (`Credentials.wire`), if RFC 3339 has texts for its times, and is read back as
it was (`unmarshalCredentials_marshal`). A previous set, which no file of a manager holds, is
read and not kept.
-/

namespace Bib.Postgres

open Bib.Domain Bib.Lib Bib.Lib.Json Bib.Lib.Calendar List
open Option (bind_eq_bind bind_eq_some_iff bind_some isSome_iff_exists map_eq_some_iff)

/-! ### The form that is written -/

/-- `RoleCredential` with Go's own types. -/
structure WireRole where
  (username password : Bytes)
  (createdAt expiresAt : Stamp)
  status : Bytes
  deriving DecidableEq

/-- `Credentials` with Go's own types; the rows of the map are in the order of their keys. -/
structure WireCredentials where
  version : Int64
  (generatedAt expiresAt : Stamp)
  encryptionMethod : Bytes
  (superuser admin : WireRole)
  roles : Option (KeyMap Bytes WireRole)
  deriving DecidableEq

/-- The zero time is the beginning of the year 1. -/
def zeroStamp : Stamp := ⟨-62135596800000000000, 0⟩

def WireRole.zero : WireRole :=
  { username := [], password := [], createdAt := zeroStamp, expiresAt := zeroStamp, status := [] }

def WireCredentials.zero : WireCredentials :=
  { version := 0, generatedAt := zeroStamp, expiresAt := zeroStamp, encryptionMethod := []
    superuser := .zero, admin := .zero, roles := none }

def EncryptionMethod.text : EncryptionMethod → String
  | x25519 => "x25519-xsalsa20-poly1305"
  | hkdf => "hkdf-sha256-aes256-gcm"
  | hybrid => "hybrid"

def CredentialStatus.text : CredentialStatus → String
  | active => "active"
  | retiring => "retiring"
  | expired => "expired"

def utc (t : Time) : Stamp := ⟨t, 0⟩

@[simp] theorem received_utc (t : Time) : (utc t).received = utc t := by
  simp [utc, Stamp.received, Stamp.zone]

def RoleCredential.wire (role : RoleCredential) : WireRole :=
  { username := utf8 role.username, password := utf8 role.password, createdAt := utc role.createdAt
    expiresAt := utc role.expiresAt, status := utf8 role.status.text }

/-- The order in which `encoding/json` writes the entries of a map. -/
def KeyLe (a b : Bytes × WireRole) : Prop := ¬ b.1 < a.1

instance : DecidableRel KeyLe := fun a b => inferInstanceAs (Decidable (¬ b.1 < a.1))

def wireRoles (roles : KeyMap DBRole RoleCredential) : KeyMap Bytes WireRole where
  rows := (roles.rows.map fun row => (utf8 row.1, row.2.wire)).insertionSort KeyLe
  nodup := by
    have hkeys : (roles.rows.map fun row => (utf8 row.1, row.2.wire)).map Prod.fst =
        (roles.rows.map Prod.fst).map utf8 := by simp
    rw [((List.perm_insertionSort KeyLe _).map Prod.fst).nodup_iff, hkeys]
    exact roles.nodup.map utf8_injective

def Credentials.wire (creds : Credentials) : WireCredentials :=
  { version := Int64.ofInt creds.version, generatedAt := utc creds.generatedAt
    expiresAt := utc creds.expiresAt, encryptionMethod := utf8 creds.encryptionMethod.text
    superuser := creds.superuser.wire, admin := creds.admin.wire, roles := some (wireRoles creds.roles) }

/-! ### Writing -/

def WireRole.members (role : WireRole) (created expires : Text) : List (Text × Text) :=
  [(quote (utf8 "username"), quote role.username), (quote (utf8 "password"), quote role.password),
    (quote (utf8 "created_at"), quoted created), (quote (utf8 "expires_at"), quoted expires),
    (quote (utf8 "status"), quote role.status)]

/-- `json.Marshal` of a role; it fails if RFC 3339 has no text for a time. -/
def WireRole.marshal (role : WireRole) : Option Text :=
  (format role.createdAt).bind fun created =>
    (format role.expiresAt).map fun expires => objectText (role.members created expires)

def marshalEntry (row : Bytes × WireRole) : Option (Text × Text) :=
  row.2.marshal.map fun text => (row.1, text)

/-- The keys of a map with the texts of its values. -/
def marshalRoles : Option (KeyMap Bytes WireRole) → Option (Option (List (Text × Text)))
  | none => some none
  | some roles => (roles.rows.mapM marshalEntry).map some

def WireCredentials.members (creds : WireCredentials) (generated expires superuser admin : Text)
    (roles : Option (List (Text × Text))) : List (Text × Text) :=
  [(quote (utf8 "version"), intText creds.version.toInt), (quote (utf8 "generated_at"), quoted generated),
    (quote (utf8 "expires_at"), quoted expires),
    (quote (utf8 "encryption_method"), quote creds.encryptionMethod),
    (quote (utf8 "superuser"), superuser), (quote (utf8 "admin"), admin),
    (quote (utf8 "roles"), mapText roles)]

def WireCredentials.marshal (creds : WireCredentials) : Option Text :=
  (format creds.generatedAt).bind fun generated =>
    (format creds.expiresAt).bind fun expires =>
      creds.superuser.marshal.bind fun superuser =>
        creds.admin.marshal.bind fun admin =>
          (marshalRoles creds.roles).map fun roles =>
            objectText (creds.members generated expires superuser admin roles)

/-! ### Reading -/

def roleFields (other : Leniency) : List (StructField WireRole) :=
  [stringField (utf8 "username") fun username role => { role with username },
    stringField (utf8 "password") fun password role => { role with password },
    timeField other (utf8 "created_at") fun createdAt role => { role with createdAt },
    timeField other (utf8 "expires_at") fun expiresAt role => { role with expiresAt },
    stringField (utf8 "status") fun status role => { role with status }]

def setFields (other : Leniency) : List (StructField WireCredentials) :=
  [intField (utf8 "version") fun n creds => { creds with version := Int64.ofInt n },
    timeField other (utf8 "generated_at") fun generatedAt creds => { creds with generatedAt },
    timeField other (utf8 "expires_at") fun expiresAt creds => { creds with expiresAt },
    stringField (utf8 "encryption_method") fun encryptionMethod creds => { creds with encryptionMethod },
    structField (utf8 "superuser") (roleFields other) WireCredentials.superuser fun superuser creds =>
      { creds with superuser },
    structField (utf8 "admin") (roleFields other) WireCredentials.admin fun admin creds =>
      { creds with admin },
    mapField (utf8 "roles") (decodeStruct (roleFields other) .zero) WireCredentials.roles
      fun roles creds => { creds with roles }]

/-- The fields of a set inside of which previous sets are nested no deeper than the number. -/
def credentialFields (other : Leniency) : Nat → List (StructField WireCredentials)
  | 0 => setFields other
  | n + 1 =>
    setFields other ++
      [{ name := utf8 "previous"
         set := fun value creds =>
           (decodeStruct (credentialFields other n) .zero value).map fun _ => creds }]

/-- `json.Unmarshal` of a set; the scanner refuses deeper texts. -/
def unmarshalCredentials (other : Leniency) (text : Text) : Except DecodeError WireCredentials :=
  unmarshal (credentialFields other (maxNestingDepth + 1)) .zero text

/-! ### A set is read back -/

section Roles

variable {role : RoleCredential} {created expires text : Text}

theorem marshal_wire_eq_some (h : role.wire.marshal = some text) :
    ∃ created expires, format (utc role.createdAt) = some created ∧
      format (utc role.expiresAt) = some expires ∧ text = objectText (role.wire.members created expires) := by
  obtain ⟨created, hc, hrest⟩ := bind_eq_some_iff.mp h
  obtain ⟨expires, he, ht⟩ := map_eq_some_iff.mp hrest
  exact ⟨created, expires, hc, he, ht.symm⟩

theorem isMember_roleMembers (hc : format (utc role.createdAt) = some created)
    (he : format (utc role.expiresAt) = some expires) :
    ∀ m ∈ role.wire.members created expires, IsMember 0 m := by
  intro m hm
  simp only [WireRole.members, mem_cons, not_mem_nil, or_false] at hm
  rcases hm with rfl | rfl | rfl | rfl | rfl
  · exact isMember_quote (isString_quote _).isValue
  · exact isMember_quote (isString_quote _).isValue
  · exact isMember_quote (isValue_quoted_format hc)
  · exact isMember_quote (isValue_quoted_format he)
  · exact isMember_quote (isString_quote _).isValue

theorem foldlM_roleMembers (other : Leniency) (hc : format (utc role.createdAt) = some created)
    (he : format (utc role.expiresAt) = some expires) :
    (role.wire.members created expires).foldlM (setMember (roleFields other)) .zero = some role.wire := by
  simp only [WireRole.members, foldlM_cons, foldlM_nil, bind_eq_bind]
  rw [setMember_string (utf8 "username") (by decide) rfl, bind_some,
    setMember_string (utf8 "password") (by decide) rfl, bind_some,
    setMember_time other (utf8 "created_at") (by decide) rfl hc, bind_some,
    setMember_time other (utf8 "expires_at") (by decide) rfl he, bind_some,
    setMember_string (utf8 "status") (by decide) rfl]
  simp only [received_utc, RoleCredential.wire, toValid_utf8]
  rfl

theorem isValue_marshal_wire (h : role.wire.marshal = some text) : IsValue 1 text := by
  obtain ⟨created, expires, hc, he, rfl⟩ := marshal_wire_eq_some h
  exact isValue_objectText (isMember_roleMembers hc he)

theorem decodeStruct_marshal_wire (other : Leniency) (h : role.wire.marshal = some text) :
    decodeStruct (roleFields other) .zero text = some role.wire := by
  obtain ⟨created, expires, hc, he, rfl⟩ := marshal_wire_eq_some h
  have hme : ∀ m ∈ role.wire.members created expires, IsMember maxNestingDepth m := fun m hm =>
    have h := isMember_roleMembers hc he m hm
    ⟨h.1, h.2.mono (Nat.zero_le _)⟩
  rw [decodeStruct_objectText hme, foldlM_roleMembers other hc he]

theorem setMember_role {A : Type} {fields : List (StructField A)} (name : Text) {other : Leniency}
    (get : A → WireRole) (set : WireRole → A → A) (hvalid : validUTF8 name)
    (hf : findField fields name = some (structField name (roleFields other) get set))
    (h : role.wire.marshal = some text) {a : A} (ha : get a = .zero) :
    setMember fields a (quote name, text) = some (set role.wire a) := by
  obtain ⟨created, expires, hc, he, rfl⟩ := marshal_wire_eq_some h
  refine setMember_struct name hvalid hf (fun m hm => ?_) a ?_
  · have hme := isMember_roleMembers hc he m hm
    exact ⟨hme.1, hme.2.mono (Nat.zero_le _)⟩
  · rw [ha]
    exact foldlM_roleMembers other hc he

theorem marshal_wire_isSome_iff : role.wire.marshal.isSome ↔
      (format (utc role.createdAt)).isSome ∧ (format (utc role.expiresAt)).isSome := by
  simp only [WireRole.marshal, RoleCredential.wire]
  cases format (utc role.createdAt) <;> simp

end Roles

section Sets

variable {creds : Credentials} {text : Text} {roles : KeyMap DBRole RoleCredential}
  {rows : List (Bytes × WireRole)} {entries : List (Text × Text)}

theorem mem_wireRoles {row : Bytes × WireRole} :
    row ∈ (wireRoles roles).rows ↔ ∃ entry ∈ roles.rows, (utf8 entry.1, entry.2.wire) = row := by
  rw [wireRoles, mem_insertionSort, mem_map]

theorem forall₂_of_mapM (h : rows.mapM marshalEntry = some entries) :
    List.Forall₂ (fun row entry => marshalEntry row = some entry) rows entries := by
  induction rows generalizing entries with
  | nil =>
    cases h
    exact .nil
  | cons row rows ih =>
    rw [mapM_cons] at h
    obtain ⟨entry, hen, hrest⟩ := bind_eq_some_iff.mp h
    obtain ⟨entries', he, hc⟩ := bind_eq_some_iff.mp hrest
    cases hc
    exact .cons hen (ih he)

theorem entries_of_marshalRoles (other : Leniency) (h : (wireRoles roles).rows.mapM marshalEntry = some entries) :
    (∀ entry ∈ entries, IsValue 1 entry.2) ∧ List.Forall₂ (fun row entry => entry.1 = row.1 ∧
        decodeStruct (roleFields other) .zero entry.2 = some row.2) (wireRoles roles).rows entries := by
  have hw := forall₂_of_mapM h
  have hwi : ∀ row ∈ (wireRoles roles).rows, ∃ role : RoleCredential, row.2 = role.wire := by
    intro row hrow
    obtain ⟨entry, -, rfl⟩ := mem_wireRoles.mp hrow
    exact ⟨entry.2, rfl⟩
  clear h
  generalize (wireRoles roles).rows = rows at hw hwi ⊢
  induction hw with
  | nil => exact ⟨by simp, .nil⟩
  | @cons row entry rows entries he hrest ih =>
    obtain ⟨role, hrole⟩ := hwi row mem_cons_self
    obtain ⟨text, ht, rfl⟩ := map_eq_some_iff.mp he
    rw [hrole] at ht
    obtain ⟨hv, hread⟩ := ih fun r hr => hwi r (mem_cons_of_mem _ hr)
    refine ⟨forall_mem_cons.mpr ⟨isValue_marshal_wire ht, hv⟩, .cons ⟨rfl, ?_⟩ hread⟩
    rw [hrole]
    exact decodeStruct_marshal_wire other ht

theorem marshal_creds_eq_some (h : creds.wire.marshal = some text) :
    ∃ generated expires superuser admin entries,
      format (utc creds.generatedAt) = some generated ∧ format (utc creds.expiresAt) = some expires ∧
      creds.superuser.wire.marshal = some superuser ∧ creds.admin.wire.marshal = some admin ∧
      (wireRoles creds.roles).rows.mapM marshalEntry = some entries ∧
      text = objectText (creds.wire.members generated expires superuser admin (some entries)) := by
  obtain ⟨generated, hg, h⟩ := bind_eq_some_iff.mp h
  obtain ⟨expires, hex, h⟩ := bind_eq_some_iff.mp h
  obtain ⟨superuser, hs, h⟩ := bind_eq_some_iff.mp h
  obtain ⟨admin, ha, h⟩ := bind_eq_some_iff.mp h
  obtain ⟨roles, hr, ht⟩ := map_eq_some_iff.mp h
  obtain ⟨entries, he, rfl⟩ := map_eq_some_iff.mp hr
  exact ⟨generated, expires, superuser, admin, entries, hg, hex, hs, ha, he, ht.symm⟩

/-- **A set that has been written as JSON is read back.** -/
theorem unmarshalCredentials_marshal (other : Leniency) (h : creds.wire.marshal = some text) :
    unmarshalCredentials other text = .ok creds.wire := by
  obtain ⟨generated, expires, superuser, admin, entries, hg, hex, hs, had,
    he, rfl⟩ := marshal_creds_eq_some h
  obtain ⟨hv, hread⟩ := entries_of_marshalRoles other he
  have hme : ∀ m ∈ creds.wire.members generated expires superuser admin (some entries),
      IsMember 2 m := by
    intro m hm
    simp only [WireCredentials.members, mem_cons, not_mem_nil, or_false] at hm
    rcases hm with rfl | rfl | rfl | rfl | rfl | rfl | rfl
    · exact isMember_quote (isValue_intText 2 _)
    · exact isMember_quote ((isValue_quoted_format hg).mono (by decide))
    · exact isMember_quote ((isValue_quoted_format hex).mono (by decide))
    · exact isMember_quote (isString_quote _).isValue
    · exact isMember_quote ((isValue_marshal_wire hs).mono (by decide))
    · exact isMember_quote ((isValue_marshal_wire had).mono (by decide))
    · refine isMember_quote (isValue_mapText fun list hl entry hen => ?_)
      cases hl
      exact hv entry hen
  refine unmarshal_eq_ok (by decide) hme ?_
  have hsu : ∀ a : WireCredentials, a.superuser = .zero →
      setMember (credentialFields other (maxNestingDepth + 1)) a (quote (utf8 "superuser"), superuser) =
        some { a with superuser := creds.superuser.wire } := fun a ha =>
    setMember_role (utf8 "superuser") WireCredentials.superuser
      (fun superuser creds => { creds with superuser }) (by decide) rfl hs ha
  have had : ∀ a : WireCredentials, a.admin = .zero →
      setMember (credentialFields other (maxNestingDepth + 1)) a (quote (utf8 "admin"), admin) =
        some { a with admin := creds.admin.wire } := fun a ha =>
    setMember_role (utf8 "admin") WireCredentials.admin (fun admin creds => { creds with admin })
      (by decide) rfl had ha
  have hkeys : ∀ row ∈ (wireRoles creds.roles).rows, validUTF8 row.1 := by
    intro row hrow
    obtain ⟨entry, -, rfl⟩ := mem_wireRoles.mp hrow
    exact validUTF8_utf8 entry.1
  have hr : ∀ a : WireCredentials, a.roles = none →
      setMember (credentialFields other (maxNestingDepth + 1)) a
          (quote (utf8 "roles"), mapText (some entries)) =
        some { a with roles := some (wireRoles creds.roles) } := by
    intro a ha
    have hf : findField (credentialFields other (maxNestingDepth + 1)) (utf8 "roles") =
        some (mapField (utf8 "roles") (decodeStruct (roleFields other) .zero) WireCredentials.roles
          fun roles creds => { creds with roles }) := rfl
    exact setMember_map (utf8 "roles") (by decide) hf a ha
      (fun entry hen => (hv entry hen).mono (by decide)) hkeys hread
  simp only [WireCredentials.members, foldlM_cons, foldlM_nil, bind_eq_bind]
  rw [setMember_int (utf8 "version") (by decide) rfl, bind_some,
    setMember_time other (utf8 "generated_at") (by decide) rfl hg, bind_some,
    setMember_time other (utf8 "expires_at") (by decide) rfl hex, bind_some,
    setMember_string (utf8 "encryption_method") (by decide) rfl, bind_some,
    hsu _ rfl, bind_some, had _ rfl, bind_some, hr _ rfl, bind_some]
  simp only [received_utc, Int64.ofInt_toInt, Credentials.wire, toValid_utf8]
  rfl

/-- All times of the set are the given ones. -/
structure Credentials.Dated (creds : Credentials) (created expires : Time) : Prop where
  generatedAt : creds.generatedAt = created
  expiresAt : creds.expiresAt = expires
  superuser : creds.superuser.createdAt = created ∧ creds.superuser.expiresAt = expires
  admin : creds.admin.createdAt = created ∧ creds.admin.expiresAt = expires
  roles : ∀ entry ∈ creds.roles.rows, entry.2.createdAt = created ∧ entry.2.expiresAt = expires

theorem isSome_mapM (h : ∀ row ∈ rows, (marshalEntry row).isSome) : (rows.mapM marshalEntry).isSome := by
  induction rows with
  | nil => rfl
  | cons row rows ih =>
    obtain ⟨entry, hen⟩ := isSome_iff_exists.mp (h row mem_cons_self)
    obtain ⟨entries, he⟩ := isSome_iff_exists.mp (ih fun r hr => h r (mem_cons_of_mem _ hr))
    simp [mapM_cons, hen, he]

theorem Credentials.Dated.marshal_isSome_iff {created expires : Time} (h : creds.Dated created expires) :
    creds.wire.marshal.isSome ↔ (format (utc created)).isSome ∧ (format (utc expires)).isSome := by
  constructor
  · intro hsome
    obtain ⟨text, ht⟩ := isSome_iff_exists.mp hsome
    obtain ⟨_, _, _, _, _, hg, hex, _⟩ := marshal_creds_eq_some ht
    rw [h.generatedAt] at hg
    rw [h.expiresAt] at hex
    simp [hg, hex]
  · intro hsome
    have hrole : ∀ role : RoleCredential, role.createdAt = created ∧ role.expiresAt = expires →
        role.wire.marshal.isSome := by
      intro role hrole
      rw [marshal_wire_isSome_iff, hrole.1, hrole.2]
      exact hsome
    have he : ((wireRoles creds.roles).rows.mapM marshalEntry).isSome := by
      refine isSome_mapM fun row hrow => ?_
      obtain ⟨entry, hen, rfl⟩ := mem_wireRoles.mp hrow
      rw [marshalEntry, Option.isSome_map]
      exact hrole entry.2 (h.roles entry hen)
    obtain ⟨generated, hg⟩ := isSome_iff_exists.mp hsome.1
    obtain ⟨expiresText, hex⟩ := isSome_iff_exists.mp hsome.2
    obtain ⟨superuser, hs⟩ := isSome_iff_exists.mp (hrole _ h.superuser)
    obtain ⟨admin, ha⟩ := isSome_iff_exists.mp (hrole _ h.admin)
    obtain ⟨entries, he⟩ := isSome_iff_exists.mp he
    simp [WireCredentials.marshal, Credentials.wire, h.generatedAt, h.expiresAt, hg, hex,
      hs, ha, marshalRoles, he]

end Sets

end Bib.Postgres
