import Bib.Lib.Json.Struct
import Bib.Lib.Table

/-!
# Bib.Lib.Json.Nested

**Structs and maps inside a struct as JSON.** A struct is read into the value that the field holds
already. A map is read entry by entry into the one that is there, or into a new one, and each
entry starts from a zero value; `null` takes the map away.

A map is written with its keys in the order of its rows. Rows with distinct keys read back as they are
(`setMember_map`).
-/

namespace Bib.Lib.Json

section Fields

variable {A B : Type}

def structField (name : Text) (fields : List (StructField B)) (get : A → B) (set : B → A → A) : StructField A where
  name
  set value a := (decodeStruct fields (get a) value).map (set · a)

def setEntry (read : Text → Option B) (m : KeyMap Text B) (member : Text × Text) : Option (KeyMap Text B) :=
  (unquote member.1).bind fun key => (read member.2).map fun value => m.set key value

/-- A field that holds a map, whose values `read` reads. -/
def mapField (name : Text) (read : Text → Option B) (get : A → Option (KeyMap Text B))
    (set : Option (KeyMap Text B) → A → A) : StructField A where
  name
  set value a :=
    if isNull value then some (set none a)
    else
      (objectMembers maxNestingDepth value).bind fun members =>
        (members.foldlM (setEntry read) ((get a).getD .empty)).map fun m => set (some m) a

/-- The members of a map, given the texts of its values. -/
def entryMembers (entries : List (Text × Text)) : List (Text × Text) :=
  entries.map fun entry => (quote entry.1, entry.2)

def mapText : Option (List (Text × Text)) → Text
  | none => utf8 "null"
  | some entries => objectText (entryMembers entries)

end Fields

section Reading

variable {A B : Type} {fields : List (StructField A)} {limit : Nat}

theorem setMember_struct (name : Text) {inner : List (StructField B)} {get : A → B} {set : B → A → A}
    (hvalid : validUTF8 name) (hf : findField fields name = some (structField name inner get set))
    {members : List (Text × Text)} (hm : ∀ m ∈ members, IsMember maxNestingDepth m) (a : A)
    {b : B} (hfo : members.foldlM (setMember inner) (get a) = some b) :
    setMember fields a (quote name, objectText members) = some (set b a) := by
  rw [setMember_quote name hvalid hf]
  show (decodeStruct inner (get a) (objectText members)).map (set · a) = some (set b a)
  rw [decodeStruct_objectText hm, hfo, Option.map_some]

variable {entries : List (Text × Text)}

theorem isMember_entryMembers
    (h : ∀ entry ∈ entries, IsValue limit entry.2) : ∀ m ∈ entryMembers entries, IsMember limit m := by
  intro m hm
  obtain ⟨entry, he, rfl⟩ := List.mem_map.mp hm
  exact isMember_quote (h entry he)

theorem isValue_mapText {entries : Option (List (Text × Text))}
    (h : ∀ list ∈ entries, ∀ entry ∈ list, IsValue limit entry.2) :
    IsValue (limit + 1) (mapText entries) := by
  cases entries with
  | none => exact IsValue.mono (Nat.zero_le _) ⟨⟨.endValue, []⟩, by decide, rfl⟩
  | some entries => exact isValue_objectText (isMember_entryMembers (h entries rfl))

theorem foldlM_setEntry {read : Text → Option B} {rows : List (Text × B)} (m : KeyMap Text B)
    (hkeys : ∀ row ∈ rows, validUTF8 row.1)
    (hread : List.Forall₂ (fun row entry => entry.1 = row.1 ∧ read entry.2 = some row.2) rows entries) :
    (entryMembers entries).foldlM (setEntry read) m = some (m.putAll rows) := by
  induction hread generalizing m with
  | nil => rfl
  | @cons row entry rows entries hrow hrest ih =>
    have hk : toValid entry.1 = row.1 := by
      rw [hrow.1]
      exact (toValid_eq_self_iff _).mpr (hkeys row List.mem_cons_self)
    have hs : setEntry read m (quote entry.1, entry.2) = some (m.set row.1 row.2) := by
      simp [setEntry, unquote_quote, hk, hrow.2]
    rw [entryMembers, List.map_cons, List.foldlM_cons, hs, Option.bind_eq_bind]
    exact ih _ fun r hr => hkeys r (List.mem_cons_of_mem _ hr)

theorem setMember_map (name : Text) {read : Text → Option B} {get : A → Option (KeyMap Text B)}
    {set : Option (KeyMap Text B) → A → A} (hvalid : validUTF8 name)
    (hf : findField fields name = some (mapField name read get set)) (a : A) (hg : get a = none)
    {m : KeyMap Text B} {entries : List (Text × Text)}
    (hv : ∀ entry ∈ entries, IsValue maxNestingDepth entry.2)
    (hkeys : ∀ row ∈ m.rows, validUTF8 row.1)
    (hread : List.Forall₂ (fun row entry => entry.1 = row.1 ∧ read entry.2 = some row.2) m.rows entries) :
    setMember fields a (quote name, mapText (some entries)) = some (set (some m) a) := by
  rw [setMember_quote name hvalid hf]
  have hm : objectMembers maxNestingDepth (mapText (some entries)) = some (entryMembers entries) :=
    objectMembers_objectText (isMember_entryMembers hv)
  have hn : isNull (mapText (some entries)) = false := rfl
  simp [mapField, hn, hg, hm, foldlM_setEntry .empty hkeys hread, Table.putAll_empty m]

end Reading

end Bib.Lib.Json
