import Bib.Audit.Redact

/-!
# Bib.Audit.RedactMetadata

**The metadata of an entry** (`RedactMetadata` in `storage/audit/redact.go`). What stands under a sensitive key
is replaced, in the map itself and in maps below it; a list is kept as it is, with the maps in it.
-/

namespace Bib.Audit.Redact

/-- A value of metadata: maps and lists over scalars. A map has its keys in order; a nil map is a scalar, as
both are kept. -/
inductive Value (S : Type)
  | text (value : Text)
  | scalar (value : S)
  | list (n : Nat) (values : Fin n → Value S)
  | map (keys : List Text) (values : Fin keys.length → Value S)

section Metadata

variable {S : Type} (u : Unicode) (r : Redactor)

def redactMetadata : Value S → Value S
  | .map keys values => .map keys fun k =>
    if isSensitiveField u r (keys.get k) then .text r.parameterPlaceholder else redactMetadata (values k)
  | value => value

/-- The values differ only in what is stored under sensitive keys; in lists too, if `deep`. -/
inductive Alike (deep : Bool) : Value S → Value S → Prop
  | same (value : Value S) : Alike deep value value
  | list {n : Nat} {values values' : Fin n → Value S} (hd : deep = true)
      (h : ∀ k, Alike deep (values k) (values' k)) : Alike deep (.list n values) (.list n values')
  | map {keys : List Text} {values values' : Fin keys.length → Value S}
      (h : ∀ k, isSensitiveField u r (keys.get k) = false → Alike deep (values k) (values' k)) :
      Alike deep (.map keys values) (.map keys values')

variable {u r}

theorem Alike.redactMetadata_eq {v v' : Value S} (h : Alike u r false v v') :
    redactMetadata u r v = redactMetadata u r v' := by
  induction h with
  | same value => rfl
  | list hd => cases hd
  | map _ ih =>
    simp only [redactMetadata, Value.map.injEq, heq_eq_eq, true_and]
    refine funext fun k => ?_
    split
    · rfl
    next hk => exact ih k (Bool.eq_false_iff.mpr hk)

theorem alike_of_redactMetadata_eq {v v' : Value S} (h : redactMetadata u r v = redactMetadata u r v') :
    Alike u r false v v' := by
  induction v generalizing v' with
  | map keys values ih =>
    cases v' with
    | map keys' values' =>
      simp only [redactMetadata, Value.map.injEq] at h
      obtain ⟨rfl, h⟩ := h
      refine .map fun k hk => ih k ?_
      have hk' := congrFun (eq_of_heq h) k
      rwa [if_neg (Bool.eq_false_iff.mp hk), if_neg (Bool.eq_false_iff.mp hk)] at hk'
    | _ => cases h
  | _ =>
    cases v' <;> cases h
    exact .same _

variable (u r)

/-- **Two values are redacted to the same one exactly if they differ only in what is stored under sensitive keys
outside of lists.** -/
theorem metadata_redacted_iff (v v' : Value S) :
    redactMetadata u r v = redactMetadata u r v' ↔ Alike u r false v v' :=
  ⟨alike_of_redactMetadata_eq, Alike.redactMetadata_eq⟩

end Metadata

def userList (password : Text) : Value Unit :=
  .map ["users".toList] fun _ => .list 1 fun _ => .map ["password".toList] fun _ => .text password

/-- A password in a list of maps stays in the log. -/
theorem password_in_list_kept : Alike ascii defaultRedactor true (userList ['x']) (userList ['y']) ∧
    redactMetadata ascii defaultRedactor (userList ['x']) ≠
      redactMetadata ascii defaultRedactor (userList ['y']) := by
  constructor
  · refine .map fun _ _ => .list rfl fun _ => .map fun k hk => ?_
    cases Fin.fin_one_eq_zero k
    exact absurd hk (by decide +kernel)
  · intro h
    have hu : ¬ isSensitiveField ascii defaultRedactor (["users".toList].get 0) = true := by decide +kernel
    have hl := congrFun (eq_of_heq (Value.map.inj h).2) 0
    rw [if_neg hu, if_neg hu] at hl
    have hm := congrFun (eq_of_heq (Value.list.inj hl).2) 0
    have hp := congrFun (eq_of_heq (Value.map.inj hm).2) 0
    exact absurd (Value.text.inj hp) (by decide)

end Bib.Audit.Redact
