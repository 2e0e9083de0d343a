import Bib.Lib.Table

/-!
# Bib.Lib.Mirror

**A table that is kept in files, one row a file.** The file of a row is named after its key, by a function
`name` that may give two keys one name. If the files are named after their rows (`Named`), what is read under a
key is `stored` (`find?_load`), in whatever order. `Mirrors` says that the files and the table agree in what
`view` shows of a row.
-/

namespace Bib.Lib.Mirror

open Table KeyMap

variable {K R N C V : Type} [DecidableEq N] {key : R → K}
variable {name : K → N} {parse : N → C → Option R} {view : R → V}

/-- Every file that can be read has the name of its row. -/
def Named (key : R → K) (name : K → N) (parse : N → C → Option R) (files : KeyMap N C) : Prop :=
  ∀ n c r, files.get? n = some c → parse n c = some r → name (key r) = n

variable {k : K} {listing : List (N × C)} {files : KeyMap N C} {t : Table key}

theorem named_set {c : C} (h : Named key name parse files)
    (hp : ∀ r, parse (name k) c = some r → name (key r) = name k) :
    Named key name parse (files.set (name k) c) := by
  intro n c' r hg hr
  rcases get?_set_eq_some_iff.mp hg with ⟨hn, hc⟩ | ⟨-, hg'⟩
  · subst hn hc
    exact hp r hr
  · exact h n c' r hg' hr

theorem named_delete {n : N} (h : Named key name parse files) : Named key name parse (files.delete n) := by
  intro n' c r hg hr
  exact h n' c r (get?_delete_eq_some_iff.mp hg).2 hr

theorem nodup_keys (hl : listing.Perm files.rows) (hn : Named key name parse files) :
    ((listing.filterMap fun file => parse file.1 file.2).map key).Nodup := by
  have hno : (listing.map Prod.fst).Nodup := (hl.map Prod.fst).nodup_iff.mpr files.nodup
  rw [List.Nodup, List.pairwise_map, List.pairwise_filterMap]
  have hmem : ∀ file ∈ listing, files.get? file.1 = some file.2 := fun file hf =>
    get?_eq_some_iff.mpr (hl.mem_iff.mp hf)
  refine List.Pairwise.imp_of_mem ?_ (List.pairwise_map.mp hno)
  intro file file' hf hf' hne r hr r' hr' hk
  -- both files have the name of the common key
  apply hne
  rw [← hn _ _ _ (hmem file hf) hr, ← hn _ _ _ (hmem file' hf') hr', hk]

/-! ### What is read under a key -/

variable [DecidableEq K]

/-- Read the listed files into a table. -/
def load (key : R → K) (parse : N → C → Option R) (listing : List (N × C)) : Table key :=
  empty.putAll (listing.filterMap fun file => parse file.1 file.2)

/-- What the file of a key holds for this key. -/
def stored (key : R → K) (name : K → N) (parse : N → C → Option R) (files : KeyMap N C) (k : K) : Option R :=
  ((files.get? (name k)).bind (parse (name k))).filter fun r => key r = k

theorem stored_eq_some_iff {r : R} : stored key name parse files k = some r ↔
      (∃ c, files.get? (name k) = some c ∧ parse (name k) c = some r) ∧ key r = k := by
  rw [stored, Option.filter_eq_some_iff, Option.bind_eq_some_iff]
  simp

theorem eq_of_stored {k' : K} (hn : name k = name k')
    (h : (stored key name parse files k).isSome) (h' : (stored key name parse files k').isSome) :
    k = k' := by
  obtain ⟨r, hr⟩ := Option.isSome_iff_exists.mp h
  obtain ⟨r', hr'⟩ := Option.isSome_iff_exists.mp h'
  obtain ⟨⟨c, hf, hp⟩, hk⟩ := stored_eq_some_iff.mp hr
  obtain ⟨⟨c', hf', hp'⟩, hk'⟩ := stored_eq_some_iff.mp hr'
  rw [← hn, hf] at hf'
  cases hf'
  rw [← hn, hp] at hp'
  cases hp'
  rw [← hk, hk']

theorem find?_load (hl : listing.Perm files.rows) (hn : Named key name parse files) (k : K) :
    (load key parse listing).find? k = stored key name parse files k := by
  ext r
  rw [find?_eq_some_iff, load, mem_putAll_empty (nodup_keys hl hn),
    List.mem_filterMap, stored_eq_some_iff]
  constructor
  · rintro ⟨⟨file, hf, hp⟩, hk⟩
    have hg : files.get? file.1 = some file.2 := get?_eq_some_iff.mpr (hl.mem_iff.mp hf)
    have hna : name k = file.1 := hk ▸ hn _ _ _ hg hp
    rw [hna]
    exact ⟨⟨file.2, hg, hp⟩, hk⟩
  · rintro ⟨⟨c, hg, hp⟩, hk⟩
    exact ⟨⟨(name k, c), hl.mem_iff.mpr (get?_eq_some_iff.mp hg), hp⟩, hk⟩

theorem stored_set {r : R} {c : C} (hp : parse (name (key r)) c = some r) (k : K) :
    stored key name parse (files.set (name (key r)) c) k =
      if name k = name (key r) then (if k = key r then some r else none)
      else stored key name parse files k := by
  rw [stored, get?_set]
  by_cases hn : name k = name (key r)
  · rw [if_pos hn, Option.bind_some, hn, hp]
    by_cases hk : k = key r
    · simp [hk]
    · simp [hk, Ne.symm hk]
  · rw [if_neg hn, if_neg hn]
    rfl

theorem stored_delete (files : KeyMap N C) (k k' : K) :
    stored key name parse (files.delete (name k)) k' =
      if name k' = name k then none else stored key name parse files k' := by
  rw [stored, get?_delete]
  by_cases hn : name k' = name k
  · simp [hn]
  · rw [if_neg hn, if_neg hn]
    rfl

/-! ### Files that agree with a table -/

/-- The files agree with the table in what `view` shows. -/
def Mirrors (name : K → N) (parse : N → C → Option R) (view : R → V) (files : KeyMap N C) (t : Table key) : Prop :=
  ∀ k, (stored key name parse files k).map view = (t.find? k).map view

section

variable (h : Mirrors name parse view files t)
include h

theorem Mirrors.isSome_stored (k : K) : (stored key name parse files k).isSome = (t.find? k).isSome := by
  rw [← Option.isSome_map (f := view), h k, Option.isSome_map]

theorem Mirrors.eq_of_name {k k' : K} (hk : (t.find? k).isSome) (hk' : (t.find? k').isSome)
    (hn : name k = name k') : k = k' :=
  eq_of_stored hn ((h.isSome_stored k).trans hk) ((h.isSome_stored k').trans hk')

/-- Writing a row keeps files and table in step exactly if its file is not that of another row. -/
theorem mirrors_put_iff {r : R} {c : C} (hp : parse (name (key r)) c = some r) :
    Mirrors name parse view (files.set (name (key r)) c) (t.put r) ↔
      ∀ k, (t.find? k).isSome → name k = name (key r) → k = key r := by
  constructor
  · intro hnew k hk hn
    apply hnew.eq_of_name
    · rw [find?_put]
      split
      · rfl
      · exact hk
    · rw [find?_put, if_pos rfl]
      rfl
    · exact hn
  · intro hf k
    rw [stored_set hp, find?_put]
    by_cases hk : k = key r
    · simp [hk]
    · split
      next hn =>
        have hnone : t.find? k = none := by
          by_contra hsome
          exact hk (hf k (Option.isSome_iff_ne_none.mpr hsome) hn)
        rw [hnone]
      · exact h k

theorem mirrors_erase {k : K} (hk : (t.find? k).isSome) :
    Mirrors name parse view (files.delete (name k)) (t.erase k) := by
  intro k'
  rw [stored_delete, find?_erase]
  by_cases hke : k' = k
  · simp [hke]
  · split
    next hn =>
      have hnone : t.find? k' = none := by
        by_contra hsome
        exact hke (h.eq_of_name (Option.isSome_iff_ne_none.mpr hsome) hk hn)
      rw [hnone]
    · exact h k'

end

end Bib.Lib.Mirror
