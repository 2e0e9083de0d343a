import Mathlib.Data.List.Nodup
import Mathlib.Data.List.Perm.Basic

/-!
# Bib.Lib.Table

**Tables with a primary key.** A `Table key` is a list of rows no two of which have
the same key; the uniqueness is a field, so no operation can produce a table that
violates it. `find?` is the only observation proofs need: it says which rows a table holds
(`mem_rows_iff`), and every operation has a `find?` equation.

A hash map is the table of its key/value pairs (`KeyMap`).
-/

namespace Bib.Lib

open List

variable {K R : Type} {key : R → K}

/-- Rows with pairwise different keys. -/
structure Table (key : R → K) where
  rows : List R
  nodup : (rows.map key).Nodup

namespace Table

def empty : Table key := ⟨[], List.nodup_nil⟩

instance : Inhabited (Table key) := ⟨empty⟩

theorem rows_nodup (t : Table key) : t.rows.Nodup := t.nodup.of_map key

variable {t : Table key} {r x : R} {k : K} {rs : List R}

theorem eq_of_key_eq {r' : R} (hr : r ∈ t.rows) (hr' : r' ∈ t.rows) (h : key r = key r') : r = r' :=
  inj_on_of_nodup_map t.nodup hr hr' h

theorem ext {s : Table key} (h : s.rows = t.rows) : s = t := by
  cases s
  cases t
  cases h
  rfl

instance [DecidableEq R] : DecidableEq (Table key) := fun s t =>
  decidable_of_iff (s.rows = t.rows) ⟨ext, fun h => h ▸ rfl⟩

variable [DecidableEq K]

def find? (t : Table key) (k : K) : Option R := t.rows.find? fun r => key r = k

/-- Write a row: replace the row with the same key, or append. -/
def put (t : Table key) (r : R) : Table key :=
  if h : key r ∈ t.rows.map key then
    { rows := t.rows.map fun x => if key x = key r then r else x
      nodup := by
        have hkeys : (t.rows.map fun x => if key x = key r then r else x).map key =
            t.rows.map key := by
          rw [List.map_map]
          refine List.map_congr_left fun x _ => ?_
          by_cases hx : key x = key r
          · simp [hx]
          · simp [hx]
        rw [hkeys]
        exact t.nodup }
  else
    { rows := t.rows ++ [r]
      nodup := by
        rw [List.map_append, List.nodup_append]
        refine ⟨t.nodup, by simp, fun a ha b hb hab => h ?_⟩
        rw [List.map_singleton, List.mem_singleton] at hb
        rwa [← hb, ← hab] }

theorem rows_put (t : Table key) (r : R) :
    (t.put r).rows = if key r ∈ t.rows.map key then t.rows.map fun x => if key x = key r then r else x
      else t.rows ++ [r] := by
  unfold put
  split <;> rfl

def erase (t : Table key) (k : K) : Table key :=
  { rows := t.rows.filter fun r => key r ≠ k
    nodup := t.nodup.sublist (List.filter_sublist.map key) }

def filter (p : R → Bool) (t : Table key) : Table key :=
  { rows := t.rows.filter p
    nodup := t.nodup.sublist (List.filter_sublist.map key) }

def modify (f : R → R) (hf : ∀ r, key (f r) = key r) (t : Table key) : Table key :=
  { rows := t.rows.map f
    nodup := by
      have hkeys : (t.rows.map f).map key = t.rows.map key := by
        rw [List.map_map]
        exact List.map_congr_left fun r _ => hf r
      rw [hkeys]
      exact t.nodup }

@[simp] theorem find?_empty (k : K) : (empty : Table key).find? k = none := rfl

/-! ### Rows and `find?` -/

theorem key_of_find? (h : t.find? k = some r) : key r = k := by
  simpa using find?_some h

theorem mem_rows_iff : r ∈ t.rows ↔ t.find? (key r) = some r := by
  constructor
  · intro hr
    have hsome : (t.find? (key r)).isSome := find?_isSome.mpr ⟨r, hr, by simp⟩
    obtain ⟨r', hr'⟩ := Option.isSome_iff_exists.mp hsome
    rw [hr', eq_of_key_eq (mem_of_find?_eq_some hr') hr (key_of_find? hr')]
  · exact mem_of_find?_eq_some

theorem mem_of_find? (h : t.find? k = some r) : r ∈ t.rows := mem_of_find?_eq_some h

theorem find?_eq_some_iff : t.find? k = some r ↔ r ∈ t.rows ∧ key r = k := by
  constructor
  · exact fun h => ⟨mem_of_find? h, key_of_find? h⟩
  · rintro ⟨hr, rfl⟩
    exact mem_rows_iff.mp hr

/-! ### Operations through `find?` -/

theorem mem_put : x ∈ (t.put r).rows ↔ x = r ∨ (x ∈ t.rows ∧ key x ≠ key r) := by
  unfold put
  split
  next h =>
    simp only [mem_map]
    constructor
    · rintro ⟨y, hy, rfl⟩
      by_cases hk : key y = key r
      · simp [hk]
      · simp [hk, hy]
    · rintro (rfl | ⟨hx, hk⟩)
      · obtain ⟨y, hy, hyk⟩ := mem_map.mp h
        exact ⟨y, hy, if_pos hyk⟩
      · exact ⟨x, hx, if_neg hk⟩
  next h =>
    rw [mem_append, mem_singleton, or_comm]
    refine or_congr_right ⟨fun hx => ⟨hx, fun hk => h ?_⟩, And.left⟩
    exact mem_map.mpr ⟨x, hx, hk⟩

theorem find?_put (t : Table key) (r : R) (k : K) : (t.put r).find? k = if k = key r then some r else t.find? k := by
  ext x
  rw [find?_eq_some_iff, mem_put]
  by_cases hk : k = key r
  · subst hk
    rw [if_pos rfl, Option.some_inj]
    constructor
    · rintro ⟨rfl | ⟨-, hne⟩, hx⟩
      · rfl
      · exact absurd hx hne
    · rintro rfl
      exact ⟨.inl rfl, rfl⟩
  · rw [if_neg hk, find?_eq_some_iff]
    constructor
    · rintro ⟨rfl | ⟨hx, -⟩, rfl⟩
      · exact absurd rfl hk
      · exact ⟨hx, rfl⟩
    · rintro ⟨hx, rfl⟩
      exact ⟨.inr ⟨hx, hk⟩, rfl⟩

theorem find?_put_eq_some_iff : (t.put r).find? k = some x ↔ k = key r ∧ x = r ∨ k ≠ key r ∧ t.find? k = some x := by
  rw [find?_put]
  by_cases hk : k = key r
  · simp [hk, eq_comm]
  · simp [hk]

theorem find?_erase (t : Table key) (k k' : K) : (t.erase k).find? k' = if k' = k then none else t.find? k' := by
  ext x
  rw [find?_eq_some_iff]
  simp only [erase, mem_filter, decide_eq_true_eq]
  by_cases hk : k' = k
  · subst hk
    rw [if_pos rfl]
    constructor
    · rintro ⟨⟨-, hne⟩, hx⟩
      exact absurd hx hne
    · intro h
      cases h
  · rw [if_neg hk, find?_eq_some_iff]
    constructor
    · rintro ⟨⟨hx, -⟩, rfl⟩
      exact ⟨hx, rfl⟩
    · rintro ⟨hx, rfl⟩
      exact ⟨⟨hx, hk⟩, rfl⟩

theorem find?_filter (p : R → Bool) (t : Table key) (k : K) : (t.filter p).find? k = (t.find? k).filter p := by
  ext x
  rw [find?_eq_some_iff, Option.filter_eq_some_iff, find?_eq_some_iff]
  simp only [filter, mem_filter]
  exact ⟨fun h => ⟨⟨h.1.1, h.2⟩, h.1.2⟩, fun h => ⟨⟨h.1.1, h.2⟩, h.1.2⟩⟩

theorem length_put_of_find?_eq_none (h : t.find? (key r) = none) : (t.put r).rows.length = t.rows.length + 1 := by
  have hnew : key r ∉ t.rows.map key := by
    intro hmem
    obtain ⟨x, hx, hk⟩ := mem_map.mp hmem
    rw [← hk, mem_rows_iff.mp hx] at h
    cases h
  simp [put, hnew]

/-- The rows of a table are the row found under a key and the rows with other keys. -/
theorem perm_erase (h : t.find? k = some r) : t.rows.Perm (r :: (t.erase k).rows) := by
  have hr := find?_eq_some_iff.mp h
  have hn : r ∉ (t.erase k).rows := by
    intro hmem
    exact absurd hr.2 (by simpa [erase] using (mem_filter.mp hmem).2)
  rw [perm_ext_iff_of_nodup t.rows_nodup (nodup_cons.mpr ⟨hn, rows_nodup _⟩)]
  intro x
  simp only [erase, mem_cons, mem_filter, decide_eq_true_eq]
  constructor
  · intro hx
    by_cases hk : key x = k
    · exact .inl (t.eq_of_key_eq hx hr.1 (hk.trans hr.2.symm))
    · exact .inr ⟨hx, hk⟩
  · rintro (rfl | ⟨hx, -⟩)
    · exact hr.1
    · exact hx

theorem perm_put (t : Table key) (r : R) : (t.put r).rows.Perm (r :: (t.erase (key r)).rows) := by
  have hf : (t.put r).find? (key r) = some r := by rw [find?_put, if_pos rfl]
  have hrest : ((t.put r).erase (key r)).rows.Perm (t.erase (key r)).rows := by
    rw [perm_ext_iff_of_nodup (rows_nodup _) (rows_nodup _)]
    intro x
    simp only [erase, mem_filter, mem_put, decide_eq_true_eq]
    constructor
    · rintro ⟨rfl | ⟨hx, -⟩, hk⟩
      · exact absurd rfl hk
      · exact ⟨hx, hk⟩
    · rintro ⟨hx, hk⟩
      exact ⟨.inr ⟨hx, hk⟩, hk⟩
  exact (perm_erase hf).trans (hrest.cons r)

theorem perm_put_of_find?_eq_none (h : t.find? (key r) = none) : (t.put r).rows.Perm (r :: t.rows) := by
  have he : (t.erase (key r)).rows = t.rows := by
    rw [erase, filter_eq_self]
    intro x hx
    refine decide_eq_true fun hk => ?_
    rw [← hk, mem_rows_iff.mp hx] at h
    cases h
  have hput := perm_put t r
  rwa [he] at hput

theorem perm_put_of_find? (h : t.find? (key r) = some x) : (x :: (t.put r).rows).Perm (r :: t.rows) :=
  calc (x :: (t.put r).rows).Perm (x :: r :: (t.erase (key r)).rows) := (perm_put t r).cons x
    _ |>.Perm (r :: x :: (t.erase (key r)).rows) := List.Perm.swap r x _
    _ |>.Perm (r :: t.rows) := (perm_erase h).symm.cons r

theorem find?_modify (f : R → R) (hf : ∀ r, key (f r) = key r) (t : Table key) (k : K) :
    (t.modify f hf).find? k = (t.find? k).map f := by
  ext x
  rw [Option.map_eq_some_iff]
  simp only [modify, mem_map, find?_eq_some_iff]
  constructor
  · rintro ⟨⟨r, hr, rfl⟩, hk⟩
    exact ⟨r, ⟨hr, hf r ▸ hk⟩, rfl⟩
  · rintro ⟨r, ⟨hr, rfl⟩, rfl⟩
    exact ⟨⟨r, hr, rfl⟩, hf r⟩

def putAll (t : Table key) (rs : List R) : Table key := rs.foldl put t

/-- A key is in the table after writing if it was there, or one of the rows has it. -/
theorem isSome_find?_putAll (t : Table key) (rs : List R) (k : K) :
    ((t.putAll rs).find? k).isSome = ((t.find? k).isSome || rs.any fun r => key r = k) := by
  induction rs generalizing t with
  | nil => simp [putAll]
  | cons r rs ih =>
    have hstep : t.putAll (r :: rs) = (t.put r).putAll rs := rfl
    rw [hstep, ih, find?_put]
    by_cases hk : k = key r
    · simp [hk]
    · simp [hk, Ne.symm hk]

theorem mem_putAll (hnd : (rs.map key).Nodup) {x : R} :
    x ∈ (t.putAll rs).rows ↔ x ∈ rs ∨ (x ∈ t.rows ∧ key x ∉ rs.map key) := by
  induction rs generalizing t with
  | nil => simp [putAll]
  | cons r rs ih =>
    rw [map_cons, nodup_cons] at hnd
    obtain ⟨hr, hrs⟩ := hnd
    have hstep : t.putAll (r :: rs) = (t.put r).putAll rs := rfl
    rw [hstep, ih hrs, mem_put, mem_cons, map_cons, mem_cons, not_or]
    constructor
    · rintro (hx | ⟨rfl | ⟨hx, hne⟩, hn⟩)
      · exact .inl (.inr hx)
      · exact .inl (.inl rfl)
      · exact .inr ⟨hx, hne, hn⟩
    · rintro ((rfl | hx) | ⟨hx, hne, hn⟩)
      · exact .inr ⟨.inl rfl, hr⟩
      · exact .inl hx
      · exact .inr ⟨.inr ⟨hx, hne⟩, hn⟩

/-- The rows that are written replace the table exactly if they have all its keys. -/
theorem rows_putAll_iff (hnd : (rs.map key).Nodup) :
    (∀ x, x ∈ (t.putAll rs).rows ↔ x ∈ rs) ↔ ∀ x ∈ t.rows, key x ∈ rs.map key := by
  constructor
  · intro h x hx
    by_contra hk
    exact hk (mem_map_of_mem ((h x).mp ((mem_putAll hnd).mpr (.inr ⟨hx, hk⟩))))
  · intro h x
    rw [mem_putAll hnd]
    refine ⟨fun hx => hx.resolve_right fun hold => hold.2 (h x hold.1), .inl⟩

theorem rows_putAll (hnd : ((t.rows ++ rs).map key).Nodup) : (t.putAll rs).rows = t.rows ++ rs := by
  induction rs generalizing t with
  | nil => simp [putAll]
  | cons r rs ih =>
    have hnew : key r ∉ t.rows.map key := by
      intro hmem
      rw [map_append, nodup_append] at hnd
      exact hnd.2.2 (key r) hmem (key r) (by simp) rfl
    have hput : (t.put r).rows = t.rows ++ [r] := by simp [put, hnew]
    have hrest := ih (t := t.put r) (by simpa [hput] using hnd)
    rw [putAll, foldl_cons]
    rw [putAll] at hrest
    rw [hrest, hput, append_assoc, singleton_append]

theorem putAll_empty (t : Table key) : (empty : Table key).putAll t.rows = t := by
  have hr : ((empty : Table key).putAll t.rows).rows = t.rows := rows_putAll (by simpa [empty] using t.nodup)
  cases h : (empty : Table key).putAll t.rows with
  | mk rows nodup =>
    rw [h] at hr
    cases t
    cases hr
    rfl

theorem mem_putAll_empty (hnd : (rs.map key).Nodup) {x : R} : x ∈ ((empty : Table key).putAll rs).rows ↔ x ∈ rs := by
  rw [mem_putAll hnd]
  simp [empty]

end Table

/-! ### Maps -/

/-- A map: the table of its pairs, keyed by their first component. -/
abbrev KeyMap (K V : Type) := Table (R := K × V) (K := K) Prod.fst

namespace KeyMap

variable [DecidableEq K] {V : Type}

def get? (m : KeyMap K V) (k : K) : Option V := (m.find? k).map Prod.snd

def set (m : KeyMap K V) (k : K) (v : V) : KeyMap K V := Table.put m (k, v)

def delete (m : KeyMap K V) (k : K) : KeyMap K V := Table.erase m k

@[simp] theorem get?_empty (k : K) : get? (Table.empty : KeyMap K V) k = none := rfl

variable {m : KeyMap K V} {k : K} {W : Type}

theorem get?_eq_some_iff {v : V} : get? m k = some v ↔ (k, v) ∈ m.rows := by
  rw [get?, Option.map_eq_some_iff, Table.mem_rows_iff]
  constructor
  · rintro ⟨⟨k', v'⟩, h, rfl⟩
    obtain rfl : k' = k := Table.key_of_find? h
    exact h
  · exact fun h => ⟨(k, v), h, rfl⟩

theorem get?_set (m : KeyMap K V) (k k' : K) (v : V) :
    get? (set m k v) k' = if k' = k then some v else get? m k' := by
  unfold get? set
  rw [Table.find?_put]
  split <;> rfl

theorem get?_delete (m : KeyMap K V) (k k' : K) : get? (delete m k) k' = if k' = k then none else get? m k' := by
  unfold get? delete
  rw [Table.find?_erase]
  split <;> rfl

theorem get?_set_eq_some_iff {k' : K} {v w : V} :
    get? (set m k v) k' = some w ↔ k' = k ∧ w = v ∨ k' ≠ k ∧ get? m k' = some w := by
  rw [get?_set]
  by_cases hk : k' = k
  · simp [hk, eq_comm]
  · simp [hk]

theorem get?_delete_eq_some_iff {k' : K} {w : V} : get? (delete m k) k' = some w ↔ k' ≠ k ∧ get? m k' = some w := by
  rw [get?_delete]
  by_cases hk : k' = k
  · simp [hk]
  · simp [hk]

def mapVals {W : Type} (f : V → W) (m : KeyMap K V) : KeyMap K W :=
  { rows := m.rows.map fun p => (p.1, f p.2)
    nodup := by
      rw [List.map_map]
      exact m.nodup }

theorem get?_mapVals (f : V → W) (m : KeyMap K V) (k : K) : get? (mapVals f m) k = (get? m k).map f := by
  ext w
  rw [Option.map_eq_some_iff]
  simp only [mapVals, mem_map, Prod.mk.injEq, Prod.exists, get?_eq_some_iff]
  constructor
  · rintro ⟨k', v, hmem, rfl, rfl⟩
    exact ⟨v, hmem, rfl⟩
  · rintro ⟨v, hmem, rfl⟩
    exact ⟨k, v, hmem, rfl, rfl⟩

theorem mapVals_delete (f : V → W) (m : KeyMap K V) (k : K) : mapVals f (delete m k) = delete (mapVals f m) k := by
  simp only [mapVals, delete, Table.erase, filter_map]
  rfl

theorem mapVals_set (f : V → W) (m : KeyMap K V) (k : K) (v : V) :
    mapVals f (set m k v) = set (mapVals f m) k (f v) := by
  have hkeys : (mapVals f m).rows.map Prod.fst = m.rows.map Prod.fst := map_map
  refine Table.ext ?_
  show (Table.put m (k, v)).rows.map _ = (Table.put (mapVals f m) (k, f v)).rows
  rw [Table.rows_put, Table.rows_put, hkeys, apply_ite (map _), map_map, map_append]
  refine ite_congr rfl (fun _ => ?_) fun _ => rfl
  refine Eq.trans ?_ map_map.symm
  refine map_congr_left fun p _ => ?_
  by_cases hp : p.1 = k
  · simp [hp]
  · simp [hp]

end KeyMap

end Bib.Lib
