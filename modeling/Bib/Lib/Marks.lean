import Mathlib.Data.List.Basic
import Mathlib.Data.List.TakeWhile

/-!
# Bib.Lib.Marks

**Cutting a list at a mark.** If a list is put together from parts with marks between them, a part
that has no mark in it can be found again: two ways to cut the list at the first mark, or at
the last, are the same.
-/

namespace Bib.Lib

open List

variable {A : Type} {mark : A} {text rest front rest' : List A}

theorem eq_append_of_mark (ht : mark ∉ text) (h : text ++ rest = front ++ mark :: rest') :
    ∃ more, front = text ++ more ∧ rest = more ++ mark :: rest' := by
  rcases append_eq_append_iff.mp h with ⟨more, hf, hrest⟩ | ⟨more, hl, hrest⟩
  · exact ⟨more, hf, hrest⟩
  · cases more with
    | nil => exact ⟨[], by simp [hl], hrest.symm⟩
    | cons c more =>
      obtain ⟨rfl, -⟩ := cons.inj hrest
      exact absurd (by simp [hl]) ht

theorem append_mark_eq (hte : mark ∉ text) (h : text ++ mark :: rest = front ++ mark :: rest') :
    front = text ∧ rest' = rest ∨
      ∃ more, front = text ++ mark :: more ∧ rest = more ++ mark :: rest' := by
  obtain ⟨more, hf, hrest⟩ := eq_append_of_mark hte h
  cases more with
  | nil =>
    rw [append_nil] at hf
    exact .inl ⟨hf, (cons.inj hrest).2.symm⟩
  | cons c more =>
    obtain ⟨rfl, ht⟩ := cons.inj hrest
    exact .inr ⟨more, hf, ht⟩

section Classes

variable {a b s t : List A} {x y : A}

theorem append_cons_inj (p : A → Bool) (ha : ∀ c ∈ a, p c = false) (hb : ∀ c ∈ b, p c = false)
    (hx : p x) (hy : p y) (h : a ++ x :: s = b ++ y :: t) : a = b ∧ x = y ∧ s = t := by
  have hs : ∀ (l : List A) (c : A) (rest : List A), (∀ d ∈ l, p d = false) → p c →
      (l ++ c :: rest).takeWhile (fun d => !p d) = l := by
    intro l c rest hl hc
    rw [takeWhile_append_of_pos (by simpa using hl)]
    simp [hc]
  have hab := congrArg (takeWhile fun d => !p d) h
  rw [hs a x s ha hx, hs b y t hb hy] at hab
  subst hab
  have ht := cons.inj (append_cancel_left h)
  exact ⟨rfl, ht.1, ht.2⟩

theorem append_cons_inj_last (p : A → Bool) (hs : ∀ c ∈ s, p c = false) (ht : ∀ c ∈ t, p c = false)
    (hx : p x) (hy : p y) (h : a ++ x :: s = b ++ y :: t) : a = b ∧ x = y ∧ s = t := by
  have hr := congrArg reverse h
  simp only [reverse_append, reverse_cons, append_assoc, singleton_append] at hr
  obtain ⟨hst, hxy, hab⟩ := append_cons_inj p (by simpa using hs) (by simpa using ht) hx hy hr
  exact ⟨reverse_injective hab, hxy, reverse_injective hst⟩

theorem append_run_inj (p : A → Bool) {name name' : List A} (hne : name ≠ []) (hne' : name' ≠ [])
    (hn : ∀ c ∈ name, p c = false) (hn' : ∀ c ∈ name', p c = false) (hs : ∀ c ∈ s, p c)
    (ht : ∀ c ∈ t, p c) (h : a ++ name ++ s = b ++ name' ++ t) : a ++ name = b ++ name' := by
  obtain ⟨init, last, rfl⟩ := (eq_nil_or_concat' name).resolve_left hne
  obtain ⟨init', last', rfl⟩ := (eq_nil_or_concat' name').resolve_left hne'
  have hlast : p last = false := hn last (by simp)
  have hl' : p last' = false := hn' last' (by simp)
  have hc : a ++ init ++ last :: s = b ++ init' ++ last' :: t := by simpa using h
  obtain ⟨hi, rfl, -⟩ := append_cons_inj_last (fun c => !p c) (by simpa using hs)
    (by simpa using ht) (by simp [hlast]) (by simp [hl']) hc
  rw [← append_assoc, ← append_assoc, hi]

end Classes

section Pieces

variable {sep : A} {piece : List A} {pieces : List (List A)}

/-- An element of pieces put together with separators is a separator or is in a piece. -/
theorem mem_of_mem_intercalate {c : A} (h : c ∈ [sep].intercalate pieces) :
    c = sep ∨ ∃ piece ∈ pieces, c ∈ piece := by
  induction pieces with
  | nil => cases h
  | cons piece pieces ih =>
    cases pieces with
    | nil =>
      rw [intercalate_singleton] at h
      exact .inr ⟨piece, mem_singleton.mpr rfl, h⟩
    | cons next pieces =>
      rw [intercalate_cons_cons, append_assoc, mem_append, singleton_append, mem_cons] at h
      rcases h with h | rfl | h
      · exact .inr ⟨piece, mem_cons_self, h⟩
      · exact .inl rfl
      · rcases ih h with rfl | ⟨found, hf, hc⟩
        · exact .inl rfl
        · exact .inr ⟨found, mem_cons_of_mem _ hf, hc⟩

theorem exists_before_piece (opening : A) (h : piece ∈ pieces) :
    ∃ before mark after, opening :: [sep].intercalate pieces = before ++ mark :: (piece ++ after) ∧
      (mark = opening ∨ mark = sep) := by
  induction pieces generalizing opening with
  | nil => cases h
  | cons head pieces ih =>
    cases pieces with
    | nil =>
      obtain rfl := mem_singleton.mp h
      exact ⟨[], opening, [], by simp [intercalate_singleton], .inl rfl⟩
    | cons next pieces =>
      rw [intercalate_cons_cons]
      rcases mem_cons.mp h with rfl | h
      · exact ⟨[], opening, _, by rw [nil_append, append_assoc], .inl rfl⟩
      · obtain ⟨before, mark, after, heq, hm⟩ := ih sep h
        refine ⟨opening :: (head ++ before), mark, after, ?_, .inr (hm.elim id id)⟩
        rw [append_assoc, singleton_append, heq, cons_append, append_assoc]

end Pieces

end Bib.Lib
