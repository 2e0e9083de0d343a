import Mathlib.Data.List.Infix

/-!
# Bib.Lib.Sql.Comment

**Block comments of SQL**, over any alphabet with a star and a slash. A comment is read letter by
letter; all that matters is how many comments are open inside of it, if the dialect nests them, and whether
the last letter may begin a mark. `blockRun` reads a text that lies inside of a comment, and
`closeComment_eq_iff` says when a comment ends exactly where it is meant to.
-/

namespace Bib.Lib.Sql

open List

/-- What the last letter may begin. -/
inductive Mark
  | plain
  | star
  | slash
  deriving DecidableEq

/-- Inside of a block comment: how many more are open in it, and the last letter. -/
structure Block where
  depth : Nat
  last : Mark

def Block.start : Block := ⟨0, .plain⟩

section Comments

variable {α : Type} [DecidableEq α] (nested : Bool) (star slash : α)

def markOf (c : α) : Mark := if c = star then .star else if c = slash then .slash else .plain

/-- One letter of a comment; `none` is its end. -/
def blockStep (b : Block) (c : α) : Option Block :=
  match b.last with
  | .star =>
    if c = slash then if b.depth = 0 then none else some ⟨b.depth - 1, .plain⟩
    else some ⟨b.depth, markOf star slash c⟩
  | .slash =>
    if nested ∧ c = star then some ⟨b.depth + 1, .plain⟩ else some ⟨b.depth, markOf star slash c⟩
  | .plain => some ⟨b.depth, markOf star slash c⟩

/-- A text inside of a comment; `none` if the comment ends in it. -/
def blockRun (b : Block) (text : List α) : Option Block := text.foldlM (blockStep nested star slash) b

def closeComment : Block → List α → Option (List α)
  | _, [] => none
  | b, c :: text =>
    match blockStep nested star slash b c with
    | none => some text
    | some b' => closeComment b' text

def skipComment : List α → Option (List α)
  | a :: b :: text => if a = slash ∧ b = star then closeComment nested star slash .start text else none
  | _ => none

/-- The number of comments that are open after a text that begins behind a plain letter; `none` if
it ends the comment it lies in. -/
def openComments (depth : Nat) (text : List α) : Option Nat :=
  (blockRun nested star slash ⟨depth, .plain⟩ text).map Block.depth

end Comments

section Runs

variable {α : Type} [DecidableEq α] {nested : Bool} {star slash : α} {b b' : Block} {text rest : List α}

theorem blockRun_append (front : List α) : blockRun nested star slash b (front ++ text) =
      (blockRun nested star slash b front).bind fun b' => blockRun nested star slash b' text := by
  rw [blockRun, foldlM_append]
  rfl

variable {c : α} {last : Mark} {front : List α}

theorem blockStep_plain (hst : c ≠ star) (hs : c ≠ slash) :
    blockStep nested star slash b c = some ⟨b.depth, .plain⟩ := by
  unfold blockStep
  rw [markOf, if_neg hst, if_neg hs, if_neg hs, if_neg fun h => hst h.2]
  cases b.last <;> rfl

theorem eq_slash_of_blockStep (h : blockStep nested star slash b c = none) : c = slash := by
  unfold blockStep at h
  split at h
  · by_contra hc
    rw [if_neg hc] at h
    cases h
  · split at h <;> cases h
  · cases h

theorem blockRun_plain {depth : Nat} (hst : star ∉ text) (hs : slash ∉ text) :
    blockRun nested star slash ⟨depth, .plain⟩ text = some ⟨depth, .plain⟩ := by
  induction text with
  | nil => rfl
  | cons c text ih =>
    rw [mem_cons, not_or] at hst hs
    rw [blockRun, foldlM_cons, blockStep_plain (Ne.symm hst.1) (Ne.symm hs.1)]
    exact ih hst.2 hs.2

/-- A text without marks that is not empty ends what the letter before it may have begun. -/
theorem blockRun_label (hne : text ≠ []) (hst : star ∉ text) (hs : slash ∉ text) :
    blockRun nested star slash b text = some ⟨b.depth, .plain⟩ := by
  cases text with
  | nil => exact absurd rfl hne
  | cons c text =>
    rw [mem_cons, not_or] at hst hs
    rw [blockRun, foldlM_cons, blockStep_plain (Ne.symm hst.1) (Ne.symm hs.1)]
    exact blockRun_plain hst.2 hs.2

theorem openComments_entries {entries : List (List α × List α)} (depth : Nat)
    (hl : ∀ e ∈ entries, e.1 ≠ [] ∧ star ∉ e.1 ∧ slash ∉ e.1) :
    (blockRun nested star slash ⟨depth, last⟩ (entries.flatMap fun e => e.1 ++ e.2)).map Block.depth =
      (entries.map Prod.snd).foldlM (openComments nested star slash) depth := by
  induction entries generalizing depth last with
  | nil => rfl
  | cons e entries ih =>
    obtain ⟨hne, hst, hs⟩ := hl e mem_cons_self
    rw [flatMap_cons, append_assoc, blockRun_append, blockRun_label hne hst hs,
      Option.bind_some, blockRun_append, map_cons, foldlM_cons, openComments]
    cases hv : blockRun nested star slash ⟨depth, .plain⟩ e.2 with
    | none => rfl
    | some b' => exact ih b'.depth fun e' he' => hl e' (mem_cons_of_mem _ he')

theorem blockRun_concat (hst : c ≠ star) (hs : c ≠ slash) (depth : Nat) :
    blockRun nested star slash ⟨depth, .plain⟩ (text ++ [c]) =
      (openComments nested star slash depth text).map fun depth' => ⟨depth', .plain⟩ := by
  rw [blockRun_append, openComments]
  cases blockRun nested star slash ⟨depth, .plain⟩ text with
  | none => rfl
  | some b' =>
    show blockRun nested star slash b' [c] = some ⟨b'.depth, .plain⟩
    rw [blockRun, foldlM_cons, blockStep_plain hst hs]
    rfl

theorem closeComment_of_run (h : blockRun nested star slash b front = some b') :
    closeComment nested star slash b (front ++ text) = closeComment nested star slash b' text := by
  induction front generalizing b with
  | nil =>
    cases h
    rfl
  | cons c front ih =>
    obtain ⟨next, hn, hrest⟩ := Option.bind_eq_some_iff.mp h
    rw [cons_append, closeComment, hn]
    exact ih hrest

theorem length_of_closeComment (h : closeComment nested star slash b text = some rest) :
    rest.length < text.length := by
  induction text generalizing b with
  | nil => cases h
  | cons c text ih =>
    rw [closeComment] at h
    split at h
    · cases h
      exact Nat.lt_succ_self _
    · exact Nat.lt_succ_of_lt (ih h)

theorem length_le_of_run_none (h : blockRun nested star slash b front = none)
    (hc : closeComment nested star slash b (front ++ text) = some rest) :
    text.length ≤ rest.length := by
  induction front generalizing b with
  | nil => cases h
  | cons c front ih =>
    rw [cons_append, closeComment] at hc
    rw [blockRun, foldlM_cons] at h
    cases hn : blockStep nested star slash b c with
    | none =>
      rw [hn] at hc
      cases hc
      simp
    | some next =>
      rw [hn] at h hc
      exact ih h hc

/-- The comment ends with the last mark of all exactly if the text before it, which ends with a plain
letter, opens as many comments as it closes. -/
theorem closeComment_eq_iff (hst : c ≠ star) (hsl : c ≠ slash) :
    closeComment nested star slash .start (front ++ c :: star :: slash :: text) = some text ↔
      openComments nested star slash 0 front = some 0 := by
  have hr : blockRun nested star slash .start (front ++ [c]) =
      (openComments nested star slash 0 front).map fun depth => ⟨depth, .plain⟩ :=
    blockRun_concat hst hsl 0
  have hsp : front ++ c :: star :: slash :: text = (front ++ [c]) ++ star :: slash :: text := by simp
  rw [hsp]
  cases ho : openComments nested star slash 0 front with
  | none =>
    rw [ho] at hr
    simp only [reduceCtorEq, iff_false]
    intro hc
    have hl := length_le_of_run_none hr hc
    rw [length_cons, length_cons] at hl
    omega
  | some depth =>
    rw [ho] at hr
    rw [closeComment_of_run hr]
    have hf : blockStep nested star slash ⟨depth, .plain⟩ star = some ⟨depth, .star⟩ := by
      simp [blockStep, markOf]
    rw [closeComment, hf]
    dsimp only
    cases depth with
    | zero => simp [closeComment, blockStep]
    | succ depth =>
      have hs : blockStep nested star slash ⟨depth + 1, .star⟩ slash = some ⟨depth, .plain⟩ := by
        simp [blockStep]
      rw [closeComment, hs]
      refine ⟨fun hc => absurd (length_of_closeComment hc) (Nat.lt_irrefl _), ?_⟩
      intro hz
      cases hz

theorem blockStep_flat : blockStep false star slash ⟨0, last⟩ c =
      if last = .star ∧ c = slash then none else some ⟨0, markOf star slash c⟩ := by
  cases last <;> simp [blockStep]

theorem markOf_star_iff : markOf star slash c = .star ↔ star = c := by
  unfold markOf
  split_ifs with hc hc'
  · simp [hc]
  · simp [Ne.symm hc]
  · simp [Ne.symm hc]

theorem blockRun_flat : (blockRun false star slash ⟨0, last⟩ text).map Block.depth =
      if [star, slash] <:+: text ∨ (last = .star ∧ [slash] <+: text) then none else some 0 := by
  induction text generalizing last with
  | nil => simp [blockRun]
  | cons c text ih =>
    have hs : [star, slash] <:+: c :: text ↔
        (star = c ∧ [slash] <+: text) ∨ [star, slash] <:+: text := by
      rw [infix_cons_iff, cons_prefix_cons]
    rw [blockRun, foldlM_cons, blockStep_flat]
    by_cases he : last = .star ∧ c = slash
    · simp [he.1, he.2]
    · rw [if_neg he]
      show (blockRun false star slash ⟨0, markOf star slash c⟩ text).map Block.depth = _
      have hlast : ¬ (last = .star ∧ slash = c ∧ [] <+: text) := fun h => he ⟨h.1, h.2.1.symm⟩
      rw [ih]
      simp only [hs, markOf_star_iff, cons_prefix_cons, hlast, or_false]
      simp only [or_comm]

theorem openComments_flat :
    openComments false star slash 0 text = if [star, slash] <:+: text then none else some 0 := by
  rw [openComments, blockRun_flat]
  simp

/-- Without nesting the comment goes on through texts exactly if none of them holds the closing mark. -/
theorem openComments_flat_all {texts : List (List α)} :
    texts.foldlM (openComments false star slash) 0 = some 0 ↔ ∀ t ∈ texts, ¬ [star, slash] <:+: t := by
  induction texts with
  | nil => simp
  | cons t texts ih =>
    rw [foldlM_cons, openComments_flat, forall_mem_cons]
    by_cases h : [star, slash] <:+: t
    · simp [h]
    · simp only [h, if_false, not_false_eq_true, true_and]
      exact ih

end Runs

end Bib.Lib.Sql
