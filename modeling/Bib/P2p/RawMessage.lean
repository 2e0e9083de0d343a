import Bib.Cluster.Fsm
import Bib.Lib.Json.Struct

/-!
# Bib.P2p.RawMessage

**A raw message stays a JSON value when it is marshalled.** `json.Marshal` compacts and
HTML-escapes a `json.RawMessage`, which it has checked to be valid. Both passes are
followed by the scanner: dropping white space leaves it in the same state up to a number
or a text that has already ended (`Tracks`), and escaping replaces bytes that only stand
inside string literals by escapes that stay there.
-/

namespace Bib.P2p

open Bib.Lib.Json Bib.Domain
open Option (bind_eq_some_iff)
open Bib.Cluster (dropSpaces escapeHTML marshalRaw nullText)

def inLiteral : State → Bool
  | .inString | .inStringEsc | .inStringEscU | .inStringEscU1 | .inStringEscU12
  | .inStringEscU123 => true
  | _ => false

theorem isSpace_eq (c : UInt8) : Bib.Cluster.isSpace c = isSpace c := rfl

/-! ### White space -/

/-- The scan `t` of the text without white space against the scan `s` of the text. Outside
literals `s` may have seen that a value, or the whole text, has ended. -/
inductive Tracks : (inString escaped : Bool) → (s t : Scan) → Prop
  | escape (stack : List Frame) : Tracks true true ⟨.inStringEsc, stack⟩ ⟨.inStringEsc, stack⟩
  | literal (state : State) (stack : List Frame) (h : inLiteral state)
      (hne : state ≠ .inStringEsc) : Tracks true false ⟨state, stack⟩ ⟨state, stack⟩
  | same (state : State) (stack : List Frame) (h : inLiteral state = false) :
      Tracks false false ⟨state, stack⟩ ⟨state, stack⟩
  | ended (state : State) (stack : List Frame) (h : state.ended) :
      Tracks false false ⟨.endValue, stack⟩ ⟨state, stack⟩
  | endTop (state : State) (h : state.ended) : Tracks false false ⟨.endTop, []⟩ ⟨state, []⟩

variable {limit : Nat} {s s' t : Scan} {c : UInt8} {state : State} {stack : List Frame}
  {inString escaped : Bool} {text : Bytes}

theorem step_skip (hs : isSpace c) (h : state = .beginValue ∨ state = .beginValueOrEmpty ∨ state = .beginStringOrEmpty
      ∨ state = .beginString ∨ state = .endTop) :
    step limit ⟨state, stack⟩ c = some ⟨state, stack⟩ := by
  rcases h with rfl | rfl | rfl | rfl | rfl <;> exact step_goto (if_pos hs)

theorem tracks_space (hs : isSpace c) (hl : inLiteral state = false) (h : step limit ⟨state, stack⟩ c = some s') :
    Tracks false false s' ⟨state, stack⟩ := by
  have he : state.ended → Tracks false false s' ⟨state, stack⟩ := by
    intro he
    have hd : isDelimiter c := by simp [isDelimiter, hs]
    rw [step_ends (move_of_ended he hd)] at h
    cases stack with
    | nil =>
      simp only [afterValue, hs, if_true, Option.some.injEq] at h
      subst h
      exact .endTop state he
    | cons top rest =>
      simp only [afterValue, hs, if_true, Option.some.injEq] at h
      subst h
      exact .ended state _ he
  cases state with
  | endValue | zero | one | dot0 | e0 => exact he rfl
  | beginValue | beginValueOrEmpty | beginStringOrEmpty | beginString | endTop =>
    rw [step_skip hs (by simp), Option.some.injEq] at h
    subst h
    exact .same _ _ rfl
  | inString | inStringEsc | inStringEscU | inStringEscU1 | inStringEscU12 | inStringEscU123 => cases hl
  | _ =>
    have hc : c = 0x20 ∨ c = 0x09 ∨ c = 0x0a ∨ c = 0x0d := by
      simpa [isSpace, or_assoc] using hs
    rcases hc with rfl | rfl | rfl | rfl <;> cases h

theorem inLiteral_popped (rest : List Frame) : inLiteral (popped rest).state = false := by
  cases rest <;> rfl

/-- The move leads to no state inside a literal. -/
def outside : Move → Bool
  | .goto state => !inLiteral state
  | .push _ state => !inLiteral state
  | _ => true

theorem outside_ite {p : Prop} [Decidable p] {a b : Move} (ha : outside a) (hb : outside b) :
    outside (if p then a else b) := by
  split
  · exact ha
  · exact hb

theorem outside_move (hl : inLiteral state = false) (hc : c ≠ 0x22) : outside (move state c) := by
  cases state with
  | inString | inStringEsc | inStringEscU | inStringEscU1 | inStringEscU12 | inStringEscU123 => cases hl
  | _ =>
    simp only [move, valueStart, keyStart, expect, afterInteger, exponentDigit, hc, if_false]
    repeat' apply outside_ite
    all_goals rfl

theorem step_outside (hl : inLiteral state = false) (h : step limit ⟨state, stack⟩ c = some s') :
    (c = 0x22 → s' = ⟨.inString, stack⟩) ∧ (c ≠ 0x22 → inLiteral s'.state = false) := by
  refine ⟨?_, ?_⟩
  · intro hc
    subst hc
    have ha := afterValue_eq_none (c := 0x22) (by decide) stack
    cases state with
    | beginValue | beginValueOrEmpty | beginStringOrEmpty | beginString => exact (Option.some.inj h).symm
    | inString | inStringEsc | inStringEscU | inStringEscU1 | inStringEscU12 | inStringEscU123 =>
      cases hl
    | endValue | zero | one | dot0 | e0 => exact absurd (ha.symm.trans h) (by simp)
    | _ => cases h
  · intro hc
    have ho := outside_move hl hc
    cases steps_of_step h with
    | goto state' hmove => simpa [hmove, outside] using ho
    | push frame state' hmove => simpa [hmove, outside] using ho
    | turn top frame rest state' hstack hmove hs ha =>
      cases top <;> simp only [afterFrame] at ha <;> split_ifs at ha <;> cases ha <;> rfl
    | _ => exact inLiteral_popped _

theorem tracks_outside (hl : inLiteral state = false)
    (h : step limit ⟨state, stack⟩ c = some s') : Tracks (c = 0x22) false s' s' := by
  obtain ⟨hq, hother⟩ := step_outside hl h
  obtain ⟨state', stack'⟩ := s'
  by_cases hc : c = 0x22
  · cases hq hc
    rw [decide_eq_true hc]
    exact .literal .inString stack rfl (by decide)
  · rw [decide_eq_false hc]
    exact .same state' stack' (hother hc)

theorem not_isSpace_of {p : UInt8 → Bool} (hp : p 0x20 = false ∧ p 0x09 = false ∧ p 0x0a = false
    ∧ p 0x0d = false) (h : p c) : isSpace c = false := by
  rw [Bool.eq_false_iff]
  intro hs
  have hc : c = 0x20 ∨ c = 0x09 ∨ c = 0x0a ∨ c = 0x0d := by
    simpa [isSpace, or_assoc] using hs
  rcases hc with rfl | rfl | rfl | rfl <;> simp [hp] at h

theorem tracks_hex {state' : State} (hl : inLiteral state')
    (hne : state' ≠ .inStringEsc) (hmove : move state c = expectHex state' c)
    (h : step limit ⟨state, stack⟩ c = some s') :
    tightStep limit ⟨state, stack⟩ c = some s' ∧ Tracks (c ≠ 0x22) (c = 0x5c) s' s' := by
  by_cases hh : isHex c
  · have hg : move state c = .goto state' := by rw [hmove, expectHex, if_pos hh]
    rw [step_goto hg, Option.some.injEq] at h
    subst h
    have hsp := not_isSpace_of (p := isHex) (by decide) hh
    have hq : c ≠ 0x22 := by
      intro heq
      subst heq
      cases hh
    have hs : c ≠ 0x5c := by
      intro heq
      subst heq
      cases hh
    refine ⟨tightStep_goto hg (by simp [hsp]) _ _, ?_⟩
    rw [decide_eq_true hq, decide_eq_false hs]
    exact .literal state' stack hl hne
  · have hf : move state c = .fail := by rw [hmove, expectHex, if_neg hh]
    simp [step_fail hf] at h

theorem step_inString (hq : c ≠ 0x22) (hs : c ≠ 0x5c)
    (h : step limit ⟨.inString, stack⟩ c = some s') : s' = ⟨.inString, stack⟩ := by
  have hmove : move .inString c = if c < 0x20 then .fail else .goto .inString := by
    rw [move, if_neg hq, if_neg hs]
  by_cases hc : c < 0x20
  · rw [if_pos hc] at hmove
    simp [step_fail hmove] at h
  · rw [if_neg hc] at hmove
    rw [step_goto hmove, Option.some.injEq] at h
    exact h.symm

theorem tracks_literal (hl : inLiteral state)
    (hne : state ≠ .inStringEsc) (h : step limit ⟨state, stack⟩ c = some s') :
    tightStep limit ⟨state, stack⟩ c = some s' ∧ Tracks (c ≠ 0x22) (c = 0x5c) s' s' := by
  cases state with
  | inString =>
    refine ⟨tightStep_eq_some.mpr ⟨fun _ => rfl, h⟩, ?_⟩
    by_cases hq : c = 0x22
    · subst hq
      cases h
      exact .same .endValue stack rfl
    by_cases hs : c = 0x5c
    · subst hs
      cases h
      exact .escape stack
    rw [decide_eq_true hq, decide_eq_false hs, step_inString hq hs h]
    exact .literal .inString stack rfl (by decide)
  | inStringEscU | inStringEscU1 | inStringEscU12 | inStringEscU123 =>
    exact tracks_hex rfl (by decide) rfl h
  | inStringEsc => exact absurd rfl hne
  | _ => cases hl

theorem tracks_escape (h : step limit ⟨.inStringEsc, stack⟩ c = some s') :
    tightStep limit ⟨.inStringEsc, stack⟩ c = some s' ∧ Tracks true false s' s' := by
  by_cases he : isEscape c
  · have hg : move .inStringEsc c = .goto .inString := if_pos he
    have hs := not_isSpace_of (p := isEscape) (by decide) he
    rw [step_goto hg, Option.some.injEq] at h
    subst h
    exact ⟨tightStep_goto hg (by simp [hs]) _ _, .literal .inString stack rfl (by decide)⟩
  · by_cases hu : c = 0x75
    · subst hu
      cases h
      exact ⟨rfl, .literal .inStringEscU stack rfl (by decide)⟩
    · have hf : move .inStringEsc c = .fail := by rw [move, if_neg he, if_neg hu]
      simp [step_fail hf] at h

theorem tracks_byte (ht : Tracks false false s t) (hs : isSpace c = false) (h : step limit s c = some s') :
    tightStep limit t c = some s' ∧ Tracks (c = 0x22) false s' s' := by
  cases ht with
  | same state stack hl => exact ⟨tightStep_eq_some.mpr ⟨by simp [hs], h⟩, tracks_outside hl h⟩
  | ended state stack he =>
    refine ⟨tightStep_eq_some.mpr ⟨by simp [hs], ?_⟩, tracks_outside rfl h⟩
    -- what follows the value is the same delimiter
    have ha : afterValue stack c = some s' := h
    have hd : isDelimiter c := by
      by_contra hd
      rw [afterValue_eq_none (Bool.eq_false_iff.mpr hd)] at ha
      cases ha
    rw [step_ends (move_of_ended he hd), ha]
  | endTop state he =>
    have hf : move .endTop c = .fail := if_neg (by simp [hs])
    simp [step_fail hf] at h

theorem tracks_skip (ht : Tracks false false s t) (hs : isSpace c)
    (h : step limit s c = some s') : Tracks false false s' t := by
  cases ht with
  | same state stack hl => exact tracks_space hs hl h
  | endTop state he =>
    rw [step_skip hs (by simp), Option.some.injEq] at h
    subst h
    exact .endTop state he
  | ended state stack he =>
    cases tracks_space hs rfl h with
    | endTop _ _ => exact .endTop state he
    | _ => exact .ended state stack he

/-- **Dropping white space**: what the scanner reads it reads without white space. -/
theorem tracks_dropSpaces (htr : Tracks inString escaped s t) (h : run limit s text = some s') :
    ∃ inString' escaped' t',
      tightRun limit t (dropSpaces inString escaped text) = some t' ∧
        Tracks inString' escaped' s' t' := by
  induction text generalizing inString escaped s t with
  | nil =>
    cases h
    exact ⟨inString, escaped, t, by cases inString <;> cases escaped <;> rfl, htr⟩
  | cons c rest ih =>
    simp only [run, bind_eq_some_iff] at h
    obtain ⟨s₁, hstep, hrest⟩ := h
    cases inString with
    | false =>
      cases escaped with
      | false =>
        cases hs : isSpace c with
        | true =>
          obtain ⟨i, e, t', hr, he⟩ := ih (tracks_skip htr hs hstep) hrest
          exact ⟨i, e, t', by simp [dropSpaces, isSpace_eq, hs, hr], he⟩
        | false =>
          obtain ⟨ht, htr'⟩ := tracks_byte htr hs hstep
          obtain ⟨i, e, t', hr, he⟩ := ih htr' hrest
          refine ⟨i, e, t', ?_, he⟩
          simp only [dropSpaces, isSpace_eq, hs, Bool.false_eq_true, if_false]
          rw [tightRun_cons ht, hr]
      | true => cases htr
    | true =>
      cases htr with
      | escape stack =>
        obtain ⟨ht, htr'⟩ := tracks_escape hstep
        obtain ⟨i, e, t', hr, he⟩ := ih htr' hrest
        refine ⟨i, e, t', ?_, he⟩
        rw [dropSpaces, tightRun_cons ht, hr]
      | literal state stack hl hne =>
        obtain ⟨ht, htr'⟩ := tracks_literal hl hne hstep
        obtain ⟨i, e, t', hr, he⟩ := ih htr' hrest
        refine ⟨i, e, t', ?_, he⟩
        rw [dropSpaces, tightRun_cons ht, hr]

theorem eof_of_tracks (h : Tracks inString escaped s t) (heo : s.eof) : t.eof := by
  rw [eof_iff] at heo ⊢
  cases h with
  | same state stack hl => exact heo
  | ended state stack he =>
    rcases heo with ht | ⟨-, hstack⟩
    · cases ht
    · exact .inr ⟨he, hstack⟩
  | endTop state he => exact .inr ⟨he, rfl⟩
  | escape stack => rcases heo with ht | ⟨he, -⟩ <;> contradiction
  | literal state stack hl hne => cases state <;> rcases heo with ht | ⟨he, -⟩ <;> contradiction

/-! ### HTML escaping -/

/-- The bytes that an escaped sequence begins with. -/
def isHtml (c : UInt8) : Bool := c = 0xe2 || c = 0x3c || c = 0x3e || c = 0x26

theorem isHtml_iff : isHtml c ↔ c = 0xe2 ∨ c = 0x3c ∨ c = 0x3e ∨ c = 0x26 := by
  simp [isHtml, or_assoc]

theorem move_html (state : State) (hc : isHtml c) :
    move state c = (if state = .inString then .goto .inString else .fail) ∨
      state ≠ .inString ∧ move state c = .ends := by
  rcases isHtml_iff.mp hc with rfl | rfl | rfl | rfl <;> cases state <;>
    first | exact .inl rfl | exact .inr ⟨by decide, rfl⟩

theorem tightStep_html (hc : isHtml c) (h : tightStep limit s c = some s') : s.state = .inString ∧ s' = s := by
  obtain ⟨state, stack⟩ := s
  have hstep := (tightStep_eq_some.mp h).2
  have hd : isDelimiter c = false := by
    rcases isHtml_iff.mp hc with rfl | rfl | rfl | rfl <;> rfl
  rcases move_html state hc with hmove | ⟨hne, hmove⟩
  · by_cases hs : state = .inString
    · rw [if_pos hs] at hmove
      rw [step_goto hmove, Option.some.injEq] at hstep
      rw [hs, ← hstep]
      exact ⟨rfl, rfl⟩
    · rw [if_neg hs] at hmove
      simp [step_fail hmove] at hstep
  · simp [step_ends hmove, afterValue_eq_none hd] at hstep

/-- A sequence inside a literal, `c` and `more`, is replaced by an escape. -/
theorem tightRun_escape (more : Bytes) {escape rest rest' : Bytes} (hc : isHtml c) (hm : ∀ b ∈ more, 0x80 ≤ b)
    (he : ∀ stack, tightRun limit ⟨.inString, stack⟩ escape = some ⟨.inString, stack⟩)
    (hrest : tightRun limit s rest = some s' → tightRun limit s rest' = some s')
    (h : tightRun limit s (c :: (more ++ rest)) = some s') :
    tightRun limit s (escape ++ rest') = some s' := by
  rw [tightRun, bind_eq_some_iff] at h
  obtain ⟨s₁, hstep, hr⟩ := h
  obtain ⟨hs, rfl⟩ := tightStep_html hc hstep
  obtain ⟨state, stack⟩ := s₁
  subst hs
  rw [tightRun_append, tightRun_inString hm] at hr
  rw [tightRun_append, he stack]
  exact hrest hr

/-- **HTML escaping** leaves the scanner where it was. -/
theorem tightRun_escapeHTML (h : tightRun limit s text = some s') : tightRun limit s (escapeHTML text) = some s' := by
  fun_induction escapeHTML text generalizing s with
  | case1 rest ih => exact tightRun_escape [0x80, 0xa8] rfl (by simp) (fun _ => rfl) ih h
  | case2 rest ih => exact tightRun_escape [0x80, 0xa9] rfl (by simp) (fun _ => rfl) ih h
  | case3 rest ih => exact tightRun_escape [] rfl (by simp) (fun _ => rfl) ih h
  | case4 rest ih => exact tightRun_escape [] rfl (by simp) (fun _ => rfl) ih h
  | case5 rest ih => exact tightRun_escape [] rfl (by simp) (fun _ => rfl) ih h
  | case6 c rest h₁ h₂ h₃ h₄ h₅ ih =>
    rw [tightRun, bind_eq_some_iff] at h ⊢
    obtain ⟨s₁, hstep, hrest⟩ := h
    exact ⟨s₁, hstep, ih hrest⟩
  | case7 => exact h

/-! ### A marshalled message -/

/-- **A valid raw message is a value once marshalled.** -/
theorem isValue_marshalRaw {raw : Bytes} (h : accepts limit raw) : IsValue limit (marshalRaw (some raw)) := by
  simp only [accepts, Option.any_eq_true] at h
  obtain ⟨s, hr, he⟩ := h
  obtain ⟨i, e, t, ht, htr⟩ := tracks_dropSpaces (.same .beginValue [] rfl) hr
  exact ⟨t, tightRun_escapeHTML ht, eof_of_tracks htr he⟩

end Bib.P2p
