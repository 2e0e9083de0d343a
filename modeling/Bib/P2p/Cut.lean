import Bib.P2p.RawMessage

/-!
# Bib.P2p.Cut

**Where a JSON text can be cut.** Two facts about the scanner, for texts in which a JSON value
follows other text without a separator.

If a valid text is cut inside a string literal, what is left is not valid: seen from its own
beginning every literal of it is outside and everything else inside (`Mirror`). And between
two colons outside literals, as before the first one, there is a quote: a colon only comes
after a key (`Keyless`).
-/

namespace Bib.P2p

open Bib.Lib.Json List
open UInt8 (ofNat ofNat_toNat)
open Option (bind_eq_some_iff bind_none bind_some)

variable {limit limit' : Nat} {s s' t t' : Scan} {c : UInt8} {text : Text}

/-! ### A cut inside a literal -/

variable {state state' : State} {stack : List Frame} {front rest digits : Text} {frame : Frame}

/-- A backslash stands inside literals only. -/
theorem step_backslash (hl : inLiteral state = false) : step limit ⟨state, stack⟩ 0x5c = none := by
  have ha : afterValue stack 0x5c = none := afterValue_eq_none (by decide) stack
  cases state with
  | inString | inStringEsc | inStringEscU | inStringEscU1 | inStringEscU12 | inStringEscU123 => cases hl
  | endValue | zero | one | dot0 | e0 => exact ha
  | _ => rfl

/-- One of two scans is inside a literal, the other is not. -/
inductive Mirror : Scan → Scan → Prop
  | inside (stack : List Frame) (t : Scan) (h : inLiteral t.state = false) : Mirror ⟨.inString, stack⟩ t
  | outside (s : Scan) (stack : List Frame) (h : inLiteral s.state = false) : Mirror s ⟨.inString, stack⟩

theorem Mirror.symm (h : Mirror s t) : Mirror t s := by
  cases h with
  | inside stack t h => exact .outside t stack h
  | outside s stack h => exact .inside stack s h

theorem mirror_step (hl : inLiteral t.state = false)
    (hs : step limit ⟨.inString, stack⟩ c = some s') (ht : step limit' t c = some t') :
    Mirror s' t' := by
  obtain ⟨hq, hother⟩ := step_outside hl ht
  by_cases hc : c = 0x22
  · cases hq hc
    subst hc
    cases hs
    exact .outside _ t.stack rfl
  · have hsl : c ≠ 0x5c := by
      intro heq
      subst heq
      rw [step_backslash hl] at ht
      cases ht
    rw [step_inString hc hsl hs]
    exact .inside stack t' (hother hc)

theorem Mirror.step (h : Mirror s t) (hs : step limit s c = some s') (ht : step limit' t c = some t') :
    Mirror s' t' := by
  cases h with
  | inside stack t hl => exact mirror_step hl hs ht
  | outside s stack hl => exact (mirror_step hl ht hs).symm

theorem Mirror.run (h : Mirror s t) (hs : run limit s text = some s')
    (ht : run limit' t text = some t') : Mirror s' t' := by
  induction text generalizing s t with
  | nil =>
    cases hs
    cases ht
    exact h
  | cons c rest ih =>
    obtain ⟨s₁, hs₁, hs⟩ := bind_eq_some_iff.mp hs
    obtain ⟨t₁, ht₁, ht⟩ := bind_eq_some_iff.mp ht
    exact ih (h.step hs₁ ht₁) hs ht

/-- **A text that is left when a valid one is cut inside a literal is not valid.** -/
theorem not_accepts_of_cut (hf : run limit .start front = some ⟨.inString, stack⟩)
    (h : accepts limit (front ++ rest) = true) : accepts limit' rest = false := by
  rw [Bool.eq_false_iff]
  intro hrest
  simp only [accepts, Option.any_eq_true] at h hrest
  obtain ⟨s', hs', he⟩ := h
  obtain ⟨t', ht', he'⟩ := hrest
  rw [run_append, hf] at hs'
  have hm := (Mirror.inside stack .start rfl).run hs' ht'
  cases hm with
  | inside stack t h => cases he
  | outside s stack h => cases he'

/-! ### Colons -/

/-- The states in which the innermost bracket may wait for a key or for the colon after it. -/
def keyState : State → Bool
  | .beginStringOrEmpty | .beginString | .endValue => true
  | state => inLiteral state

/-- Only the innermost bracket waits for a key or its colon, and only around a key. -/
structure Keyed (s : Scan) : Prop where
  tail : Frame.objectKey ∉ s.stack.tail
  head : s.stack.head? = some .objectKey → keyState s.state = true

theorem keyed_popped (h : Frame.objectKey ∉ stack.tail) : Keyed (popped stack) := by
  cases stack with
  | nil => exact ⟨by simp [popped], by simp [popped]⟩
  | cons top rest => exact ⟨h, fun _ => rfl⟩

/-- The brackets below the innermost one, and that one too unless the state is around a key. -/
theorem Keyed.not_mem (h : Keyed ⟨state, stack⟩) (hs : keyState state = false) : Frame.objectKey ∉ stack := by
  cases stack with
  | nil => exact not_mem_nil
  | cons top rest =>
    rintro (_ | ⟨_, hmem⟩)
    · have ht := h.head rfl
      rw [hs] at ht
      cases ht
    · exact h.tail hmem

theorem valueStart_push (h : valueStart c = .push frame state') :
    frame = .objectKey ∧ state' = .beginStringOrEmpty ∨
      frame = .arrayValue ∧ state' = .beginValueOrEmpty := by
  unfold valueStart at h
  split_ifs at h
  · cases h
    exact .inl ⟨rfl, rfl⟩
  · cases h
    exact .inr ⟨rfl, rfl⟩

theorem move_push (h : move state c = .push frame state') :
    (state = .beginValue ∨ state = .beginValueOrEmpty) ∧ valueStart c = .push frame state' := by
  cases state with
  | beginValue =>
    simp only [move] at h
    split at h
    · cases h
    · exact ⟨.inl rfl, h⟩
  | beginValueOrEmpty =>
    simp only [move] at h
    split_ifs at h
    exact ⟨.inr rfl, h⟩
  | _ => simp [move, keyStart, expect, expectHex, afterInteger, exponentDigit, ite_eq_iff] at h

theorem keyState_goto (h : move state c = .goto state') (hs : keyState state = true) : keyState state' = true := by
  cases state with
  | beginStringOrEmpty | beginString | inString | inStringEsc =>
    simp only [move, keyStart] at h
    split_ifs at h <;> cases h <;> rfl
  | inStringEscU | inStringEscU1 | inStringEscU12 | inStringEscU123 =>
    simp only [move, expectHex] at h
    split_ifs at h
    cases h
    rfl
  | endValue => cases h
  | _ => cases hs

theorem Keyed.step (h : Keyed s) (hstep : step limit s c = some s') : Keyed s' := by
  obtain ⟨state, stack⟩ := s
  cases steps_of_step hstep with
  | goto state' hmove => exact ⟨h.tail, fun hh => keyState_goto hmove (h.head hh)⟩
  | push frame state' hmove hlen =>
    obtain ⟨hbegin, hf⟩ := move_push hmove
    have hs : keyState state = false := by
      rcases hbegin with rfl | rfl <;> rfl
    refine ⟨h.not_mem hs, fun hh => ?_⟩
    rcases valueStart_push hf with ⟨rfl, rfl⟩ | ⟨rfl, rfl⟩
    · rfl
    · cases hh
  | space hmove hs => exact keyed_popped h.tail
  | turn top frame rest state' hstack hmove hs ha =>
    cases hstack
    refine ⟨h.tail, ?_⟩
    cases top <;> simp only [afterFrame] at ha <;> split_ifs at ha <;> cases ha
    · exact fun hh => by cases hh
    · exact fun _ => rfl
    · exact fun hh => by cases hh
  | close top rest hstack hclose =>
    cases hstack
    exact keyed_popped fun hmem => h.tail (mem_of_mem_tail hmem)

theorem keyed_start : Keyed .start := ⟨not_mem_nil, fun hh => by cases hh⟩

/-- Outside literals, and not between a key and its colon. -/
structure Keyless (s : Scan) : Prop extends Keyed s where
  outside : inLiteral s.state = false
  open_ : ¬ (s.stack.head? = some .objectKey ∧ s.state = .endValue)

theorem Keyless.not_mem (h : Keyless ⟨state, stack⟩) (he : move state c = .ends) : Frame.objectKey ∉ stack := by
  cases hk : keyState state with
  | false => exact h.toKeyed.not_mem hk
  | true =>
    intro hmem
    have hs : state = .endValue := by
      have hl := h.outside
      cases state with
      | beginStringOrEmpty | beginString => simp [move, keyStart, ite_eq_iff] at he
      | endValue => rfl
      | inString | inStringEsc | inStringEscU | inStringEscU1 | inStringEscU12
      | inStringEscU123 => cases hl
      | _ => cases hk
    cases stack with
    | nil => cases hmem
    | cons top rest =>
      rcases mem_cons.mp hmem with ht | hrest
      · exact h.open_ ⟨congrArg some ht.symm, hs⟩
      · exact h.tail hrest

theorem not_open_of_not_mem (h : Frame.objectKey ∉ s.stack) :
    ¬ (s.stack.head? = some .objectKey ∧ s.state = .endValue) :=
  fun ho => h (mem_of_head? ho.1)

theorem popped_stack (rest : List Frame) : (popped rest).stack = rest := by
  cases rest <;> rfl

theorem move_colon (hl : inLiteral state = false) : move state 0x3a = .fail ∨ move state 0x3a = .ends := by
  cases state with
  | inString | inStringEsc | inStringEscU | inStringEscU1 | inStringEscU12 | inStringEscU123 => cases hl
  | endValue | zero | one | dot0 | e0 => exact .inr rfl
  | _ => exact .inl rfl

theorem Keyless.step (h : Keyless s) (hq : c ≠ 0x22) (hstep : step limit s c = some s') : Keyless s' ∧ c ≠ 0x3a := by
  have hk := h.toKeyed.step hstep
  have ho := (step_outside h.outside hstep).2 hq
  suffices hop : ¬ (s'.stack.head? = some .objectKey ∧ s'.state = .endValue) ∧ c ≠ 0x3a from
    ⟨⟨hk, ho, hop.1⟩, hop.2⟩
  obtain ⟨state, stack⟩ := s
  cases steps_of_step hstep with
  | goto state' hmove =>
    refine ⟨?_, ?_⟩
    · rintro ⟨hh, rfl⟩
      have hke := h.head hh
      have hl := h.outside
      cases state with
      | beginStringOrEmpty | beginString => simp [move, keyStart, ite_eq_iff] at hmove
      | endValue => cases hmove
      | inString | inStringEsc | inStringEscU | inStringEscU1 | inStringEscU12
      | inStringEscU123 => cases hl
      | _ => cases hke
    · rintro rfl
      rcases move_colon h.outside with hm | hm <;> cases hm.symm.trans hmove
  | push frame state' hmove hlen =>
    refine ⟨?_, ?_⟩
    · rintro ⟨-, hs⟩
      rcases valueStart_push (move_push hmove).2 with ⟨-, rfl⟩ | ⟨-, rfl⟩ <;> cases hs
    · rintro rfl
      cases (move_push hmove).2
  | space hmove hs =>
    refine ⟨not_open_of_not_mem (by rw [popped_stack]; exact h.not_mem hmove), ?_⟩
    rintro rfl
    cases hs
  | turn top frame rest state' hstack hmove hs ha =>
    cases hstack
    cases top with
    | objectKey => exact absurd mem_cons_self (h.not_mem hmove)
    | _ =>
      simp only [afterFrame] at ha
      split_ifs at ha with hc
      cases ha
      exact ⟨fun ho => (by cases ho.2), by rw [hc]; decide⟩
  | close top rest hstack hclose =>
    cases hstack
    refine ⟨not_open_of_not_mem (by rw [popped_stack]; exact h.tail), ?_⟩
    rintro rfl
    rcases hclose with hmove | ⟨-, -, ha⟩
    · rcases move_colon h.outside with hm | hm <;> cases hm.symm.trans hmove
    · cases top <;> cases ha

theorem Keyless.run_colon (h : Keyless s) (hq : 0x22 ∉ front) : run limit s (front ++ 0x3a :: rest) = none := by
  by_contra hne
  obtain ⟨s', hr⟩ := Option.ne_none_iff_exists'.mp hne
  rw [run_append] at hr
  obtain ⟨s₁, hf, hr⟩ := bind_eq_some_iff.mp hr
  obtain ⟨s₂, hc, -⟩ := bind_eq_some_iff.mp hr
  have hs₁ := run_rule Keyless
    (fun c hc _ _ h hstep => (h.step (fun heq => hq (heq ▸ hc)) hstep).1) h hf
  exact (hs₁.step (by decide) hc).2 rfl

theorem keyless_start : Keyless .start := ⟨keyed_start, rfl, fun ho => by cases ho.1⟩

theorem keyless_of_colon (h : Keyed s) (hl : inLiteral s.state = false)
    (hstep : step limit s 0x3a = some s') : Keyless s' := by
  have hk := h.step hstep
  have ho := (step_outside hl hstep).2 (by decide)
  refine ⟨hk, ho, ?_⟩
  obtain ⟨state, stack⟩ := s
  rcases move_colon hl with hf | he
  · rw [step_fail hf] at hstep
    cases hstep
  · rw [step_ends he] at hstep
    cases stack with
    | nil => cases hstep
    | cons top rest =>
      cases top with
      | objectKey =>
        cases hstep
        exact fun hop => by cases hop.2
      | _ => cases hstep

theorem step_colon_of_inLiteral (hl : inLiteral state = true) (hstep : step limit ⟨state, stack⟩ 0x3a = some s') :
    state = .inString ∧ s' = ⟨.inString, stack⟩ := by
  cases state with
  | inString => exact ⟨rfl, (Option.some.inj hstep).symm⟩
  | inStringEsc | inStringEscU | inStringEscU1 | inStringEscU12 | inStringEscU123 => cases hstep
  | _ => cases hl

theorem inLiteral_step (hl : inLiteral s.state = true) (hq : c ≠ 0x22)
    (hstep : step limit s c = some s') : inLiteral s'.state = true := by
  have ht : ∃ escaped, Tracks true escaped s' s' := by
    obtain ⟨state, stack⟩ := s
    by_cases he : state = .inStringEsc
    · subst he
      exact ⟨false, (tracks_escape hstep).2⟩
    · have ht := (tracks_literal hl he hstep).2
      rw [decide_eq_true hq] at ht
      exact ⟨_, ht⟩
  obtain ⟨escaped, ht⟩ := ht
  cases ht with
  | escape stack => rfl
  | literal state stack h hne => exact h

def isNumeral (c : UInt8) : Bool := isDigit c || c = 0x2d

theorem run_numerals (h : ∀ c ∈ text, isNumeral c) : run limit ⟨.inString, stack⟩ text = some ⟨.inString, stack⟩ := by
  have hb : ∀ n < 256, isNumeral (ofNat n) →
      move .inString (ofNat n) = .goto .inString := by decide +kernel
  induction text with
  | nil => rfl
  | cons c rest ih =>
    have hmove : move .inString c = .goto .inString := by
      have hc := hb c.toNat c.toNat_lt
      rw [ofNat_toNat] at hc
      exact hc (h c mem_cons_self)
    rw [run, step_goto hmove]
    exact ih fun c hc => h c (mem_cons_of_mem _ hc)

/-- **Before the first colon of a valid text there is a quote.** -/
theorem quote_mem_of_colon (h : accepts limit (front ++ 0x3a :: rest) = true) : 0x22 ∈ front := by
  by_contra hq
  rw [accepts, keyless_start.run_colon hq] at h
  cases h

/-- **A valid text is not cut after two colons with a number**: if there is no quote between them,
they stand in one literal, and what comes after the number is not valid. -/
theorem not_accepts_of_colons {name number : Text} (hna : 0x22 ∉ name) (hn : ∀ c ∈ number, isNumeral c)
    (h : accepts limit (front ++ 0x3a :: (name ++ 0x3a :: (number ++ rest))) = true) :
    rest ≠ [] ∧ accepts limit' rest = false := by
  have hcu : ∃ stack,
      run limit .start (front ++ 0x3a :: (name ++ 0x3a :: number)) = some ⟨.inString, stack⟩ := by
    simp only [accepts, Option.any_eq_true] at h
    obtain ⟨s', hr, -⟩ := h
    rw [run_append] at hr
    obtain ⟨s₁, hf, hr⟩ := bind_eq_some_iff.mp hr
    obtain ⟨s₂, hc, hr⟩ := bind_eq_some_iff.mp hr
    have hke : Keyed s₁ := run_rule Keyed (fun _ _ _ _ h => h.step) keyed_start hf
    cases hl : inLiteral s₁.state with
    | false =>
      -- the second colon would come without a key
      have hk := keyless_of_colon hke hl hc
      rw [hk.run_colon hna] at hr
      cases hr
    | true =>
      obtain ⟨-, hs₂⟩ := step_colon_of_inLiteral hl hc
      rw [run_append] at hr
      obtain ⟨s₃, hm, hr⟩ := bind_eq_some_iff.mp hr
      have hl₃ : inLiteral s₃.state = true := run_rule (inLiteral ·.state)
        (fun c hc _ _ hl => inLiteral_step hl fun heq => hna (heq ▸ hc)) (by rw [hs₂]; rfl) hm
      obtain ⟨s₄, hs, -⟩ := bind_eq_some_iff.mp hr
      obtain ⟨-, hs₄⟩ := step_colon_of_inLiteral hl₃ hs
      refine ⟨s₃.stack, ?_⟩
      rw [run_append, hf, bind_some, run, hc, bind_some, run_append, hm,
        bind_some, run, hs, bind_some, hs₄]
      exact run_numerals hn
  obtain ⟨stack, hstack⟩ := hcu
  have hall : accepts limit ((front ++ 0x3a :: (name ++ 0x3a :: number)) ++ rest) = true := by
    simpa using h
  refine ⟨?_, not_accepts_of_cut hstack hall⟩
  rintro rfl
  rw [append_nil, accepts, hstack, Option.any_some] at hall
  cases hall

/-! ### Digits before a value -/

theorem move_digit : ∀ n < 256, isDigit (ofNat n) →
    (move .beginValue (ofNat n) = .goto .one ∨ move .beginValue (ofNat n) = .goto .zero) ∧
      move .one (ofNat n) = .goto .one ∧ move .zero (ofNat n) = .ends ∧
      isSpace (ofNat n) = false := by
  decide +kernel

theorem move_valueStart : ∀ n < 256, valueStart (ofNat n) ≠ .fail →
    isDigit (ofNat n) = false →
      move .one (ofNat n) = .ends ∧ move .zero (ofNat n) = .ends ∧
        isSpace (ofNat n) = false := by
  decide +kernel

theorem afterValue_nil (h : isSpace c = false) : afterValue [] c = none := by
  simp [afterValue, h]

theorem run_digits_none (hdi : ∀ c ∈ digits, isDigit c) (hc : valueStart c ≠ .fail)
    (hd : isDigit c = false) (rest : Text) {state : State} (hst : state = .one ∨ state = .zero) :
    run limit ⟨state, []⟩ (digits ++ c :: rest) = none := by
  induction digits generalizing state with
  | nil =>
    have hmove := move_valueStart c.toNat c.toNat_lt
    rw [ofNat_toNat] at hmove
    obtain ⟨hone, hz, hs⟩ := hmove hc hd
    have he : move state c = .ends := by
      rcases hst with rfl | rfl
      · exact hone
      · exact hz
    rw [nil_append, run, step_ends he, afterValue_nil hs, bind_none]
  | cons d digits ih =>
    have hmove := move_digit d.toNat d.toNat_lt
    rw [ofNat_toNat] at hmove
    obtain ⟨-, hone, hz, hs⟩ := hmove (hdi d mem_cons_self)
    rw [cons_append, run]
    rcases hst with rfl | rfl
    · rw [step_goto hone]
      exact ih (fun c hc => hdi c (mem_cons_of_mem _ hc)) (.inl rfl)
    · rw [step_ends hz, afterValue_nil hs, bind_none]

/-- The first byte of a value without white space before it. -/
theorem valueStart_of_accepts (h : accepts limit (c :: rest) = true)
    (hs : isSpace c = false) : valueStart c ≠ .fail := by
  intro hf
  have hmove : move .beginValue c = .fail := by
    rw [move, if_neg (by rw [hs]; decide)]
    exact hf
  rw [accepts, run, Scan.start, step_fail hmove] at h
  cases h

/-- **Digits in front of a value that does not begin with a digit are no value with it.** -/
theorem not_accepts_digits {d : UInt8} {value : Text} (hd : isDigit d)
    (hdii : ∀ c ∈ digits, isDigit c) (h : accepts limit value = true)
    (hh : ∀ c ∈ value.head?, isDigit c = false ∧ isSpace c = false) :
    accepts limit' (d :: (digits ++ value)) = false := by
  cases value with
  | nil => cases h
  | cons c rest =>
    obtain ⟨hdi, hs⟩ := hh c rfl
    have hmove := move_digit d.toNat d.toNat_lt
    rw [ofNat_toNat] at hmove
    obtain ⟨hst, -⟩ := hmove hd
    have hnone : ∀ state, state = .one ∨ state = .zero →
        run limit' ⟨state, []⟩ (digits ++ c :: rest) = none :=
      fun state hstt => run_digits_none hdii (valueStart_of_accepts h hs) hdi rest hstt
    rw [accepts, run, Scan.start]
    rcases hst with hone | hz
    · rw [step_goto hone, bind_some, hnone _ (.inl rfl)]
      rfl
    · rw [step_goto hz, bind_some, hnone _ (.inr rfl)]
      rfl

end Bib.P2p
