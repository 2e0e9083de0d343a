import Mathlib.Data.List.Basic

/-!
# Bib.Lib.Json.Scanner

**The scanner of Go's `encoding/json` as a pushdown machine over bytes.** `move` is the table of the thirty
scanner states: what a byte does in a state, with no look at the stack. `step` carries a move out on the stack
of open arrays and objects. A fact about the stack then looks at five moves, a fact about bytes at the table.
`accepts` is `json.Valid` for a given nesting limit.
-/

namespace Bib.Lib.Json

open List
open Option (bind_eq_some_iff bind_some ite_none_right_eq_some)

abbrev Text := List UInt8

def isSpace (c : UInt8) : Bool := c = 0x20 || c = 0x09 || c = 0x0a || c = 0x0d

def isDigit (c : UInt8) : Bool := 0x30 ≤ c && c ≤ 0x39

def isHex (c : UInt8) : Bool :=
  isDigit c || 0x61 ≤ c && c ≤ 0x66 || 0x41 ≤ c && c ≤ 0x46

/-- The bytes that may stand after a value: white space, colon, comma and the closing brackets. -/
def isDelimiter (c : UInt8) : Bool :=
  isSpace c || c = 0x3a || c = 0x2c || c = 0x7d || c = 0x5d

/-! ### The machine -/

/-- What the innermost open bracket waits for: the colon after a key, the comma or brace
after a member's value, or the comma or bracket after an array's element. -/
inductive Frame
  | objectKey
  | objectValue
  | arrayValue
  deriving DecidableEq

/-- The states of the scanner, one for each of its step functions. -/
inductive State
  | beginValue
  | beginValueOrEmpty
  | beginStringOrEmpty
  | beginString
  | endValue
  | endTop
  | inString
  | inStringEsc
  | inStringEscU
  | inStringEscU1
  | inStringEscU12
  | inStringEscU123
  | neg
  | one
  | zero
  | dot
  | dot0
  | e
  | eSign
  | e0
  | t
  | tr
  | tru
  | f
  | fa
  | fal
  | fals
  | n
  | nu
  | nul
  deriving DecidableEq

/-- What a byte does in a state, before the stack is looked at. -/
inductive Move
  | fail
  | goto (state : State)
  | push (frame : Frame) (state : State)
  /-- The brace of `{}`. -/
  | emptyObject
  /-- The value has ended before this byte. -/
  | ends
  deriving DecidableEq

/-- `stateBeginValue` past white space. -/
def valueStart (c : UInt8) : Move :=
  if c = 0x7b then .push .objectKey .beginStringOrEmpty
  else if c = 0x5b then .push .arrayValue .beginValueOrEmpty
  else if c = 0x22 then .goto .inString
  else if c = 0x2d then .goto .neg
  else if c = 0x30 then .goto .zero
  else if c = 0x74 then .goto .t
  else if c = 0x66 then .goto .f
  else if c = 0x6e then .goto .n
  else if isDigit c then .goto .one
  else .fail

/-- `stateBeginString` past white space. -/
def keyStart (c : UInt8) : Move :=
  if c = 0x22 then .goto .inString else .fail

def expect (b : UInt8) (state : State) (c : UInt8) : Move :=
  if c = b then .goto state else .fail

/-- A state inside `\u` that takes a hexadecimal digit. -/
def expectHex (state : State) (c : UInt8) : Move :=
  if isHex c then .goto state else .fail

/-- `state0`: after the integer part of a number. -/
def afterInteger (c : UInt8) : Move :=
  if c = 0x2e then .goto .dot
  else if c = 0x65 || c = 0x45 then .goto .e
  else .ends

/-- `stateESign`: a digit of the exponent is due. -/
def exponentDigit (c : UInt8) : Move :=
  if isDigit c then .goto .e0 else .fail

/-- The bytes a backslash may stand before, `u` apart: `b`, `f`, `n`, `r`, `t`, a
backslash, a slash and a quote. -/
def isEscape (c : UInt8) : Bool :=
  c = 0x62 || c = 0x66 || c = 0x6e || c = 0x72 || c = 0x74 || c = 0x5c || c = 0x2f || c = 0x22

def move : State → UInt8 → Move
  | .beginValue, c => if isSpace c then .goto .beginValue else valueStart c
  | .beginValueOrEmpty, c =>
    if isSpace c then .goto .beginValueOrEmpty
    else if c = 0x5d then .ends
    else valueStart c
  | .beginStringOrEmpty, c =>
    if isSpace c then .goto .beginStringOrEmpty
    else if c = 0x7d then .emptyObject
    else keyStart c
  | .beginString, c => if isSpace c then .goto .beginString else keyStart c
  | .endValue, _ => .ends
  | .endTop, c => if isSpace c then .goto .endTop else .fail
  | .inString, c =>
    if c = 0x22 then .goto .endValue
    else if c = 0x5c then .goto .inStringEsc
    else if c < 0x20 then .fail
    else .goto .inString
  | .inStringEsc, c =>
    if isEscape c then .goto .inString
    else if c = 0x75 then .goto .inStringEscU
    else .fail
  | .inStringEscU, c => expectHex .inStringEscU1 c
  | .inStringEscU1, c => expectHex .inStringEscU12 c
  | .inStringEscU12, c => expectHex .inStringEscU123 c
  | .inStringEscU123, c => expectHex .inString c
  | .neg, c => if c = 0x30 then .goto .zero else if isDigit c then .goto .one else .fail
  | .one, c => if isDigit c then .goto .one else afterInteger c
  | .zero, c => afterInteger c
  | .dot, c => if isDigit c then .goto .dot0 else .fail
  | .dot0, c =>
    if isDigit c then .goto .dot0
    else if c = 0x65 || c = 0x45 then .goto .e
    else .ends
  | .e, c => if c = 0x2b || c = 0x2d then .goto .eSign else exponentDigit c
  | .eSign, c => exponentDigit c
  | .e0, c => if isDigit c then .goto .e0 else .ends
  | .t, c => expect 0x72 .tr c
  | .tr, c => expect 0x75 .tru c
  | .tru, c => expect 0x65 .endValue c
  | .f, c => expect 0x61 .fa c
  | .fa, c => expect 0x6c .fal c
  | .fal, c => expect 0x73 .fals c
  | .fals, c => expect 0x65 .endValue c
  | .n, c => expect 0x75 .nu c
  | .nu, c => expect 0x6c .nul c
  | .nul, c => expect 0x6c .endValue c

/-- The scanner between two bytes: its state and the open brackets, innermost first. -/
@[ext]
structure Scan where
  state : State
  stack : List Frame
  deriving DecidableEq

/-- `popParseState`: the innermost bracket is closed and `rest` is still open. -/
def popped (rest : List Frame) : Scan :=
  match rest with
  | [] => ⟨.endTop, []⟩
  | _ :: _ => ⟨.endValue, rest⟩

/-- What a byte does after a value inside a bracket. -/
inductive After
  | fail
  | next (frame : Frame) (state : State)
  | close

/-- `stateEndValue` inside a bracket, past white space. -/
def afterFrame : Frame → UInt8 → After
  | .objectKey, c => if c = 0x3a then .next .objectValue .beginValue else .fail
  | .objectValue, c =>
    if c = 0x2c then .next .objectKey .beginString else if c = 0x7d then .close else .fail
  | .arrayValue, c =>
    if c = 0x2c then .next .arrayValue .beginValue else if c = 0x5d then .close else .fail

/-- `stateEndValue`: a value has ended and `c` comes after it. -/
def afterValue (stack : List Frame) (c : UInt8) : Option Scan :=
  match stack with
  | [] => if isSpace c then some ⟨.endTop, []⟩ else none
  | top :: rest =>
    if isSpace c then some ⟨.endValue, stack⟩
    else
      match afterFrame top c with
      | .fail => none
      | .next frame state => some ⟨state, frame :: rest⟩
      | .close => some (popped rest)

/-- One byte; `limit` bounds the nesting. -/
def step (limit : Nat) (s : Scan) (c : UInt8) : Option Scan :=
  match move s.state c with
  | .fail => none
  | .goto state => some ⟨state, s.stack⟩
  | .push frame state => if s.stack.length < limit then some ⟨state, frame :: s.stack⟩ else none
  | .emptyObject =>
    match s.stack with
    | [] => none
    | _ :: rest => some (popped rest)
  | .ends => afterValue s.stack c

/-- What the scanner does with a byte that it accepts. -/
inductive Steps (limit : Nat) (c : UInt8) (s : Scan) : Scan → Prop
  | goto (state : State) (hmove : move s.state c = .goto state) : Steps limit c s ⟨state, s.stack⟩
  | push (frame : Frame) (state : State) (hmove : move s.state c = .push frame state)
      (hlen : s.stack.length < limit) : Steps limit c s ⟨state, frame :: s.stack⟩
  | space (hmove : move s.state c = .ends) (hs : isSpace c = true) : Steps limit c s (popped s.stack)
  | turn (top frame : Frame) (rest : List Frame) (state : State) (hstack : s.stack = top :: rest)
      (hmove : move s.state c = .ends) (hs : isSpace c = false)
      (ha : afterFrame top c = .next frame state) : Steps limit c s ⟨state, frame :: rest⟩
  | close (top : Frame) (rest : List Frame) (hstack : s.stack = top :: rest)
      (hclose : move s.state c = .emptyObject ∨
        move s.state c = .ends ∧ isSpace c = false ∧ afterFrame top c = .close) :
      Steps limit c s (popped rest)

section Step

variable {limit : Nat} {state state' : State} {stack : List Frame} {c : UInt8} {s s' : Scan}

theorem step_fail (h : move state c = .fail) : step limit ⟨state, stack⟩ c = none := by
  simp only [step, h]

theorem step_goto (h : move state c = .goto state') : step limit ⟨state, stack⟩ c = some ⟨state', stack⟩ := by
  simp only [step, h]

theorem step_ends (h : move state c = .ends) : step limit ⟨state, stack⟩ c = afterValue stack c := by
  simp only [step, h]

theorem steps_of_step (h : step limit s c = some s') : Steps limit c s s' := by
  obtain ⟨state, stack⟩ := s
  cases hmove : move state c with
  | fail => simp [step_fail hmove] at h
  | goto next =>
    rw [step_goto hmove] at h
    cases h
    exact .goto next hmove
  | push frame next =>
    simp only [step, hmove, ite_none_right_eq_some, Option.some.injEq] at h
    obtain ⟨hlen, rfl⟩ := h
    exact .push frame next hmove hlen
  | emptyObject =>
    cases stack with
    | nil => simp [step, hmove] at h
    | cons top rest =>
      simp only [step, hmove, Option.some.injEq] at h
      rw [← h]
      exact .close top rest rfl (.inl hmove)
  | ends =>
    rw [step_ends hmove] at h
    cases hs : isSpace c with
    | true =>
      have hp : afterValue stack c = some (popped stack) := by
        cases stack <;> simp [afterValue, hs, popped]
      rw [hp] at h
      cases h
      exact .space hmove hs
    | false =>
      cases stack with
      | nil => simp [afterValue, hs] at h
      | cons top rest =>
        cases ha : afterFrame top c with
        | fail => simp [afterValue, hs, ha] at h
        | next frame next =>
          simp [afterValue, hs, ha] at h
          rw [← h]
          exact .turn top frame rest next rfl hmove hs ha
        | close =>
          simp [afterValue, hs, ha] at h
          rw [← h]
          exact .close top rest rfl (.inr ⟨hmove, hs, ha⟩)

end Step

/-- A run over a text; nothing if some byte is refused. -/
def run (limit : Nat) : Scan → Text → Option Scan
  | s, [] => some s
  | s, c :: rest => (step limit s c).bind (run limit · rest)

def Scan.start : Scan := ⟨.beginValue, []⟩

/-- `eof`: the text may end here, if need be after one more blank. -/
def Scan.eof (s : Scan) : Bool :=
  s.state = .endTop || (step 0 s 0x20).any (·.state = .endTop)

def accepts (limit : Nat) (text : Text) : Bool := (run limit .start text).any Scan.eof

def maxNestingDepth : Nat := 10000

def valid (text : Text) : Bool := accepts maxNestingDepth text

example : valid [0x7b, 0x22, 0x61, 0x22, 0x3a, 0x5b, 0x31, 0x2c, 0x20, 0x2d, 0x30, 0x5d,
    0x7d] := by
  decide

/-! ### Runs -/

section Runs

variable {limit : Nat} {s s' : Scan}

theorem run_append (limit : Nat) (s : Scan) (a b : Text) :
    run limit s (a ++ b) = (run limit s a).bind (run limit · b) := by
  induction a generalizing s with
  | nil => rfl
  | cons c rest ih =>
    simp only [cons_append, run]
    cases step limit s c with
    | none => rfl
    | some s' => simp only [bind_some, ih]

variable {limit' : Nat} {text : Text}

theorem run_rule (P : Scan → Prop) (hstep : ∀ c ∈ text, ∀ s s', P s → step limit s c = some s' → P s') (hs : P s)
    (h : run limit s text = some s') : P s' := by
  induction text generalizing s with
  | nil =>
    cases h
    exact hs
  | cons c rest ih =>
    obtain ⟨s₁, h₁, hrest⟩ := bind_eq_some_iff.mp h
    exact ih (fun c hc => hstep c (mem_cons_of_mem _ hc)) (hstep c mem_cons_self s s₁ hs h₁) hrest

theorem step_mono (hle : limit ≤ limit') {c : UInt8}
    (h : step limit s c = some s') : step limit' s c = some s' := by
  unfold step at h ⊢
  cases hm : move s.state c with
  | push frame state =>
    simp only [hm, ite_none_right_eq_some] at h ⊢
    exact ⟨by omega, h.2⟩
  | fail => simp [hm] at h
  | _ => simpa [hm] using h

theorem run_mono (hle : limit ≤ limit') {text : Text}
    (h : run limit s text = some s') : run limit' s text = some s' := by
  induction text generalizing s with
  | nil => exact h
  | cons c rest ih =>
    simp only [run, bind_eq_some_iff] at h ⊢
    obtain ⟨s₁, hstep, hrest⟩ := h
    exact ⟨s₁, step_mono hle hstep, ih hrest⟩

/-- Whatever is open, only a delimiter stands after a value. -/
theorem afterValue_eq_none {c : UInt8} (h : isDelimiter c = false) (stack : List Frame) :
    afterValue stack c = none := by
  simp only [isDelimiter, Bool.or_eq_false_iff, decide_eq_false_iff_not] at h
  cases stack with
  | nil => simp [afterValue, h]
  | cons top rest => cases top <;> simp [afterValue, afterFrame, h]

theorem step_zero (limit : Nat) (s : Scan) : step limit s 0 = none := by
  have ha := afterValue_eq_none (c := 0) (by decide)
  obtain ⟨state, stack⟩ := s
  cases state <;> first | rfl | exact ha stack

theorem run_of_zero_mem (h : 0 ∈ text) (s : Scan) : run limit s text = none := by
  induction text generalizing s with
  | nil => exact absurd h not_mem_nil
  | cons c rest ih =>
    rcases mem_cons.mp h with rfl | hrest
    · simp [run, step_zero]
    · cases hstep : step limit s c with
      | none => simp [run, hstep]
      | some s' => simp [run, hstep, ih hrest]

theorem accepts_of_zero_mem (h : 0 ∈ text) : accepts limit text = false := by
  simp [accepts, run_of_zero_mem h]

end Runs

/-! ### The end of a value -/

/-- The states in which a value is complete up to here. -/
def State.ended : State → Bool
  | .endValue | .zero | .one | .dot0 | .e0 => true
  | _ => false

theorem move_of_ended {state : State} (h : state.ended) {c : UInt8} (hc : isDelimiter c) : move state c = .ends := by
  have hca : c = 0x20 ∨ c = 0x09 ∨ c = 0x0a ∨ c = 0x0d ∨ c = 0x3a ∨ c = 0x2c ∨ c = 0x7d
      ∨ c = 0x5d := by
    simpa [isDelimiter, isSpace, or_assoc] using hc
  cases state <;> simp only [State.ended, Bool.false_eq_true] at h <;>
    rcases hca with rfl | rfl | rfl | rfl | rfl | rfl | rfl | rfl <;> rfl

theorem eof_iff {s : Scan} : s.eof ↔ s.state = .endTop ∨ s.state.ended ∧ s.stack = [] := by
  obtain ⟨state, stack⟩ := s
  cases state <;> cases stack <;> simp [Scan.eof, State.ended] <;> rfl

/-! ### Runs without white space

Between its string literals a text as `json.Marshal` writes it has no white space. Such a
run reaches `endTop` only by closing a bracket, and then takes no further byte. -/

/-- One byte, which is no white space outside a string literal. -/
def tightStep (limit : Nat) (s : Scan) (c : UInt8) : Option Scan :=
  if isSpace c ∧ s.state ≠ .inString then none else step limit s c

/-- A run over a text without white space outside its string literals. -/
def tightRun (limit : Nat) : Scan → Text → Option Scan
  | s, [] => some s
  | s, c :: rest => (tightStep limit s c).bind (tightRun limit · rest)

/-- A JSON value nested at most `limit` deep, without white space. -/
def IsValue (limit : Nat) (text : Text) : Prop :=
  ∃ s, tightRun limit .start text = some s ∧ s.eof

section Tight

variable {limit : Nat} {s s' : Scan} {c : UInt8} {text : Text}

theorem tightStep_eq_some : tightStep limit s c = some s' ↔
    (isSpace c = true → s.state = .inString) ∧ step limit s c = some s' := by
  unfold tightStep
  by_cases h : isSpace c ∧ s.state ≠ .inString
  · simp [h]
  · rw [if_neg h]
    simp only [not_and, not_not] at h
    exact ⟨fun hstep => ⟨h, hstep⟩, And.right⟩

theorem tightRun_append (limit : Nat) (s : Scan) (a b : Text) :
    tightRun limit s (a ++ b) = (tightRun limit s a).bind (tightRun limit · b) := by
  induction a generalizing s with
  | nil => rfl
  | cons c rest ih =>
    simp only [cons_append, tightRun]
    cases tightStep limit s c with
    | none => rfl
    | some s' => simp only [bind_some, ih]

theorem run_of_tightRun (h : tightRun limit s text = some s') : run limit s text = some s' := by
  induction text generalizing s with
  | nil => exact h
  | cons c rest ih =>
    simp only [tightRun, run, bind_eq_some_iff, tightStep_eq_some] at h ⊢
    obtain ⟨s₁, ⟨-, hstep⟩, hrest⟩ := h
    exact ⟨s₁, hstep, ih hrest⟩

variable {limit' : Nat} {state state' : State} {stack below : List Frame} {frame : Frame} {x : UInt8}

theorem tightRun_mono (hle : limit ≤ limit') (h : tightRun limit s text = some s') :
    tightRun limit' s text = some s' := by
  induction text generalizing s with
  | nil => exact h
  | cons c rest ih =>
    simp only [tightRun, bind_eq_some_iff, tightStep_eq_some] at h ⊢
    obtain ⟨s₁, ⟨hs, hstep⟩, hrest⟩ := h
    exact ⟨s₁, ⟨hs, step_mono hle hstep⟩, ih hrest⟩

theorem tightRun_of_run {s'' : Scan} (h : tightRun limit' s text = some s')
    (hr : run limit s text = some s'') : tightRun limit s text = some s' := by
  induction text generalizing s with
  | nil => exact h
  | cons c rest ih =>
    simp only [tightRun, run, bind_eq_some_iff, tightStep_eq_some] at h hr ⊢
    obtain ⟨s₁, ⟨hs, hstep⟩, hrest⟩ := h
    obtain ⟨u, hus, hu⟩ := hr
    have hsa := (step_mono (Nat.le_max_left limit limit') hus).symm.trans
      (step_mono (Nat.le_max_right limit limit') hstep)
    cases hsa
    exact ⟨s₁, ⟨hs, hus⟩, ih hrest hu⟩

theorem tightRun_cons (h : tightStep limit s c = some s') (rest : Text) :
    tightRun limit s (c :: rest) = tightRun limit s' rest := by
  simp [tightRun, h]

theorem tightStep_goto (h : move state c = .goto state')
    (hs : isSpace c = true → state = .inString) (limit : Nat) (stack : List Frame) :
    tightStep limit ⟨state, stack⟩ c = some ⟨state', stack⟩ := by
  rw [tightStep_eq_some]
  exact ⟨hs, step_goto h⟩

theorem tightStep_endTop : tightStep limit ⟨.endTop, stack⟩ c = none := by
  cases hs : isSpace c with
  | true => simp [tightStep, hs]
  | false =>
    have hmove : move .endTop c = .fail := if_neg (by simp [hs])
    simp [tightStep, hs, step_fail hmove]

/-- The table itself does not lead to the end of the text: closing a bracket does. -/
theorem move_goto_ne_endTop (h : move state c = .goto state') (hne : state ≠ .endTop) : state' ≠ .endTop := by
  intro heq
  subst heq
  cases state <;>
    simp [move, valueStart, keyStart, expect, expectHex, afterInteger, exponentDigit,
      ite_eq_iff] at h hne

theorem move_push_ne_endTop (h : move state c = .push frame state') : state' ≠ .endTop := by
  intro heq
  subst heq
  cases state <;>
    simp [move, valueStart, keyStart, expect, expectHex, afterInteger, exponentDigit, ite_eq_iff] at h

/-- What one byte of a tight run does. In each case the byte does the same with any other
brackets open below: `replay` says so. -/
inductive Effect (limit : Nat) (s : Scan) (c : UInt8) : Scan → Prop
  | stays (state : State) (hne : state ≠ .endTop)
      (replay : ∀ limit stack, tightStep limit ⟨s.state, stack⟩ c = some ⟨state, stack⟩) :
      Effect limit s c ⟨state, s.stack⟩
  | opens (frame : Frame) (state : State) (hne : state ≠ .endTop)
      (hmove : move s.state c = .push frame state) (hlen : s.stack.length < limit)
      (replay : ∀ limit stack, stack.length < limit →
        tightStep limit ⟨s.state, stack⟩ c = some ⟨state, frame :: stack⟩) :
      Effect limit s c ⟨state, frame :: s.stack⟩
  | turns {top : Frame} {rest : List Frame} (frame : Frame) (state : State)
      (hne : state ≠ .endTop) (hstack : s.stack = top :: rest)
      (replay : ∀ limit rest, tightStep limit ⟨s.state, top :: rest⟩ c = some ⟨state, frame :: rest⟩) :
      Effect limit s c ⟨state, frame :: rest⟩
  | closes {top : Frame} {rest : List Frame} (hstack : s.stack = top :: rest)
      (replay : ∀ limit rest, tightStep limit ⟨s.state, top :: rest⟩ c = some (popped rest)) :
      Effect limit s c (popped rest)

theorem afterFrame_ne_endTop {top : Frame}
    (h : afterFrame top c = .next frame state) : state ≠ .endTop := by
  intro heq
  subst heq
  cases top <;> simp [afterFrame, ite_eq_iff] at h

theorem tightStep_ne_endTop (h : tightStep limit s c = some s') : s.state ≠ .endTop := by
  obtain ⟨state, stack⟩ := s
  rintro rfl
  rw [tightStep_endTop] at h
  cases h

theorem tightStep_effect (h : tightStep limit s c = some s') : Effect limit s c s' := by
  have hne := tightStep_ne_endTop h
  obtain ⟨hsp, hstep⟩ := tightStep_eq_some.mp h
  -- a byte does what the table and the innermost bracket say, whatever lies below
  have hr : ∀ {limit stack s'}, step limit ⟨s.state, stack⟩ c = some s' →
      tightStep limit ⟨s.state, stack⟩ c = some s' :=
    fun hstep => tightStep_eq_some.mpr ⟨hsp, hstep⟩
  cases steps_of_step hstep with
  | goto state' hmove =>
    exact .stays state' (move_goto_ne_endTop hmove hne) fun limit stack => hr (step_goto hmove)
  | push frame state' hmove hlen =>
    exact .opens frame state' (move_push_ne_endTop hmove) hmove hlen
      fun limit stack hlen => hr (by simp [step, hmove, hlen])
  | space hmove hs =>
    -- white space is only read inside a string, which no white space ends
    rw [hsp hs] at hmove
    simp [move, ite_eq_iff] at hmove
  | turn top frame rest state' hstack hmove hs ha =>
    exact .turns frame state' (afterFrame_ne_endTop ha) hstack
      fun limit rest => hr (by simp [step, hmove, afterValue, hs, ha])
  | close top rest hstack hclose =>
    refine .closes hstack fun limit rest => hr ?_
    rcases hclose with hmove | ⟨hmove, hs, ha⟩
    · simp [step, hmove]
    · simp [step, hmove, afterValue, hs, ha]

/-! ### A value inside brackets -/

/-- The scan with `below` open below everything else: the end of the text is then the end
of a value. -/
def Scan.under (s : Scan) (below : List Frame) : Scan :=
  ⟨if s.state = .endTop then .endValue else s.state, s.stack ++ below⟩

theorem under_of_ne (hne : state ≠ .endTop) (stack below : List Frame) :
    Scan.under ⟨state, stack⟩ below = ⟨state, stack ++ below⟩ := by
  simp [Scan.under, hne]

theorem popped_under (hb : below ≠ []) (rest : List Frame) : (popped rest).under below = popped (rest ++ below) := by
  cases rest with
  | nil =>
    obtain ⟨top, below, rfl⟩ := exists_cons_of_ne_nil hb
    rfl
  | cons top rest => simp [popped, Scan.under]

theorem tightStep_frame (hb : below ≠ []) (h : tightStep limit s c = some s') :
    tightStep (limit + below.length) (s.under below) c = some (s'.under below) := by
  have hu : s.under below = ⟨s.state, s.stack ++ below⟩ := under_of_ne (tightStep_ne_endTop h) _ _
  rw [hu]
  cases tightStep_effect h with
  | stays state hs replay => rw [replay, under_of_ne hs]
  | opens frame state hs hmove hlen replay =>
    rw [replay _ _ (by simp only [length_append]; omega), under_of_ne hs]
    rfl
  | turns frame state hs hstack replay =>
    rw [hstack, cons_append, replay, under_of_ne hs]
    rfl
  | closes hstack replay => rw [hstack, cons_append, replay, popped_under hb]

/-- **What is read by itself is read inside brackets**, one level down for each. -/
theorem tightRun_frame (hb : below ≠ []) (h : tightRun limit s text = some s') :
    tightRun (limit + below.length) (s.under below) text = some (s'.under below) := by
  induction text generalizing s with
  | nil =>
    simp only [tightRun, Option.some.injEq] at h ⊢
    rw [h]
  | cons c rest ih =>
    simp only [tightRun, bind_eq_some_iff] at h ⊢
    obtain ⟨s₁, hstep, hrest⟩ := h
    exact ⟨s₁.under below, tightStep_frame hb hstep, ih hrest⟩

/-- Conversely the nesting inside the brackets is within what they leave of the limit. -/
theorem tightRun_of_under (hb : below ≠ []) {s'' : Scan} (h : tightRun limit' s text = some s')
    (hu : run (limit + below.length) (s.under below) text = some s'') :
    tightRun limit s text = some s' := by
  induction text generalizing s with
  | nil => exact h
  | cons c rest ih =>
    simp only [tightRun, run, bind_eq_some_iff] at h hu ⊢
    obtain ⟨s₁, hstep, hrest⟩ := h
    obtain ⟨u, hus, hur⟩ := hu
    have hl : tightStep limit s c = some s₁ := by
      cases tightStep_effect hstep with
      | stays state hs replay => exact replay limit s.stack
      | turns frame state hs hstack replay =>
        obtain ⟨state, stack⟩ := s
        subst hstack
        exact replay limit _
      | closes hstack replay =>
        obtain ⟨state, stack⟩ := s
        subst hstack
        exact replay limit _
      | opens frame state hs hmove hlen replay =>
        refine replay limit s.stack ?_
        have hne : s.state ≠ .endTop := by
          intro heq
          simp [heq, move, ite_eq_iff] at hmove
        obtain ⟨state₀, stack⟩ := s
        rw [under_of_ne hne] at hus
        simp only [step, hmove, ite_none_right_eq_some, length_append] at hus
        simp only
        omega
    have hun : u = s₁.under below := by
      have hf := tightStep_frame hb hl
      rw [tightStep_eq_some] at hf
      rw [hus] at hf
      exact Option.some.inj hf.2
    subst hun
    exact ⟨s₁, hl, ih hrest hur⟩

/-! ### The end of the text -/

theorem tightRun_endTop (h : tightRun limit ⟨.endTop, stack⟩ text = some s') : text = [] ∧ s' = ⟨.endTop, stack⟩ := by
  cases text with
  | nil => exact ⟨rfl, (Option.some.inj h).symm⟩
  | cons c rest => simp [tightRun, tightStep_endTop] at h

/-- `endTop` is reached with nothing open, and once a bracket is open nothing is open only there. -/
theorem tightRun_endTop_iff (h : tightRun limit s text = some s') :
    (s.state ≠ .endTop → s'.state = .endTop → s'.stack = []) ∧
      (s.stack ≠ [] → s'.stack = [] → s'.state = .endTop) := by
  induction text generalizing s with
  | nil =>
    cases h
    exact ⟨fun hs ht => absurd ht hs, fun hs hn => absurd hn hs⟩
  | cons c rest ih =>
    simp only [tightRun, bind_eq_some_iff] at h
    obtain ⟨s₁, hstep, hrest⟩ := h
    obtain ⟨hstate, hstack⟩ := ih hrest
    cases tightStep_effect hstep with
    | stays state hne replay => exact ⟨fun _ => hstate hne, hstack⟩
    | opens frame state hne hmove hlen replay => exact ⟨fun _ => hstate hne, fun _ => hstack (by simp)⟩
    | turns frame state hne hs replay => exact ⟨fun _ => hstate hne, fun _ => hstack (by simp)⟩
    | @closes top below hs replay =>
      cases below with
      | nil =>
        obtain ⟨-, rfl⟩ := tightRun_endTop hrest
        exact ⟨fun _ _ => rfl, fun _ _ => rfl⟩
      | cons top below => exact ⟨fun _ => hstate (by simp [popped]), fun _ => hstack (by simp [popped])⟩

theorem start_under (below : List Frame) : Scan.start.under below = ⟨.beginValue, below⟩ := rfl

theorem IsValue.mono (hle : limit ≤ limit') (h : IsValue limit text) : IsValue limit' text := by
  obtain ⟨s, hr, he⟩ := h
  exact ⟨s, tightRun_mono hle hr, he⟩

theorem IsValue.of_accepts (h : IsValue limit' text) (ha : Json.accepts limit text) : IsValue limit text := by
  obtain ⟨s, ht, he⟩ := h
  simp only [Json.accepts, Option.any_eq_true] at ha
  obtain ⟨u, hr, -⟩ := ha
  exact ⟨s, tightRun_of_run ht hr, he⟩

theorem IsValue.accepts (h : IsValue limit text) : accepts limit text = true := by
  obtain ⟨s, hr, he⟩ := h
  simp [Json.accepts, run_of_tightRun hr, he]

theorem IsValue.inside (h : IsValue limit text) (below : List Frame) (hb : below ≠ []) :
    ∃ state : State, state.ended ∧
      tightRun (limit + below.length) ⟨.beginValue, below⟩ text = some ⟨state, below⟩ := by
  obtain ⟨s, hr, heo⟩ := h
  have hf := tightRun_frame hb hr
  rw [start_under] at hf
  rcases eof_iff.mp heo with ht | ⟨he, hstack⟩
  · have hstack := (tightRun_endTop_iff hr).1 (by decide) ht
    exact ⟨.endValue, rfl, by rw [hf, Scan.under, ht, hstack]; rfl⟩
  · have hne : s.state ≠ .endTop := by
      intro heq
      rw [heq] at he
      cases he
    exact ⟨s.state, he, by rw [hf, Scan.under, if_neg hne, hstack]; rfl⟩

/-- A value that is read inside brackets is nested within what they leave of the limit. -/
theorem IsValue.of_inside (h : IsValue limit' text) (below : List Frame)
    (hb : below ≠ []) {s' : Scan}
    (hr : run (limit + below.length) ⟨.beginValue, below⟩ text = some s') : IsValue limit text := by
  obtain ⟨s, ht, he⟩ := h
  exact ⟨s, tightRun_of_under hb ht hr, he⟩

/-! ### A text that ends inside an object -/

/-- From whatever state: a brace, a quote and then a byte that cannot come after a value
are read only as the beginning of an object. -/
theorem run_object_start (hx : isDelimiter x = false) {rest : Text}
    (h : run limit s (0x7b :: 0x22 :: x :: rest) = some s') :
    run limit ⟨.beginValue, s.stack⟩ (0x7b :: 0x22 :: x :: rest) = some s' := by
  have ha := afterValue_eq_none hx
  have ho := afterValue_eq_none (c := 0x7b) (by decide)
  simp only [run, bind_eq_some_iff] at h ⊢
  obtain ⟨s₁, h₁, s₂, h₂, s₃, h₃, hrest⟩ := h
  obtain ⟨state, stack⟩ := s
  cases state with
  | beginValue => exact ⟨s₁, h₁, s₂, h₂, s₃, h₃, hrest⟩
  | beginValueOrEmpty => exact ⟨s₁, h₁, s₂, h₂, s₃, h₃, hrest⟩
  | inString =>
    -- the quote closes the literal, and `x` cannot follow it
    cases h₁
    cases h₂
    rw [show step limit ⟨.endValue, stack⟩ x = afterValue stack x from rfl, ha] at h₃
    cases h₃
  | endValue | zero | one | dot0 | e0 => exact absurd ((ho stack).symm.trans h₁) (by simp)
  | _ => cases h₁

/-- The cut of an object is read, with the object still open, below any brackets. -/
theorem run_cut {front rest : Text} (hrest : rest ≠ [])
    (hv : IsValue limit (0x7b :: front ++ rest)) (below : List Frame) :
    ∃ s, run (limit + below.length) ⟨.beginValue, below⟩ (0x7b :: front) = some s ∧
      s.state ≠ .endTop ∧ s.stack ≠ [] := by
  obtain ⟨s, hr, -⟩ := hv
  rw [tightRun_append, bind_eq_some_iff] at hr
  obtain ⟨s₁, hc, he⟩ := hr
  have ho : s₁.stack ≠ [] := by
    intro hn
    obtain ⟨s₂, hbr, hc⟩ := bind_eq_some_iff.mp hc
    have hs₂ : s₂.stack ≠ [] := by
      have hp := (tightStep_eq_some.mp hbr).2
      rw [show step limit .start 0x7b = if 0 < limit then
        some ⟨.beginStringOrEmpty, [.objectKey]⟩ else none from rfl] at hp
      simp only [ite_none_right_eq_some, Option.some.injEq] at hp
      simp [← hp.2]
    have ht := (tightRun_endTop_iff hc).2 hs₂ hn
    obtain ⟨state, stack⟩ := s₁
    subst ht
    exact hrest (tightRun_endTop he).1
  have hne : s₁.state ≠ .endTop := fun ht => ho ((tightRun_endTop_iff hc).1 (by decide) ht)
  by_cases hb : below = []
  · subst hb
    exact ⟨s₁, run_of_tightRun hc, hne, ho⟩
  · refine ⟨s₁.under below, run_of_tightRun (tightRun_frame hb hc), ?_, ?_⟩
    · simp [Scan.under, hne]
    · simp [Scan.under, ho]

/-- **No text ends inside an object.** Whatever stands before it, the beginning of an object
without its end is refused. -/
theorem accepts_append_cut (hx : isDelimiter x = false) {front more rest : Text} (hrest : rest ≠ [])
    (hv : IsValue limit' (0x7b :: 0x22 :: x :: more ++ rest)) :
    accepts limit (front ++ 0x7b :: 0x22 :: x :: more) = false := by
  rw [Bool.eq_false_iff]
  intro ha
  simp only [accepts, Option.any_eq_true] at ha
  obtain ⟨s', hr, he⟩ := ha
  rw [run_append, bind_eq_some_iff] at hr
  obtain ⟨s₀, -, hta⟩ := hr
  have hta := run_object_start hx hta
  obtain ⟨s, hc, hne, ho⟩ := run_cut hrest hv s₀.stack
  -- both runs are runs under the greater of the two limits
  have hs := (run_mono (Nat.le_max_left _ _) hta).symm.trans (run_mono (Nat.le_max_right _ _) hc)
  cases hs
  rcases eof_iff.mp he with ht | ⟨-, hstack⟩
  · exact hne ht
  · exact ho hstack

end Tight

end Bib.Lib.Json
