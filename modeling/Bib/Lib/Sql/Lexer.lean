import Bib.Lib.Sql.Comment

/-!
# Bib.Lib.Sql.Lexer

**The tokens of an SQL text**, read letter by letter: words, symbols, and what stands between quotes. Line
and block comments and blanks separate tokens and are none. Dialects differ in their blanks, in whether block
comments nest, and in how identifiers are quoted.

`boundary_of_word` says where a word token stands in the text, and `head?_tokens_of_word` what the first
token is.
-/

namespace Bib.Lib.Sql

open List

/-- The letters of words: those of ASCII, the digits, the underscore, the dollar sign, and everything beyond
ASCII. -/
def isIdent (c : Char) : Bool := c.isAlphanum || c = '_' || c = '$' || 128 ≤ c.toNat

def isAsciiSpace (c : Char) : Bool :=
  c = ' ' || c = '\t' || c = '\n' || c = '\r' || c = '\x0b' || c = '\x0c'

/-- A dialect. `closing` says which characters begin a quoted identifier, with which one it ends, and
whether that one is written twice inside of it. -/
structure Dialect where
  nested : Bool
  isBlank : Char → Bool
  closing : Char → Option (Char × Bool)
  isAsciiSpace_of_isBlank : ∀ c, isBlank c = true → isAsciiSpace c = true
  not_isIdent_of_closing : ∀ c close twice, closing c = some (close, twice) → isIdent close = false

inductive Token
  | word (letters : List Char)
  | symbol (c : Char)
  /-- What stands between quotes, with the character that ends it. -/
  | quoted (close : Char) (letters : List Char)
  /-- Something quoted that does not end. -/
  | unclosed
  deriving DecidableEq

inductive State
  | top
  | word (letters : List Char)
  | dash
  | slash
  | line
  | block (b : Block)
  | quoted (close : Char) (twice : Bool) (letters : List Char)
  | closed (close : Char) (letters : List Char)

section Lexing

variable (d : Dialect)

/-- A character with which something new begins. -/
def enter (c : Char) : List Token × State :=
  if d.isBlank c then ([], .top)
  else if isIdent c then ([], .word [c])
  else if c = '-' then ([], .dash)
  else if c = '/' then ([], .slash)
  else if c = '\'' then ([], .quoted '\'' true [])
  else
    match d.closing c with
    | some (close, twice) => ([], .quoted close twice [])
    | none => ([.symbol c], .top)

/-- A character that ends a token, and begins something new. -/
def endToken (t : Token) (c : Char) : List Token × State := (t :: (enter d c).1, (enter d c).2)

/-- One character: the tokens that end with it, and what is read then. -/
def step : State → Char → List Token × State
  | .top, c => enter d c
  | .word letters, c => if isIdent c then ([], .word (letters ++ [c])) else endToken d (.word letters) c
  | .dash, c => if c = '-' then ([], .line) else endToken d (.symbol '-') c
  | .slash, c => if c = '*' then ([], .block .start) else endToken d (.symbol '/') c
  | .line, c => if c = '\n' then ([], .top) else ([], .line)
  | .block b, c =>
    match blockStep d.nested '*' '/' b c with
    | none => ([], .top)
    | some b' => ([], .block b')
  | .quoted close twice letters, c =>
    if c = close then if twice then ([], .closed close letters) else ([.quoted close letters], .top)
    else ([], .quoted close twice (letters ++ [c]))
  | .closed close letters, c =>
    if c = close then ([], .quoted close true (letters ++ [c])) else endToken d (.quoted close letters) c

def finish : State → List Token
  | .word letters => [.word letters]
  | .dash => [.symbol '-']
  | .slash => [.symbol '/']
  | .quoted .. => [.unclosed]
  | .closed close letters => [.quoted close letters]
  | .top | .line | .block _ => []

def lex : State → List Char → List Token
  | s, [] => finish s
  | s, c :: text => (step d s c).1 ++ lex (step d s c).2 text

def tokens (text : List Char) : List Token := lex d .top text

/-- The word that a text begins with behind its blanks. -/
def leadingWord (text : List Char) : List Char := (text.dropWhile d.isBlank).takeWhile isIdent

end Lexing

def Token.isKeyword (keyword : List Char) : Token → Bool
  | .word letters => letters.map Char.toUpper = keyword
  | _ => false

/-- Behind a semicolon there are only semicolons. -/
def oneStatement (ts : List Token) : Bool :=
  (ts.dropWhile fun t => t ≠ .symbol ';').all fun t => t = .symbol ';'

variable {d : Dialect} {c : Char} {s s' : State} {text w : List Char} {ts : List Token}

theorem not_isIdent_of_isBlank (h : d.isBlank c) : isIdent c = false := by
  have hs := d.isAsciiSpace_of_isBlank c h
  simp only [isAsciiSpace, Bool.or_eq_true, decide_eq_true_eq] at hs
  rcases hs with ((((rfl | rfl) | rfl) | rfl) | rfl) | rfl <;> decide

/-! ### Where words stand -/

/-- A word may begin with the next character. -/
def State.Fresh : State → Prop
  | .top | .dash | .slash | .closed .. => True
  | _ => False

/-- What is quoted does not end with a letter. -/
def State.Sound : State → Prop
  | .quoted close _ _ | .closed close _ => isIdent close = false
  | _ => True

def NoWord (ts : List Token) : Prop := ∀ letters, .word letters ∉ ts

/-- What one character does: it goes on with a word, begins one, ends one, or has nothing to do with
words; behind it a new one may begin only if it is no letter itself. -/
inductive Stepped (s : State) (c : Char) (ts : List Token) (s' : State) : Prop
  | goesOn (letters : List Char) (hs : s = .word letters) (hts : ts = [])
      (hs' : s' = .word (letters ++ [c]))
  | begins (hs : s.Fresh) (hts : NoWord ts) (hs' : s' = .word [c])
  | ends (letters : List Char) (rest : List Token) (hs : s = .word letters) (hc : isIdent c = false)
      (hts : ts = .word letters :: rest) (hrest : NoWord rest) (hs' : ∀ letters, s' ≠ .word letters)
      (hsound : s'.Sound)
  | other (hts : NoWord ts) (hs' : ∀ letters, s' ≠ .word letters) (hsound : s'.Sound)
      (hc : s'.Fresh → isIdent c = false)

theorem enter_ident (h : isIdent c) : enter d c = ([], .word [c]) := by
  have hb : ¬ d.isBlank c := by
    intro hb
    rw [not_isIdent_of_isBlank hb] at h
    cases h
  rw [enter, if_neg hb, if_pos h]

theorem enter_other (h : isIdent c = false) :
    NoWord (enter d c).1 ∧ (∀ letters, (enter d c).2 ≠ .word letters) ∧ (enter d c).2.Sound := by
  have hi : ¬ isIdent c := by simp [h]
  unfold enter NoWord
  split_ifs
  · simp [State.Sound]
  · simp [State.Sound]
  · simp [State.Sound]
  · simp only [not_mem_nil, not_false_eq_true, implies_true, ne_eq, reduceCtorEq, true_and]
    show isIdent '\'' = false
    decide
  · cases hcl : d.closing c with
    | none => simp [State.Sound]
    | some pair =>
      have hc := d.not_isIdent_of_closing c pair.1 pair.2 hcl
      simpa [State.Sound] using hc

theorem stepped_enter (ts : List Token) (hs : s.Fresh) (hts : NoWord ts) :
    Stepped s c (ts ++ (enter d c).1) (enter d c).2 := by
  cases hc : isIdent c with
  | true =>
    rw [enter_ident hc]
    exact .begins hs (by simpa using hts) rfl
  | false =>
    obtain ⟨he, hw, hsound⟩ := enter_other (d := d) hc
    refine .other ?_ hw hsound fun _ => hc
    intro letters hmem
    exact (mem_append.mp hmem).elim (hts letters) (he letters)

theorem stepped (h : s.Sound) : Stepped s c (step d s c).1 (step d s c).2 := by
  have hone : ∀ t : Token, (∀ letters, t ≠ .word letters) → NoWord [t] := by
    intro t ht letters hmem
    exact ht letters (mem_singleton.mp hmem).symm
  cases s with
  | top => exact stepped_enter [] trivial (by simp [NoWord])
  | word letters =>
    simp only [step]
    split_ifs with hc
    · exact .goesOn letters rfl rfl rfl
    · have hc' : isIdent c = false := by simpa using hc
      obtain ⟨he, hw, hsound⟩ := enter_other (d := d) hc'
      exact .ends letters (enter d c).1 rfl hc' rfl he hw hsound
  | dash =>
    simp only [step]
    split_ifs with hc
    · exact .other (by simp [NoWord]) (by simp) trivial (by simp [State.Fresh])
    · exact stepped_enter [.symbol '-'] trivial (hone _ (by simp))
  | slash =>
    simp only [step]
    split_ifs with hc
    · exact .other (by simp [NoWord]) (by simp) trivial (by simp [State.Fresh])
    · exact stepped_enter [.symbol '/'] trivial (hone _ (by simp))
  | line =>
    simp only [step]
    split_ifs with hc
    · exact .other (by simp [NoWord]) (by simp) trivial fun _ => hc ▸ by decide
    · exact .other (by simp [NoWord]) (by simp) trivial (by simp [State.Fresh])
  | block b =>
    simp only [step]
    cases hstep : blockStep d.nested '*' '/' b c with
    | none =>
      refine .other (by simp [NoWord]) (by simp) trivial fun _ => ?_
      rw [eq_slash_of_blockStep hstep]
      decide
    | some b' => exact .other (by simp [NoWord]) (by simp) trivial (by simp [State.Fresh])
  | quoted close twice letters =>
    simp only [step]
    split_ifs with hc htw
    · exact .other (by simp [NoWord]) (by simp) h fun _ => hc ▸ h
    · exact .other (hone _ (by simp)) (by simp) trivial fun _ => hc ▸ h
    · exact .other (by simp [NoWord]) (by simp) h (by simp [State.Fresh])
  | closed close letters =>
    simp only [step]
    split_ifs with hc
    · exact .other (by simp [NoWord]) (by simp) h (by simp [State.Fresh])
    · exact stepped_enter [.quoted close letters] trivial (hone _ (by simp))

/-- Where a word token stands in what is left of a text: it goes on with the word that is being read, or it
stands between characters that are no letters, `prev` being the one before the text. -/
theorem place_of_word {prev : Option Char} (hsound : s.Sound)
    (hp : s.Fresh → ∀ c ∈ prev, isIdent c = false) (h : .word w ∈ lex d s text) :
    (∃ letters more after, s = .word letters ∧ text = more ++ after ∧ w = letters ++ more ∧
      ∀ c ∈ after.head?, isIdent c = false) ∨ ∃ before after, text = before ++ (w ++ after) ∧
      (∀ c ∈ before.getLast?.or prev, isIdent c = false) ∧ ∀ c ∈ after.head?, isIdent c = false := by
  induction text generalizing s prev with
  | nil =>
    left
    cases s <;> simp [lex, finish] at h
    subst h
    exact ⟨w, [], [], rfl, rfl, by simp, by simp⟩
  | cons c text ih =>
    have hlast : ∀ before : List Char, (c :: before).getLast?.or prev = before.getLast?.or (some c) := by
      intro before
      rw [getLast?_cons]
      cases before.getLast? <;> rfl
    -- a word further on is the same word in the longer text
    have hl : (∃ before after, text = before ++ (w ++ after) ∧
        (∀ x ∈ before.getLast?.or (some c), isIdent x = false) ∧ ∀ x ∈ after.head?, isIdent x = false) →
        ∃ before after, c :: text = before ++ (w ++ after) ∧
          (∀ x ∈ before.getLast?.or prev, isIdent x = false) ∧ ∀ x ∈ after.head?, isIdent x = false := by
      intro hm
      obtain ⟨before, after, rfl, hb, ha⟩ := hm
      exact ⟨c :: before, after, rfl, by rwa [hlast], ha⟩
    rw [lex, mem_append] at h
    -- the word is not among the tokens that end here
    have hn : NoWord (step d s c).1 → .word w ∈ lex d (step d s c).2 text := by
      intro hts
      exact h.resolve_left (hts w)
    cases stepped (d := d) (c := c) hsound with
    | goesOn letters hs hts hs' =>
      have hw := hn (by simp [hts, NoWord])
      rw [hs'] at hw
      rcases @ih (.word (letters ++ [c])) (some c) trivial False.elim hw with
        ⟨letters', more, after, hsa, rfl, rfl, ha⟩ | hm
      · cases hsa
        exact .inl ⟨letters, c :: more, after, hs, rfl, by simp, ha⟩
      · exact .inr (hl hm)
    | begins hs hts hs' =>
      have hw := hn hts
      rw [hs'] at hw
      rcases @ih (.word [c]) (some c) trivial False.elim hw with
        ⟨letters', more, after, hsa, rfl, rfl, ha⟩ | hm
      · cases hsa
        exact .inr ⟨[], after, rfl, by simpa using hp hs, ha⟩
      · exact .inr (hl hm)
    | ends letters rest hs hc hts hrest hs' hso' =>
      rw [hts] at h
      rcases h with h | h
      · rcases mem_cons.mp h with h | h
        · cases h
          exact .inl ⟨w, [], c :: text, hs, rfl, by simp, by simpa using hc⟩
        · exact absurd h (hrest w)
      · rcases @ih _ (some c) hso' (fun _ => by simpa using hc) h with
          ⟨letters', _, _, hsa, _⟩ | hm
        · exact absurd hsa (hs' letters')
        · exact .inr (hl hm)
    | other hts hs' hso' hc =>
      rcases @ih _ (some c) hso' (fun hf => by simpa using hc hf) (hn hts) with
        ⟨letters', _, _, hsa, _⟩ | hm
      · exact absurd hsa (hs' letters')
      · exact .inr (hl hm)

theorem boundary_of_word (h : .word w ∈ tokens d text) :
    ∃ before after, text = before ++ (w ++ after) ∧
      (∀ c ∈ before.getLast?, isIdent c = false) ∧ ∀ c ∈ after.head?, isIdent c = false := by
  rcases @place_of_word d .top text w none trivial (by simp) h with
    ⟨_, _, _, hs, _⟩ | ⟨before, after, ht, hb, ha⟩
  · cases hs
  · exact ⟨before, after, ht, by simpa using hb, ha⟩

/-! ### The first token -/

theorem lex_blanks : lex d .top (text.dropWhile d.isBlank) = lex d .top text := by
  induction text with
  | nil => rfl
  | cons c text ih =>
    rw [dropWhile_cons]
    split_ifs with hc
    · rw [ih, lex]
      simp [step, enter, hc]
    · rfl

theorem head?_lex_word (letters : List Char) :
    (lex d (.word letters) text).head? = some (.word (letters ++ text.takeWhile isIdent)) := by
  induction text generalizing letters with
  | nil => simp [lex, finish]
  | cons c text ih =>
    rw [lex]
    by_cases hc : isIdent c
    · simp [step, hc, ih]
    · simp [step, hc, endToken]

theorem head?_lex_quoted {close : Char} {letters : List Char}
    (hs : s = .closed close letters ∨ ∃ twice, s = .quoted close twice letters) :
    (lex d s text).head? ≠ some (.word w) := by
  induction text generalizing s letters with
  | nil => obtain rfl | ⟨twice, rfl⟩ := hs <;> simp [lex, finish]
  | cons c text ih =>
    obtain rfl | ⟨twice, rfl⟩ := hs
    · by_cases hc : c = close
      · simp [lex, step, hc, ih (.inr ⟨true, rfl⟩)]
      · simp [lex, step, hc, endToken]
    · by_cases hc : c = close
      · cases twice with
        | true => simp [lex, step, hc, ih (.inl rfl)]
        | false => simp [lex, step, hc]
      · simp [lex, step, hc, ih (.inr ⟨twice, rfl⟩)]

theorem head?_tokens_of_word (h : leadingWord d text ≠ []) :
    (tokens d text).head? = some (.word (leadingWord d text)) := by
  rw [tokens, ← lex_blanks]
  unfold leadingWord at h ⊢
  generalize text.dropWhile d.isBlank = rest at h ⊢
  cases rest with
  | nil => exact absurd rfl h
  | cons c rest =>
    by_cases hc : isIdent c
    · simp [lex, step, enter_ident hc, head?_lex_word, hc]
    · simp [hc] at h

theorem head?_tokens_of_other (h : leadingWord d text = [])
    (hm : ∀ c ∈ (text.dropWhile d.isBlank).head?, c ≠ '-' ∧ c ≠ '/') (letters : List Char) :
    (tokens d text).head? ≠ some (.word letters) := by
  rw [tokens, ← lex_blanks]
  have hb : ∀ c ∈ (text.dropWhile d.isBlank).head?, ¬ d.isBlank c := by
    intro c hc
    have hn := head?_dropWhile_not d.isBlank text
    rw [Option.mem_def.mp hc] at hn
    simpa using hn
  unfold leadingWord at h
  generalize text.dropWhile d.isBlank = rest at h hm hb ⊢
  cases rest with
  | nil => simp [lex, finish]
  | cons c rest =>
    have hc : ¬ isIdent c := by
      intro hc
      simp [hc] at h
    obtain ⟨hd, hs⟩ := hm c rfl
    rw [lex, step, enter, if_neg (hb c rfl), if_neg hd, if_neg hs]
    split_ifs
    · simp [head?_lex_quoted (.inr ⟨true, rfl⟩)]
    · cases d.closing c with
      | none => simp
      | some pair => simp [head?_lex_quoted (.inr ⟨pair.2, rfl⟩)]

/-! ### Texts put together -/

/-- What is being read behind a text. -/
def stateAfter (d : Dialect) (s : State) (text : List Char) : State := text.foldl (fun s c => (step d s c).2) s

/-- A comment or something quoted goes on. -/
def State.isOpen : State → Bool
  | .line | .block _ | .quoted .. => true
  | .top | .word _ | .dash | .slash | .closed .. => false

/-- What is quoted ends with such a character. -/
def State.ClosedBy (p : Char → Prop) : State → Prop
  | .quoted close _ _ | .closed close _ => p close
  | _ => True

def Dialect.QuotesBy (d : Dialect) (p : Char → Prop) : Prop :=
  p '\'' ∧ ∀ c close twice, d.closing c = some (close, twice) → p close

variable {p : Char → Prop} {rest : List Char}

theorem closedBy_enter (hd : d.QuotesBy p) (c : Char) : (enter d c).2.ClosedBy p := by
  unfold enter
  split_ifs
  · trivial
  · trivial
  · trivial
  · trivial
  · exact hd.1
  · cases hc : d.closing c with
    | none => trivial
    | some pair => exact hd.2 c pair.1 pair.2 hc

theorem closedBy_step (hd : d.QuotesBy p) (h : s.ClosedBy p) (c : Char) : (step d s c).2.ClosedBy p := by
  cases s with
  | top => exact closedBy_enter hd c
  | block b => simp only [step]; split <;> trivial
  | quoted close twice letters =>
    simp only [step]
    split_ifs
    · exact h
    · trivial
    · exact h
  | closed close letters =>
    simp only [step]
    split_ifs
    · exact h
    · exact closedBy_enter hd c
  | word | dash | slash | line =>
    simp only [step]
    split_ifs <;> first | trivial | exact closedBy_enter hd c

theorem step_blank (hc : d.isBlank c) (ho : s.isOpen = false) (hs : s.ClosedBy (· ≠ c)) :
    step d s c = (finish s, .top) := by
  have he : enter d c = ([], .top) := by rw [enter, if_pos hc]
  have hsp := d.isAsciiSpace_of_isBlank c hc
  have hne : c ≠ '-' ∧ c ≠ '*' := by constructor <;> rintro rfl <;> exact absurd hsp (by decide)
  cases s with
  | top => exact he
  | word letters => simp [step, not_isIdent_of_isBlank hc, endToken, he, finish]
  | dash => simp [step, hne.1, endToken, he, finish]
  | slash => simp [step, hne.2, endToken, he, finish]
  | closed close letters => simp [step, Ne.symm (show close ≠ c from hs), endToken, he, finish]
  | line | block | quoted => cases ho

theorem lex_append_blank (hc : d.isBlank c) (hd : d.QuotesBy (· ≠ c))
    (hs : s.ClosedBy (· ≠ c)) (ho : (stateAfter d s text).isOpen = false) :
    lex d s (text ++ c :: rest) = lex d s text ++ tokens d rest ∧
      stateAfter d s (text ++ c :: rest) = stateAfter d .top rest := by
  induction text generalizing s with
  | nil =>
    have hstep : step d s c = (finish s, .top) := step_blank hc ho hs
    constructor
    · show (step d s c).1 ++ lex d (step d s c).2 rest = finish s ++ tokens d rest
      rw [hstep, tokens]
    · show stateAfter d (step d s c).2 rest = stateAfter d .top rest
      rw [hstep]
  | cons a text ih =>
    obtain ⟨ht, hst⟩ := ih (closedBy_step hd hs a) ho
    refine ⟨?_, hst⟩
    rw [cons_append, lex, lex, ht, append_assoc]

theorem lex_append_of_open (hd : d.QuotesBy p) (hs : s.ClosedBy p)
    (ho : (stateAfter d s text).isOpen = true) (hrest : ∀ c ∈ rest, c ≠ '\n' ∧ c ≠ '/' ∧ ¬ p c) :
    lex d s (text ++ rest) = lex d s text := by
  induction text generalizing s with
  | cons a text ih => rw [cons_append, lex, lex, ih (closedBy_step hd hs a) ho]
  | nil =>
    rw [nil_append, show lex d s [] = finish s from rfl]
    induction rest generalizing s with
    | nil => rfl
    | cons c rest ih =>
      obtain ⟨hl, hsl, hcl⟩ := hrest c mem_cons_self
      have hgo := fun {s'} hs' ho' => ih (s := s') (fun c hc => hrest c (mem_cons_of_mem _ hc)) hs' ho'
      rw [lex]
      cases s with
      | line =>
        rw [step, if_neg hl]
        exact hgo trivial rfl
      | quoted close twice letters =>
        have hne : c ≠ close := fun heq => hcl (heq ▸ hs)
        rw [step, if_neg hne]
        exact hgo hs rfl
      | block b =>
        obtain ⟨b', hb'⟩ : ∃ b', blockStep d.nested '*' '/' b c = some b' := by
          unfold blockStep
          split <;> [rw [if_neg hsl]; split; skip] <;> exact ⟨_, rfl⟩
        simp only [step, hb']
        exact hgo trivial rfl
      | top | word | dash | slash | closed => cases ho

end Bib.Lib.Sql
