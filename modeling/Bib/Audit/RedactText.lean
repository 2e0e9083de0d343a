import Bib.Audit.Redact

/-!
# Bib.Audit.RedactText

**Inline literals in the audit log** (`redactQueryText` in `storage/audit/redact.go`).

For each field there is one pass over the text, which replaces a quoted text behind `field =`. A
quote inside a literal is doubled, and the pass takes the literal to end there. In a long row of
quotes of both kinds a pass takes some away at the beginning and at the end, and the middle stays: for
every redactor and every value there is one that can be told apart from it (`inline_secret_leaks`).
-/

namespace Bib.Audit.Redact

open Bib.Lib Bib.Lib.Regex List

/-- The SQL literal of a value: quotes are doubled. -/
def sqlLiteral (value : Text) : Text :=
  '\'' :: (value.flatMap (fun c => if c = '\'' then ['\'', '\''] else [c]) ++ ['\''])

def assignment (field gap gap' value : Text) : Text :=
  field ++ gap ++ '=' :: (gap' ++ sqlLiteral value)

section Leak

variable {u : Unicode} {r : Redactor} {field : Text} {prev : Option Char} {m : Match Char}
  {text front rest : Text}

theorem mem_results_literal {name : Text} : m ∈ results (literal u name) prev text ↔
    ∃ found rest, text = found ++ rest ∧ List.Forall₂ (fun c k => u.sameFold c k) found name ∧
      m = ⟨found, rest, []⟩ := by
  induction name generalizing prev text m with
  | nil =>
    simp only [literal, map_nil, seqs, results_empty, mem_singleton]
    constructor
    · intro h
      exact ⟨[], text, rfl, .nil, h⟩
    · intro h
      obtain ⟨found, rest, rfl, hf, rfl⟩ := h
      cases hf
      rfl
  | cons k name ih =>
    rw [literal, map_cons, mem_results_seqs_cons]
    constructor
    · intro h
      obtain ⟨m₁, h₁, m₂, h₂, rfl⟩ := h
      obtain ⟨c, rest₁, rfl, hc, rfl⟩ := mem_results_one.mp h₁
      obtain ⟨found, rest, rfl, hf, rfl⟩ := ih.mp h₂
      exact ⟨c :: found, rest, rfl, .cons hc hf, rfl⟩
    · intro h
      obtain ⟨found, rest, rfl, hf, rfl⟩ := h
      cases hf with
      | @cons c _ found _ hc hf =>
        refine ⟨⟨[c], found ++ rest, []⟩, mem_results_one.mpr ⟨c, _, rfl, hc, rfl⟩,
          ⟨found, rest, []⟩, ?_, rfl⟩
        exact ih.mpr ⟨found, rest, rfl, hf, rfl⟩

theorem mem_results_quotedBy {quote : Char} : m ∈ results (quotedBy quote) prev text ↔
    ∃ body rest, text = quote :: (body ++ quote :: rest) ∧ (∀ c ∈ body, c ≠ quote) ∧
      m = ⟨quote :: (body ++ [quote]), rest, []⟩ := by
  simp only [quotedBy, mem_results_seqs_cons]
  constructor
  · intro h
    obtain ⟨m₁, h₁, m₂, ⟨m₃, h₃, m₄, ⟨m₅, h₅, m₆, h₆, rfl⟩, rfl⟩, rfl⟩ := h
    obtain ⟨c₁, rest₁, rfl, hc₁, rfl⟩ := mem_results_one.mp h₁
    obtain ⟨body, rest₃, hrest, hb, -, rfl⟩ := mem_results_many.mp h₃
    obtain ⟨c₅, rest₅, hr', hc₅, rfl⟩ := mem_results_one.mp h₅
    simp only [decide_eq_true_eq] at hc₁ hc₅ hb
    subst hc₁ hc₅
    cases mem_singleton.mp h₆
    simp only at hrest hr'
    refine ⟨body, rest₅, by rw [hrest, hr'], hb, by simp [Match.append]⟩
  · intro h
    obtain ⟨body, rest, rfl, hb, rfl⟩ := h
    refine ⟨⟨[quote], body ++ quote :: rest, []⟩,
      mem_results_one.mpr ⟨quote, _, rfl, by simp, rfl⟩, ⟨body ++ [quote], rest, []⟩,
      ⟨⟨body, quote :: rest, []⟩, ?_, ⟨[quote], rest, []⟩, ⟨⟨[quote], rest, []⟩, ?_,
        ⟨[], rest, []⟩, mem_singleton.mpr rfl, rfl⟩, rfl⟩, rfl⟩
    · exact mem_results_many.mpr ⟨body, _, rfl, by simpa using hb, Nat.zero_le _, rfl⟩
    · exact mem_results_one.mpr ⟨quote, rest, rfl, by simp, rfl⟩

/-- A match of a field's pattern: the name at a word boundary, an equals sign and a quoted text. -/
inductive FieldMatch (u : Unicode) (field : Text) (prev : Option Char) : Text → Match Char → Prop
  | mk (name gap gap' : Text) (quote : Char) (body rest : Text)
      (boundary : prev.any isWord ≠
        (name ++ gap ++ '=' :: (gap' ++ quote :: (body ++ quote :: rest))).head?.any isWord)
      (name_eq : List.Forall₂ (fun c k => u.sameFold c k) name field)
      (gap_space : ∀ c ∈ gap, isSpace c) (gap_space' : ∀ c ∈ gap', isSpace c)
      (quote_eq : quote = '\'' ∨ quote = '"') (body_ne : ∀ c ∈ body, c ≠ quote) :
      FieldMatch u field prev (name ++ gap ++ '=' :: (gap' ++ quote :: (body ++ quote :: rest)))
        ⟨name ++ gap ++ '=' :: gap' ++ quote :: (body ++ [quote]), rest,
          [(1, name ++ gap ++ '=' :: gap'), (2, quote :: (body ++ [quote]))]⟩

theorem mem_results_quoted : m ∈ results (alt (quotedBy '\'') (quotedBy '"')) prev text ↔
    ∃ quote body rest, (quote = '\'' ∨ quote = '"') ∧ text = quote :: (body ++ quote :: rest) ∧
      (∀ c ∈ body, c ≠ quote) ∧ m = ⟨quote :: (body ++ [quote]), rest, []⟩ := by
  rw [results_alt, mem_append, mem_results_quotedBy, mem_results_quotedBy]
  constructor
  · intro h
    rcases h with ⟨body, rest, h⟩ | ⟨body, rest, h⟩
    · exact ⟨_, body, rest, .inl rfl, h⟩
    · exact ⟨_, body, rest, .inr rfl, h⟩
  · intro h
    obtain ⟨quote, body, rest, rfl | rfl, h⟩ := h
    · exact .inl ⟨body, rest, h⟩
    · exact .inr ⟨body, rest, h⟩

theorem mem_results_boundary {word : Char → Bool} : m ∈ results (boundary word) prev text ↔
    prev.any word ≠ text.head?.any word ∧ m = ⟨[], text, []⟩ := by
  rw [results_boundary]
  split <;> simp_all

theorem mem_results_fieldPattern : m ∈ results (fieldPattern u field) prev text ↔ FieldMatch u field prev text m := by
  constructor
  · intro h
    obtain ⟨m₁, h₁, m₂, h₂, rfl⟩ := mem_results_seq.mp h
    obtain ⟨g₁, hg₁, rfl⟩ := mem_results_group.mp h₁
    obtain ⟨g₂, hg₂, rfl⟩ := mem_results_group.mp h₂
    simp only [mem_results_seqs_cons] at hg₁
    obtain ⟨b, hb, m₃, ⟨l, hl, m₄, ⟨s, hs, m₅, ⟨e, he, m₆, ⟨s', hs', m₇, h₇, rfl⟩, rfl⟩, rfl⟩,
      rfl⟩, rfl⟩ := hg₁
    obtain ⟨hbo, rfl⟩ := mem_results_boundary.mp hb
    obtain ⟨name, rest₁, rfl, hn, rfl⟩ := mem_results_literal.mp hl
    obtain ⟨gap, rest₂, rfl, hg, -, rfl⟩ := mem_results_many.mp hs
    obtain ⟨c, rest₃, rfl, hc, rfl⟩ := mem_results_one.mp he
    obtain ⟨gap', rest₄, rfl, hg', -, rfl⟩ := mem_results_many.mp hs'
    cases mem_singleton.mp h₇
    obtain ⟨quote, body, rest, hq, hrest, hbd, rfl⟩ := mem_results_quoted.mp hg₂
    simp only [decide_eq_true_eq, Match.append] at hc hrest
    subst hc hrest
    have hm := FieldMatch.mk name gap gap' quote body rest (by simpa using hbo) hn
      hg hg' hq hbd
    simpa [Match.append] using hm
  · intro h
    obtain ⟨name, gap, gap', quote, body, rest, hbo, hn, hg, hg', hq, hbd⟩ := h
    have hqu : ∀ prev, ⟨quote :: (body ++ [quote]), rest, []⟩ ∈
        results (alt (quotedBy '\'') (quotedBy '"')) prev (quote :: (body ++ quote :: rest)) :=
      fun prev => mem_results_quoted.mpr ⟨quote, body, rest, hq, rfl, hbd, rfl⟩
    have hn' : Takes (literal u field) name := fun prev rest =>
      mem_results_literal.mpr ⟨name, rest, rfl, hn, rfl⟩
    have ht : Takes (seqs [literal u field, many isSpace 0, one (· = '='), many isSpace 0])
        [name, gap, ['='], gap'].flatten :=
      takes_seqs (.cons hn' (.cons (takes_many hg (Nat.zero_le _))
        (.cons (takes_one (by simp)) (.cons (takes_many hg' (Nat.zero_le _)) .nil))))
    have ha := append_mem_results_seqs (mem_results_boundary.mpr ⟨hbo, rfl⟩)
      (by simpa using ht (Option.or none prev) (quote :: (body ++ quote :: rest)))
    refine mem_results_seq.mpr ⟨_, mem_results_group.mpr ⟨_, ha, rfl⟩, _,
      mem_results_group.mpr ⟨_, hqu _, rfl⟩, ?_⟩
    simp [Match.append]

/-- Behind the letters of the field a match has only white space up to its equals sign, and behind that a
quoted text. -/
theorem FieldMatch.taken_eq (h : FieldMatch u field prev text m) :
    ∃ start gap quote body, m.taken = start ++ '=' :: (gap ++ quote :: (body ++ [quote])) ∧
      (∀ c ∈ start.drop field.length, isSpace c) ∧ (quote = '\'' ∨ quote = '"') ∧
      (gap ++ quote :: body).count quote = 1 := by
  obtain ⟨name, gap, gap', quote, body, rest, -, hn, hg, hg', hq, hb⟩ := h
  have hgap : gap'.count quote = 0 := count_eq_zero.mpr fun hmem => by
    rcases hq with rfl | rfl <;> cases hg' _ hmem
  have hbody : body.count quote = 0 := count_eq_zero.mpr fun hmem => hb _ hmem rfl
  refine ⟨name ++ gap, gap', quote, body, by simp, fun c hc => ?_, hq, ?_⟩
  · rw [← hn.length_eq, drop_left] at hc
    exact hg c hc
  · rw [count_append, count_cons_self, hgap, hbody]

/-! #### Rows of quotes -/

/-- Quotes of both kinds, those of a literal doubled. -/
def quotes (n : Nat) : Text := (replicate n ['"', '\'', '\'']).flatten

theorem quotes_add (n k : Nat) : quotes (n + k) = quotes n ++ quotes k := by
  rw [quotes, replicate_add, flatten_append]
  rfl

theorem eq_not_mem_quotes (n : Nat) : '=' ∉ quotes n := by
  simp [quotes]

theorem length_quotes (n : Nat) : (quotes n).length = 3 * n := by
  simp [quotes, Nat.mul_comm]

/-- A match that begins before a row of quotes longer than the field has its equals sign before the row:
otherwise the row would be in the name of the field or in white space. -/
theorem eq_split_of_match {k : Nat} (hk : field.length < k)
    {start tail back : Text} (hs : ∀ c ∈ start.drop field.length, isSpace c)
    (h : start ++ '=' :: tail = front ++ (quotes k ++ back)) :
    ∃ front', front = start ++ '=' :: front' ∧ tail = front' ++ (quotes k ++ back) := by
  rcases append_eq_append_iff.mp h with ⟨front', hf, ht⟩ | ⟨more, hst, ht⟩
  · cases front' with
    | nil =>
      obtain ⟨k, rfl⟩ := Nat.exists_eq_succ_of_ne_zero (Nat.ne_of_gt (Nat.zero_lt_of_lt hk))
      cases ht
    | cons c front' =>
      obtain ⟨rfl, rfl⟩ := cons.inj ht
      exact ⟨front', hf, rfl⟩
  · exfalso
    -- the row has no equals sign, so all of it is before that of the match
    obtain ⟨more', hm⟩ : ∃ more', more = quotes k ++ more' := by
      rcases append_eq_append_iff.mp ht with ⟨more', hm, -⟩ | ⟨tail', hq, ht'⟩
      · exact ⟨more', hm⟩
      · cases tail' with
        | nil => exact ⟨[], by rw [hq, append_nil, append_nil]⟩
        | cons c tail' =>
          refine absurd ?_ (eq_not_mem_quotes k)
          rw [hq, ← (cons.inj ht').1]
          simp
    have hrow : quotes k =
        quotes field.length ++ '"' :: (['\'', '\''] ++ quotes (k - field.length - 1)) := by
      have hsum : k = field.length + (1 + (k - field.length - 1)) := by omega
      conv_lhs => rw [hsum, quotes_add, quotes_add]
      rfl
    have hmem : '"' ∈ start.drop field.length := by
      rw [hst, hm, hrow, append_assoc, ← append_assoc front, drop_append_of_le_length]
      · simp
      · rw [length_append, length_quotes]
        omega
    cases hs _ hmem

theorem first_fieldPattern_eq_none {k : Nat} (hk : field.length < k) (he : '=' ∉ front)
    (back : Text) : first (fieldPattern u field) prev (front ++ (quotes k ++ back)) = none := by
  refine first_eq_none fun m hm => ?_
  obtain ⟨start, gap, quote, body, ht, hs, -, -⟩ := (mem_results_fieldPattern.mp hm).taken_eq
  have htext := taken_append_rest hm
  rw [ht, append_assoc, cons_append] at htext
  obtain ⟨front', rfl, -⟩ := eq_split_of_match hk hs htext
  simp at he

/-- A match that begins before a row of quotes ends within its first six. -/
theorem length_taken_le {n k : Nat} (hk : field.length < k) {back : Text}
    (h : m ∈ results (fieldPattern u field) prev (front ++ (quotes (2 + n + k) ++ back))) :
    m.taken.length ≤ front.length + 6 := by
  obtain ⟨start, gap, quote, body, ht, hs, hq, hone⟩ := (mem_results_fieldPattern.mp h).taken_eq
  have htext := taken_append_rest h
  rw [ht, append_assoc, cons_append] at htext
  obtain ⟨front', rfl, htail⟩ := eq_split_of_match (by omega) hs htext
  by_contra hl
  -- so two quotes of each kind are before the closing quote of the match
  have hbegin : front' ++ quotes 2 <+: gap ++ quote :: body := by
    have hrow : front' ++ quotes 2 <+: front' ++ (quotes (2 + n + k) ++ back) := by
      rw [Nat.add_assoc, quotes_add]
      exact ⟨quotes (n + k) ++ back, by simp⟩
    refine prefix_of_prefix_length_le hrow ⟨quote :: m.rest, by simpa using htail⟩ ?_
    · rw [ht] at hl
      simp only [length_append, length_cons, length_nil, length_quotes] at hl ⊢
      omega
  have hle := hbegin.sublist.count_le quote
  rw [hone, count_append] at hle
  rcases hq with rfl | rfl
  · have htwo : (quotes 2).count '\'' = 4 := by decide
    omega
  · have htwo : (quotes 2).count '"' = 2 := by decide
    omega

/-- **The middle of a row of quotes stays.** -/
theorem exists_redactField (front back : Text) (n : Nat) : ∃ front' back', redactField u r field
    (front ++ (quotes (2 + n + (field.length + 1)) ++ back)) = front' ++ (quotes n ++ back') := by
  have hk : field.length < field.length + 1 := Nat.lt_succ_self _
  have hb : ∀ before after, front ++ quotes 2 = before ++ after → after ≠ [] →
      ∀ m, first (fieldPattern u field) (before.getLast?.or none)
          (after ++ (quotes n ++ (quotes (field.length + 1) ++ back))) = some m →
        m.taken.length ≤ after.length := by
    intro before after hs _ m hm
    rcases append_eq_append_iff.mp hs with ⟨more, -, ha⟩ | ⟨more, -, ha⟩
    · -- the place is in the row
      have hnone : '=' ∉ after := fun hmem => eq_not_mem_quotes 2 (ha ▸ mem_append_right _ hmem)
      rw [← append_assoc (quotes n), ← quotes_add, first_fieldPattern_eq_none (by omega) hnone] at hm
      cases hm
    · have hlen : m.taken.length ≤ more.length + 6 := by
        have hmem : m ∈ results (fieldPattern u field) (before.getLast?.or none)
            (more ++ (quotes (2 + n + (field.length + 1)) ++ back)) := by
          rw [Nat.add_assoc, quotes_add, quotes_add]
          simpa [ha] using mem_results_of_first hm
        exact length_taken_le hk hmem
      rw [ha, length_append, length_quotes]
      exact hlen
  have hfree : ∀ prev, Free (fieldPattern u field) prev (quotes n) (quotes (field.length + 1) ++ back) :=
    fun prev before after hs _ => first_fieldPattern_eq_none hk
      (fun hmem => eq_not_mem_quotes n (hs ▸ mem_append_right _ hmem)) back
  obtain ⟨parts, rest, hp⟩ : ∃ parts rest, segments (fieldPattern u field) none 0
      (front ++ quotes 2 ++ (quotes n ++ (quotes (field.length + 1) ++ back))) =
        parts ++ ((quotes n).map .char ++ rest) := by
    obtain ⟨parts, hp⟩ := exists_segments_append hb (Nat.zero_le _)
    exact ⟨parts, _, by rw [hp, segments_append (hfree _)]⟩
  let replace := Segment.replace fun m => expand u.isName m (template r).length (template r)
  refine ⟨parts.flatMap replace, rest.flatMap replace, ?_⟩
  have htext : front ++ (quotes (2 + n + (field.length + 1)) ++ back) =
      front ++ quotes 2 ++ (quotes n ++ (quotes (field.length + 1) ++ back)) := by
    rw [Nat.add_assoc, quotes_add, quotes_add]
    simp
  show (segments _ none 0 _).flatMap replace = _
  rw [htext, hp, flatMap_append, flatMap_append, flatMap_map]
  congr 2
  exact flatMap_singleton' (quotes n)

/-- Quotes enough for all passes. -/
def room (order : List Text) : Nat := (order.map fun field => field.length + 3).sum

theorem exists_redactQueryText (order : List Text) (front back : Text) (n : Nat) :
    ∃ front' back', redactQueryText u r order (front ++ (quotes (room order + n) ++ back)) =
      front' ++ (quotes n ++ back') := by
  induction order generalizing front back with
  | nil => exact ⟨front, back, by simp [redactQueryText, room]⟩
  | cons field order ih =>
    have hroom : room (field :: order) + n = 2 + (room order + n) + (field.length + 1) := by
      simp only [room, map_cons, sum_cons]
      omega
    obtain ⟨front₁, back₁, hf⟩ : ∃ front₁ back₁, redactField u r field (front ++
        (quotes (2 + (room order + n) + (field.length + 1)) ++ back)) = front₁ ++ (_ ++ back₁) :=
      exists_redactField front back (room order + n)
    obtain ⟨front₂, back₂, hlast⟩ := ih front₁ back₁
    refine ⟨front₂, back₂, ?_⟩
    rw [redactQueryText, foldl_cons, hroom, hf]
    exact hlast

end Leak

theorem sqlLiteral_quotes (n : Nat) :
    sqlLiteral (replicate n ['"', '\'']).flatten = '\'' :: (quotes n ++ ['\'']) := by
  rw [sqlLiteral]
  congr 2
  induction n with
  | zero => rfl
  | succ n ih =>
    rw [replicate_succ, flatten_cons, flatMap_append, ih]
    rfl

/-- **No field is safe**: for every redactor, every order of its fields, every field, every text around the
assignment and every value there is another value that the redacted text tells apart from it. -/
theorem inline_secret_leaks (u : Unicode) (r : Redactor) (order : List Text)
    (field gap gap' before after value : Text) : ∃ value',
      redactQueryText u r order (before ++ assignment field gap gap' value ++ after) ≠
        redactQueryText u r order (before ++ assignment field gap gap' value' ++ after) := by
  generalize redactQueryText u r order (before ++ assignment field gap gap' value ++ after) = shown
  -- more quotes stay than the other text has letters
  let n := shown.length + 1
  obtain ⟨front, back, hkept⟩ : ∃ front back, redactQueryText u r order
      ((before ++ field ++ gap ++ '=' :: (gap' ++ ['\''])) ++
        (quotes (room order + n) ++ ('\'' :: after))) = front ++ (quotes n ++ back) :=
    exists_redactQueryText order _ _ n
  refine ⟨(replicate (room order + n) ['"', '\'']).flatten, fun hs => ?_⟩
  have htext : before ++ assignment field gap gap' (replicate (room order + n) ['"', '\'']).flatten ++
      after = (before ++ field ++ gap ++ '=' :: (gap' ++ ['\''])) ++
        (quotes (room order + n) ++ ('\'' :: after)) := by
    rw [assignment, sqlLiteral_quotes]
    simp
  rw [htext, hkept] at hs
  have hlen := congrArg length hs
  simp only [length_append, length_quotes] at hlen
  omega

/-- The default redactor shows what comes after an apostrophe in a password, and a password whose
field is not called `password` but contains the word. -/
theorem default_redactor_leaks : (isSensitiveField ascii defaultRedactor "password".toList ∧
      redactQueryText ascii defaultRedactor defaultRedactor.sensitiveFields
          (assignment "password".toList [' '] [' '] "it's".toList) ≠
        redactQueryText ascii defaultRedactor defaultRedactor.sensitiveFields
          (assignment "password".toList [' '] [' '] "it'x".toList)) ∧
    (isSensitiveField ascii defaultRedactor "user_password".toList ∧
      redactQueryText ascii defaultRedactor defaultRedactor.sensitiveFields
          (assignment "user_password".toList [' '] [' '] "a".toList) ≠
        redactQueryText ascii defaultRedactor defaultRedactor.sensitiveFields
          (assignment "user_password".toList [' '] [' '] "b".toList)) := by
  decide +kernel

end Bib.Audit.Redact
