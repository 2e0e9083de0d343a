import Bib.Audit.Redact
import Bib.Lib.Sql.Lexer

/-!
# Bib.Domain.Query

**Which SQL queries are accepted** (`internal/domain/query.go`). `validateSelectOnly` looks at the text in upper
case: how it begins, and whether one of the modifying keywords stands in it as a word. A keyword that is a token
is a word too (`no_dangerous_token`), but the text is neither asked whether it goes on behind a semicolon, nor
whether `SELECT` and `WITH` at its beginning are words (`accepted_readOnly_iff`).
-/

namespace Bib.Domain.Query

open Bib.Lib Bib.Lib.Regex Bib.Lib.Sql Bib.Audit.Redact List

/-- `unicode.ToUpper`, which for ASCII is the one of ASCII. -/
structure UpperCase where
  upper : Char → Char
  upper_ascii : ∀ c, c.toNat < 128 → upper c = c.toUpper

def toUpper (u : UpperCase) (s : Text) : Text := s.map u.upper

inductive QueryError
  | invalidQueryID
  | emptySQLQuery
  | nonSelectQuery
  | noTargetDatasets
  | invalidQueryType
  | invalidLimit
  | invalidOffset
  deriving DecidableEq

/-- `QueryType`; the type may be left out. -/
inductive QueryType
  | metadata
  | sql
  | unset
  | other (name : Text)

/-- `QueryRequest`, as far as it is validated. -/
structure QueryRequest where
  id : Text
  type : QueryType
  targetDatasets : List Text
  sql : Text
  (limit offset : Int)

def selectKeyword : Text := "SELECT".toList
def withKeyword : Text := "WITH".toList

def dangerousKeywords : List Text :=
  ["INSERT", "UPDATE", "DELETE", "DROP", "CREATE", "ALTER", "TRUNCATE", "GRANT", "REVOKE", "EXEC",
    "EXECUTE", "INTO"].map String.toList

def validateSelectOnly (u : UpperCase) (sql : Text) : Except QueryError Unit :=
  let normalized := trimSpace (toUpper u sql)
  if ¬ selectKeyword <+: normalized ∧ ¬ withKeyword <+: normalized then .error .nonSelectQuery
  else if dangerousKeywords.any fun keyword => matchString (wholeWord isWord keyword) none normalized then
    .error .nonSelectQuery
  else .ok ()

def QueryRequest.validate (u : UpperCase) (q : QueryRequest) : Except QueryError Unit := do
  if q.id = [] then throw .invalidQueryID
  match q.type with
  | .sql =>
    if q.sql = [] then throw .emptySQLQuery
    validateSelectOnly u q.sql
    if q.targetDatasets.length = 0 then throw .noTargetDatasets
  | .metadata | .unset => pure ()
  | .other _ => throw .invalidQueryType
  if q.limit < 0 then throw .invalidLimit
  if q.offset < 0 then throw .invalidOffset

/-- One statement that begins with `SELECT` or `WITH` and in which no modifying keyword is a token. -/
def ReadOnlyStatement (d : Dialect) (sql : Text) : Prop :=
  (∃ t, (tokens d sql).head? = some t ∧ (t.isKeyword selectKeyword ∨ t.isKeyword withKeyword)) ∧
    oneStatement (tokens d sql) ∧
    ∀ t ∈ tokens d sql, ∀ keyword ∈ dangerousKeywords, ¬ t.isKeyword keyword

/-- Behind its blanks the text begins with the word `SELECT` or `WITH`, in letters of ASCII. -/
def BeginsReading (d : Dialect) (sql : Text) : Prop :=
  (leadingWord d sql).map Char.toUpper = selectKeyword ∨
    (leadingWord d sql).map Char.toUpper = withKeyword

instance (d : Dialect) (sql : Text) : Decidable (BeginsReading d sql) :=
  inferInstanceAs (Decidable (_ ∨ _))

variable {u : UpperCase} {d : Dialect} {sql : Text}

theorem accepted_iff : validateSelectOnly u sql = .ok () ↔
    (selectKeyword <+: trimSpace (toUpper u sql) ∨ withKeyword <+: trimSpace (toUpper u sql)) ∧
      ∀ keyword ∈ dangerousKeywords,
        matchString (wholeWord isWord keyword) none (trimSpace (toUpper u sql)) = false := by
  unfold validateSelectOnly
  dsimp only
  split_ifs with hbegin hd
  · tauto
  · simp only [false_iff]
    intro h
    obtain ⟨keyword, hk, hm⟩ := any_eq_true.mp hd
    rw [h.2 keyword hk] at hm
    cases hm
  · simp only [true_iff]
    refine ⟨by tauto, ?_⟩
    intro keyword hk
    rw [Bool.eq_false_iff]
    exact fun hm => hd (any_eq_true.mpr ⟨keyword, hk, hm⟩)

theorem validateSelectOnly_of_validate {q : QueryRequest} (ht : q.type = .sql)
    (h : q.validate u = .ok ()) : validateSelectOnly u q.sql = .ok () := by
  unfold QueryRequest.validate at h
  cases hs : validateSelectOnly u q.sql with
  | ok _ => rfl
  | error e =>
    rw [ht] at h
    by_cases hid : q.id = []
    · simp [hid, bind, Except.bind, throw, throwThe, MonadExceptOf.throw] at h
    · by_cases he : q.sql = []
      · simp [hid, he, bind, Except.bind, throw, throwThe, MonadExceptOf.throw] at h
      · simp [hid, he, hs, bind, Except.bind] at h

/-! ### Letters -/

variable {c : Char} {letters front back : Text} {p : Char → Bool}

theorem toNat_lt_of_toUpper (h : c.toUpper.toNat < 128) : c.toNat < 128 := by
  unfold Char.toUpper at h
  split at h
  next hl =>
    have hle : c.val.toNat ≤ 122 := hl.2
    have hv : c.toNat = c.val.toNat := rfl
    omega
  · exact h

theorem toUpper_of_not_isAlphanum (h : c.isAlphanum = false) : c.toUpper = c := by
  unfold Char.toUpper
  split
  next hl =>
    simp only [Char.isAlphanum, Char.isAlpha, Char.isLower, Bool.or_eq_false_iff,
      Bool.and_eq_false_iff, decide_eq_false_iff_not] at h
    exact absurd hl (not_and_or.mpr h.1.2)
  · rfl

/-- What is no letter of a word is the same in upper case, and no letter of a word for `\b` either. -/
theorem upper_of_not_isIdent (h : isIdent c = false) : u.upper c = c ∧ isWord c = false := by
  simp only [isIdent, Bool.or_eq_false_iff, decide_eq_false_iff_not, not_le] at h
  obtain ⟨⟨⟨hl, hu⟩, -⟩, ha⟩ := h
  refine ⟨?_, by simp [isWord, hl, hu]⟩
  rw [u.upper_ascii c ha, toUpper_of_not_isAlphanum hl]

theorem map_upper_of_ascii {keyword : Text} (ha : ∀ c ∈ keyword, c.toNat < 128)
    (h : letters.map Char.toUpper = keyword) : letters.map u.upper = keyword := by
  rw [← h]
  refine map_congr_left fun c hc => u.upper_ascii c (toNat_lt_of_toUpper ?_)
  refine ha c.toUpper ?_
  rw [← h]
  exact mem_map_of_mem hc

theorem isWhite_of_isAsciiSpace (h : isAsciiSpace c) : isWhite c := by
  simp only [isAsciiSpace, Bool.or_eq_true, decide_eq_true_eq] at h
  rcases h with ((((rfl | rfl) | rfl) | rfl) | rfl) | rfl <;> decide

theorem letters_of_keyword : ∀ keyword ∈ dangerousKeywords,
    keyword ≠ [] ∧ ∀ c ∈ keyword, isWord c ∧ isWhite c = false ∧ c.toNat < 128 := by
  have hall : ∀ keyword ∈ dangerousKeywords, keyword ≠ [] ∧
      keyword.all (fun c => isWord c && !isWhite c && decide (c.toNat < 128)) = true := by decide
  intro keyword hk
  obtain ⟨hne, hl⟩ := hall keyword hk
  refine ⟨hne, fun c hc => ?_⟩
  simpa [and_assoc] using all_eq_true.mp hl c hc

/-! ### Trimming -/

theorem rdropWhile_append_of_not (hne : front ≠ []) (hlast : p (front.getLast hne) = false) :
    (front ++ back).rdropWhile p = front ++ back.rdropWhile p := by
  induction back using reverseRecOn with
  | nil =>
    rw [rdropWhile_nil, append_nil, rdropWhile_eq_self_iff]
    intro _
    simp [hlast]
  | append_singleton back c ih =>
    rw [← append_assoc, rdropWhile_concat, rdropWhile_concat]
    split_ifs
    · exact ih
    · rw [append_assoc]

theorem trim_around (hne : letters ≠ []) (hl : ∀ c ∈ letters, p c = false) :
    trim p (front ++ (letters ++ back)) = front.dropWhile p ++ (letters ++ back.rdropWhile p) := by
  have hf : (front ++ (letters ++ back)).dropWhile p = front.dropWhile p ++ (letters ++ back) := by
    obtain ⟨c, rest, rfl⟩ := exists_cons_of_ne_nil hne
    rw [dropWhile_append]
    split_ifs with he
    · rw [isEmpty_iff.mp he, cons_append, dropWhile_cons,
        if_neg (by simp [hl c mem_cons_self])]
      rfl
    · rfl
  have hm : front.dropWhile p ++ letters ≠ [] := by simp [hne]
  have hlast : p ((front.dropWhile p ++ letters).getLast hm) = false := by
    rw [getLast_append_of_ne_nil hm hne]
    exact hl _ (getLast_mem hne)
  rw [trim, hf, ← append_assoc, rdropWhile_append_of_not hm hlast, append_assoc]

/-! ### Keywords are words of the text -/

theorem no_dangerous_token (h : validateSelectOnly u sql = .ok ()) :
    ∀ t ∈ tokens d sql, ∀ keyword ∈ dangerousKeywords, ¬ t.isKeyword keyword := by
  intro t ht keyword hk hto
  obtain ⟨hne, hl⟩ := letters_of_keyword keyword hk
  cases t with
  | word letters =>
    have hu : letters.map u.upper = keyword :=
      map_upper_of_ascii (fun c hc => (hl c hc).2.2) (by simpa [Token.isKeyword] using hto)
    obtain ⟨before, after, rfl, hb, ha⟩ := boundary_of_word ht
    have hm := (accepted_iff.mp h).2 keyword hk
    rw [toUpper, map_append, map_append, hu, trimSpace, trim_around hne fun c hc => (hl c hc).2.1] at hm
    have hs : ∀ x : Option Char, (∀ c ∈ x, isIdent c = false) → ∀ c ∈ x.map u.upper, isWord c = false := by
      intro x hx c hc
      obtain ⟨c', hc', rfl⟩ := Option.map_eq_some_iff.mp hc
      obtain ⟨hu', hw⟩ := upper_of_not_isIdent (u := u) (hx c' hc')
      rwa [hu']
    -- trimming leaves the neighbours of the word, or nothing
    have hf : ∀ c ∈ ((before.map u.upper).dropWhile isWhite).getLast?, isWord c = false := by
      intro c hc
      obtain ⟨gone, hg⟩ := dropWhile_suffix isWhite (l := before.map u.upper)
      refine hs _ hb c ?_
      rw [← getLast?_map, ← hg, getLast?_append, Option.mem_def.mp hc]
      rfl
    have hba : ∀ c ∈ ((after.map u.upper).rdropWhile isWhite).head?, isWord c = false := by
      intro c hc
      obtain ⟨gone, hg⟩ := rdropWhile_prefix isWhite (after.map u.upper)
      refine hs _ ha c ?_
      rw [← head?_map, ← hg, head?_append, Option.mem_def.mp hc]
      rfl
    rw [matchString_wholeWord hne (fun c hc => (hl c hc).1) hf hba] at hm
    cases hm
  | _ => cases hto

/-! ### The beginning of the text -/

theorem no_leading_comment (h : validateSelectOnly u sql = .ok ()) :
    ∀ c ∈ (sql.dropWhile d.isBlank).head?, c ≠ '-' ∧ c ≠ '/' := by
  intro c hc
  obtain ⟨rest, hrest⟩ := head?_eq_some_iff.mp hc
  -- a character that stays as it is and is not trimmed would be the first one of both keywords
  have hm : isIdent c = false → isWhite c = false → c ≠ 'S' → c ≠ 'W' → False := by
    intro hi hwh hs hw
    have hsp : sql = sql.takeWhile d.isBlank ++ ([c] ++ rest) := by
      rw [singleton_append, ← hrest, takeWhile_append_dropWhile]
    have hbn : ((sql.takeWhile d.isBlank).map u.upper).dropWhile isWhite = [] := by
      rw [dropWhile_eq_nil_iff]
      intro b hb
      obtain ⟨b', hb', rfl⟩ := mem_map.mp hb
      have hbl := mem_takeWhile_imp hb'
      rw [(upper_of_not_isIdent (not_isIdent_of_isBlank hbl)).1]
      exact isWhite_of_isAsciiSpace (d.isAsciiSpace_of_isBlank b' hbl)
    have hn : trimSpace (toUpper u sql) = c :: (rest.map u.upper).rdropWhile isWhite := by
      rw [hsp, toUpper, map_append, map_append, map_singleton,
        (upper_of_not_isIdent hi).1, trimSpace, trim_around (by simp) (by simpa using hwh), hbn]
      rfl
    rcases (accepted_iff.mp h).1 with hbegin | hbegin
    · rw [hn] at hbegin
      exact hs (cons_prefix_cons.mp hbegin).1.symm
    · rw [hn] at hbegin
      exact hw (cons_prefix_cons.mp hbegin).1.symm
  constructor
  · intro heq
    subst heq
    exact hm (by decide) (by decide) (by decide) (by decide)
  · intro heq
    subst heq
    exact hm (by decide) (by decide) (by decide) (by decide)

theorem first_keyword_iff (h : validateSelectOnly u sql = .ok ()) :
    (∃ t, (tokens d sql).head? = some t ∧ (t.isKeyword selectKeyword ∨ t.isKeyword withKeyword)) ↔
      BeginsReading d sql := by
  by_cases hw : leadingWord d sql = []
  · have hn : ¬ BeginsReading d sql := by
      rw [BeginsReading, hw]
      decide
    refine iff_of_false ?_ hn
    intro hf
    obtain ⟨t, ht, hk⟩ := hf
    cases t with
    | word letters => exact head?_tokens_of_other hw (no_leading_comment h) letters ht
    | _ => exact hk.elim nofun nofun
  · rw [head?_tokens_of_word hw]
    simp [Token.isKeyword, BeginsReading]

/-- A text that is accepted is what is meant exactly if it begins with the word `SELECT` or `WITH`, and
nothing but semicolons follows a semicolon. -/
theorem accepted_readOnly_iff (u : UpperCase) (d : Dialect) (sql : Text) (h : validateSelectOnly u sql = .ok ()) :
    ReadOnlyStatement d sql ↔ BeginsReading d sql ∧ oneStatement (tokens d sql) := by
  rw [ReadOnlyStatement, first_keyword_iff h]
  constructor
  · exact fun hm => ⟨hm.1, hm.2.1⟩
  · exact fun hm => ⟨hm.1, hm.2, no_dangerous_token h⟩

def asciiUpper : UpperCase := ⟨Char.toUpper, fun _ _ => rfl⟩

def standard : Dialect where
  nested := true
  isBlank := isAsciiSpace
  closing := fun c => if c = '"' then some ('"', true) else none
  isAsciiSpace_of_isBlank := fun _ h => h
  not_isIdent_of_closing := by
    intro c close twice h
    split at h
    · cases h
      decide
    · cases h

theorem accepted_readOnly_iff_comment :
    let sql := " select 'a; b' /* c; */ -- d; e".toList
    validateSelectOnly asciiUpper sql = .ok () ∧ ReadOnlyStatement standard sql := by
  have hok : validateSelectOnly asciiUpper " select 'a; b' /* c; */ -- d; e".toList = .ok () := by
    decide +kernel
  exact ⟨hok, (accepted_readOnly_iff asciiUpper standard _ hok).mpr (by decide +kernel)⟩

/-- Two statements pass, the second of which is not a query, and so does a text that begins with another
word. -/
theorem second_statement_accepted :
    let two := "SELECT 1; VACUUM".toList
    let other := "SELECTED".toList
    (validateSelectOnly asciiUpper two = .ok () ∧ BeginsReading standard two ∧
      ¬ ReadOnlyStatement standard two) ∧
    (validateSelectOnly asciiUpper other = .ok () ∧ oneStatement (tokens standard other) ∧
      ¬ ReadOnlyStatement standard other) := by
  refine ⟨⟨by decide +kernel, by decide +kernel, ?_⟩, ⟨by decide +kernel, by decide +kernel, ?_⟩⟩
  · intro h
    cases h.2.1
  · intro h
    obtain ⟨t, ht, hk⟩ := h.1
    have hf : (tokens standard "SELECTED".toList).head? = some (.word "SELECTED".toList) := by
      decide +kernel
    cases hf.symm.trans ht
    exact absurd hk (by decide +kernel)

end Bib.Domain.Query
