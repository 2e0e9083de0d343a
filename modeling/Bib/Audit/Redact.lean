import Bib.Lib.Regex
import Mathlib

/-!
# Bib.Audit.Redact

**What the audit log leaves out of SQL** (`Redactor` in `storage/audit/redact.go`): inline
literals that are assigned to a sensitive field, and arguments that are bound to one. Both are
found by regular expressions over the text of the query.

Strings are sequences of characters. The tables of Unicode are a parameter, and so is the
compiler of the additional patterns, which are only asked whether they match a name.
-/

namespace Bib.Audit.Redact

open Bib.Lib Bib.Lib.Regex

abbrev Text := List Char

/-- `\s`. -/
def isSpace (c : Char) : Bool :=
  c = ' ' || c = '\t' || c = '\n' || c = '\r' || c = '\x0c'

/-- `unicode.IsSpace`. -/
def isWhite (c : Char) : Bool :=
  isSpace c || c.toNat = 0x0b || c.toNat = 0x85 || c.toNat = 0xa0 || c.toNat = 0x1680 ||
    (0x2000 ≤ c.toNat && c.toNat ≤ 0x200a) || c.toNat = 0x2028 || c.toNat = 0x2029 ||
    c.toNat = 0x202f || c.toNat = 0x205f || c.toNat = 0x3000

/-- `\w` and the words of `\b`. -/
def isWord (c : Char) : Bool := c.isAlphanum || c = '_'

/-- `\w` under `(?i)`, where the long s and the Kelvin sign are letters too. -/
def isWordFold (c : Char) : Bool := isWord c || c = '\u017f' || c = '\u212a'

/-- An identifier as SQL writes it without quotes, in ASCII. -/
def IsIdentifier (name : Text) : Prop := name ≠ [] ∧ ∀ c ∈ name, isWord c

variable {c : Char}

theorem isWordFold_of_isWord (h : isWord c) : isWordFold c := by
  simp [isWordFold, h]

theorem not_isSpace_of_isWordFold (h : isWordFold c) : isSpace c = false := by
  rw [Bool.eq_false_iff]
  intro hs
  simp only [isSpace, Bool.or_eq_true, decide_eq_true_eq] at hs
  rcases hs with (((rfl | rfl) | rfl) | rfl) | rfl <;> cases h

theorem ne_of_isWordFold {d : Char} (h : isWordFold c) (hd : isWordFold d = false) : c ≠ d := by
  intro heq
  rw [heq, hd] at h
  cases h

theorem ne_of_isSpace {d : Char} (h : isSpace c) (hd : isSpace d = false) : c ≠ d := by
  intro heq
  rw [heq, hd] at h
  cases h

/-- What Unicode says: `unicode.ToLower`, the characters that `(?i)` does not tell apart, and the
letters and digits that names in templates are made of. The ASCII letters, digits and the underscore
are as in ASCII, but for the long s and the Kelvin sign. -/
structure Unicode where
  lower : Char → Char
  sameFold : Char → Char → Bool
  isName : Char → Bool
  sameFold_of_toLower : ∀ c k, c.toLower = k.toLower → sameFold c k = true
  isWordFold_of_sameFold : ∀ c k, sameFold c k = true → isWord k = true → isWordFold c = true
  isName_ascii : ∀ c, c.toNat < 128 → isName c = isWord c

def toLower (u : Unicode) (s : Text) : Text := s.map u.lower

/-- Both ends without the characters of a class. -/
def trim (p : Char → Bool) (s : Text) : Text := (s.dropWhile p).rdropWhile p

def trimSpace (s : Text) : Text := trim isWhite s

/-! ### The redactor -/

structure RedactorConfig where
  (sensitiveFields additionalPatterns : List Text)
  parameterPlaceholder : Text

def defaultRedactorConfig : RedactorConfig where
  sensitiveFields :=
    ["password", "token", "key", "secret", "credential", "auth", "api_key", "apikey",
      "access_token", "refresh_token", "private_key", "encryption_key", "session", "cookie",
      "bearer"].map String.toList
  additionalPatterns :=
    ["(?i)_key$", "(?i)_token$", "(?i)_secret$", "(?i)_password$", "(?i)_credential$"].map
      String.toList
  parameterPlaceholder := "[REDACTED]".toList

/-- `Redactor`: the keys of the map of fields, and for each pattern what `MatchString` returns. -/
structure Redactor where
  sensitiveFields : List Text
  sensitivePatterns : List (Text → Bool)
  parameterPlaceholder : Text

/-- `NewRedactor`; a pattern that does not compile is left out. -/
def newRedactor (u : Unicode) (compile : Text → Option (Text → Bool)) (cfg : RedactorConfig) : Redactor where
  sensitiveFields := (cfg.sensitiveFields.map (toLower u)).dedup
  sensitivePatterns := cfg.additionalPatterns.filterMap compile
  parameterPlaceholder :=
    if cfg.parameterPlaceholder = [] then "[REDACTED]".toList else cfg.parameterPlaceholder

def isSensitiveField (u : Unicode) (r : Redactor) (fieldName : Text) : Bool :=
  let lower := toLower u fieldName
  lower ∈ r.sensitiveFields || r.sensitiveFields.any (fun field => field <:+: lower) ||
    r.sensitivePatterns.any fun pattern => pattern fieldName

/-! ### Inline literals -/

/-- A text under `(?i)`. -/
def literal (u : Unicode) (text : Text) : Regex Char :=
  seqs (text.map fun k => one (u.sameFold · k))

def quotedBy (quote : Char) : Regex Char :=
  seqs [one (· = quote), many (· ≠ quote) 0, one (· = quote)]

/-- The expression `(?i)(\bfield\s*=\s*)('[^']*'|"[^"]*")`. -/
def fieldPattern (u : Unicode) (field : Text) : Regex Char :=
  seq
    (group 1 (seqs [boundary isWord, literal u field, many isSpace 0, one (· = '='), many isSpace 0]))
    (group 2 (alt (quotedBy '\'') (quotedBy '"')))

/-- `extract`: the name at the beginning of a template after a dollar sign, and what follows. -/
def extract (isName : Char → Bool) (s : Text) : Option (Text × Text) :=
  let brace := s.head? = some '{'
  let s := if brace then s.drop 1 else s
  let name := s.takeWhile isName
  let rest := s.dropWhile isName
  if name = [] then none
  else if brace then
    if rest.head? = some '}' then some (name, rest.drop 1) else none
  else some (name, rest)

def groupNumber (name : Text) : Option Nat :=
  if name.all Char.isDigit ∧ name.length ≤ 9 ∧ (name.head? = some '0' → name.length = 1) then
    some (name.foldl (fun n c => n * 10 + (c.toNat - 48)) 0)
  else none

/-- `Expand`; no group has a name. The first argument bounds the number of dollar signs. -/
def expand (isName : Char → Bool) (m : Match Char) : Nat → Text → Text
  | 0, template => template
  | count + 1, template =>
    template.takeWhile (· ≠ '$') ++
      match template.dropWhile (· ≠ '$') with
      | [] => []
      | _ :: '$' :: rest => '$' :: expand isName m count rest
      | _ :: rest =>
        match extract isName rest with
        | none => '$' :: expand isName m count rest
        | some (name, rest) => ((groupNumber name).map m.capture).getD [] ++ expand isName m count rest

/-- The template of the replacement, with the first group and the placeholder. -/
def template (r : Redactor) : Text :=
  "$\x7b1\x7d'".toList ++ r.parameterPlaceholder ++ ['\'']

def redactField (u : Unicode) (r : Redactor) (field query : Text) : Text :=
  replaceAll (fieldPattern u field)
    (fun m => expand u.isName m (template r).length (template r)) query

/-- `redactQueryText`, with the fields in the order in which the map is ranged over. -/
def redactQueryText (u : Unicode) (r : Redactor) (order : List Text) (query : Text) : Text :=
  order.foldl (fun result field => redactField u r field result) query

/-! ### Arguments -/

/-- An argument; the placeholder is a string. -/
inductive Arg (A : Type)
  | text (s : Text)
  | other (a : A)
  deriving DecidableEq

/-- `(\w+)\s*=\s*` under `(?i)`, and then something else. -/
def assigned (rest : List (Regex Char)) : Regex Char :=
  seqs ([group 1 (many isWordFold 1), many isSpace 0, one (· = '='), many isSpace 0] ++ rest)

/-- The expression `(?i)(\w+)\s*=\s*\$(\d+)`. -/
def pgPattern : Regex Char := assigned [one (· = '$'), group 2 (many Char.isDigit 1)]

/-- The expression `(?i)(\w+)\s*=\s*\?`. -/
def questionPattern : Regex Char := assigned [one (· = '?')]

/-- The expression
`(?i)INSERT\s+INTO\s+\w+\s*\(([^)]+)\)\s*VALUES\s*\(([^)]+)\)`. -/
def insertPattern (u : Unicode) : Regex Char :=
  seqs [literal u "INSERT".toList, many isSpace 1, literal u "INTO".toList, many isSpace 1,
    many isWordFold 1, many isSpace 0, one (· = '('), group 1 (many (· ≠ ')') 1), one (· = ')'),
    many isSpace 0, literal u "VALUES".toList, many isSpace 0, one (· = '('),
    group 2 (many (· ≠ ')') 1), one (· = ')')]

/-- `parsePositiveInt`: nothing is written unless all characters are digits; the error is always
nil. -/
def parsePositiveInt (s : Text) (result : Int64) : Bool × Int64 :=
  if s.all Char.isDigit then
    (true, s.foldl (fun n c => n * 10 + Int64.ofNat (c.toNat - 48)) 0)
  else (false, result)

def paramIndex (digits : Text) : Int := ((parsePositiveInt digits 0).2 - 1).toInt

def extractParamPosition (s : Text) : Int :=
  let s := trimSpace s
  if s.head? = some '$' then paramIndex (s.drop 1) else -1

def parseColumnList (s : Text) : List Text :=
  ((s.splitOn ',').map fun p => trim (fun c => c = '"' || c = '\'') (trimSpace p)).filter (· ≠ [])

def parseValueList (s : Text) : List Text :=
  ((s.splitOn ',').map trimSpace).filter (· ≠ [])

section Positions

variable (u : Unicode) (r : Redactor)

/-- The positions of `$N` in conditions and assignments. -/
def pgPositions (query : Text) : List Int :=
  (findAll pgPattern query).filterMap fun found =>
    if isSensitiveField u r (found.2.capture 1) then some (paramIndex (found.2.capture 2))
    else none

/-- The positions of the values of an `INSERT`. -/
def insertPositions (query : Text) : List Int :=
  match find (insertPattern u) query with
  | none => []
  | some m =>
    let columns := parseColumnList (m.capture 1)
    let values := parseValueList (m.capture 2)
    (columns.zip values).filterMap fun pair =>
      let paramPos := extractParamPosition pair.2
      if isSensitiveField u r pair.1 ∧ 0 ≤ paramPos then some paramPos else none

/-- The loop of `findQuestionMarkPositions`; with each match comes the text before it. -/
def questionLoop : Nat → List (Text × Match Char) → List Int
  | _, [] => []
  | pos, (beforeMatch, m) :: rest =>
    let pos := pos + beforeMatch.count '?'
    (if isSensitiveField u r (m.capture 1) then [(pos : Int)] else []) ++ questionLoop (pos + 1) rest

def questionPositions (query : Text) : List Int :=
  questionLoop u r 0 (findAll questionPattern query)

def findSensitivePositions (query : Text) : List Int :=
  pgPositions u r query ++ insertPositions u r query ++
    if '$' ∉ query ∧ '?' ∈ query then questionPositions u r query else []

def redactArgs {A : Type} (query : Text) (args : List (Arg A)) : List (Arg A) :=
  (findSensitivePositions u r query).foldl
    (fun redacted (pos : Int) =>
      if 0 ≤ pos ∧ pos < redacted.length then
        redacted.set pos.toNat (.text r.parameterPlaceholder)
      else redacted) args

def redactQuery {A : Type} (order : List Text) (query : Text) (args : List (Arg A)) : Text × List (Arg A) :=
  (redactQueryText u r order query, redactArgs u r query args)

end Positions

/-! ### The default redactor, over ASCII -/

theorem isWord_toLower (c : Char) : isWord c.toLower = isWord c := by
  by_cases hu : c.val ≥ 'A'.val ∧ c.val ≤ 'Z'.val
  · have hl : c.toLower.val = c.val + 32 := by
      rw [Char.toLower, dif_pos hu]
      rfl
    have hc : isWord c := by
      have hup : c.isUpper := decide_eq_true hu
      simp [isWord, Char.isAlphanum, Char.isAlpha, hup]
    have hlo : c.toLower.isLower := by
      have hA : 'A'.val.toNat = 65 := rfl
      have hZ : 'Z'.val.toNat = 90 := rfl
      have ha : 'a'.val.toNat = 97 := rfl
      have hz : 'z'.val.toNat = 122 := rfl
      simp only [ge_iff_le, UInt32.le_iff_toNat_le] at hu
      simp only [Char.isLower, hl, ge_iff_le, UInt32.le_iff_toNat_le, Bool.and_eq_true,
        decide_eq_true_eq, UInt32.toNat_add, UInt32.reduceToNat]
      omega
    rw [hc, isWord, Char.isAlphanum, Char.isAlpha, hlo]
    simp
  · rw [Char.toLower, dif_neg hu]

def ascii : Unicode where
  lower := Char.toLower
  sameFold c k := c.toLower = k.toLower
  isName := isWord
  sameFold_of_toLower _ _ h := decide_eq_true h
  isWordFold_of_sameFold c k h hk := by
    have hc : isWord c = true := by rwa [← isWord_toLower c, of_decide_eq_true h, isWord_toLower k]
    simp [isWordFold, hc]
  isName_ascii _ _ := rfl

/-- Patterns of the form `(?i)suffix$` are compiled. -/
def compileSuffix (pattern : Text) : Option (Text → Bool) :=
  some fun name => (pattern.drop 4).dropLast <:+ name.map Char.toLower

def defaultRedactor : Redactor := newRedactor ascii compileSuffix defaultRedactorConfig

end Bib.Audit.Redact
